import EntityStore.ETag
import EntityStore.Failure
import EntityStore.OrderedMap
import EntityStore.Path
/-!
# Resources

The tree of cells, boxes, collections and files, kept by path. Paths order a node before everything below it, so
each subtree is one run of the entries. Main statement: `mem_below_iff`.
-/
namespace EntityStore

open Std

inductive CollectionKind where
  | plain
  | entities
  | service
  deriving DecidableEq, Repr

inductive NodeKind where
  | cell
  | box
  | collection (kind : CollectionKind)
  | file (contentType : String)
  deriving DecidableEq, Repr

/-- Everything but a file can have nodes below it. -/
def NodeKind.isContainer : NodeKind → Bool
  | file _ => false
  | _ => true

structure Node where
  path : Path
  kind : NodeKind
  /-- The content of a file; empty for a container. -/
  body : String
  properties : OrderedMap String String
  version : Nat
  created : Int
  updated : Int
  deriving DecidableEq

namespace Node

def etag (n : Node) : ETag := ⟨n.version, n.updated⟩

def isContainer (n : Node) : Bool := n.kind.isContainer

def fresh (now : Int) (path : Path) (kind : NodeKind) (body : String) : Node :=
  ⟨path, kind, body, .empty, 1, now, now⟩

/-- The next version; the last change never goes back in time. -/
def touch (now : Int) (n : Node) : Node := { n with version := n.version + 1, updated := max now n.updated }

end Node

structure Resources where
  nodes : OrderedMap Path Node
  deriving DecidableEq

namespace Resources

def empty : Resources := ⟨.empty⟩

def find? (r : Resources) (p : Path) : Option Node := r.nodes.find? p

/-- The paths below `p`: the run of paths right after it that it lies above. -/
def below (r : Resources) (p : Path) : List Path :=
  (r.nodes.keys.dropWhile fun q => (compare q p).isLE).takeWhile p.isAbove

/-- A path of two or more segments needs a container as its parent. -/
def checkParent (r : Resources) (p : Path) : Except StoreError Unit :=
  match p.parent? with
  | none => .ok ()
  | some parent =>
    match r.find? parent with
    | none => .error (.notFound parent.text)
    | some node =>
      if node.isContainer then .ok () else .error (.invalid p.text (parent.text ++ " is not a collection"))

def insert (r : Resources) (now : Int) (p : Path) (kind : NodeKind) : Except StoreError (Node × Resources) :=
  if r.nodes.contains p then .error (.alreadyExists p.text)
  else do
    r.checkParent p
    let node := Node.fresh now p kind ""
    return (node, ⟨r.nodes.insert p node⟩)

/-- Creates a file or replaces its content; also tells whether it was created. -/
def putFile (r : Resources) (now : Int) (p : Path) (contentType body : String) :
    Except StoreError ((Node × Bool) × Resources) :=
  match r.find? p with
  | some node =>
    if node.isContainer then .error (.invalid p.text "a collection cannot be overwritten by a file")
    else
      let node := { node.touch now with kind := .file contentType, body }
      .ok ((node, false), ⟨r.nodes.insert p node⟩)
  | none => do
    r.checkParent p
    let node := Node.fresh now p (.file contentType) body
    return ((node, true), ⟨r.nodes.insert p node⟩)

/-- Sets properties of a node, and then removes some. -/
def setProperties (r : Resources) (now : Int) (p : Path) (set : OrderedMap String String)
    (remove : List String) : Except StoreError (Node × Resources) :=
  match r.find? p with
  | none => .error (.notFound p.text)
  | some node =>
    let node := { node.touch now with properties := (node.properties.union set).eraseAll remove }
    .ok (node, ⟨r.nodes.insert p node⟩)

def remove (r : Resources) (p : Path) : Except StoreError (Node × Resources) :=
  match r.find? p with
  | none => .error (.notFound p.text)
  | some node =>
    if (r.below p).isEmpty then .ok (node, ⟨r.nodes.erase p⟩) else .error (.notEmpty p.text)

/-- Removes a node with everything below it; returns the removed paths. -/
def removeSubtree (r : Resources) (p : Path) : Except StoreError (List Path × Resources) :=
  if r.nodes.contains p then
    let removed := p :: r.below p
    .ok (removed, ⟨r.nodes.eraseAll removed⟩)
  else .error (.notFound p.text)

/-- The paths below a node, ascending. -/
def descendants (r : Resources) (p : Path) : Except StoreError (List Path) :=
  if r.nodes.contains p then .ok (r.below p) else .error (.notFound p.text)

/-- The paths one segment below a node, ascending. -/
def children (r : Resources) (p : Path) : Except StoreError (List Path) :=
  (r.descendants p).map fun ps => ps.filter fun q => q.depth == p.depth + 1

/-- Moves one node from its place in the subtree of `source` to the one in that of `target`. Only the root of
the subtree gets a new version. -/
def moveNode (now : Int) (source target : Path) (nodes : OrderedMap Path Node) (p : Path) :
    OrderedMap Path Node :=
  match nodes.find? p, Path.move? source target p with
  | some node, some moved =>
    let node := if p = source then node.touch now else node
    (nodes.erase p).insert moved { node with path := moved }
  | _, _ => nodes.erase p

/-- Moves a node with everything below it, over an existing node if `overwrite` allows that; tells whether
there was one. -/
def move (r : Resources) (now : Int) (source target : Path) (overwrite : Bool) :
    Except StoreError (Bool × Resources) :=
  if source.related target then
    .error (.invalid target.text ("cannot move " ++ source.text ++ " onto " ++ target.text))
  else if !r.nodes.contains source then .error (.notFound source.text)
  else do
    r.checkParent target
    let replaced := r.nodes.contains target
    if replaced && !overwrite then .error (.alreadyExists target.text)
    else
      let cleared : Resources :=
        if replaced then ⟨r.nodes.eraseAll (target :: r.below target)⟩ else r
      let moving := source :: cleared.below source
      return (replaced, ⟨moving.foldl (moveNode now source target) cleared.nodes⟩)

/-! ## Subtrees -/

theorem takeWhile_eq_filter {α : Type} {f : α → Bool} {l : List α}
    (h : l.Pairwise fun a b => f b = true → f a = true) : l.takeWhile f = l.filter f := by
  induction l with
  | nil => rfl
  | cons a l ih =>
    obtain ⟨ha, hl⟩ := List.pairwise_cons.1 h
    by_cases hf : f a = true
    · rw [List.takeWhile_cons_of_pos hf, List.filter_cons_of_pos hf, ih hl]
    · rw [List.takeWhile_cons_of_neg hf, List.filter_cons_of_neg hf]
      exact (List.filter_eq_nil_iff.2 fun b hb hfb => hf (ha b hb hfb)).symm

theorem dropWhile_eq_filter {α : Type} {f : α → Bool} {l : List α}
    (h : l.Pairwise fun a b => f b = true → f a = true) : l.dropWhile f = l.filter fun a => !f a := by
  induction l with
  | nil => rfl
  | cons a l ih =>
    obtain ⟨ha, hl⟩ := List.pairwise_cons.1 h
    by_cases hf : f a = true
    · rw [List.dropWhile_cons_of_pos hf, List.filter_cons_of_neg (by simp [hf]), ih hl]
    · rw [List.dropWhile_cons_of_neg hf, List.filter_eq_self.2]
      intro b hb
      rcases List.mem_cons.1 hb with rfl | hb
      · simp [hf]
      · have : ¬ f b = true := fun hfb => hf (ha b hb hfb)
        simp [this]

theorem below_eq_filter (r : Resources) (p : Path) : r.below p = r.nodes.keys.filter p.isAbove := by
  have hasc := r.nodes.ascending_keys
  have hdrop : (r.nodes.keys.dropWhile fun q => (compare q p).isLE) =
      r.nodes.keys.filter fun q => !(compare q p).isLE :=
    dropWhile_eq_filter (hasc.imp fun {a b} hab hb =>
      Ordering.isLE_of_eq_lt (TransCmp.lt_of_lt_of_isLE hab hb))
  have hlt : ∀ q, p.isAbove q = true → (compare q p).isLE = false := fun q hq => by
    rw [OrientedCmp.gt_of_lt (Path.compare_eq_lt_of_isAbove hq)]
    rfl
  rw [below, hdrop, takeWhile_eq_filter, List.filter_filter]
  · refine List.filter_congr fun q _ => ?_
    by_cases h : p.isAbove q = true
    · simp [h, hlt q h]
    · simp [h]
  · refine List.Pairwise.imp_of_mem ?_ (hasc.filter _)
    intro a b ha _ hab hb
    have : ¬ (compare a p).isLE = true := by simpa using (List.mem_filter.1 ha).2
    refine Path.isAbove_of_between hb ?_ hab
    cases hc : compare a p <;> simp_all
    exact OrientedCmp.lt_of_gt hc

theorem mem_below_iff {r : Resources} {p q : Path} :
    q ∈ r.below p ↔ r.nodes.contains q = true ∧ p.isAbove q = true := by
  rw [below_eq_filter, List.mem_filter, OrderedMap.mem_keys_iff]

end Resources

end EntityStore
