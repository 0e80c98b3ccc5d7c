import EntityStore.Proofs.Resources.WellFormed

/-!
# Listings of subtrees

What is listed below a node and right below it, in any tree whatever, and what goes when the node is removed alone or
with its subtree. Main statement: `listings_and_removals`.
-/
namespace EntityStore

namespace Path

variable {p q : Path}

theorem isAbove_child (p : Path) (segment : String) : p.isAbove (p.child segment) = true :=
  isAbove_iff.mpr ⟨[segment], List.cons_ne_nil _ _, rfl⟩

/-- A path one segment below another is a child of it. -/
theorem isAbove_and_depth_iff : p.isAbove q = true ∧ q.depth = p.depth + 1 ↔ ∃ segment, q = p.child segment := by
  constructor
  · rintro ⟨habove, hdepth⟩
    obtain ⟨tail, _, hq⟩ := isAbove_iff.mp habove
    have hlength : tail.length = 1 := by
      rw [depth, depth, hq, List.length_append] at hdepth
      omega
    obtain ⟨segment, rfl⟩ := List.length_eq_one_iff.mp hlength
    exact ⟨segment, ext_segments hq⟩
  · rintro ⟨segment, rfl⟩
    exact ⟨isAbove_child p segment, by simp [depth, child]⟩

/-- A named path is the parent of its children and of nothing else. -/
theorem parent?_eq_some_iff (hnamed : p.segments ≠ []) : q.parent? = some p ↔ ∃ segment, q = p.child segment := by
  constructor
  · intro h
    unfold parent? at h
    split at h
    · cases h
    · rename_i hlength
      cases h
      have hne : q.segments ≠ [] := by
        rintro hnil
        simp [hnil] at hlength
      exact ⟨q.segments.getLast hne, ext_segments (List.dropLast_concat_getLast hne).symm⟩
  · rintro ⟨segment, rfl⟩
    have hlength : ¬ (p.child segment).segments.length ≤ 1 := by
      have hpos := List.length_pos_iff.mpr hnamed
      simp only [child, List.length_append, List.length_singleton]
      omega
    rw [parent?, if_neg hlength]
    simp [child]

end Path

namespace Resources

variable {r r' : Resources} {p q : Path}

/-! ## Listings -/

theorem ascending_below (r : Resources) (p : Path) : (r.below p).Pairwise fun a b => compare a b = .lt := by
  rw [below_eq_filter]
  exact r.nodes.ascending_keys.filter _

/-- The paths right below a path, ascending. -/
def childrenOf (r : Resources) (p : Path) : List Path := (r.below p).filter fun q => q.depth == p.depth + 1

theorem descendants_of_contains (h : r.nodes.contains p = true) : r.descendants p = .ok (r.below p) := by
  rw [descendants, if_pos h]

theorem children_of_contains (h : r.nodes.contains p = true) : r.children p = .ok (r.childrenOf p) := by
  rw [children, descendants_of_contains h]
  rfl

theorem mem_childrenOf_iff : q ∈ r.childrenOf p ↔ q ∈ r.below p ∧ q.depth = p.depth + 1 := by
  simp [childrenOf]

theorem mem_childrenOf_iff_parent? (hnamed : p.segments ≠ []) :
    q ∈ r.childrenOf p ↔ r.nodes.contains q = true ∧ q.parent? = some p := by
  rw [mem_childrenOf_iff, mem_below_iff, and_assoc, Path.isAbove_and_depth_iff, Path.parent?_eq_some_iff hnamed]

/-- In a tree where no node lacks its parent, something lies below a node only if something lies right below it. -/
theorem Closed.childrenOf_eq_nil_iff (h : r.Closed) : r.childrenOf p = [] ↔ r.below p = [] := by
  rw [List.eq_nil_iff_forall_not_mem, List.eq_nil_iff_forall_not_mem]
  constructor
  · intro hnone q hq
    obtain ⟨hcontains, habove⟩ := mem_below_iff.mp hq
    obtain ⟨tail, hne, hsegments⟩ := Path.isAbove_iff.mp habove
    obtain ⟨segment, more, rfl⟩ := List.exists_cons_of_ne_nil hne
    -- the first path on the way down
    have hchild : r.nodes.contains (p.child segment) = true := by
      cases more with
      | nil =>
        obtain rfl : q = p.child segment := Path.ext_segments hsegments
        exact hcontains
      | cons segment' more =>
        refine h.contains_of_isAbove (by simp [Path.child]) (Path.isAbove_iff.mpr ?_) hcontains
        exact ⟨segment' :: more, List.cons_ne_nil _ _, by simp [hsegments, Path.child]⟩
    exact hnone _ (mem_childrenOf_iff.mpr
      ⟨mem_below_iff.mpr ⟨hchild, Path.isAbove_child p segment⟩, by simp [Path.depth, Path.child]⟩)
  · intro hnone q hq
    exact hnone q (mem_childrenOf_iff.mp hq).1

/-! ## Removals -/

theorem remove_eq_ok_iff {node : Node} :
    r.remove p = .ok (node, r') ↔ r.find? p = some node ∧ r.below p = [] ∧ r' = ⟨r.nodes.erase p⟩ := by
  unfold remove
  cases hfind : r.find? p with
  | none => simp
  | some found =>
    cases hbelow : r.below p with
    | nil => simp [eq_comm]
    | cons q rest => simp

theorem removeSubtree_of_contains (h : r.nodes.contains p = true) :
    r.removeSubtree p = .ok (p :: r.below p, ⟨r.nodes.eraseAll (p :: r.below p)⟩) := by
  rw [removeSubtree, if_pos h]

/-! ## Both together -/

/-- What is listed below a path and right below it: the nodes whose paths go on from it, each once and in order, and
those of them with one segment more, which are the nodes that have it as their parent unless it is the empty path. -/
structure Listed (r : Resources) (p : Path) (below right : List Path) : Prop where
  ascending : below.Pairwise fun a b => compare a b = .lt
  ascending_right : right.Pairwise fun a b => compare a b = .lt
  mem_iff : ∀ q, q ∈ below ↔ (∃ node, r.find? q = some node) ∧ ∃ tail, tail ≠ [] ∧ q.segments = p.segments ++ tail
  mem_right_iff : ∀ q, q ∈ right ↔ q ∈ below ∧ q.depth = p.depth + 1
  mem_right_iff_parent? : p.segments ≠ [] →
    ∀ q, q ∈ right ↔ (∃ node, r.find? q = some node) ∧ q.parent? = some p

theorem contains_iff_find? : r.nodes.contains q = true ↔ ∃ node, r.find? q = some node :=
  OrderedMap.contains_iff r.nodes q

theorem listed (r : Resources) (p : Path) : r.Listed p (r.below p) (r.childrenOf p) where
  ascending := ascending_below r p
  ascending_right := (ascending_below r p).filter _
  mem_iff := fun q => by rw [mem_below_iff, contains_iff_find?, Path.isAbove_iff]
  mem_right_iff := fun q => mem_childrenOf_iff
  mem_right_iff_parent? := fun hnamed q => by rw [mem_childrenOf_iff_parent? hnamed, contains_iff_find?]

/-- Every node of every tree has its listings. It can be removed alone exactly if nothing is listed below it; where no
node lacks its parent, that is if nothing is listed right below it. Removing its subtree gives its path and then those
that are listed below it, and takes these nodes and no others. -/
theorem listings_and_removals (r : Resources) (p : Path) (hp : r.nodes.contains p = true) :
    ∃ below right, r.descendants p = .ok below ∧ r.children p = .ok right ∧ r.Listed p below right ∧
      ((∃ node r', r.remove p = .ok (node, r')) ↔ below = []) ∧
      (r.Closed → (below = [] ↔ right = [])) ∧
      (∀ node r', r.remove p = .ok (node, r') →
        r.find? p = some node ∧ ∀ q, r'.find? q = if q = p then none else r.find? q) ∧
      ∃ r', r.removeSubtree p = .ok (p :: below, r') ∧
        ∀ q, r'.find? q = if q ∈ p :: below then none else r.find? q := by
  refine ⟨r.below p, r.childrenOf p, descendants_of_contains hp, children_of_contains hp, r.listed p, ?_,
    fun hclosed => hclosed.childrenOf_eq_nil_iff.symm, ?_, _, removeSubtree_of_contains hp,
    fun q => OrderedMap.find?_eraseAll r.nodes _ q⟩
  · constructor
    · rintro ⟨node, r', hremove⟩
      exact (remove_eq_ok_iff.mp hremove).2.1
    · intro hnone
      obtain ⟨node, hnode⟩ := contains_iff_find?.mp hp
      exact ⟨node, _, remove_eq_ok_iff.mpr ⟨hnode, hnone, rfl⟩⟩
  · intro node r' hremove
    obtain ⟨hnode, _, rfl⟩ := remove_eq_ok_iff.mp hremove
    exact ⟨hnode, fun q => OrderedMap.find?_erase r.nodes p q⟩

/-- Names that begin alike are siblings: as a text, `a-b` comes between `a` and `a/b`. -/
theorem listings_and_removals_siblings :
    let r := empty.run [(1, .insert (.root "a") .cell), (2, .insert (.root "a-b") .cell),
      (3, .insert (.root "ab") .cell), (4, .insert (.ofText "a/b") .box),
      (5, .putFile (.ofText "a/b/c") "text/plain" "x")]
    r.nodes.contains (.root "a") = true ∧
      r.descendants (.root "a") = .ok [.ofText "a/b", .ofText "a/b/c"] ∧ r.children (.root "a") = .ok [.ofText "a/b"] ∧
      (¬ ∃ node r', r.remove (.root "a") = .ok (node, r')) ∧
      ∃ r', r.removeSubtree (.root "a") = .ok ([.root "a", .ofText "a/b", .ofText "a/b/c"], r') ∧
        r'.find? (.ofText "a/b/c") = none ∧ r'.find? (.root "a-b") = r.find? (.root "a-b") ∧
        r'.find? (.root "ab") = r.find? (.root "ab") := by
  intro r
  have hp : r.nodes.contains (.root "a") = true := by decide
  obtain ⟨below, right, hbelow, hright, _, hremove, _, _, r', hsubtree, hfind⟩ := listings_and_removals r (.root "a") hp
  obtain rfl : below = [.ofText "a/b", .ofText "a/b/c"] := Except.ok.inj (hbelow.symm.trans rfl)
  obtain rfl : right = [.ofText "a/b"] := Except.ok.inj (hright.symm.trans rfl)
  exact ⟨hp, hbelow, hright, fun h => List.cons_ne_nil _ _ (hremove.mp h), r', hsubtree, hfind _, hfind _, hfind _⟩

end Resources

end EntityStore
