import EntityStore.EntityKey
import EntityStore.ETag
import EntityStore.Failure
/-!
# Entities

The store of entities: JSON bodies under their keys, with versions and links between them. A link is kept on both
sides. Main statements: `find?_write`, `find?_remove`, `linked_link` and `linked_unlink`.
-/
namespace EntityStore

abbrev KeySet := OrderedMap EntityKey Unit

structure Entity where
  key : EntityKey
  body : Fields
  published : Int
  updated : Int
  version : Nat
  /-- The entities it is linked with. -/
  links : KeySet
  /-- Numbers the entities in the order of their creation. -/
  arrival : Nat

namespace Entity

def etag (e : Entity) : ETag := ⟨e.version, e.updated⟩

/-- The value of a field of the body or of a system property. -/
def field? (e : Entity) (name : String) : Option Json :=
  if name = Name.id then some (.string e.key.id)
  else if name = Name.published then some (.ofInt e.published)
  else if name = Name.updated then some (.ofInt e.updated)
  else e.body.find? name

def addSystemFields (e : Entity) (fields : Fields) : Fields :=
  ((fields.insert Name.id (.string e.key.id)).insert Name.published (.ofInt e.published)).insert Name.updated
    (.ofInt e.updated)

def allFields (e : Entity) : Fields := e.addSystemFields e.body

end Entity

/-- The entities by key, and the number of entities that were ever created. -/
structure Entities where
  entries : OrderedMap EntityKey Entity
  arrivals : Nat

namespace Entities

def empty : Entities := ⟨.empty, 0⟩

def find? (s : Entities) (key : EntityKey) : Option Entity := s.entries.find? key

def size (s : Entities) : Nat := s.entries.size

def keysOf (s : Entities) (type : String) : List EntityKey := s.entries.keys.filter fun k => k.type == type

/-- Replaces the body of an existing entity; its last change never goes back in time. -/
def overwrite (now : Int) (body : Fields) (e : Entity) : Entity :=
  { e with body, version := e.version + 1, updated := max now e.updated }

/-- Writes a body, without the system properties it may hold. No expected version writes in any case, zero
expects that there is no entity yet, and any other expects that version. -/
def write (s : Entities) (now : Int) (key : EntityKey) (body : Fields) (expected : Option Nat) :
    Except StoreError (Entity × Entities) :=
  let body := body.eraseAll Name.system
  match s.find? key, expected with
  | some _, some 0 => .error (.alreadyExists key.text)
  | some e, some v =>
    if v = e.version then
      let e := overwrite now body e
      .ok (e, { s with entries := s.entries.insert key e })
    else .error (.versionConflict key.text v e.version)
  | some e, none =>
    let e := overwrite now body e
    .ok (e, { s with entries := s.entries.insert key e })
  | none, some (_ + 1) => .error (.notFound key.text)
  | none, _ =>
    let e : Entity := ⟨key, body, now, now, 1, .empty, s.arrivals + 1⟩
    .ok (e, ⟨s.entries.insert key e, s.arrivals + 1⟩)

def dropLink (entries : OrderedMap EntityKey Entity) (source target : EntityKey) :
    OrderedMap EntityKey Entity :=
  entries.modify source fun e => { e with links := e.links.erase target }

def addLink (entries : OrderedMap EntityKey Entity) (source target : EntityKey) :
    OrderedMap EntityKey Entity :=
  entries.modify source fun e => { e with links := e.links.insert target () }

/-- Removes an entity and all links with it, if it has the expected version. -/
def remove (s : Entities) (key : EntityKey) (expected : Option Nat) : Except StoreError (Entity × Entities) :=
  match s.find? key with
  | none => .error (.notFound key.text)
  | some e =>
    match expected with
    | some v =>
      if v = e.version then .ok (e, unlinkAll e)
      else .error (.versionConflict key.text v e.version)
    | none => .ok (e, unlinkAll e)
where
  unlinkAll (e : Entity) : Entities :=
    let others := s.entries.erase key
    { s with entries := e.links.keys.foldl (fun entries partner => dropLink entries partner key) others }

/-- Is `b` among the links of `a`? -/
def linked (s : Entities) (a b : EntityKey) : Bool := (s.find? a).any fun e => e.links.contains b

/-- Links two entities; false if they were linked before. -/
def link (s : Entities) (a b : EntityKey) : Except StoreError (Bool × Entities) :=
  if a = b then .error (.invalid a.text "an entity cannot link to itself")
  else if !s.entries.contains a then .error (.notFound a.text)
  else if !s.entries.contains b then .error (.notFound b.text)
  else .ok (!s.linked a b, { s with entries := addLink (addLink s.entries a b) b a })

/-- Drops the link between two entities; false if there was none. -/
def unlink (s : Entities) (a b : EntityKey) : Bool × Entities :=
  (s.linked a b, { s with entries := dropLink (dropLink s.entries a b) b a })

/-! ## Look-ups after a change -/

theorem find?_addLink (entries : OrderedMap EntityKey Entity) (source target k : EntityKey) :
    (addLink entries source target).find? k =
      (entries.find? k).map fun e => if k = source then { e with links := e.links.insert target () } else e := by
  rw [addLink, OrderedMap.find?_modify]
  by_cases h : k = source <;> simp [h]

theorem find?_dropLink (entries : OrderedMap EntityKey Entity) (source target k : EntityKey) :
    (dropLink entries source target).find? k =
      (entries.find? k).map fun e => if k = source then { e with links := e.links.erase target } else e := by
  rw [dropLink, OrderedMap.find?_modify]
  by_cases h : k = source <;> simp [h]

theorem find?_write {s s' : Entities} {now : Int} {key : EntityKey} {body : Fields} {expected : Option Nat}
    {e : Entity} (h : s.write now key body expected = .ok (e, s')) (k : EntityKey) :
    s'.find? k = if k = key then some e else s.find? k := by
  have hinsert (n : Nat) (e : Entity) : Entities.find? ⟨s.entries.insert key e, n⟩ k =
      if k = key then some e else s.find? k := OrderedMap.find?_insert ..
  unfold write at h
  split at h
  · cases h
  · split at h
    · cases h
      exact hinsert _ _
    · cases h
  · cases h
    exact hinsert _ _
  · cases h
  · cases h
    exact hinsert _ _

/-- Dropping links to `key` from several entities leaves everything else as it is. -/
theorem find?_dropLinks (entries : OrderedMap EntityKey Entity) (key : EntityKey) (partners : List EntityKey)
    (k : EntityKey) :
    (partners.foldl (fun entries partner => dropLink entries partner key) entries).find? k =
      (entries.find? k).map fun e => if k ∈ partners then { e with links := e.links.erase key } else e := by
  induction partners generalizing entries with
  | nil => simp
  | cons partner rest ih =>
    rw [List.foldl_cons, ih, find?_dropLink, Option.map_map]
    congr 1
    funext e
    have hidem : (e.links.erase key).erase key = e.links.erase key :=
      OrderedMap.ext_find? fun x => by simp only [OrderedMap.find?_erase]; split <;> rfl
    by_cases h : k = partner <;> by_cases h' : k ∈ rest <;> simp [h, h', hidem]

theorem find?_remove {s s' : Entities} {key : EntityKey} {expected : Option Nat} {e : Entity}
    (h : s.remove key expected = .ok (e, s')) (k : EntityKey) :
    s'.find? k = if k = key then none
      else (s.find? k).map fun o => if k ∈ e.links.keys then { o with links := o.links.erase key } else o := by
  have hunlink : ∀ e, Entities.find? (remove.unlinkAll s key e) k = if k = key then none
      else (s.find? k).map fun o => if k ∈ e.links.keys then { o with links := o.links.erase key } else o := by
    intro e
    rw [find?, remove.unlinkAll, find?_dropLinks, OrderedMap.find?_erase]
    by_cases hk : k = key
    · rw [if_pos hk, if_pos hk]; rfl
    · rw [if_neg hk, if_neg hk]; rfl
  unfold remove at h
  split at h
  · cases h
  · split at h
    · split at h
      · cases h
        exact hunlink _
      · cases h
    · cases h
      exact hunlink _

theorem linked_link {s s' : Entities} {a b : EntityKey} {added : Bool} (h : s.link a b = .ok (added, s'))
    (x y : EntityKey) :
    s'.linked x y = true ↔ s.linked x y = true ∨ (x = a ∧ y = b) ∨ (x = b ∧ y = a) := by
  unfold link at h
  split at h
  · cases h
  · rename_i hab
    split at h
    · cases h
    · rename_i ha
      split at h
      · cases h
      · rename_i hb
        cases h
        rw [Bool.not_eq_true', Bool.not_eq_false] at ha hb
        obtain ⟨ea, ha⟩ := (OrderedMap.contains_iff ..).1 ha
        obtain ⟨eb, hb⟩ := (OrderedMap.contains_iff ..).1 hb
        have hba : ¬ b = a := fun h => hab h.symm
        simp only [linked, find?, find?_addLink]
        by_cases hxa : x = a
        · subst hxa
          by_cases hyb : y = b <;>
            simp [ha, hab, OrderedMap.contains, OrderedMap.find?_insert, hyb]
        · by_cases hxb : x = b
          · subst hxb
            by_cases hya : y = a <;>
              simp [hb, hba, OrderedMap.contains, OrderedMap.find?_insert, hya]
          · cases s.entries.find? x <;> simp [hxa, hxb]

theorem linked_unlink (s : Entities) (a b x y : EntityKey) :
    (s.unlink a b).2.linked x y = true ↔
      s.linked x y = true ∧ ¬(x = a ∧ y = b) ∧ ¬(x = b ∧ y = a) := by
  simp only [unlink, linked, find?, find?_dropLink]
  cases s.entries.find? x with
  | none => simp
  | some e =>
    by_cases hxa : x = a <;> by_cases hxb : x = b <;> by_cases hya : y = a <;> by_cases hyb : y = b <;>
      simp_all [OrderedMap.contains, OrderedMap.find?_erase]

end Entities

end EntityStore
