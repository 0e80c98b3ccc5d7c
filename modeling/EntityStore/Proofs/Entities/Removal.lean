import EntityStore.Proofs.Entities.WellFormed

/-!
# Removing several entities

Entities are removed one after the other, those that are gone already being passed over. Before every removal the links
are the same on both sides, so that it drops all links with what it removes and changes nothing else; of the order of
the removals nothing is left in the end. Main statements: `find?_discardAll` and `fst_discardAll`.
-/
namespace EntityStore

/-- The entity without the links with some others. -/
def Entity.without (e : Entity) (keys : List EntityKey) : Entity := { e with links := e.links.eraseAll keys }

namespace Entity

variable {e : Entity} {key : EntityKey}

theorem without_nil (e : Entity) : e.without [] = e := rfl

theorem without_cons (e : Entity) (key : EntityKey) (rest : List EntityKey) :
    (e.without [key]).without rest = e.without (key :: rest) := rfl

theorem without_of_not_contains (h : e.links.contains key = false) : e.without [key] = e := by
  have hlinks : e.links.erase key = e.links := by
    apply OrderedMap.ext_find?
    intro k
    rw [OrderedMap.find?_erase]
    split
    · rename_i hk
      simp only [OrderedMap.contains, Option.isSome_eq_false_iff, Option.isNone_iff_eq_none] at h
      rw [hk, h]
    · rfl
  simp [without, OrderedMap.eraseAll, hlinks]

theorem contains_without (e : Entity) (keys : List EntityKey) (k : EntityKey) :
    (e.without keys).links.contains k = (e.links.contains k && decide (k ∉ keys)) := by
  simp only [without, OrderedMap.contains, OrderedMap.find?_eraseAll]
  by_cases hk : k ∈ keys <;> simp [hk]

end Entity

namespace Entities

/-- Removes an entity if it is there, and counts it. -/
def discard (s : Entities) (key : EntityKey) : Nat × Entities :=
  match s.remove key none with
  | .ok (_, s') => (1, s')
  | .error _ => (0, s)

def discardAll (s : Entities) : List EntityKey → Nat × Entities
  | [] => (0, s)
  | key :: rest =>
    let (gone, s) := s.discard key
    let (more, s) := s.discardAll rest
    (gone + more, s)

variable {s : Entities} {type : String}

/-! ## One removal -/

theorem discard_cases (s : Entities) (key : EntityKey) :
    (∃ e s', s.remove key none = .ok (e, s') ∧ s.find? key = some e ∧ s.discard key = (1, s')) ∨
      (s.remove key none = .error (.notFound key.text) ∧ s.find? key = none ∧ s.discard key = (0, s)) := by
  cases hfind : s.find? key with
  | some e =>
    have hremove : s.remove key none = .ok (e, remove.unlinkAll s key e) := by simp [remove, hfind]
    exact .inl ⟨e, _, hremove, rfl, by simp [discard, hremove]⟩
  | none =>
    have hremove : s.remove key none = .error (.notFound key.text) := by simp [remove, hfind]
    exact .inr ⟨hremove, rfl, by simp [discard, hremove]⟩

theorem fst_discard (s : Entities) (key : EntityKey) : (s.discard key).1 = if (s.find? key).isSome then 1 else 0 := by
  rcases discard_cases s key with ⟨e, s', _, hfind, hdiscard⟩ | ⟨_, hfind, hdiscard⟩
  · simp [hfind, hdiscard]
  · simp [hfind, hdiscard]

theorem arrivals_discard (s : Entities) (key : EntityKey) : (s.discard key).2.arrivals = s.arrivals := by
  rcases discard_cases s key with ⟨e, s', hremove, _, hdiscard⟩ | ⟨_, _, hdiscard⟩
  · rw [hdiscard, (of_remove hremove).2.2]
  · rw [hdiscard]

theorem WellFormed.discard (h : s.WellFormed) (key : EntityKey) : (s.discard key).2.WellFormed := by
  rcases discard_cases s key with ⟨e, s', hremove, _, hdiscard⟩ | ⟨_, _, hdiscard⟩
  · rw [hdiscard]
    exact h.remove hremove
  · rw [hdiscard]
    exact h

/-- The removal of an entity leaves the others without their links with it. -/
theorem WellFormed.find?_discard (h : s.WellFormed) (key k : EntityKey) :
    (s.discard key).2.find? k = if k = key then none else (s.find? k).map fun o => o.without [key] := by
  have hpartner : ∀ o, s.find? k = some o → o.links.contains key = s.linked key k := by
    intro o ho
    rw [h.linked_comm, linked, ho, Option.any_some]
  rcases discard_cases s key with ⟨e, s', hremove, hfind, hdiscard⟩ | ⟨_, hfind, hdiscard⟩
  · rw [hdiscard, find?_remove hremove]
    split
    · rfl
    apply Option.map_congr
    intro o ho
    have hlinked : s.linked key k = e.links.contains k := by rw [linked, hfind, Option.any_some]
    by_cases hmem : k ∈ e.links.keys
    · rw [if_pos hmem]
      rfl
    · rw [if_neg hmem, Entity.without_of_not_contains]
      rw [hpartner o ho, hlinked]
      simpa [OrderedMap.mem_keys_iff] using hmem
  · rw [hdiscard]
    split
    · rename_i hk
      rw [hk, hfind]
    -- what is not there is linked with nothing
    · cases ho : s.find? k with
      | none => rfl
      | some o =>
        have hlinked : s.linked key k = false := by rw [linked, hfind, Option.any_none]
        rw [Option.map_some, Entity.without_of_not_contains (by rw [hpartner o ho, hlinked])]

/-! ## All removals -/

theorem arrivals_discardAll (s : Entities) (keys : List EntityKey) : (s.discardAll keys).2.arrivals = s.arrivals := by
  induction keys generalizing s with
  | nil => rfl
  | cons key rest ih => exact (ih _).trans (arrivals_discard s key)

/-- The removals leave the other entities without their links with those removed, and nothing else is changed. -/
theorem WellFormed.find?_discardAll (h : s.WellFormed) (keys : List EntityKey) (k : EntityKey) :
    (s.discardAll keys).2.find? k = if k ∈ keys then none else (s.find? k).map fun o => o.without keys := by
  induction keys generalizing s with
  | nil => simp [discardAll, Entity.without_nil]
  | cons key rest ih =>
    change ((s.discard key).2.discardAll rest).2.find? k = _
    rw [ih (h.discard key), h.find?_discard]
    by_cases hrest : k ∈ rest
    · simp [hrest]
    by_cases hkey : k = key
    · simp [hkey]
    · simp [hrest, hkey, Function.comp_def, Entity.without_cons]

/-- What is removed is counted once. -/
theorem WellFormed.fst_discardAll (h : s.WellFormed) {keys : List EntityKey} (hnodup : keys.Nodup) :
    (s.discardAll keys).1 = (keys.filter fun k => (s.find? k).isSome).length := by
  induction keys generalizing s with
  | nil => rfl
  | cons key rest ih =>
    obtain ⟨hkey, hrest⟩ := List.nodup_cons.mp hnodup
    have hsame : ∀ k ∈ rest, ((s.discard key).2.find? k).isSome = (s.find? k).isSome := by
      intro k hk
      have hne : k ≠ key := fun heq => hkey (heq ▸ hk)
      rw [h.find?_discard, if_neg hne, Option.isSome_map]
    have hcount : (s.discardAll (key :: rest)).1 = (s.discard key).1 + ((s.discard key).2.discardAll rest).1 := rfl
    rw [hcount, ih (h.discard key) hrest, fst_discard, List.filter_congr hsame, List.filter_cons]
    split
    · rw [List.length_cons, Nat.add_comm]
    · rw [Nat.zero_add]

/-! ## The entities of a type -/

theorem mem_keysOf_iff {k : EntityKey} : k ∈ s.keysOf type ↔ k.type = type ∧ (s.find? k).isSome = true := by
  rw [keysOf, List.mem_filter, OrderedMap.mem_keys_iff, and_comm, beq_iff_eq]
  rfl

theorem nodup_keysOf (s : Entities) (type : String) : (s.keysOf type).Nodup := s.entries.nodup_keys.filter _

/-- A store and what is left of it without the entities of a type: the others are the same but for their links with
these. -/
structure WithoutType (type : String) (s s' : Entities) : Prop where
  gone : ∀ k, k.type = type → s'.find? k = none
  absent : ∀ k, s.find? k = none → s'.find? k = none
  kept : ∀ k e, k.type ≠ type → s.find? k = some e → ∃ links, s'.find? k = some { e with links } ∧
    ∀ partner, links.contains partner = (e.links.contains partner && partner.type != type)
  arrivals : s'.arrivals = s.arrivals

theorem WellFormed.discardAll_keysOf (h : s.WellFormed) (type : String) :
    (s.discardAll (s.keysOf type)).1 = (s.keysOf type).length ∧
      WithoutType type s (s.discardAll (s.keysOf type)).2 := by
  have hfind := h.find?_discardAll (s.keysOf type)
  refine ⟨?_, ?_, ?_, ?_, arrivals_discardAll s _⟩
  · have hall : ∀ k ∈ s.keysOf type, (s.find? k).isSome = true := fun k hk => (mem_keysOf_iff.mp hk).2
    rw [h.fst_discardAll (nodup_keysOf s type), List.filter_eq_self.mpr hall]
  · intro k hk
    rw [hfind]
    cases hfound : s.find? k with
    | none => simp
    | some e => simp [mem_keysOf_iff, hk, hfound]
  · intro k hk
    simp [hfind, hk]
  · intro k e hk he
    have hnot : k ∉ s.keysOf type := fun hmem => hk (mem_keysOf_iff.mp hmem).1
    refine ⟨_, by rw [hfind, if_neg hnot, he, Option.map_some]; rfl, ?_⟩
    intro partner
    change (e.without (s.keysOf type)).links.contains partner = _
    rw [Entity.contains_without]
    cases hlinked : e.links.contains partner with
    | false => simp
    | true =>
      -- the other side of the link is there
      have hback : s.linked partner k = true := by
        rw [h.linked_comm, linked, he, Option.any_some, hlinked]
      obtain ⟨o, ho, _⟩ := linked_iff.mp hback
      by_cases hpartner : partner.type = type <;> simp [mem_keysOf_iff, ho, hpartner]

end Entities

end EntityStore
