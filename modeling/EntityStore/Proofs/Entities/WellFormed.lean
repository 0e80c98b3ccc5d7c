import EntityStore.Entities
import EntityStore.Proofs.Except

/-!
# Well-formed entity stores

No operation leaves a link on one side only. What each operation does to the links is one statement; from these, a
step lemma for each operation says that it keeps the store well-formed, and so does every run. Main statement:
`wellFormed_and_comm_after`.
-/
namespace EntityStore

/-- An entity as it may be stored under a key. -/
structure Entity.Fits (key : EntityKey) (e : Entity) : Prop where
  key : e.key = key
  body : ∀ name ∈ Name.system, e.body.contains name = false
  version : 1 ≤ e.version
  times : e.published ≤ e.updated

namespace Entities

/-- Every entity fits its key, links are the same on both sides, none leads back to where it starts, and arrivals
tell the entities apart. -/
structure WellFormed (s : Entities) : Prop where
  fits : ∀ key e, s.find? key = some e → e.Fits key
  linked_comm : ∀ a b, s.linked a b = s.linked b a
  linked_self : ∀ a, s.linked a a = false
  arrival_le : ∀ key e, s.find? key = some e → e.arrival ≤ s.arrivals
  arrival_inj : ∀ a b ea eb, s.find? a = some ea → s.find? b = some eb → ea.arrival = eb.arrival → a = b

/-- A change of the store. -/
inductive Operation where
  | write (key : EntityKey) (body : Fields) (expected : Option Nat)
  | remove (key : EntityKey) (expected : Option Nat)
  | link (a b : EntityKey)
  | unlink (a b : EntityKey)

/-- The store after an operation at a reading of the clock. -/
def apply (s : Entities) (now : Int) : Operation → Except StoreError Entities
  | .write key body expected => (s.write now key body expected).map (·.2)
  | .remove key expected => (s.remove key expected).map (·.2)
  | .link a b => (s.link a b).map (·.2)
  | .unlink a b => .ok (s.unlink a b).2

/-- An operation that fails changes nothing. -/
def step (s : Entities) (operation : Int × Operation) : Entities :=
  match s.apply operation.1 operation.2 with
  | .ok s' => s'
  | .error _ => s

/-- The store after operations one by one, each at its own reading of the clock. -/
def after (s : Entities) (operations : List (Int × Operation)) : Entities := operations.foldl step s

variable {s s' : Entities} {now : Int} {key : EntityKey}

theorem linked_iff {a b : EntityKey} :
    s.linked a b = true ↔ ∃ e, s.find? a = some e ∧ e.links.contains b = true := by
  rw [linked, Option.any_eq_true]

/-! ## What each operation does -/

/-- A write that succeeds revises the entity that it expects, or creates one where none is expected. -/
theorem write_cases {body : Fields} {expected : Option Nat} {e : Entity}
    (h : s.write now key body expected = .ok (e, s')) :
    (∃ old, s.find? key = some old ∧ (∀ v, expected = some v → v = old.version ∧ v ≠ 0) ∧
      e = overwrite now (body.eraseAll Name.system) old ∧ s'.arrivals = s.arrivals) ∨
    (s.find? key = none ∧ (∀ v, expected = some v → v = 0) ∧
      e = ⟨key, body.eraseAll Name.system, now, now, 1, .empty, s.arrivals + 1⟩ ∧
      s'.arrivals = s.arrivals + 1) := by
  unfold write at h
  split at h
  · cases h
  · rename_i old v hv hold
    split at h
    · rename_i hversion
      cases h
      refine .inl ⟨old, hold, ?_, rfl, rfl⟩
      rintro _ ⟨⟩
      exact ⟨hversion, hv⟩
    · cases h
  · rename_i old hold
    cases h
    refine .inl ⟨old, hold, ?_, rfl, rfl⟩
    rintro v ⟨⟩
  · cases h
  · rename_i hnone hexpected
    cases h
    refine .inr ⟨hnone, ?_, rfl, rfl⟩
    rintro (_ | v) rfl
    · rfl
    · exact absurd rfl (hexpected v)

theorem of_remove {expected : Option Nat} {e : Entity} (h : s.remove key expected = .ok (e, s')) :
    s.find? key = some e ∧ (∀ v, expected = some v → v = e.version) ∧ s'.arrivals = s.arrivals := by
  unfold remove at h
  split at h
  · cases h
  · rename_i old hold
    split at h
    · split at h
      · rename_i hversion
        cases h
        refine ⟨hold, ?_, rfl⟩
        rintro _ ⟨⟩
        exact hversion
      · cases h
    · cases h
      exact ⟨hold, nofun, rfl⟩

theorem of_link {a b : EntityKey} {added : Bool} (h : s.link a b = .ok (added, s')) :
    a ≠ b ∧ (∃ e, s.find? a = some e) ∧ (∃ e, s.find? b = some e) ∧ added = !s.linked a b ∧
      s' = { s with entries := addLink (addLink s.entries a b) b a } := by
  unfold link at h
  split at h
  · cases h
  split at h
  · cases h
  split at h
  · cases h
  rename_i hab ha hb
  cases h
  rw [Bool.not_eq_true', Bool.not_eq_false] at ha hb
  exact ⟨hab, (OrderedMap.contains_iff _ _).mp ha, (OrderedMap.contains_iff _ _).mp hb, rfl, rfl⟩

/-- A write leaves all links as they are. -/
theorem linked_write {body : Fields} {expected : Option Nat} {e : Entity}
    (h : s.write now key body expected = .ok (e, s')) (x y : EntityKey) : s'.linked x y = s.linked x y := by
  unfold linked
  rw [find?_write h]
  split
  · rename_i hx
    subst hx
    rcases write_cases h with ⟨old, hold, _, rfl, _⟩ | ⟨hnone, _, rfl, _⟩
    · rw [hold]
      rfl
    · rw [hnone]
      rfl
  · rfl

/-- A removal drops the links with what is removed, on both sides, and no other. -/
theorem linked_remove (hcomm : ∀ a b, s.linked a b = s.linked b a) {expected : Option Nat} {e : Entity}
    (h : s.remove key expected = .ok (e, s')) (x y : EntityKey) :
    s'.linked x y = true ↔ s.linked x y = true ∧ x ≠ key ∧ y ≠ key := by
  have hpartner : x ∈ e.links.keys ↔ s.linked x key = true := by
    rw [hcomm, linked, (of_remove h).1, OrderedMap.mem_keys_iff]
    rfl
  rw [linked, find?_remove h]
  by_cases hx : x = key
  · simp [hx]
  cases hfound : s.find? x with
  | none => simp [hx, linked, hfound]
  | some o =>
    have hlinked : ∀ z, s.linked x z = o.links.contains z := fun z => by rw [linked, hfound]; rfl
    rw [hlinked] at hpartner
    rw [hlinked, if_neg hx]
    by_cases hmem : x ∈ e.links.keys
    · by_cases hy : y = key <;> simp [hmem, hx, hy, OrderedMap.contains, OrderedMap.find?_erase]
    · have hne : o.links.contains y = true → y ≠ key := by
        rintro hy rfl
        exact hmem (hpartner.mpr hy)
      simpa [hmem, hx] using hne

/-! ## Single operations -/

theorem wellFormed_empty : empty.WellFormed where
  fits := by
    intro key e h
    cases h
  linked_comm := fun _ _ => rfl
  linked_self := fun _ => rfl
  arrival_le := by
    intro key e h
    cases h
  arrival_inj := by
    intro a b ea eb h
    cases h

theorem not_contains_eraseAll (body : Fields) (name : String) (hname : name ∈ Name.system) :
    (body.eraseAll Name.system).contains name = false := by
  rw [OrderedMap.contains, OrderedMap.find?_eraseAll, if_pos hname]
  rfl

/-- A change of nothing but links, or of which entities there are, need only keep the links in order. -/
theorem WellFormed.relink (h : s.WellFormed)
    (hkept : ∀ k e', s'.find? k = some e' → ∃ e, s.find? k = some e ∧ e' = { e with links := e'.links })
    (harrivals : s'.arrivals = s.arrivals) (hcomm : ∀ a b, s'.linked a b = s'.linked b a)
    (hself : ∀ a, s'.linked a a = false) : s'.WellFormed where
  fits := by
    intro k e' he'
    obtain ⟨e, he, heq⟩ := hkept k e' he'
    have hfits := h.fits k e he
    rw [heq]
    exact ⟨hfits.key, hfits.body, hfits.version, hfits.times⟩
  linked_comm := hcomm
  linked_self := hself
  arrival_le := by
    intro k e' he'
    obtain ⟨e, he, heq⟩ := hkept k e' he'
    rw [heq, harrivals]
    exact h.arrival_le k e he
  arrival_inj := by
    intro a b ea' eb' ha' hb' harrival
    obtain ⟨ea, ha, heqa⟩ := hkept a ea' ha'
    obtain ⟨eb, hb, heqb⟩ := hkept b eb' hb'
    rw [heqa, heqb] at harrival
    exact h.arrival_inj a b ea eb ha hb harrival

/-- Storing an entity with an arrival of its own, if that keeps all links. -/
theorem WellFormed.put (h : s.WellFormed) {e : Entity}
    (hfind : ∀ k, s'.find? k = if k = key then some e else s.find? k) (hfits : e.Fits key)
    (hlinked : ∀ a b, s'.linked a b = s.linked a b) (harrivals : s.arrivals ≤ s'.arrivals)
    (harrival : e.arrival ≤ s'.arrivals)
    (hown : ∀ k o, k ≠ key → s.find? k = some o → o.arrival ≠ e.arrival) : s'.WellFormed := by
  have hstored : ∀ k o, s'.find? k = some o → (k = key ∧ o = e) ∨ (k ≠ key ∧ s.find? k = some o) := by
    intro k o ho
    rw [hfind] at ho
    split at ho
    · rename_i hk
      exact .inl ⟨hk, (Option.some.inj ho).symm⟩
    · rename_i hk
      exact .inr ⟨hk, ho⟩
  constructor
  · intro k o ho
    rcases hstored k o ho with ⟨rfl, rfl⟩ | ⟨_, ho⟩
    · exact hfits
    · exact h.fits k o ho
  · intro a b
    rw [hlinked, hlinked, h.linked_comm]
  · intro a
    rw [hlinked, h.linked_self]
  · intro k o ho
    rcases hstored k o ho with ⟨rfl, rfl⟩ | ⟨_, ho⟩
    · exact harrival
    · exact Nat.le_trans (h.arrival_le k o ho) harrivals
  · intro a b ea eb ha hb heq
    rcases hstored a ea ha with ⟨rfl, rfl⟩ | ⟨hak, ha⟩ <;> rcases hstored b eb hb with ⟨rfl, rfl⟩ | ⟨hbk, hb⟩
    · rfl
    · exact absurd heq.symm (hown b eb hbk hb)
    · exact absurd heq (hown a ea hak ha)
    · exact h.arrival_inj a b ea eb ha hb heq

theorem WellFormed.write (h : s.WellFormed) {body : Fields} {expected : Option Nat} {e : Entity}
    (hwrite : s.write now key body expected = .ok (e, s')) : s'.WellFormed := by
  have hbody := not_contains_eraseAll body
  rcases write_cases hwrite with ⟨old, hold, _, rfl, harrivals⟩ | ⟨_, _, rfl, harrivals⟩
  · have hfits := h.fits key old hold
    have htimes : old.published ≤ max now old.updated := Int.le_trans hfits.times (Int.le_max_right _ _)
    refine h.put (find?_write hwrite) ⟨hfits.key, hbody, Nat.le_add_left 1 _, htimes⟩ (linked_write hwrite)
      (Nat.le_of_eq harrivals.symm) (harrivals ▸ h.arrival_le key old hold) ?_
    intro k o hk ho heq
    exact hk (h.arrival_inj k key o old ho hold heq)
  · refine h.put (find?_write hwrite) ⟨rfl, hbody, Nat.le_refl 1, Int.le_refl now⟩ (linked_write hwrite)
      (by omega) (Nat.le_of_eq harrivals.symm) ?_
    intro k o _ ho
    exact Nat.ne_of_lt (Nat.lt_succ_of_le (h.arrival_le k o ho))

/-- A removal changes nothing but links in what stays. -/
theorem kept_of_remove {expected : Option Nat} {e : Entity} (h : s.remove key expected = .ok (e, s')) (k : EntityKey)
    {e' : Entity} (he' : s'.find? k = some e') : ∃ e, s.find? k = some e ∧ e' = { e with links := e'.links } := by
  rw [find?_remove h] at he'
  split at he'
  · cases he'
  · obtain ⟨o, ho, rfl⟩ := Option.map_eq_some_iff.mp he'
    refine ⟨o, ho, ?_⟩
    split <;> rfl

theorem WellFormed.remove (h : s.WellFormed) {expected : Option Nat} {e : Entity}
    (hremove : s.remove key expected = .ok (e, s')) : s'.WellFormed := by
  have hlinked := linked_remove h.linked_comm hremove
  refine h.relink (fun k e' he' => kept_of_remove hremove k he') (of_remove hremove).2.2 ?_ ?_
  · intro a b
    rw [Bool.eq_iff_iff, hlinked, hlinked, h.linked_comm a b]
    exact and_congr_right fun _ => and_comm
  · intro a
    rw [Bool.eq_false_iff]
    intro ha
    simpa [h.linked_self] using (hlinked a a).mp ha

/-- The two sides of a link are the only places that adding or dropping it can change. -/
theorem find?_link {a b : EntityKey} {added : Bool} (h : s.link a b = .ok (added, s')) (k : EntityKey) {e' : Entity}
    (he' : s'.find? k = some e') : ∃ e, s.find? k = some e ∧ e' = { e with links := e'.links } := by
  obtain ⟨_, _, _, _, rfl⟩ := of_link h
  simp only [find?, find?_addLink, Option.map_map] at he'
  obtain ⟨e, he, rfl⟩ := Option.map_eq_some_iff.mp he'
  refine ⟨e, he, ?_⟩
  simp only [Function.comp]
  split <;> split <;> rfl

theorem find?_unlink (a b k : EntityKey) {e' : Entity} (he' : (s.unlink a b).2.find? k = some e') :
    ∃ e, s.find? k = some e ∧ e' = { e with links := e'.links } := by
  simp only [unlink, find?, find?_dropLink, Option.map_map] at he'
  obtain ⟨e, he, rfl⟩ := Option.map_eq_some_iff.mp he'
  refine ⟨e, he, ?_⟩
  simp only [Function.comp]
  split <;> split <;> rfl

theorem WellFormed.link (h : s.WellFormed) {a b : EntityKey} {added : Bool}
    (hlink : s.link a b = .ok (added, s')) : s'.WellFormed := by
  have hlinked := linked_link hlink
  obtain ⟨hab, _, _, _, hs'⟩ := of_link hlink
  refine h.relink (fun k e' he' => find?_link hlink k he') (by rw [hs']) ?_ ?_
  · intro x y
    rw [Bool.eq_iff_iff, hlinked, hlinked, h.linked_comm x y]
    refine or_congr_right ?_
    rw [or_comm, and_comm, and_comm (a := x = a)]
  · intro x
    rw [Bool.eq_false_iff]
    intro hx
    rcases (hlinked x x).mp hx with hx | ⟨rfl, rfl⟩ | ⟨rfl, rfl⟩
    · simp [h.linked_self] at hx
    · exact hab rfl
    · exact hab rfl

theorem WellFormed.unlink (h : s.WellFormed) (a b : EntityKey) : (s.unlink a b).2.WellFormed := by
  have hlinked := linked_unlink s a b
  refine h.relink (fun k e' he' => find?_unlink a b k he') rfl ?_ ?_
  · intro x y
    rw [Bool.eq_iff_iff, hlinked, hlinked, h.linked_comm x y]
    refine and_congr_right fun _ => ?_
    rw [and_comm, and_comm (a := y = a), and_comm (a := y = b)]
  · intro x
    rw [Bool.eq_false_iff]
    intro hx
    simpa [h.linked_self] using (hlinked x x).mp hx

/-! ## Both directions of a link -/

theorem addLink_comm (entries : OrderedMap EntityKey Entity) (a b : EntityKey) :
    addLink (addLink entries a b) b a = addLink (addLink entries b a) a b := by
  refine OrderedMap.ext_find? fun k => ?_
  simp only [find?_addLink, Option.map_map]
  congr 1
  funext e
  by_cases ha : k = a <;> by_cases hb : k = b <;> simp_all

theorem dropLink_comm (entries : OrderedMap EntityKey Entity) (a b : EntityKey) :
    dropLink (dropLink entries a b) b a = dropLink (dropLink entries b a) a b := by
  refine OrderedMap.ext_find? fun k => ?_
  simp only [find?_dropLink, Option.map_map]
  congr 1
  funext e
  by_cases ha : k = a <;> by_cases hb : k = b <;> simp_all

theorem WellFormed.unlink_comm (h : s.WellFormed) (a b : EntityKey) : s.unlink a b = s.unlink b a := by
  simp only [Entities.unlink, h.linked_comm a b, dropLink_comm s.entries a b]

theorem WellFormed.link_comm (h : s.WellFormed) {a b : EntityKey} (ha : s.entries.contains a = true)
    (hb : s.entries.contains b = true) : s.link a b = s.link b a := by
  by_cases hab : a = b
  · rw [hab]
  · have hba : ¬ b = a := fun hba => hab hba.symm
    simp only [Entities.link, hab, hba, ha, hb, h.linked_comm a b, addLink_comm s.entries a b]
    rfl

/-! ## Runs -/

theorem WellFormed.apply (h : s.WellFormed) {operation : Operation} (happly : s.apply now operation = .ok s') :
    s'.WellFormed := by
  cases operation with
  | write key body expected =>
    obtain ⟨⟨e, _⟩, hwrite, rfl⟩ := map_eq_ok.mp happly
    exact h.write hwrite
  | remove key expected =>
    obtain ⟨⟨e, _⟩, hremove, rfl⟩ := map_eq_ok.mp happly
    exact h.remove hremove
  | link a b =>
    obtain ⟨⟨added, _⟩, hlink, rfl⟩ := map_eq_ok.mp happly
    exact h.link hlink
  | unlink a b =>
    cases happly
    exact h.unlink a b

theorem WellFormed.step (h : s.WellFormed) (operation : Int × Operation) : (s.step operation).WellFormed := by
  unfold Entities.step
  split
  · rename_i happly
    exact h.apply happly
  · exact h

theorem WellFormed.after (h : s.WellFormed) (operations : List (Int × Operation)) :
    (s.after operations).WellFormed := by
  induction operations generalizing s with
  | nil => exact h
  | cons operation rest ih => exact ih (h.step operation)

/-- Whatever operations run on the empty store, it is well-formed, every link leads to an entity, and it makes no
difference from which side a link is dropped or, between entities, added. -/
theorem wellFormed_and_comm_after (operations : List (Int × Operation)) :
    (empty.after operations).WellFormed ∧
      (∀ a b, (empty.after operations).linked a b = true → (empty.after operations).entries.contains b = true) ∧
      (∀ a b, (empty.after operations).unlink a b = (empty.after operations).unlink b a) ∧
      ∀ a b, (empty.after operations).entries.contains a = true → (empty.after operations).entries.contains b = true →
        (empty.after operations).link a b = (empty.after operations).link b a := by
  have h := wellFormed_empty.after operations
  refine ⟨h, fun a b hab => ?_, h.unlink_comm, fun a b ha hb => h.link_comm ha hb⟩
  rw [h.linked_comm] at hab
  obtain ⟨e, he, _⟩ := linked_iff.mp hab
  exact (OrderedMap.contains_iff _ _).mpr ⟨e, he⟩

end Entities

end EntityStore
