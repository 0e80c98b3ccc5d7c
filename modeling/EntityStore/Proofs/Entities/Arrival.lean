import EntityStore.Proofs.Entities.WellFormed
import Mathlib.Data.List.Induction

/-!
# The order of insertion

Arrivals are numbers that the store hands out. Whatever operations run, they tell which of two entities was inserted
first: the one that was already there when the other was not, and has stayed since. Main statement:
`arrival_lt_iff_earlier`.
-/
namespace EntityStore

namespace Entities

variable {s s' : Entities} {now : Int} {operations : List (Int × Operation)} {a b k : EntityKey} {ea eb e' : Entity}

/-- At some time there was no entity under `b`, and from that time on there has been one under `a`. -/
def Earlier (operations : List (Int × Operation)) (a b : EntityKey) : Prop :=
  ∃ before, before <+: operations ∧ (empty.after before).find? b = none ∧
    ∀ mid, before <+: mid → mid <+: operations → (empty.after mid).find? a ≠ none

/-- An entity keeps its arrival; a new one gets the next number. -/
theorem arrival_of_apply {operation : Operation} (h : s.apply now operation = .ok s') (hk : s'.find? k = some e') :
    (∃ e, s.find? k = some e ∧ e'.arrival = e.arrival) ∨ (s.find? k = none ∧ e'.arrival = s.arrivals + 1) := by
  have hkept : (∃ e, s.find? k = some e ∧ e' = { e with links := e'.links }) →
      ∃ e, s.find? k = some e ∧ e'.arrival = e.arrival := by
    rintro ⟨e, he, heq⟩
    exact ⟨e, he, (congrArg Entity.arrival heq :)⟩
  cases operation with
  | write key body expected =>
    obtain ⟨⟨e, _⟩, hwrite, rfl⟩ := map_eq_ok.mp h
    rw [find?_write hwrite] at hk
    split at hk
    · rename_i hkey
      subst hkey
      obtain rfl := Option.some.inj hk
      rcases write_cases hwrite with ⟨old, hold, _, rfl, _⟩ | ⟨hnone, _, rfl, _⟩
      · exact .inl ⟨old, hold, rfl⟩
      · exact .inr ⟨hnone, rfl⟩
    · exact .inl ⟨e', hk, rfl⟩
  | remove key expected =>
    obtain ⟨⟨e, _⟩, hremove, rfl⟩ := map_eq_ok.mp h
    exact .inl (hkept (kept_of_remove hremove k hk))
  | link x y =>
    obtain ⟨⟨added, _⟩, hlink, rfl⟩ := map_eq_ok.mp h
    exact .inl (hkept (find?_link hlink k hk))
  | unlink x y =>
    cases h
    exact .inl (hkept (find?_unlink x y k hk))

theorem arrival_of_step {operation : Int × Operation} (hk : (s.step operation).find? k = some e') :
    (∃ e, s.find? k = some e ∧ e'.arrival = e.arrival) ∨ (s.find? k = none ∧ e'.arrival = s.arrivals + 1) := by
  unfold step at hk
  split at hk
  · rename_i happly
    exact arrival_of_apply happly hk
  · exact .inl ⟨e', hk, rfl⟩

theorem after_append_singleton (s : Entities) (operations : List (Int × Operation)) (operation : Int × Operation) :
    s.after (operations ++ [operation]) = (s.after operations).step operation := by
  simp only [after, List.foldl_append, List.foldl_cons, List.foldl_nil]

/-- One more operation, after which both are there: `a` was there before it, and `b` either was not or came later. -/
theorem earlier_append_singleton {operation : Int × Operation}
    (ha : (empty.after (operations ++ [operation])).find? a = some ea)
    (hb : (empty.after (operations ++ [operation])).find? b = some eb) :
    Earlier (operations ++ [operation]) a b ↔
      (empty.after operations).find? a ≠ none ∧
        ((empty.after operations).find? b = none ∨ Earlier operations a b) := by
  constructor
  · rintro ⟨before, hbefore, hnone, hstays⟩
    rcases List.prefix_concat_iff.mp hbefore with rfl | hbefore
    · simp [hb] at hnone
    · have hlast := List.prefix_append operations [operation]
      exact ⟨hstays operations hbefore hlast,
        .inr ⟨before, hbefore, hnone, fun mid hmid hto => hstays mid hmid (hto.trans hlast)⟩⟩
  · rintro ⟨hthere, hnone | ⟨before, hbefore, hnone, hstays⟩⟩
    · refine ⟨operations, List.prefix_append _ _, hnone, fun mid hmid hto => ?_⟩
      rcases List.prefix_concat_iff.mp hto with rfl | hto
      · simp [ha]
      · rwa [← hmid.eq_of_length_le hto.length_le]
    · refine ⟨before, hbefore.trans (List.prefix_append _ _), hnone, fun mid hmid hto => ?_⟩
      rcases List.prefix_concat_iff.mp hto with rfl | hto
      · simp [ha]
      · exact hstays mid hmid hto

/-- Of two stored entities, the one with the lower arrival is the one that was inserted first. -/
theorem arrival_lt_iff_earlier (ha : (empty.after operations).find? a = some ea)
    (hb : (empty.after operations).find? b = some eb) : ea.arrival < eb.arrival ↔ Earlier operations a b := by
  induction operations using List.reverseRecOn generalizing ea eb with
  | nil => cases ha
  | append_singleton operations operation ih =>
    rw [earlier_append_singleton ha hb]
    have hwf := wellFormed_empty.after operations
    rw [after_append_singleton] at ha hb
    rcases arrival_of_step ha with ⟨oldA, hoa, harrivalA⟩ | ⟨hna, harrivalA⟩ <;>
      rcases arrival_of_step hb with ⟨oldB, hob, harrivalB⟩ | ⟨hnb, harrivalB⟩ <;> rw [harrivalA, harrivalB]
    · simp [hoa, hob, ih hoa hob]
    · simpa [hoa, hnb] using Nat.lt_succ_of_le (hwf.arrival_le a oldA hoa)
    · simpa [hna] using Nat.le_succ_of_le (hwf.arrival_le b oldB hob)
    · simp [hna]

end Entities

end EntityStore
