import EntityStore.Entities.Search
import EntityStore.Proofs.Double
import EntityStore.Proofs.Entities.WellFormed
import EntityStore.Proofs.Query.Meaning

/-!
# The order of results

Entities are compared by their sort keys and then by their arrival. Values of different kinds are not compared at all,
so the order is transitive only among entities whose values under each key are of one kind. Main statement:
`orderAll_strict`.
-/
namespace EntityStore

open Std

/-! ## Values of one kind -/

/-- A number that compares by its value: a double holds it exactly. -/
def Number.IsExact : Number → Prop
  | int n => n.natAbs ≤ Double.twoTo 53
  | real x => x.isNaN = false

/-- All these values are of one kind, and numbers are all integers of 64 bits or all exact. -/
inductive Json.Comparable (among : Json → Prop) : Prop
  | strings (h : ∀ v, among v → ∃ s, v = .string s)
  | booleans (h : ∀ v, among v → ∃ b, v = .bool b)
  | integers (h : ∀ v, among v → ∃ n, v = .ofInt n ∧ Decimal.fitsInt64 n = true)
  | numbers (h : ∀ v, among v → ∃ n, v = .number n ∧ n.IsExact)
  | composites (h : ∀ v, among v → v.kind = .list ∨ v.kind = .object)

theorem Double.compare?_swap (x y : Double) : y.compare? x = (x.compare? y).map Ordering.swap := by
  simp only [Double.compare?, Bool.or_comm y.isNaN]
  split
  · rfl
  · exact congrArg some OrientedCmp.eq_swap

theorem Number.compare?_swap (m n : Number) : n.compare? m = (m.compare? n).map Ordering.swap := by
  unfold Number.compare?
  cases m.toInt64? <;> cases n.toInt64? <;> try exact Double.compare?_swap _ _
  exact congrArg some OrientedCmp.eq_swap

theorem Json.compare?_swap (v w : Json) : w.compare? v = (v.compare? w).map Ordering.swap := by
  cases v <;> cases w <;> try rfl
  · exact congrArg some OrientedCmp.eq_swap
  · exact Number.compare?_swap _ _
  · exact congrArg some OrientedCmp.eq_swap

theorem compare_mul_right {m n c : Int} (hc : 0 < c) : compare (m * c) (n * c) = compare m n := by
  have hlt : m * c < n * c ↔ m < n := Int.mul_lt_mul_right hc
  have heq : m * c = n * c ↔ m = n := Int.mul_eq_mul_right_iff (Int.ne_of_gt hc)
  simp only [compare, compareOfLessAndEq, hlt, heq]

theorem Number.isNaN_of_exact {n : Number} (h : n.IsExact) : n.toDouble.isNaN = false := by
  cases n with
  | int n => exact Double.isNaN_ofInt n
  | real x => exact h

/-- Exact numbers compare by the value of their double, also two integers. -/
theorem Number.compare?_of_exact {m n : Number} (hm : m.IsExact) (hn : n.IsExact) :
    m.compare? n = some (compare m.toDouble.units n.toDouble.units) := by
  have hunit : (0 : Int) < Double.unitsPerOne := Int.natCast_pos.mpr Double.unitsPerOne_pos
  unfold Number.compare?
  split
  · rename_i i j hi hj
    cases m with
    | real x => cases hi
    | int i' =>
      cases n with
      | real y => cases hj
      | int j' =>
        simp only [toInt64?, Option.ite_none_right_eq_some, Option.some.injEq] at hi hj
        obtain ⟨_, rfl⟩ := hi
        obtain ⟨_, rfl⟩ := hj
        rw [toDouble, toDouble, Double.units_ofInt hm, Double.units_ofInt hn, compare_mul_right hunit]
  · simp [Double.compare?, isNaN_of_exact hm, isNaN_of_exact hn]

/-- The integer that a value is. -/
def Json.integer : Json → Int
  | .number (.int n) => n
  | _ => 0

/-- The units of the number that a value is. -/
def Json.units : Json → Int
  | .number n => n.toDouble.units
  | _ => 0

/-- Values of one kind are put in an order, in which some may be level. -/
theorem Json.Comparable.exists_transCmp {among : Json → Prop} (h : Json.Comparable among) :
    ∃ cmp : Json → Json → Ordering, TransCmp cmp ∧
      ∀ v w, among v → among w → (v.compare? w).getD .eq = cmp v w := by
  cases h with
  | strings h =>
    refine ⟨compareOn fun v => v.asString?.getD "", inferInstance, fun v w hv hw => ?_⟩
    obtain ⟨s, rfl⟩ := h v hv
    obtain ⟨t, rfl⟩ := h w hw
    rfl
  | booleans h =>
    refine ⟨compareOn fun v => v.asBool?.getD false, inferInstance, fun v w hv hw => ?_⟩
    obtain ⟨b, rfl⟩ := h v hv
    obtain ⟨c, rfl⟩ := h w hw
    rfl
  | integers h =>
    refine ⟨compareOn Json.integer, inferInstance, fun v w hv hw => ?_⟩
    obtain ⟨m, rfl, hm⟩ := h v hv
    obtain ⟨n, rfl, hn⟩ := h w hw
    simp only [Json.ofInt, Json.compare?, Number.compare?_int hm hn, Option.getD_some, compareOn, Json.integer]
  | numbers h =>
    refine ⟨compareOn Json.units, inferInstance, fun v w hv hw => ?_⟩
    obtain ⟨m, rfl, hm⟩ := h v hv
    obtain ⟨n, rfl, hn⟩ := h w hw
    simp only [Json.compare?, Number.compare?_of_exact hm hn, Option.getD_some, compareOn, Json.units]
  | composites h =>
    refine ⟨compareOn fun _ => 0, inferInstance, fun v w hv _ => ?_⟩
    rcases h v hv with h | h <;> cases v <;> cases h <;> rfl

/-! ## Single keys -/

namespace SortKey

variable {key : SortKey} {sort : List SortKey} {among : Entity → Prop}

/-- The value that an entity is sorted by, unless that is absent or null. -/
def value? (key : SortKey) (e : Entity) : Option Json := (e.field? key.property).filter fun v => !v.isNull

/-- How two values compare in the direction of the key; those that do not compare are level. -/
def directed (key : SortKey) (v w : Json) : Ordering :=
  match key.direction with
  | .ascending => (v.compare? w).getD .eq
  | .descending => ((v.compare? w).getD .eq).swap

theorem order_eq (key : SortKey) (a b : Entity) : key.order a b =
    match key.value? a, key.value? b with
    | none, none => .eq
    | none, some _ => .gt
    | some _, none => .lt
    | some v, some w => key.directed v w := rfl

theorem directed_swap (key : SortKey) (v w : Json) : key.directed w v = (key.directed v w).swap := by
  have hswap : (w.compare? v).getD .eq = ((v.compare? w).getD .eq).swap := by
    rw [Json.compare?_swap v w]
    cases v.compare? w <;> rfl
  unfold directed
  cases key.direction with
  | ascending => exact hswap
  | descending => exact congrArg Ordering.swap hswap

instance (key : SortKey) : OrientedCmp key.order where
  eq_swap {a b} := by
    rw [order_eq, order_eq]
    cases key.value? a <;> cases key.value? b <;> first | rfl | exact directed_swap key _ _

/-- In either direction, values of one kind are put in an order. -/
theorem exists_transCmp_directed (key : SortKey) {among : Json → Prop} (h : Json.Comparable among) :
    ∃ cmp : Json → Json → Ordering, TransCmp cmp ∧ ∀ v w, among v → among w → key.directed v w = cmp v w := by
  obtain ⟨cmp, htrans, hcmp⟩ := h.exists_transCmp
  unfold directed
  cases key.direction with
  | ascending => exact ⟨cmp, htrans, hcmp⟩
  | descending =>
    refine ⟨fun v w => cmp w v, TransCmp.opposite, fun v w hv hw => ?_⟩
    have hswap : cmp w v = (cmp v w).swap := OrientedCmp.eq_swap
    rw [hcmp v w hv hw]
    exact hswap.symm

/-- A key puts entities in an order if the values under it are of one kind. -/
theorem transCmp_order (h : Json.Comparable fun v => ∃ e, among e ∧ key.value? e = some v) :
    TransCmp fun a b : { e // among e } => key.order a b where
  eq_swap := OrientedCmp.eq_swap
  isLE_trans := by
    obtain ⟨cmp, htrans, hcmp⟩ := exists_transCmp_directed key h
    rintro ⟨a, ha⟩ ⟨b, hb⟩ ⟨c, hc⟩
    have hvalue : ∀ e v, among e → key.value? e = some v → ∃ e, among e ∧ key.value? e = some v :=
      fun e v he hv => ⟨e, he, hv⟩
    simp only [order_eq]
    cases hva : key.value? a with
    | none => cases key.value? b <;> cases key.value? c <;> simp
    | some u =>
      cases hvb : key.value? b with
      | none => cases key.value? c <;> simp
      | some v =>
        cases hvc : key.value? c with
        | none => simp
        | some w =>
          have hu := hvalue a u ha hva
          have hv := hvalue b v hb hvb
          have hw := hvalue c w hc hvc
          simp only [hcmp u v hu hv, hcmp v w hv hw, hcmp u w hu hw]
          exact TransCmp.isLE_trans

/-! ## Several keys -/

theorem orientedCmp_orderAll (sort : List SortKey) : OrientedCmp (orderAll sort) := by
  induction sort with
  | nil => exact (inferInstance : OrientedCmp (compareOn Entity.arrival))
  | cons key rest ih => exact (inferInstance : OrientedCmp (compareLex key.order (orderAll rest)))

theorem transCmp_orderAll (h : ∀ key ∈ sort, Json.Comparable fun v => ∃ e, among e ∧ key.value? e = some v) :
    TransCmp fun a b : { e // among e } => orderAll sort a b := by
  induction sort with
  | nil => exact (inferInstance : TransCmp (compareOn fun e : { e // among e } => e.val.arrival))
  | cons key rest ih =>
    have hkey := transCmp_order (h key List.mem_cons_self)
    have hrest := ih fun k hk => h k (List.mem_cons_of_mem _ hk)
    exact (inferInstance : TransCmp (compareLex (fun a b : { e // among e } => key.order a b)
      fun a b : { e // among e } => orderAll rest a b))

theorem arrival_eq_of_orderAll {a b : Entity} (h : orderAll sort a b = .eq) : a.arrival = b.arrival := by
  induction sort with
  | nil => exact LawfulEqCmp.eq_of_compare h
  | cons key rest ih =>
    exact ih (Ordering.then_eq_eq.mp h).2

end SortKey

/-- Among entities of a store that any operations have led to, only an entity and itself are level, and turning a
comparison round turns its answer round. The comparison is transitive if the values that the entities have under each
key are of one kind. -/
theorem orderAll_strict (operations : List (Int × Entities.Operation)) (sort : List SortKey) (es : List Entity)
    (hstored : ∀ e ∈ es, (Entities.empty.after operations).find? e.key = some e) :
    (∀ a ∈ es, ∀ b ∈ es, (SortKey.orderAll sort a b = .eq ↔ a = b) ∧
      SortKey.orderAll sort b a = (SortKey.orderAll sort a b).swap) ∧
    ((∀ key ∈ sort, Json.Comparable fun v => ∃ e, e ∈ es ∧ key.value? e = some v) →
      ∀ a ∈ es, ∀ b ∈ es, ∀ c ∈ es, SortKey.orderAll sort a b = .lt → SortKey.orderAll sort b c = .lt →
        SortKey.orderAll sort a c = .lt) := by
  have hwf : (Entities.empty.after operations).WellFormed := Entities.wellFormed_empty.after operations
  have horiented := SortKey.orientedCmp_orderAll sort
  constructor
  · intro a ha b hb
    refine ⟨⟨fun heq => ?_, ?_⟩, OrientedCmp.eq_swap⟩
    · have harrival := SortKey.arrival_eq_of_orderAll heq
      have hkey := hwf.arrival_inj a.key b.key a b (hstored a ha) (hstored b hb) harrival
      exact Option.some.inj ((hstored a ha).symm.trans (hkey ▸ hstored b hb))
    · rintro rfl
      exact ReflCmp.compare_self
  · intro hcomparable a ha b hb c hc hab hbc
    have htrans := SortKey.transCmp_orderAll hcomparable
    exact htrans.lt_trans (a := ⟨a, ha⟩) (b := ⟨b, hb⟩) (c := ⟨c, hc⟩) hab hbc

/-- The entity that a single write of a value at a time leaves. -/
def Entity.written (id : String) (time : Nat) (value : Json) : Entity :=
  ⟨⟨"T", id⟩, .ofList [("x", value)], time, time, 1, .empty, time⟩

/-- An integer, a greater double and null come in this order. -/
theorem orderAll_strict_numbers :
    ∃ a b c, (∀ e ∈ [a, b, c], (Entities.empty.after [(1, .write ⟨"T", "a"⟩ (.ofList [("x", .null)]) none),
        (2, .write ⟨"T", "b"⟩ (.ofList [("x", .number (.real ⟨0x3FF8000000000000⟩))]) none),
        (3, .write ⟨"T", "c"⟩ (.ofList [("x", .number (.int 1))]) none)]).find? e.key = some e) ∧
      SortKey.orderAll [⟨"x", .ascending⟩] c b = .lt ∧ SortKey.orderAll [⟨"x", .ascending⟩] b a = .lt ∧
      SortKey.orderAll [⟨"x", .ascending⟩] c a = .lt := by
  refine ⟨.written "a" 1 .null, .written "b" 2 (.number (.real ⟨0x3FF8000000000000⟩)),
    .written "c" 3 (.number (.int 1)), ?_⟩
  have hstored : ∀ e ∈ [Entity.written "a" 1 .null, .written "b" 2 (.number (.real ⟨0x3FF8000000000000⟩)),
      .written "c" 3 (.number (.int 1))],
      (Entities.empty.after [(1, .write ⟨"T", "a"⟩ (.ofList [("x", .null)]) none),
        (2, .write ⟨"T", "b"⟩ (.ofList [("x", .number (.real ⟨0x3FF8000000000000⟩))]) none),
        (3, .write ⟨"T", "c"⟩ (.ofList [("x", .number (.int 1))]) none)]).find? e.key = some e := by
    simp only [List.forall_mem_cons, List.not_mem_nil, false_implies, implies_true, and_true]
    exact ⟨rfl, rfl, rfl⟩
  have hcb : SortKey.orderAll [⟨"x", .ascending⟩] (.written "c" 3 (.number (.int 1)))
      (.written "b" 2 (.number (.real ⟨0x3FF8000000000000⟩))) = .lt := by decide +kernel
  have hba : SortKey.orderAll [⟨"x", .ascending⟩] (.written "b" 2 (.number (.real ⟨0x3FF8000000000000⟩)))
      (.written "a" 1 .null) = .lt := by decide
  refine ⟨hstored, hcb, hba, (orderAll_strict _ _ _ hstored).2 ?_ _ (by simp) _ (by simp) _ (by simp) hcb hba⟩
  intro key hkey
  obtain rfl := List.mem_singleton.mp hkey
  have ha : SortKey.value? ⟨"x", .ascending⟩ (.written "a" 1 .null) = none := rfl
  have hb : SortKey.value? ⟨"x", .ascending⟩ (.written "b" 2 (.number (.real ⟨0x3FF8000000000000⟩))) =
    some (.number (.real ⟨0x3FF8000000000000⟩)) := rfl
  have hc : SortKey.value? ⟨"x", .ascending⟩ (.written "c" 3 (.number (.int 1))) = some (.number (.int 1)) := rfl
  refine .numbers ?_
  rintro v ⟨e, he, hv⟩
  simp only [List.mem_cons, List.not_mem_nil, or_false] at he
  rcases he with rfl | rfl | rfl
  · simp [ha] at hv
  · obtain rfl := Option.some.inj (hb.symm.trans hv)
    exact ⟨_, rfl, (by decide : Double.isNaN ⟨0x3FF8000000000000⟩ = false)⟩
  · obtain rfl := Option.some.inj (hc.symm.trans hv)
    exact ⟨_, rfl, (by decide : (1 : Int).natAbs ≤ Double.twoTo 53)⟩

/-- A string between two numbers is level with both, so the arrivals put it after the first and before the second; the
numbers themselves come the other way round. -/
theorem orderAll_not_transitive :
    ∃ a b c, (∀ e ∈ [a, b, c], (Entities.empty.after [(1, .write ⟨"T", "a"⟩ (.ofList [("x", .number (.int 2))]) none),
        (2, .write ⟨"T", "b"⟩ (.ofList [("x", .string "s")]) none),
        (3, .write ⟨"T", "c"⟩ (.ofList [("x", .number (.int 1))]) none)]).find? e.key = some e) ∧
      SortKey.orderAll [⟨"x", .ascending⟩] a b = .lt ∧ SortKey.orderAll [⟨"x", .ascending⟩] b c = .lt ∧
      SortKey.orderAll [⟨"x", .ascending⟩] a c = .gt := by
  refine ⟨.written "a" 1 (.number (.int 2)), .written "b" 2 (.string "s"), .written "c" 3 (.number (.int 1)), ?_, ?_⟩
  · simp only [List.forall_mem_cons, List.not_mem_nil, false_implies, implies_true, and_true]
    exact ⟨rfl, rfl, rfl⟩
  · decide

end EntityStore
