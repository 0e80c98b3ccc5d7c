import EntityStore.Proofs.Entities.Order
import Mathlib.Algebra.Order.Field.Basic
import Mathlib.Algebra.Order.Ring.Rat
import Mathlib.Data.Int.CharZero
import Mathlib.Data.Nat.Cast.Order.Ring
import Mathlib.Order.Compare

/-!
# Comparing numbers

Two integers of 64 signed bits are compared as they are, and any other numbers after they are rounded to doubles. This
never turns their order round, but numbers that are rounded to one double are level. Main statement:
`compare?_eq_compare_value`.
-/
namespace EntityStore.Number

variable {m n : Number}

/-- The number that is denoted. -/
def value : Number → ℚ
  | int n => n
  | real x => x.units / Double.unitsPerOne

/-- A number of a document or of a query: an integer of 64 bits, signed or unsigned, or a finite double. -/
def Held : Number → Prop
  | int n => -9223372036854775808 ≤ n ∧ n ≤ 18446744073709551615
  | real x => x.isFinite = true

/-- The value in the units of doubles. -/
def exactUnits : Number → Int
  | int n => n * Double.unitsPerOne
  | real x => x.units

theorem unitsPerOne_pos : (0 : ℚ) < Double.unitsPerOne := Nat.cast_pos.mpr Double.unitsPerOne_pos

theorem value_eq (n : Number) : n.value = n.exactUnits / Double.unitsPerOne := by
  cases n with
  | int n => rw [value, exactUnits, Int.cast_mul, Int.cast_natCast, mul_div_cancel_right₀ _ unitsPerOne_pos.ne']
  | real x => rfl

theorem value_lt_iff : m.value < n.value ↔ m.exactUnits < n.exactUnits := by
  rw [value_eq, value_eq, div_lt_div_iff_of_pos_right unitsPerOne_pos, Int.cast_lt]

theorem value_inj : m.value = n.value ↔ m.exactUnits = n.exactUnits := by
  rw [value_eq, value_eq, div_left_inj' unitsPerOne_pos.ne', Int.cast_inj]

theorem compare_value (m n : Number) : compare m.value n.value = compare m.exactUnits n.exactUnits := by
  simp only [LinearOrder.compare_eq_compareOfLessAndEq, compareOfLessAndEq, value_lt_iff, value_inj]

theorem Held.isNaN_toDouble (h : n.Held) : n.toDouble.isNaN = false := by
  cases n with
  | int n => exact Double.isNaN_ofInt n
  | real x =>
    have hfinite : x.unsignedBits < Double.infinityBits := by simpa [Held, Double.isFinite] using h
    exact decide_eq_false (Nat.not_lt.mpr (Nat.le_of_lt hfinite))

/-- A number is rounded to the double nearest to it. -/
theorem Held.units_toDouble (h : n.Held) : n.toDouble.units = Double.nearestUnits n.exactUnits := by
  cases n with
  | int n => exact Double.units_ofInt_eq_nearestUnits n
  | real x => exact (Double.nearestUnits_units h).symm

/-- Rounding either keeps two numbers in their order or makes them level. -/
theorem compare_nearestUnits {u v : Int} (h : Double.nearestUnits u ≠ Double.nearestUnits v) :
    compare (Double.nearestUnits u) (Double.nearestUnits v) = compare u v := by
  rcases lt_or_ge u v with hlt | hge
  · have hle := Double.nearestUnits_mono (Int.le_of_lt hlt)
    rw [compare_lt_iff_lt.mpr hlt, compare_lt_iff_lt.mpr (lt_of_le_of_ne hle h)]
  · have hle := Double.nearestUnits_mono hge
    have hgt : v < u := lt_of_le_of_ne hge fun heq => h (by rw [heq])
    rw [compare_gt_iff_gt.mpr hgt, compare_gt_iff_gt.mpr (lt_of_le_of_ne hle h.symm)]

theorem IsExact.units_toDouble (h : n.IsExact) : n.toDouble.units = n.exactUnits := by
  cases n with
  | int n => exact Double.units_ofInt h
  | real x => rfl

theorem compare?_of_int64 {i j : Int} (hi : m.toInt64? = some i) (hj : n.toInt64? = some j) :
    m.compare? n = some (compare m.value n.value) := by
  have hunit : (0 : Int) < Double.unitsPerOne := Int.natCast_pos.mpr Double.unitsPerOne_pos
  cases m with
  | real x => cases hi
  | int i' =>
    cases n with
    | real y => cases hj
    | int j' =>
      simp only [toInt64?, Option.ite_none_right_eq_some] at hi hj
      rw [compare?_int hi.1 hj.1, compare_value, exactUnits, exactUnits, compare_mul_right hunit]

theorem compare?_of_rounded (hm : m.Held) (hn : n.Held) (h : m.toInt64? = none ∨ n.toInt64? = none) :
    m.compare? n = some (compare m.toDouble.units n.toDouble.units) := by
  have hdouble : m.compare? n = m.toDouble.compare? n.toDouble := by
    unfold compare?
    split
    · rename_i hi hj
      simp [hi, hj] at h
    · rfl
  simp [hdouble, Double.compare?, hm.isNaN_toDouble, hn.isNaN_toDouble]

/-- Any two numbers that a document or a query can hold compare by their values, except that they are level if they are
rounded to the same double and are not both integers of 64 signed bits. There is no exception among numbers that
doubles hold exactly. -/
theorem compare?_eq_compare_value (hm : m.Held) (hn : n.Held) :
    m.compare? n = some (if (m.toInt64? = none ∨ n.toInt64? = none) ∧ m.toDouble.units = n.toDouble.units then .eq
      else compare m.value n.value) ∧
    (m.IsExact → n.IsExact → m.compare? n = some (compare m.value n.value)) := by
  constructor
  · by_cases hrounded : m.toInt64? = none ∨ n.toInt64? = none
    · rw [compare?_of_rounded hm hn hrounded]
      by_cases hlevel : m.toDouble.units = n.toDouble.units
      · rw [if_pos ⟨hrounded, hlevel⟩, compare_eq_iff_eq.mpr hlevel]
      · rw [if_neg fun h => hlevel h.2, compare_value]
        rw [hm.units_toDouble, hn.units_toDouble] at hlevel ⊢
        rw [compare_nearestUnits hlevel]
    · rw [if_neg fun h => hrounded h.1]
      obtain ⟨hi, hj⟩ := not_or.mp hrounded
      obtain ⟨i, hi⟩ := Option.ne_none_iff_exists'.mp hi
      obtain ⟨j, hj⟩ := Option.ne_none_iff_exists'.mp hj
      exact compare?_of_int64 hi hj
  · intro hme hne
    rw [compare?_of_exact hme hne, hme.units_toDouble, hne.units_toDouble, compare_value]

/-- An odd integer of 54 bits, which no double holds, is still below the next double. -/
theorem compare?_eq_compare_value_odd :
    (int 9007199254740993).compare? (real ⟨0x4340000000000001⟩) = some .lt ∧
      value (int 9007199254740993) < value (real ⟨0x4340000000000001⟩) := by
  have hm : (int 9007199254740993).Held := ⟨by decide, by decide⟩
  have hn : (real ⟨0x4340000000000001⟩).Held := (by decide : Double.isFinite ⟨0x4340000000000001⟩ = true)
  have hlt : value (int 9007199254740993) < value (real ⟨0x4340000000000001⟩) := value_lt_iff.mpr (by decide +kernel)
  have hunits : (int 9007199254740993).toDouble.units ≠ (real ⟨0x4340000000000001⟩).toDouble.units := by
    decide +kernel
  refine ⟨?_, hlt⟩
  rw [(compare?_eq_compare_value hm hn).1, if_neg fun h => hunits h.2, compare_lt_iff_lt.mpr hlt]

/-- An odd integer of 54 bits is level with the double before it. -/
theorem compare?_eq_of_neighbours :
    ∃ m n : Number, m.Held ∧ n.Held ∧ m.compare? n = some .eq ∧ m.value ≠ n.value := by
  refine ⟨int 9007199254740993, real ⟨0x4340000000000000⟩, ⟨by decide, by decide⟩,
    (by decide : Double.isFinite ⟨0x4340000000000000⟩ = true), by decide +kernel, ?_⟩
  rw [Ne, value_inj]
  decide +kernel

end EntityStore.Number
