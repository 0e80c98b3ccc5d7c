import EntityStore.Proofs.Filter.Printing
import EntityStore.Proofs.Schema.DoubleRange
import EntityStore.Proofs.Schema.SingleBudget

/-!
# Admissible filters

Which comparisons and calls fit a schema, apart from how they are checked, and what is wrong with the others. A filter
is checked leaf by leaf from the left. Numbers are checked after rounding, so a few pass that are out of range as they
are written. Main statement: `typed_of_admissible_and_iff_of_decided`.
-/
namespace EntityStore

namespace Filter

/-- A comparison or a call of a filter. -/
inductive Leaf where
  | compare (name : String) (op : Comparator) (operand : Literal)
  | test (call : StringTest) (name : String) (operand : Literal)
  deriving DecidableEq

/-- The comparisons and calls of a filter from left to right. -/
def leaves : Filter → List Leaf
  | compare name op operand => [.compare name op operand]
  | test call name operand => [.test call name operand]
  | join _ left right => left.leaves ++ right.leaves
  | group inner => inner.leaves

/-- A property of the type has this name, which is neither reserved nor that of a navigation. -/
structure Names (schema : Schema) (entityType name : String) (p : Property) : Prop where
  notReserved : Name.isReserved name = false
  notNavigation : Name.isNavigation name = false
  property : schema.property? entityType name = some p

theorem Names.unique {schema : Schema} {entityType name : String} {p p' : Property}
    (h : Names schema entityType name p) (h' : Names schema entityType name p') : p = p' :=
  Option.some.inj (h.property.symm.trans h'.property)

/-- The type of a property, declared or recorded, or that of the operand if it has none. -/
def effectiveType (p : Property) (operand : Literal) : EdmType :=
  if p.type = .undeclared then operand.type else p.type

/-- The types that a comparison takes an operand for. Nothing takes a number with the suffix `f` or `m`. -/
inductive Takes (op : Comparator) : EdmType → Literal → Prop
  | null {type : EdmType} (equality : op.isOrdering = false) : Takes op type .null
  | string (s : String) : Takes op .string (.string s)
  | boolean (b : Bool) : Takes op .boolean (.boolean b)
  | integer {type : EdmType} (n : Int) (type_mem : type ∈ [.int32, .single, .double, .dateTime]) :
      Takes op type (.integer n)
  | long {type : EdmType} (n : Int) (type_mem : type ∈ [.int32, .single, .double, .dateTime]) :
      Takes op type (.long n)
  | double {type : EdmType} (x : Double) (text : String) (type_mem : type ∈ [.single, .double]) :
      Takes op type (.double x text)
  /-- An integer of more than 64 bits is still an integer, though out of range. -/
  | wide {type : EdmType} (x : Double) {text : String} (wide : IsWide text) (type_mem : type ∈ [.int32, .dateTime]) :
      Takes op type (.double x text)
  | dateTime (millis : Int) : Takes op .dateTime (.dateTime millis)
  | dateTimeOffset (millis : Int) : Takes op .dateTime (.dateTimeOffset millis)

/-- From the year 1753 to the year 9999. -/
def FitsDateTime (millis : Int) : Prop := -6847804800000 ≤ millis ∧ millis ≤ 253402300799999

/-- What numbers the types with fractions have: singles by their digits, doubles by their values. -/
structure Ranges where
  single : NumericWord → Prop
  double : ℚ → Prop

/-- The ranges of the types for numbers as they are written. -/
def Ranges.written : Ranges := ⟨NumericWord.FitsSingle, Range.FitsDouble⟩

/-- The ranges of the types but for errors of rounding. -/
def Ranges.rounded : Ranges := ⟨NumericWord.NearSingle, Range.NearDouble⟩

/-- The range of a type, for the operands that it takes. -/
def InRange (r : Ranges) : EdmType → Literal → Prop
  | .int32, .integer n | .int32, .long n => -2147483648 ≤ n ∧ n ≤ 2147483647
  | .int32, .double _ _ | .dateTime, .double _ _ => False
  | .single, .integer n | .single, .long n => n.natAbs < 100000
  | .single, .double _ text => ∃ w, NumericWord.read? text.toList = some w ∧ r.single w
  | .double, .integer n | .double, .long n => r.double n
  | .double, .double _ text => ∃ w, NumericWord.read? text.toList = some w ∧ r.double w.numeral.value
  | .dateTime, .integer n | .dateTime, .long n | .dateTime, .dateTime n | .dateTime, .dateTimeOffset n =>
    FitsDateTime n
  | _, _ => True

namespace Leaf

def name : Leaf → String
  | compare name _ _ | test _ name _ => name

/-- The filter of a single leaf. -/
def toFilter : Leaf → Filter
  | compare name op operand => .compare name op operand
  | test call name operand => .test call name operand

/-- The leaf fits an entity type, with these ranges. -/
def Fits (r : Ranges) (schema : Schema) (entityType : String) : Leaf → Prop
  | compare name op operand => ∃ p, Names schema entityType name p ∧
      (op.isOrdering = true → effectiveType p operand ≠ .boolean) ∧
      Takes op (effectiveType p operand) operand ∧ InRange r (effectiveType p operand) operand
  | test _ name operand => ∃ p, Names schema entityType name p ∧
      effectiveType p operand = .string ∧ ∃ s, operand = .string s

/-- The leaf fits an entity type as it is written. -/
def Admissible (schema : Schema) (entityType : String) (leaf : Leaf) : Prop := leaf.Fits .written schema entityType

/-- The leaf fits an entity type but for errors of rounding. -/
def Passable (schema : Schema) (entityType : String) (leaf : Leaf) : Prop := leaf.Fits .rounded schema entityType

/-- What is wrong with a leaf. Each fault supposes that there is none of those before it. -/
inductive Fault (schema : Schema) (entityType : String) : Leaf → TypingError → Prop
  | unknownKey {leaf : Leaf} (unknown : ∀ p, ¬ Names schema entityType leaf.name p) :
      Fault schema entityType leaf (.unknownKey entityType leaf.name)
  | notOrdered {name : String} {op : Comparator} {operand : Literal} {p : Property}
      (names : Names schema entityType name p) (ordering : op.isOrdering = true)
      (boolean : effectiveType p operand = .boolean) :
      Fault schema entityType (.compare name op operand) (.notOrdered p.name op.word)
  | mismatch {name : String} {op : Comparator} {operand : Literal} {p : Property}
      (names : Names schema entityType name p)
      (ordered : op.isOrdering = true → effectiveType p operand ≠ .boolean)
      (refused : ¬ Takes op (effectiveType p operand) operand) :
      Fault schema entityType (.compare name op operand)
        (.mismatch p.name op.word (effectiveType p operand) operand.className)
  | outOfRange {name : String} {op : Comparator} {operand : Literal} {p : Property}
      (names : Names schema entityType name p)
      (ordered : op.isOrdering = true → effectiveType p operand ≠ .boolean)
      (taken : Takes op (effectiveType p operand) operand)
      (outside : ¬ InRange .written (effectiveType p operand) operand) :
      Fault schema entityType (.compare name op operand)
        (.outOfRange p.name (effectiveType p operand) operand.text)
  | call {name : String} {call : StringTest} {operand : Literal} {p : Property}
      (names : Names schema entityType name p)
      (noString : ¬ (effectiveType p operand = .string ∧ ∃ s, operand = .string s)) :
      Fault schema entityType (.test call name operand)
        (.mismatch p.name call.word (effectiveType p operand) operand.className)

/-- The operand was read from a token, and no order is asked for with null. -/
def Written : Leaf → Prop
  | compare _ op operand => (∃ k, Denotes k operand) ∧ (op.isOrdering = true → operand.isNull = false)
  | test _ _ operand => ∃ k, Denotes k operand

end Leaf

variable {schema : Schema} {entityType : String}

/-! ## Ranges -/

theorem int32_iff (n : Int) : Range.int32 n = true ↔ -2147483648 ≤ n ∧ n ≤ 2147483647 := by
  simp [Range.int32]

theorem dateTime_iff (millis : Int) : Range.dateTime millis = true ↔ FitsDateTime millis := by
  simp [Range.dateTime, FitsDateTime]

theorem Denotes.readNumber?_double {k : TokenKind} {x : Double} {text : String} (h : Denotes k (.double x text)) :
    readNumber? text = some (.ok (.double x text)) := by
  cases h with
  | number hread =>
    obtain ⟨rfl, -⟩ := readNumber?_eq_double hread
    exact hread

theorem exists_word_iff {text : String} {w : NumericWord} (hread : NumericWord.read? text.toList = some w)
    {P : NumericWord → Prop} : (∃ w', NumericWord.read? text.toList = some w' ∧ P w') ↔ P w := by
  simp only [hread, Option.some.injEq, exists_eq_left']

/-! ## Operands -/

/-- What checking an operand comes to: first its class decides, then its range. -/
inductive Coerces (use : PropertyUse) (op : Comparator) (operand : Literal) : Except TypingError Operand → Prop
  | value (v : Operand) (taken : Takes op use.effective operand) (inside : InRange .rounded use.effective operand) :
      Coerces use op operand (.ok v)
  | outOfRange (taken : Takes op use.effective operand) (outside : ¬ InRange .written use.effective operand) :
      Coerces use op operand (.error (.outOfRange use.name use.effective operand.text))
  | mismatch (refused : ¬ Takes op use.effective operand) :
      Coerces use op operand (.error (.mismatch use.name op.word use.effective operand.className))

theorem Coerces.within {use : PropertyUse} {op : Comparator} {operand : Literal} {ok : Bool} (v : Operand)
    (taken : Takes op use.effective operand) (passes : InRange .written use.effective operand → ok = true)
    (inside : ok = true → InRange .rounded use.effective operand) :
    Coerces use op operand
      (if ok then .ok v else .error (.outOfRange use.name use.effective operand.text)) := by
  split
  · rename_i hok
    exact .value v taken (inside hok)
  · rename_i hok
    exact .outOfRange taken fun hin => hok (passes hin)

/-- Every operand that a filter can be read with is checked so. -/
theorem coerces (use : PropertyUse) {op : Comparator} {operand : Literal} {k : TokenKind}
    (hdenotes : Denotes k operand) (hvalue : op.isOrdering = true → operand.isNull = false) :
    Coerces use op operand (coerce use op.word operand) := by
  obtain ⟨name, declared, effective, multiplicity⟩ := use
  cases operand with
  | null =>
    have hequality : op.isOrdering = false := by
      cases hop : op.isOrdering with
      | false => rfl
      | true => cases hvalue hop
    cases effective <;> exact .value .null (.null hequality) trivial
  | string s =>
    cases effective with
    | string => exact .value _ (.string s) trivial
    | int32 | single | double | boolean | dateTime | undeclared => exact .mismatch nofun
  | boolean b =>
    cases effective with
    | boolean => exact .value _ (.boolean b) trivial
    | string | int32 | single | double | dateTime | undeclared => exact .mismatch nofun
  | integer n | long n =>
    cases effective with
    | int32 => exact .within _ (by constructor; simp) (int32_iff n).mpr (int32_iff n).mp
    | single =>
      have hsingle := singleText_toString_iff n
      exact .within _ (by constructor; simp) hsingle.mpr hsingle.mp
    | double => exact .within _ (by constructor; simp) Range.double_ofInt_of_fitsDouble Range.nearDouble_of_double_ofInt
    | dateTime => exact .within _ (by constructor; simp) (dateTime_iff n).mpr (dateTime_iff n).mp
    | string | boolean | undeclared =>
      refine .mismatch ?_
      rintro ⟨⟩
      contradiction
  | double x text =>
    have hread := hdenotes.readNumber?_double
    obtain ⟨w, hw, rfl, hsuffix⟩ := exists_word_of_readNumber? hread
    cases effective with
    | single =>
      refine .within _ (.double _ text (by simp)) (fun hfits => ?_) fun hpasses => ?_
      · exact singleText_of_fitsSingle hw hsuffix ((exists_word_iff hw).mp hfits)
      · exact (exists_word_iff hw).mpr (nearSingle_of_singleText hw hsuffix hpasses)
    | double =>
      refine .within _ (.double _ text (by simp)) (fun hfits => ?_) fun hpasses => ?_
      · exact Range.double_of_fitsDouble ((exists_word_iff hw).mp hfits)
      · exact (exists_word_iff hw).mpr (Range.nearDouble_of_double hpasses)
    | int32 | dateTime =>
      by_cases hwide : IsWide text
      · simp only [coerce, (isIntegerText_iff_isWide hread).mpr hwide, if_true]
        exact .outOfRange (.wide _ hwide (by simp)) id
      · simp only [coerce, mt (isIntegerText_iff_isWide hread).mp hwide]
        refine .mismatch ?_
        rintro ⟨⟩
        all_goals contradiction
    | string | boolean | undeclared =>
      refine .mismatch ?_
      rintro ⟨⟩
      all_goals contradiction
  | dateTime n | dateTimeOffset n =>
    cases effective with
    | dateTime => exact .within _ (by constructor) (dateTime_iff n).mpr (dateTime_iff n).mp
    | string | int32 | single | double | boolean | undeclared => exact .mismatch nofun
  | single _ _ | decimal _ => cases effective <;> exact .mismatch nofun

/-! ## Leaves -/

/-- The property as a filter uses it with an operand. -/
def usedWith (p : Property) (operand : Literal) : PropertyUse :=
  ⟨p.name, p.type, effectiveType p operand, p.multiplicity⟩

theorem resolve_of_names {name : String} {p : Property} (h : Names schema entityType name p) (operand : Literal) :
    resolve schema entityType name operand = .ok (usedWith p operand) := by
  rw [resolve, h.notReserved, h.notNavigation, h.property]
  rfl

theorem resolve_of_unknown {name : String} (h : ∀ p, ¬ Names schema entityType name p) (operand : Literal) :
    resolve schema entityType name operand = .error (.unknownKey entityType name) := by
  unfold resolve
  split
  · rfl
  · rename_i hname
    split
    · rfl
    · rename_i p hp
      simp only [Bool.or_eq_true, not_or, Bool.not_eq_true] at hname
      exact absurd ⟨hname.1, hname.2, hp⟩ (h p)

namespace Leaf

/-- Checks a leaf for its faults only. -/
def check (schema : Schema) (entityType : String) (leaf : Leaf) : Except TypingError Unit :=
  (leaf.toFilter.typed schema entityType).map fun _ => ()

variable {leaf : Leaf} {name : String} {op : Comparator} {call : StringTest} {operand : Literal} {p : Property}

theorem fits_compare_iff {r : Ranges} (hp : Names schema entityType name p) :
    (compare name op operand).Fits r schema entityType ↔
      (op.isOrdering = true → effectiveType p operand ≠ .boolean) ∧
        Takes op (effectiveType p operand) operand ∧ InRange r (effectiveType p operand) operand := by
  refine ⟨fun h => ?_, fun h => ⟨p, hp, h⟩⟩
  obtain ⟨p', hp', h⟩ := h
  rwa [hp.unique hp']

theorem fits_test_iff {r : Ranges} (hp : Names schema entityType name p) :
    (test call name operand).Fits r schema entityType ↔
      effectiveType p operand = .string ∧ ∃ s, operand = .string s := by
  refine ⟨fun h => ?_, fun h => ⟨p, hp, h⟩⟩
  obtain ⟨p', hp', h⟩ := h
  rwa [hp.unique hp']

theorem asksOrder_iff {type : EdmType} :
    (op.isOrdering && !type.isOrdered) = true ↔ op.isOrdering = true ∧ type = .boolean := by
  cases type <;> simp [EdmType.isOrdered]

theorem check_of_unknown (hunknown : ∀ p, ¬ Names schema entityType leaf.name p) :
    leaf.check schema entityType = .error (.unknownKey entityType leaf.name) := by
  cases leaf with
  | compare name op operand | test call name operand =>
    have hresolve : resolve schema entityType name operand = _ := resolve_of_unknown hunknown operand
    rw [check, toFilter, typed, hresolve]
    rfl

theorem check_compare (hp : Names schema entityType name p) :
    (compare name op operand).check schema entityType =
      if op.isOrdering && !(usedWith p operand).effective.isOrdered then .error (.notOrdered p.name op.word)
      else (coerce (usedWith p operand) op.word operand).map fun _ => () := by
  simp only [check, toFilter, typed, resolve_of_names hp, bind, Except.bind]
  by_cases hasks : (op.isOrdering && !(usedWith p operand).effective.isOrdered) = true
  · rw [if_pos hasks, if_pos hasks]
    rfl
  · rw [if_neg hasks, if_neg hasks]
    cases coerce (usedWith p operand) op.word operand <;> rfl

theorem check_compare_of_ordered (hp : Names schema entityType name p)
    (hordered : op.isOrdering = true → effectiveType p operand ≠ .boolean) :
    (compare name op operand).check schema entityType =
      (coerce (usedWith p operand) op.word operand).map fun _ => () := by
  rw [check_compare hp, if_neg]
  intro hasks
  obtain ⟨hordering, hboolean⟩ := asksOrder_iff.mp hasks
  exact hordered hordering hboolean

theorem check_test_of_string {text : String} (hp : Names schema entityType name p)
    (hstring : effectiveType p (.string text) = .string) :
    (test call name (.string text)).check schema entityType = .ok () := by
  have heffective : (usedWith p (.string text)).effective = .string := hstring
  simp only [check, toFilter, typed, resolve_of_names hp, bind, Except.bind, heffective]
  rfl

theorem check_test_of_other (hp : Names schema entityType name p)
    (hother : ¬ (effectiveType p operand = .string ∧ ∃ s, operand = .string s)) :
    (test call name operand).check schema entityType =
      .error (.mismatch p.name call.word (effectiveType p operand) operand.className) := by
  simp only [check, toFilter, typed, resolve_of_names hp, bind, Except.bind]
  split
  · rename_i s hstring
    exact absurd ⟨hstring, s, rfl⟩ hother
  · rfl

/-- What checking a leaf comes to. -/
theorem check_cases (schema : Schema) (entityType : String) (hwritten : leaf.Written) :
    leaf.check schema entityType = .ok () ∧ leaf.Passable schema entityType ∨
      ∃ e, leaf.check schema entityType = .error e ∧ ¬ leaf.Admissible schema entityType ∧
        leaf.Fault schema entityType e := by
  by_cases hname : ∃ p, Names schema entityType leaf.name p
  · obtain ⟨p, hp⟩ := hname
    cases leaf with
    | compare name op operand =>
      have hp : Names schema entityType name p := hp
      by_cases hordered : op.isOrdering = true → effectiveType p operand ≠ .boolean
      · obtain ⟨⟨k, hdenotes⟩, hvalue⟩ := hwritten
        rw [check_compare_of_ordered hp hordered]
        have hcoerces := coerces (usedWith p operand) hdenotes hvalue
        generalize coerce (usedWith p operand) op.word operand = result at hcoerces
        cases hcoerces with
        | value v taken inside => exact .inl ⟨rfl, p, hp, hordered, taken, inside⟩
        | outOfRange taken outside =>
          refine .inr ⟨_, rfl, ?_, .outOfRange hp hordered taken outside⟩
          exact mt (fits_compare_iff hp).mp fun h => outside h.2.2
        | mismatch refused =>
          refine .inr ⟨_, rfl, ?_, .mismatch hp hordered refused⟩
          exact mt (fits_compare_iff hp).mp fun h => refused h.2.1
      · obtain ⟨hordering, hboolean⟩ := Classical.not_imp.mp hordered
        have hasks : (op.isOrdering && !(usedWith p operand).effective.isOrdered) = true :=
          asksOrder_iff.mpr ⟨hordering, Classical.not_not.mp hboolean⟩
        rw [check_compare hp, if_pos hasks]
        refine .inr ⟨_, rfl, ?_, .notOrdered hp hordering (Classical.not_not.mp hboolean)⟩
        exact mt (fits_compare_iff hp).mp fun h => hordered h.1
    | test call name operand =>
      by_cases hstring : effectiveType p operand = .string ∧ ∃ s, operand = .string s
      · obtain ⟨heffective, s, rfl⟩ := hstring
        exact .inl ⟨check_test_of_string hp heffective, p, hp, heffective, s, rfl⟩
      · refine .inr ⟨_, check_test_of_other hp hstring, ?_, .call hp hstring⟩
        exact mt (fits_test_iff hp).mp hstring
  · have hunknown : ∀ p, ¬ Names schema entityType leaf.name p := fun p hp => hname ⟨p, hp⟩
    refine .inr ⟨_, check_of_unknown hunknown, fun hadmissible => hname ?_, .unknownKey hunknown⟩
    cases leaf with
    | compare name op operand | test call name operand =>
      obtain ⟨p, hp, -⟩ := hadmissible
      exact ⟨p, hp⟩

theorem check_of_admissible (hwritten : leaf.Written) (h : leaf.Admissible schema entityType) :
    leaf.check schema entityType = .ok () := by
  obtain ⟨hok, -⟩ | ⟨e, -, hinadmissible, -⟩ := check_cases schema entityType hwritten
  · exact hok
  · exact absurd h hinadmissible

theorem passable_of_check (hwritten : leaf.Written) (h : leaf.check schema entityType = .ok ()) :
    leaf.Passable schema entityType := by
  obtain ⟨-, hpassable⟩ | ⟨e, herror, -⟩ := check_cases schema entityType hwritten
  · exact hpassable
  · cases h.symm.trans herror

theorem fault_of_check {e : TypingError} (hwritten : leaf.Written) (h : leaf.check schema entityType = .error e) :
    ¬ leaf.Admissible schema entityType ∧ leaf.Fault schema entityType e := by
  obtain ⟨hok, -⟩ | ⟨e', herror, hfault⟩ := check_cases schema entityType hwritten
  · cases h.symm.trans hok
  · cases h.symm.trans herror
    exact hfault

/-- A leaf has one fault at most. -/
theorem Fault.unique {e e' : TypingError} (h : leaf.Fault schema entityType e)
    (h' : leaf.Fault schema entityType e') : e = e' := by
  cases h with
  | unknownKey unknown =>
    cases h' with
    | unknownKey => rfl
    | notOrdered names | mismatch names | outOfRange names | call names => exact absurd names (unknown _)
  | notOrdered names ordering boolean =>
    cases h' with
    | unknownKey unknown => exact absurd names (unknown _)
    | notOrdered names' =>
      obtain rfl := names.unique names'
      rfl
    | mismatch names' ordered | outOfRange names' ordered =>
      obtain rfl := names.unique names'
      exact absurd boolean (ordered ordering)
  | mismatch names ordered refused =>
    cases h' with
    | unknownKey unknown => exact absurd names (unknown _)
    | notOrdered names' ordering boolean =>
      obtain rfl := names.unique names'
      exact absurd boolean (ordered ordering)
    | mismatch names' =>
      obtain rfl := names.unique names'
      rfl
    | outOfRange names' _ taken =>
      obtain rfl := names.unique names'
      exact absurd taken refused
  | outOfRange names ordered taken =>
    cases h' with
    | unknownKey unknown => exact absurd names (unknown _)
    | notOrdered names' ordering boolean =>
      obtain rfl := names.unique names'
      exact absurd boolean (ordered ordering)
    | mismatch names' _ refused =>
      obtain rfl := names.unique names'
      exact absurd taken refused
    | outOfRange names' =>
      obtain rfl := names.unique names'
      rfl
  | call names =>
    cases h' with
    | unknownKey unknown => exact absurd names (unknown _)
    | call names' =>
      obtain rfl := names.unique names'
      rfl

section

variable (hwritten : leaf.Written) (hdecided : leaf.Passable schema entityType → leaf.Admissible schema entityType)

include hwritten hdecided

/-- Where rounding decides nothing, checking a leaf finds out whether it is admissible. -/
theorem check_eq_ok_iff : leaf.check schema entityType = .ok () ↔ leaf.Admissible schema entityType :=
  ⟨fun h => hdecided (passable_of_check hwritten h), check_of_admissible hwritten⟩

/-- Where rounding decides nothing, checking a leaf finds its fault. -/
theorem check_eq_error_iff {e : TypingError} : leaf.check schema entityType = .error e ↔
    ¬ leaf.Admissible schema entityType ∧ leaf.Fault schema entityType e := by
  refine ⟨fault_of_check hwritten, fun h => ?_⟩
  obtain ⟨hinadmissible, hfault⟩ := h
  obtain ⟨-, hpassable⟩ | ⟨e', herror, -, hfault'⟩ := check_cases schema entityType hwritten
  · exact absurd (hdecided hpassable) hinadmissible
  · rw [herror, hfault.unique hfault']

end

end Leaf

/-! ## Whole filters -/

/-- A filter is checked as its leaves are, one after the other. -/
theorem typed_eq_forM_check (schema : Schema) (entityType : String) (t : Filter) :
    (t.typed schema entityType).map (fun _ => ()) = forM t.leaves fun leaf => leaf.check schema entityType := by
  induction t with
  | compare | test =>
    rw [leaves, List.forM_cons, Leaf.check, Leaf.toFilter]
    cases typed schema entityType _ <;> rfl
  | join connective left right ihleft ihright =>
    rw [leaves, List.forM_append, ← ihleft, ← ihright, typed]
    cases left.typed schema entityType <;> cases right.typed schema entityType <;> rfl
  | group inner ih =>
    rw [leaves, ← ih, typed]
    cases inner.typed schema entityType <;> rfl

theorem typed_ok_iff_check (schema : Schema) (entityType : String) (t : Filter) :
    (∃ f, t.typed schema entityType = .ok f) ↔ ∀ leaf ∈ t.leaves, leaf.check schema entityType = .ok () := by
  rw [← forM_eq_ok, ← typed_eq_forM_check]
  simp

theorem typed_error_iff_check (schema : Schema) (entityType : String) (t : Filter) (e : TypingError) :
    t.typed schema entityType = .error e ↔
      ∃ before leaf after, t.leaves = before ++ leaf :: after ∧
        (∀ earlier ∈ before, earlier.check schema entityType = .ok ()) ∧
        leaf.check schema entityType = .error e := by
  rw [← forM_eq_error, ← typed_eq_forM_check, map_eq_error]

theorem written_of_derives {level : Level} {ks : List TokenKind} {t : Filter} (h : Derives level ks t) :
    ∀ leaf ∈ t.leaves, leaf.Written := by
  induction h with
  | compare _ _ denotes ordered =>
    simpa [leaves, Leaf.Written] using ⟨⟨_, denotes⟩, fun hop => (ordered hop).1⟩
  | startsWith _ denotes | substringOf _ denotes => simpa [leaves, Leaf.Written] using ⟨_, denotes⟩
  | group _ ih | single _ ih => exact ih
  | join _ _ ih ih' =>
    intro leaf hleaf
    rcases List.mem_append.mp hleaf with hleaf | hleaf
    · exact ih leaf hleaf
    · exact ih' leaf hleaf

/-- A filter that was read from a text is accepted if all its leaves are admissible, and only if they are so but for
errors of rounding. It is refused for the first fault of a leaf that is not admissible, while those before it pass. So,
where rounding decides nothing, it is accepted if and only if all its leaves are admissible, and otherwise the first
that is not decides. -/
theorem typed_of_admissible_and_iff_of_decided {text : String} {t : Filter} (h : parse text = .ok t) (schema : Schema)
    (entityType : String) :
    ((∀ leaf ∈ t.leaves, leaf.Admissible schema entityType) → ∃ f, t.typed schema entityType = .ok f) ∧
    ((∃ f, t.typed schema entityType = .ok f) → ∀ leaf ∈ t.leaves, leaf.Passable schema entityType) ∧
    (∀ e, t.typed schema entityType = .error e →
      ∃ before leaf after, t.leaves = before ++ leaf :: after ∧
        (∀ earlier ∈ before, earlier.Passable schema entityType) ∧
        ¬ leaf.Admissible schema entityType ∧ leaf.Fault schema entityType e) ∧
    ((∀ leaf ∈ t.leaves, leaf.Passable schema entityType → leaf.Admissible schema entityType) →
      ((∃ f, t.typed schema entityType = .ok f) ↔ ∀ leaf ∈ t.leaves, leaf.Admissible schema entityType) ∧
      ∀ e, t.typed schema entityType = .error e ↔
        ∃ before leaf after, t.leaves = before ++ leaf :: after ∧
          (∀ earlier ∈ before, earlier.Admissible schema entityType) ∧
          ¬ leaf.Admissible schema entityType ∧ leaf.Fault schema entityType e) := by
  obtain ⟨ks, hsentence, -⟩ := exists_sentence_of_parse h
  have hwritten := written_of_derives hsentence.derives
  have hsucceeds := typed_ok_iff_check schema entityType t
  have hfails := typed_error_iff_check schema entityType t
  refine ⟨fun hadmissible => hsucceeds.mpr fun leaf hleaf => ?_, fun hok leaf hleaf => ?_, fun e he => ?_,
    fun hdecided => ⟨?_, fun e => ?_⟩⟩
  · exact Leaf.check_of_admissible (hwritten leaf hleaf) (hadmissible leaf hleaf)
  · exact Leaf.passable_of_check (hwritten leaf hleaf) (hsucceeds.mp hok leaf hleaf)
  · obtain ⟨before, leaf, after, hleaves, hbefore, herror⟩ := (hfails e).mp he
    have hmem : ∀ earlier ∈ before, earlier ∈ t.leaves := fun earlier hmem => by simp [hleaves, hmem]
    refine ⟨before, leaf, after, hleaves, fun earlier hearlier => ?_, ?_⟩
    · exact Leaf.passable_of_check (hwritten earlier (hmem earlier hearlier)) (hbefore earlier hearlier)
    · exact Leaf.fault_of_check (hwritten leaf (by simp [hleaves])) herror
  · rw [hsucceeds]
    exact forall₂_congr fun leaf hleaf => Leaf.check_eq_ok_iff (hwritten leaf hleaf) (hdecided leaf hleaf)
  · rw [hfails e]
    refine exists₃_congr fun before leaf after => and_congr_right fun hleaves => ?_
    have hmem : ∀ earlier ∈ before, earlier ∈ t.leaves := fun earlier hmem => by simp [hleaves, hmem]
    have hleaf : leaf ∈ t.leaves := by simp [hleaves]
    refine and_congr (forall₂_congr fun earlier hearlier => ?_)
      (Leaf.check_eq_error_iff (hwritten leaf hleaf) (hdecided leaf hleaf))
    exact Leaf.check_eq_ok_iff (hwritten earlier (hmem earlier hearlier)) (hdecided earlier (hmem earlier hearlier))

/-- An exponent decides nothing here, and an integer of more than 64 bits is out of range. It counts before the unknown
name after it. -/
theorem typed_wide_integer :
    ∃ t, parse "size eq 1.5E2 and count lt 99999999999999999999 or colour eq 1" = .ok t ∧
      t.typed (Schema.empty.register (((EntityType.named "Sales").declare (.declared "Sales" "size" .single)).declare
        (.declared "Sales" "count" .int32))) "Sales" =
        .error (.outOfRange "count" .int32 "99999999999999999999") := by
  let schema := Schema.empty.register (((EntityType.named "Sales").declare (.declared "Sales" "size" .single)).declare
    (.declared "Sales" "count" .int32))
  let size : Leaf := .compare "size" .eq (.double (.ofDecimal false 15 1) "1.5E2")
  let count : Leaf := .compare "count" .lt (.double (.ofDecimal false 99999999999999999999 0) "99999999999999999999")
  let colour : Leaf := .compare "colour" .eq (.integer 1)
  let t : Filter := .join .or (.join .and size.toFilter count.toFilter) colour.toFilter
  have hparse : parse "size eq 1.5E2 and count lt 99999999999999999999 or colour eq 1" = .ok t := by decide +kernel
  have hcount : Names schema "Sales" "count" (.declared "Sales" "count" .int32) := ⟨rfl, rfl, rfl⟩
  have hwide : IsWide "99999999999999999999" :=
    ⟨⟨false, "99999999999999999999".toList, none, none, []⟩, by decide, rfl, rfl, by decide⟩
  have hsize : size.Admissible schema "Sales" := by
    let w : NumericWord := ⟨false, ['1'], some ['5'], some 2, []⟩
    have hread : NumericWord.read? "1.5E2".toList = some w := by decide
    have hvalue : w.numeral.value = 150 := by
      have hnumeral : w.numeral = ⟨false, 15, 1⟩ := by decide
      rw [hnumeral]
      norm_num [Decimal.Numeral.value]
    have hfits : w.FitsSingle := by
      change |w.numeral.value| < 10 ^ 5 ∧ ∃ k : ℤ, 10 ^ 5 * w.numeral.value = k
      rw [hvalue]
      exact ⟨by norm_num, 15000000, by norm_num⟩
    exact ⟨.declared "Sales" "size" .single, ⟨rfl, rfl, rfl⟩, by decide, .double _ _ (by decide), w, hread, hfits⟩
  have houtside : ∀ r, ¬ count.Fits r schema "Sales" := fun r =>
    mt (Leaf.fits_compare_iff hcount).mp fun h => h.2.2
  have hdecided : ∀ leaf ∈ t.leaves, leaf.Passable schema "Sales" → leaf.Admissible schema "Sales" := by
    change ∀ leaf ∈ [size, count, colour], _
    simp only [List.forall_mem_cons]
    refine ⟨fun _ => hsize, fun h => absurd h (houtside _), ?_, List.forall_mem_nil _⟩
    rintro ⟨p, ⟨-, -, hproperty⟩, -⟩
    cases hproperty
  obtain ⟨-, -, -, hfirst⟩ := typed_of_admissible_and_iff_of_decided hparse schema "Sales"
  refine ⟨t, hparse, ((hfirst hdecided).2 _).mpr ⟨[size], count, [colour], rfl, ?_, houtside _,
    .outOfRange hcount (by decide) (.wide _ hwide List.mem_cons_self) id⟩⟩
  simpa only [List.mem_singleton, forall_eq] using hsize

/-- Of two comparisons that are out of range as they are written the first has too many digits after the point, and the
second is not zero. Both pass. -/
theorem not_admissible_of_typed :
    let schema := Schema.empty.register (((EntityType.named "Sales").declare (.declared "Sales" "size" .single)).declare
      (.declared "Sales" "ratio" .double))
    ∃ t, parse "size eq 1e-12 and ratio eq 1e-400" = .ok t ∧ (∃ f, t.typed schema "Sales" = .ok f) ∧
      ∃ size ratio, t.leaves = [size, ratio] ∧
        ¬ size.Admissible schema "Sales" ∧ size.Fault schema "Sales" (.outOfRange "size" .single "1e-12") ∧
        ¬ ratio.Admissible schema "Sales" ∧ ratio.Fault schema "Sales" (.outOfRange "ratio" .double "1e-400") := by
  intro schema
  let size : Leaf := .compare "size" .eq (.double (.ofDecimal false 1 (-12)) "1e-12")
  let ratio : Leaf := .compare "ratio" .eq (.double (.ofDecimal false 1 (-400)) "1e-400")
  let t : Filter := .join .and size.toFilter ratio.toFilter
  let f : TypedFilter := .join .and
    (.compare ⟨"size", .single, .single, .scalar⟩ .eq (.double (.ofDecimal false 1 (-12))))
    (.compare ⟨"ratio", .double, .double, .scalar⟩ .eq (.double (.ofDecimal false 1 (-400))))
  have hparse : parse "size eq 1e-12 and ratio eq 1e-400" = .ok t := by decide +kernel
  have htyped : t.typed schema "Sales" = .ok f := by decide +kernel
  have hsize : Names schema "Sales" "size" (.declared "Sales" "size" .single) := ⟨rfl, rfl, rfl⟩
  have hratio : Names schema "Sales" "ratio" (.declared "Sales" "ratio" .double) := ⟨rfl, rfl, rfl⟩
  have hdigits : ¬ InRange .written .single (.double (.ofDecimal false 1 (-12)) "1e-12") := by
    let w : NumericWord := ⟨false, ['1'], none, some (-12), []⟩
    have hread : NumericWord.read? "1e-12".toList = some w := by decide
    have hvalue : |w.numeral.value| = (1 : ℕ) / 10 ^ 12 := Decimal.Numeral.abs_value_neg false 1 12
    have hmultiple : ¬ ∃ k : ℤ, 10 ^ 5 * w.numeral.value = k := by
      apply not_multiple_of_lt
      · rw [hvalue]
        positivity
      · rw [hvalue]
        norm_num
    exact mt (exists_word_iff hread).mp fun hfits => hmultiple hfits.2
  have hleast : ¬ InRange .written .double (.double (.ofDecimal false 1 (-400)) "1e-400") := by
    let w : NumericWord := ⟨false, ['1'], none, some (-400), []⟩
    have hread : NumericWord.read? "1e-400".toList = some w := by decide
    have hvalue : |w.numeral.value| = (1 : ℕ) / 10 ^ 400 := Decimal.Numeral.abs_value_neg false 1 400
    refine mt (exists_word_iff hread).mp ?_
    rintro (hzero | ⟨hmin, -⟩)
    · rw [hzero, abs_zero, eq_comm, div_eq_zero_iff] at hvalue
      norm_num at hvalue
    · have hlt : (10 : ℚ) ^ 310 < 10 ^ 400 := pow_lt_pow_right₀ (by norm_num) (by decide)
      have hbelow : ((1 : ℕ) : ℚ) / 10 ^ 400 < 223 / 10 ^ 310 :=
        div_lt_div₀' (by norm_num) hlt (by norm_num) (by positivity)
      exact absurd hmin (not_le.mpr (hvalue.trans_lt hbelow))
  refine ⟨t, hparse, ⟨f, htyped⟩, size, ratio, rfl,
    ?_, .outOfRange hsize (by decide) (.double _ _ (by decide)) hdigits,
    ?_, .outOfRange hratio (by decide) (.double _ _ (by decide)) hleast⟩
  · exact mt (Leaf.fits_compare_iff hsize).mp fun h => hdigits h.2.2
  · exact mt (Leaf.fits_compare_iff hratio).mp fun h => hleast h.2.2

end Filter

end EntityStore
