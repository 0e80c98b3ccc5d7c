import EntityStore.Query.Planning
import EntityStore.Proofs.Decimal
import EntityStore.Proofs.Filter.Admissible

/-!
# Operands of checked filters

Every operand of a checked filter is a value of the type of its property, and every value that the predicate of a query
compares with is a JSON value other than null. Main statement: `inhabits_and_hasValues_of_read`.
-/
namespace EntityStore

namespace Filter

/-- The operand is a value of the type that the comparator can ask for. Only null is without a type. -/
inductive Inhabits (op : Comparator) : EdmType → Operand → Prop
  | null {type : EdmType} (equality : op.isOrdering = false) : Inhabits op type .null
  | string (s : String) : Inhabits op .string (.string s)
  | boolean (b : Bool) (equality : op.isOrdering = false) : Inhabits op .boolean (.boolean b)
  | integer {n : Int} (lower : -2147483648 ≤ n) (upper : n ≤ 2147483647) : Inhabits op .int32 (.integer n)
  | dateTime {millis : Int} (lower : -6847804800000 ≤ millis) (upper : millis ≤ 253402300799999) :
      Inhabits op .dateTime (.dateTime millis)
  | single {x : Double} (finite : x.isFinite = true) : Inhabits op .single (.double x)
  | double {x : Double} (finite : x.isFinite = true) : Inhabits op .double (.double x)

/-- A comparison of a checked filter. -/
structure Comparison where
  property : PropertyUse
  op : Comparator
  operand : Operand

end Filter

open EntityStore.Filter

/-- The comparisons of a checked filter from left to right. -/
def TypedFilter.comparisons : TypedFilter → List Comparison
  | compare property op operand => [⟨property, op, operand⟩]
  | test _ _ _ => []
  | join _ left right => left.comparisons ++ right.comparisons
  | group inner => inner.comparisons

namespace Predicate

/-- A predicate and what it is made of. -/
inductive Part : Predicate → Predicate → Prop
  | self (p : Predicate) : Part p p
  | not {p inner : Predicate} (part : Part p inner) : Part p (.not inner)
  | and {p clause : Predicate} {clauses : List Predicate} (mem : clause ∈ clauses) (part : Part p clause) :
      Part p (.and clauses)
  | or {p clause : Predicate} {clauses : List Predicate} (mem : clause ∈ clauses) (part : Part p clause) :
      Part p (.or clauses)

/-- A range with one end, which has a value. -/
inductive OneBound : Option Bound → Option Bound → Prop
  | lower {b : Bound} (value : b.value ≠ .null) : OneBound (some b) none
  | upper {b : Bound} (value : b.value ≠ .null) : OneBound none (some b)

/-- What a single node compares with: a term has a value, and a range has one end. -/
def ComparesValue : Predicate → Prop
  | term _ value => value ≠ .null
  | range _ lower upper => OneBound lower upper
  | _ => True

/-- No part of the predicate compares with null, and each of its ranges has one end. -/
def HasValues (p : Predicate) : Prop := ∀ part, Part part p → part.ComparesValue

end Predicate

namespace Filter

/-! ## Finite values -/

theorem isFinite_of_double {x : Double} (hnumber : x.isNaN = false) (h : Range.double x = true) :
    x.isFinite = true := by
  have hmax : Range.doubleMax.magnitude < Double.unitsOf Double.infinityBits := by decide +kernel
  refine Double.isFinite_of_magnitude_ne hnumber ?_
  rcases (Range.double_iff hnumber).mp h with hzero | ⟨-, hle⟩ <;> omega

/-- Without an exponent a number of ten digits is finite. -/
theorem isFinite_of_length {w : NumericWord} {exponent cs : List Char} (hspells : w.Spells exponent cs)
    (hexponent : w.exponent = none) (hlength : w.whole.length ≤ 5 ∧ (w.fraction.getD []).length ≤ 5) :
    w.toDouble.isFinite = true := by
  have hall : ∀ c ∈ w.whole ++ w.fraction.getD [], c.isDigit = true := by
    intro c hc
    rcases List.mem_append.mp hc with hc | hc
    · exact (Decimal.isDigits_iff.mp hspells.whole).2 c hc
    · cases hw : w.fraction with
      | none => simp [hw] at hc
      | some digits => exact (Decimal.isDigits_iff.mp (hspells.fraction digits hw)).2 c (by simpa [hw] using hc)
  have hdigits : w.numeral.digits < Double.twoTo 1023 := by
    calc w.numeral.digits < 10 ^ (w.whole ++ w.fraction.getD []).length := Decimal.ofDigits_lt hall
      _ ≤ 10 ^ 10 := Nat.pow_le_pow_right (by decide) (by rw [List.length_append]; omega)
      _ < Double.twoTo 34 := by decide
      _ ≤ Double.twoTo 1023 := Double.twoTo_mono (by decide)
  have hsmall : w.numeral.exponent ≤ 0 := by
    simp only [NumericWord.numeral, hexponent, Option.getD_none]
    omega
  exact Double.isFinite_ofDecimal _ hdigits hsmall

theorem isFinite_of_singleText {x : Double} {text : String} (hread : readNumber? text = some (.ok (.double x text)))
    (h : Range.singleText text = true) : x.isFinite = true := by
  obtain ⟨w, hw, rfl, hsuffix⟩ := exists_word_of_readNumber? hread
  cases hexponent : w.exponent with
  | none =>
    obtain ⟨exponent, hspells⟩ := NumericWord.exists_spells hw
    exact isFinite_of_length hspells hexponent ((singleText_iff_length hw hsuffix hexponent).mp h)
  | some n =>
    rw [singleText_iff_singleValue hw hsuffix (Option.isSome_of_eq_some hexponent), Range.singleValue,
      Bool.and_eq_true] at h
    exact h.1

theorem isFinite_of_natAbs_lt {n : Int} (h : n.natAbs < 100000) : (Double.ofInt n).isFinite = true :=
  Double.isFinite_ofInt (Nat.lt_of_lt_of_le h (Nat.le_trans (by decide : 100000 ≤ Double.twoTo 17)
    (Double.twoTo_mono (by decide))))

/-! ## Operands -/

theorem of_within {ok : Bool} {e : TypingError} {a v : Operand}
    (h : (if ok then .ok a else .error e : Except TypingError Operand) = .ok v) : ok = true ∧ v = a := by
  split at h
  · rename_i hok
    cases h
    exact ⟨hok, rfl⟩
  · cases h

/-- An operand that was accepted inhabits the type of its property. -/
theorem inhabits_of_coerce {use : PropertyUse} {op : Comparator} {literal : Literal} {k : TokenKind} {v : Operand}
    (hdenotes : Denotes k literal) (hvalue : op.isOrdering = true → literal.isNull = false)
    (hordered : op.isOrdering = true → use.effective ≠ .boolean) (h : coerce use op.word literal = .ok v) :
    Inhabits op use.effective v := by
  have hcoerces := coerces use hdenotes hvalue
  rw [h] at hcoerces
  obtain ⟨name, declared, effective, multiplicity⟩ := use
  cases hcoerces with
  | value _ htaken hinside =>
  cases htaken with
  | null equality =>
    cases h
    exact .null equality
  | string s =>
    cases h
    exact .string s
  | boolean b =>
    cases h
    refine .boolean b ?_
    cases hop : op.isOrdering with
    | false => rfl
    | true => exact absurd rfl (hordered hop)
  | integer n type_mem | long n type_mem =>
    cases effective with
    | int32 =>
      obtain ⟨-, rfl⟩ := of_within h
      exact .integer hinside.1 hinside.2
    | single =>
      obtain ⟨-, rfl⟩ := of_within h
      exact .single (isFinite_of_natAbs_lt hinside)
    | double =>
      obtain ⟨hpasses, rfl⟩ := of_within h
      exact .double (isFinite_of_double (Double.isNaN_ofInt n) hpasses)
    | dateTime =>
      obtain ⟨-, rfl⟩ := of_within h
      exact .dateTime hinside.1 hinside.2
    | string | boolean | undeclared => cases h
  | double x text type_mem =>
    have hread := hdenotes.readNumber?_double
    cases effective with
    | single =>
      obtain ⟨hpasses, rfl⟩ := of_within h
      exact .single (isFinite_of_singleText hread hpasses)
    | double =>
      obtain ⟨hpasses, rfl⟩ := of_within h
      obtain ⟨w, -, rfl, -⟩ := exists_word_of_readNumber? hread
      exact .double (isFinite_of_double (Double.isNaN_ofNumeral w.numeral) hpasses)
    | int32 | dateTime => cases hinside
    | string | boolean | undeclared => cases h
  | wide x wide type_mem =>
    cases effective with
    | int32 | dateTime => cases hinside
    | string | single | double | boolean | undeclared => contradiction
  | dateTime n | dateTimeOffset n =>
    obtain ⟨-, rfl⟩ := of_within h
    exact .dateTime hinside.1 hinside.2

section

variable {schema : Schema} {entityType name : String} {op : Comparator} {call : StringTest} {literal : Literal}
  {c : TypedFilter}

theorem of_typed_compare (h : typed schema entityType (.compare name op literal) = .ok c) :
    ∃ use operand, c = .compare use op operand ∧ resolve schema entityType name literal = .ok use ∧
      (op.isOrdering = true → use.effective ≠ .boolean) ∧ coerce use op.word literal = .ok operand := by
  simp only [typed, bind_eq_ok] at h
  obtain ⟨use, hresolve, h⟩ := h
  split at h
  · cases h
  · rename_i hasks
    simp only [bind_eq_ok, pure_eq_ok] at h
    obtain ⟨operand, hcoerce, rfl⟩ := h
    exact ⟨use, operand, rfl, hresolve, fun hop hboolean => hasks (Leaf.asksOrder_iff.mpr ⟨hop, hboolean⟩), hcoerce⟩

theorem of_typed_test (h : typed schema entityType (.test call name literal) = .ok c) :
    ∃ use text, c = .test call use text ∧ resolve schema entityType name literal = .ok use := by
  simp only [typed, bind_eq_ok] at h
  obtain ⟨use, hresolve, h⟩ := h
  split at h
  · cases h
    exact ⟨use, _, rfl, hresolve⟩
  · cases h

end

theorem inhabits_of_typed {schema : Schema} {entityType : String} {t : Filter} {f : TypedFilter}
    (h : t.typed schema entityType = .ok f) (hwritten : ∀ leaf ∈ t.leaves, leaf.Written) :
    ∀ c ∈ f.comparisons, Inhabits c.op c.property.effective c.operand := by
  induction t generalizing f with
  | compare name op literal =>
    obtain ⟨use, v, rfl, _, hordered, hcoerce⟩ := of_typed_compare h
    obtain ⟨⟨k, hdenotes⟩, hvalue⟩ := hwritten (.compare name op literal) (List.mem_singleton_self _)
    have hinhabits : Inhabits op use.effective v := inhabits_of_coerce hdenotes hvalue hordered hcoerce
    simpa only [TypedFilter.comparisons, List.mem_singleton, forall_eq] using hinhabits
  | test call name literal =>
    obtain ⟨use, text, rfl, _⟩ := of_typed_test h
    intro c hc
    cases hc
  | join connective left right ihleft ihright =>
    simp only [typed, bind_eq_ok, pure_eq_ok] at h
    obtain ⟨left', hleft, right', hright, rfl⟩ := h
    intro c hc
    rcases List.mem_append.mp hc with hc | hc
    · exact ihleft hleft (fun leaf hleaf => hwritten leaf (List.mem_append_left _ hleaf)) c hc
    · exact ihright hright (fun leaf hleaf => hwritten leaf (List.mem_append_right _ hleaf)) c hc
  | group inner ih =>
    simp only [typed, bind_eq_ok, pure_eq_ok] at h
    obtain ⟨inner', hinner, rfl⟩ := h
    have hinhabits := ih hinner hwritten
    exact hinhabits

theorem toJson_ne_null {op : Comparator} {type : EdmType} {v : Operand} (h : Inhabits op type v) (hv : v ≠ .null) :
    v.toJson ≠ .null := by
  cases h with
  | null => exact absurd rfl hv
  | string | boolean | integer | dateTime => exact nofun
  | single finite | double finite => simp [Operand.toJson, finite]

end Filter

/-! ## Predicates -/

namespace Predicate

theorem HasValues.not {inner : Predicate} (h : inner.HasValues) : HasValues (.not inner) := by
  intro part hpart
  cases hpart with
  | self => trivial
  | not hpart => exact h part hpart

theorem HasValues.and {clauses : List Predicate} (h : ∀ clause ∈ clauses, clause.HasValues) :
    HasValues (.and clauses) := by
  intro part hpart
  cases hpart with
  | self => trivial
  | and mem hpart => exact h _ mem part hpart

theorem HasValues.or {clauses : List Predicate} (h : ∀ clause ∈ clauses, clause.HasValues) :
    HasValues (.or clauses) := by
  intro part hpart
  cases hpart with
  | self => trivial
  | or mem hpart => exact h _ mem part hpart

theorem hasValues_term {field : String} {value : Json} (h : value ≠ .null) : HasValues (.term field value) := by
  rintro _ ⟨⟩
  exact h

theorem hasValues_range {field : String} {lower upper : Option Bound} (h : OneBound lower upper) :
    HasValues (.range field lower upper) := by
  rintro _ ⟨⟩
  exact h

theorem hasValues_missing {field : String} : HasValues (.missing field) := by
  rintro _ ⟨⟩
  trivial

theorem hasValues_conjunction {clauses : List Predicate} (h : ∀ clause ∈ clauses, clause.HasValues) :
    HasValues (StoreQuery.conjunction clauses) := by
  match clauses with
  | [] =>
    rintro _ ⟨⟩
    trivial
  | [clause] => exact h clause (List.mem_singleton_self _)
  | first :: second :: rest => exact .and h

end Predicate

namespace Filter

theorem hasValues_comparison {op : Comparator} {type : EdmType} {v : Operand} (h : Inhabits op type v)
    (field : String) : (comparison field op v).HasValues := by
  unfold comparison
  split
  · cases op with
    | ne => exact .not Predicate.hasValues_missing
    | eq | gt | ge | lt | le => exact Predicate.hasValues_missing
  · rename_i hv
    have hvalue := toJson_ne_null h hv
    cases op with
    | eq => exact Predicate.hasValues_term hvalue
    | ne => exact .not (Predicate.hasValues_term hvalue)
    | gt | ge => exact Predicate.hasValues_range (.lower hvalue)
    | lt | le => exact Predicate.hasValues_range (.upper hvalue)

end Filter

theorem TypedFilter.hasValues_predicate {f : TypedFilter}
    (h : ∀ c ∈ f.comparisons, Inhabits c.op c.property.effective c.operand) : f.predicate.HasValues := by
  induction f with
  | compare property op v => exact hasValues_comparison (h ⟨property, op, v⟩ (List.mem_singleton_self _)) _
  | test call property text =>
    cases call with
    | startsWith | substringOf =>
      rintro _ ⟨⟩
      trivial
  | join connective left right ihleft ihright =>
    have hboth : ∀ clause ∈ [left.predicate, right.predicate], clause.HasValues := by
      simp only [List.forall_mem_cons]
      exact ⟨ihleft fun c hc => h c (List.mem_append_left _ hc), ihright fun c hc => h c (List.mem_append_right _ hc),
        nofun⟩
    cases connective with
    | and => exact .and hboth
    | or => exact .or hboth
  | group inner ih => exact ih h

/-- Every operand of a filter that was read and checked is a value of the type of its property, and so the predicate of
a query with this filter compares with values only. -/
theorem inhabits_and_hasValues_of_read {schema : Schema} {entityType text : String} {f : TypedFilter}
    (h : TypedFilter.read schema entityType text = .ok f) :
    (∀ c ∈ f.comparisons, Inhabits c.op c.property.effective c.operand) ∧
      ∀ o : QueryOptions, (StoreQuery.build (some f) o).predicate.HasValues := by
  simp only [TypedFilter.read, bind_eq_ok, mapError_eq_ok] at h
  obtain ⟨t, hparse, htyped⟩ := h
  obtain ⟨ks, hsentence, -⟩ := Filter.exists_sentence_of_parse hparse
  have hinhabits := inhabits_of_typed htyped (written_of_derives hsentence.derives)
  refine ⟨hinhabits, fun o => Predicate.hasValues_conjunction ?_⟩
  intro clause hclause
  simp only [Option.map_some, Option.toList_some, List.mem_append, List.mem_singleton, List.mem_map,
    Option.mem_toList, Option.map_eq_some_iff] at hclause
  rcases hclause with (rfl | ⟨word, -, rfl⟩) | ⟨key, -, rfl⟩
  · exact TypedFilter.hasValues_predicate hinhabits
  · rintro _ ⟨⟩
    trivial
  · rintro _ ⟨⟩
    trivial

/-- A single that is written with an exponent, next to a comparison with null. -/
theorem inhabits_and_hasValues_exponent :
    ∃ f, TypedFilter.read
        (Schema.empty.register ((EntityType.named "Sales").declare (.declared "Sales" "price" .single))) "Sales"
        "price ge 1.25e2 and price ne null" = .ok f ∧
      (∀ c ∈ f.comparisons, Inhabits c.op c.property.effective c.operand) ∧
      ∀ o : QueryOptions, (StoreQuery.build (some f) o).predicate.HasValues := by
  let schema := Schema.empty.register ((EntityType.named "Sales").declare (.declared "Sales" "price" .single))
  let price : Double := .ofDecimal false 125 0
  let t : Filter := .join .and (.compare "price" .ge (.double price "1.25e2")) (.compare "price" .ne .null)
  let f : TypedFilter := .join .and (.compare ⟨"price", .single, .single, .scalar⟩ .ge (.double price))
    (.compare ⟨"price", .single, .single, .scalar⟩ .ne .null)
  have hparse : Filter.parse "price ge 1.25e2 and price ne null" = .ok t := by decide +kernel
  have htyped : t.typed schema "Sales" = .ok f := by decide +kernel
  have hread : TypedFilter.read schema "Sales" "price ge 1.25e2 and price ne null" = .ok f := by
    simp [TypedFilter.read, hparse, htyped]
  exact ⟨f, hread, inhabits_and_hasValues_of_read hread⟩

end EntityStore
