import EntityStore.Proofs.Query.Operands
import EntityStore.Proofs.Schema.Built
import Mathlib.Data.List.Forall2

/-!
# Orderings

What a check makes sure of, also for a filter that no text was read for: the names of its properties, and that no
Boolean is asked for an order. Whether null is asked for one is up to the filter. Every ordering by a value comes to a
range. Main statement: `orderings_of_typed`.
-/
namespace EntityStore

open EntityStore.Filter

/-- The comparisons and calls of a checked filter from left to right. -/
def TypedFilter.leaves : TypedFilter → List TypedFilter
  | compare property op operand => [.compare property op operand]
  | test call property text => [.test call property text]
  | join _ left right => left.leaves ++ right.leaves
  | group inner => inner.leaves

namespace Predicate

mutual

/-- What a predicate negates and combines, from left to right. -/
def leaves : Predicate → List Predicate
  | .not inner => inner.leaves
  | .and clauses | .or clauses => allLeaves clauses
  | p => [p]

def allLeaves : List Predicate → List Predicate
  | [] => []
  | clause :: rest => clause.leaves ++ allLeaves rest

end

end Predicate

/-- The condition that a comparison or a call comes to. Orderings ask for a range with one end, equalities for a value,
and null for what is missing. -/
inductive TypedFilter.ComesTo : TypedFilter → Predicate → Prop
  | lower {property : PropertyUse} {op : Comparator} {operand : Operand} (ordering : op = .gt ∨ op = .ge)
    (value : operand ≠ .null) :
    ComesTo (.compare property op operand) (.range property.name (some ⟨operand.toJson, decide (op = .ge)⟩) none)
  | upper {property : PropertyUse} {op : Comparator} {operand : Operand} (ordering : op = .lt ∨ op = .le)
    (value : operand ≠ .null) :
    ComesTo (.compare property op operand) (.range property.name none (some ⟨operand.toJson, decide (op = .le)⟩))
  | term {property : PropertyUse} {op : Comparator} {operand : Operand} (equality : op.isOrdering = false)
    (value : operand ≠ .null) : ComesTo (.compare property op operand) (.term property.name operand.toJson)
  | missing {property : PropertyUse} {op : Comparator} : ComesTo (.compare property op .null) (.missing property.name)
  | startsWith {property : PropertyUse} {text : String} :
    ComesTo (.test .startsWith property text) (.startsWith property.name text)
  | contains {property : PropertyUse} {text : String} :
    ComesTo (.test .substringOf property text) (.contains property.name text)

/-! ## Checks -/

namespace Filter

variable {schema : Schema} {entityType name : String} {op : Comparator} {call : StringTest} {literal : Literal}
  {use : PropertyUse}

/-- Only null is checked as null. -/
theorem eq_null_iff_of_coerce {operator : String} {v : Operand} (h : coerce use operator literal = .ok v) :
    v = .null ↔ literal = .null := by
  obtain ⟨name, declared, effective, multiplicity⟩ := use
  cases literal with
  | null =>
    cases h
    simp
  | string | boolean =>
    simp only [coerce] at h
    split at h <;> cases h
    simp
  | integer n | long n =>
    cases effective with
    | int32 | single | double | dateTime =>
      obtain ⟨-, rfl⟩ := of_within h
      simp
    | string | boolean | undeclared => cases h
  | double x text =>
    cases effective with
    | single | double =>
      obtain ⟨-, rfl⟩ := of_within h
      simp
    | int32 | dateTime =>
      simp only [coerce] at h
      split at h <;> cases h
    | string | boolean | undeclared => cases h
  | dateTime n | dateTimeOffset n =>
    simp only [coerce] at h
    split at h
    · obtain ⟨-, rfl⟩ := of_within h
      simp
    · cases h
  | single | decimal => cases h

theorem of_resolve (hschema : schema.Declared) (h : resolve schema entityType name literal = .ok use) :
    Name.isReserved use.name = false ∧ Name.isNavigation use.name = false := by
  unfold resolve at h
  split at h
  · cases h
  · rename_i hname
    split at h
    · cases h
    · rename_i p hp
      cases h
      simpa [hschema.name_eq hp] using hname

/-- A filter is checked leaf by leaf. -/
theorem mapM_leaves_of_typed {t : Filter} {f : TypedFilter} (h : t.typed schema entityType = .ok f) :
    t.leaves.mapM (fun leaf => leaf.toFilter.typed schema entityType) = .ok f.leaves := by
  induction t generalizing f with
  | compare name op literal =>
    obtain ⟨use, operand, rfl, _⟩ := of_typed_compare h
    rw [leaves, List.mapM_cons, Leaf.toFilter, h]
    rfl
  | test call name literal =>
    obtain ⟨use, text, rfl, _⟩ := of_typed_test h
    rw [leaves, List.mapM_cons, Leaf.toFilter, h]
    rfl
  | join connective left right ihleft ihright =>
    simp only [typed, bind_eq_ok, pure_eq_ok] at h
    obtain ⟨left', hleft, right', hright, rfl⟩ := h
    rw [leaves, List.mapM_append, ihleft hleft, ihright hright]
    rfl
  | group inner ih =>
    simp only [typed, bind_eq_ok, pure_eq_ok] at h
    obtain ⟨inner', hinner, rfl⟩ := h
    have hleaves := ih hinner
    exact hleaves

/-- A comparison of the checked filter is one of the filter. -/
theorem of_compare_mem_leaves {t : Filter} {f : TypedFilter} (h : t.typed schema entityType = .ok f)
    {operand : Operand} (hmem : .compare use op operand ∈ f.leaves) :
    ∃ name literal, .compare name op literal ∈ t.leaves ∧ resolve schema entityType name literal = .ok use ∧
      (op.isOrdering = true → use.effective ≠ .boolean) ∧ (operand = .null ↔ literal = .null) := by
  obtain ⟨leaf, hleaf, htyped⟩ := (mem_of_mapM (mapM_leaves_of_typed h)).2 _ hmem
  cases leaf with
  | compare name op' literal =>
    obtain ⟨use', operand', heq, hresolve, hordered, hcoerce⟩ := of_typed_compare htyped
    cases heq
    exact ⟨name, literal, hleaf, hresolve, hordered, eq_null_iff_of_coerce hcoerce⟩
  | test call name literal =>
    obtain ⟨use', text, heq, _⟩ := of_typed_test htyped
    cases heq

theorem of_test_mem_leaves {t : Filter} {f : TypedFilter} (h : t.typed schema entityType = .ok f) {text : String}
    (hmem : .test call use text ∈ f.leaves) :
    ∃ name literal, resolve schema entityType name literal = .ok use := by
  obtain ⟨leaf, _, htyped⟩ := (mem_of_mapM (mapM_leaves_of_typed h)).2 _ hmem
  cases leaf with
  | compare name op literal =>
    obtain ⟨use', operand, heq, _⟩ := of_typed_compare htyped
    cases heq
  | test call' name literal =>
    obtain ⟨use', text', heq, hresolve⟩ := of_typed_test htyped
    cases heq
    exact ⟨name, literal, hresolve⟩

end Filter

/-! ## Conditions -/

namespace TypedFilter

/-- The predicate of a filter tests what its leaves say, in their order. -/
theorem forall₂_leaves_predicate (f : TypedFilter) : List.Forall₂ ComesTo f.leaves f.predicate.leaves := by
  induction f with
  | compare property op operand =>
    simp only [leaves, predicate, comparison]
    by_cases hnull : operand = .null
    · subst hnull
      cases op <;> exact .cons .missing .nil
    · rw [if_neg hnull]
      cases op with
      | eq | ne => exact .cons (.term rfl hnull) .nil
      | gt => exact .cons (.lower (.inl rfl) hnull) .nil
      | ge => exact .cons (.lower (.inr rfl) hnull) .nil
      | lt => exact .cons (.upper (.inl rfl) hnull) .nil
      | le => exact .cons (.upper (.inr rfl) hnull) .nil
  | test call property text => cases call <;> exact .cons (by constructor) .nil
  | join connective left right ihleft ihright =>
    have happend := List.rel_append ihleft ihright
    cases connective <;> simpa only [leaves, predicate, Predicate.leaves, Predicate.allLeaves, List.append_nil]
  | group inner ih => exact ih

end TypedFilter

theorem Predicate.leaves_conjunction (first : Predicate) (rest : List Predicate) :
    (StoreQuery.conjunction (first :: rest)).leaves = first.leaves ++ allLeaves rest := by
  cases rest with
  | nil => rw [StoreQuery.conjunction, allLeaves, List.append_nil]
  | cons second rest =>
    change (Predicate.and (first :: second :: rest)).leaves = _
    rw [leaves, allLeaves]

theorem Predicate.allLeaves_eq_self {clauses : List Predicate} (h : ∀ clause ∈ clauses, clause.leaves = [clause]) :
    allLeaves clauses = clauses := by
  induction clauses with
  | nil => rfl
  | cons clause rest ih =>
    obtain ⟨hclause, hrest⟩ := List.forall_mem_cons.mp h
    rw [allLeaves, hclause, ih hrest]
    rfl

/-- The predicate of a query tests what its filter says, and after that the keywords and the anchor. -/
theorem StoreQuery.leaves_predicate_build (f : TypedFilter) (o : QueryOptions) :
    (build (some f) o).predicate.leaves =
      f.predicate.leaves ++ (o.keywords.map .keyword ++ (o.anchor.map .linkedTo).toList) := by
  have hrest : ∀ clause ∈ o.keywords.map Predicate.keyword ++ (o.anchor.map Predicate.linkedTo).toList,
      clause.leaves = [clause] := by
    simp only [List.mem_append, List.mem_map, Option.mem_toList, Option.map_eq_some_iff]
    rintro clause (⟨word, -, rfl⟩ | ⟨key, -, rfl⟩) <;> rfl
  have hclauses : (build (some f) o).predicate =
      conjunction (f.predicate :: (o.keywords.map .keyword ++ (o.anchor.map .linkedTo).toList)) := rfl
  rw [hclauses, Predicate.leaves_conjunction, Predicate.allLeaves_eq_self hrest]

/-- Whatever a filter was made of, if it passes the check then its properties have names that a filter may use, and no
order is asked for on a Boolean property. Null is asked for an order exactly where the filter itself did so. In the
predicate of the query, each ordering by a value is a range on its property, and only null is what is missing. -/
theorem orderings_of_typed {schema : Schema} (hschema : schema.Declared) {entityType : String} {t : Filter}
    {f : TypedFilter} (h : t.typed schema entityType = .ok f) :
    (∀ use op operand, .compare use op operand ∈ f.leaves → Name.isReserved use.name = false ∧
      Name.isNavigation use.name = false ∧ (op.isOrdering = true → use.effective ≠ .boolean)) ∧
    (∀ call use text, .test call use text ∈ f.leaves →
      Name.isReserved use.name = false ∧ Name.isNavigation use.name = false) ∧
    (∀ op : Comparator, (∃ use, .compare use op .null ∈ f.leaves) ↔ ∃ name, .compare name op .null ∈ t.leaves) ∧
    ∀ o : QueryOptions, ∃ conditions, List.Forall₂ TypedFilter.ComesTo f.leaves conditions ∧
      (StoreQuery.build (some f) o).predicate.leaves =
        conditions ++ (o.keywords.map .keyword ++ (o.anchor.map .linkedTo).toList) := by
  refine ⟨fun use op operand hmem => ?_, fun call use text hmem => ?_, fun op => ⟨?_, ?_⟩, fun o => ?_⟩
  · obtain ⟨name, literal, _, hresolve, hordered, _⟩ := of_compare_mem_leaves h hmem
    obtain ⟨hreserved, hnavigation⟩ := of_resolve hschema hresolve
    exact ⟨hreserved, hnavigation, hordered⟩
  · obtain ⟨name, literal, hresolve⟩ := of_test_mem_leaves h hmem
    exact of_resolve hschema hresolve
  · rintro ⟨use, hmem⟩
    obtain ⟨name, literal, hleaf, _, _, hnull⟩ := of_compare_mem_leaves h hmem
    obtain rfl := hnull.mp rfl
    exact ⟨name, hleaf⟩
  · rintro ⟨name, hleaf⟩
    obtain ⟨c, hmem, htyped⟩ := (mem_of_mapM (mapM_leaves_of_typed h)).1 _ hleaf
    obtain ⟨use, operand, rfl, _, _, hcoerce⟩ := of_typed_compare htyped
    obtain rfl := (eq_null_iff_of_coerce hcoerce).mpr rfl
    exact ⟨use, hmem⟩
  · exact ⟨_, f.forall₂_leaves_predicate, StoreQuery.leaves_predicate_build f o⟩

/-- A disjunction on the right of a conjunction, which no text without parentheses is read as. -/
theorem orderings_of_typed_disjunction :
    let schema := Schema.empty.register ((EntityType.named "E").declare (.declared "E" "p" .string))
    let t : Filter := .join .and (.compare "p" .gt (.string "m"))
      (.join .or (.compare "p" .eq .null) (.test .startsWith "p" (.string "a")))
    ∃ f, t.typed schema "E" = .ok f ∧ (∀ op : Comparator, (∃ use, .compare use op .null ∈ f.leaves) ↔ op = .eq) ∧
      (StoreQuery.build (some f) ⟨"E", 25, 0, [], [], .all, false, [], none⟩).predicate.leaves =
        [.range "p" (some ⟨.string "m", false⟩) none, .missing "p", .startsWith "p" "a"] := by
  intro schema t
  let use : PropertyUse := ⟨"p", .string, .string, .scalar⟩
  let f : TypedFilter := .join .and (.compare use .gt (.string "m"))
    (.join .or (.compare use .eq .null) (.test .startsWith use "a"))
  have htyped : t.typed schema "E" = .ok f := rfl
  have hschema : schema.Declared := .register .empty (.declare (.named "E") _)
  obtain ⟨_, _, hnull, _⟩ := orderings_of_typed hschema htyped
  refine ⟨f, htyped, fun op => ?_, rfl⟩
  rw [hnull]
  simp [t, Filter.leaves]

/-- An order that is asked for with null passes the check, and comes to what is missing. -/
theorem ordering_of_null_missing :
    ∃ f, (Filter.compare "p" .gt .null).typed
        (Schema.empty.register ((EntityType.named "E").declare (.declared "E" "p" .string))) "E" = .ok f ∧
      f.leaves = [.compare ⟨"p", .string, .string, .scalar⟩ .gt .null] ∧ Comparator.gt.isOrdering = true ∧
      ∃ field, f.predicate = .missing field :=
  ⟨.compare ⟨"p", .string, .string, .scalar⟩ .gt .null, rfl, rfl, rfl, "p", rfl⟩

end EntityStore
