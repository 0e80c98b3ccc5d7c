import EntityStore.Proofs.Entities.Arrival
import EntityStore.Proofs.Entities.Order
import EntityStore.Proofs.Query.Navigation
import Mathlib.Data.List.Sort
import Mathlib.Data.String.Basic
import Mathlib.Order.Compare

/-!
# Pages of results

What a query looks for, in the order of its sort keys, is one list, and every page is a part of it. The order is said
without the comparison that sorts: the first key that tells two entities apart decides, and then which of them was
inserted first. Main statement: `exists_listing_and_pages`.
-/
namespace EntityStore

open Std (OrientedCmp TransCmp)

/-! ## Values of one kind -/

namespace Json

/-- The order of strings, of Booleans and of integers. -/
inductive Less : Json → Json → Prop
  | string {s t : String} (h : s < t) : Less (.string s) (.string t)
  | bool {b c : Bool} (h : b < c) : Less (.bool b) (.bool c)
  | integer {m n : Int} (h : m < n) : Less (.ofInt m) (.ofInt n)

/-- All these values are strings, or all are Booleans, or all are integers of 64 bits. -/
inductive OneKind (among : Json → Prop) : Prop
  | strings (h : ∀ v, among v → ∃ s, v = .string s)
  | booleans (h : ∀ v, among v → ∃ b, v = .bool b)
  | integers (h : ∀ v, among v → ∃ n, v = .ofInt n ∧ Decimal.fitsInt64 n = true)

variable {among : Json → Prop} {v w : Json}

theorem OneKind.comparable (h : OneKind among) : Comparable among := by
  cases h with
  | strings h => exact .strings h
  | booleans h => exact .booleans h
  | integers h => exact .integers h

/-- Values of one kind do compare, and they are level only if they are the same. -/
theorem OneKind.exists_compare? (h : OneKind among) (hv : among v) (hw : among w) :
    ∃ o, v.compare? w = some o ∧ (o = .lt ↔ v.Less w) ∧ (o = .gt ↔ w.Less v) ∧ (o = .eq ↔ v = w) := by
  cases h with
  | strings h =>
    obtain ⟨s, rfl⟩ := h v hv
    obtain ⟨t, rfl⟩ := h w hw
    refine ⟨compare s t, rfl, ?_, ?_, ?_⟩
    · rw [compare_lt_iff_lt]
      exact ⟨.string, fun | .string h => h⟩
    · rw [compare_gt_iff_gt]
      exact ⟨.string, fun | .string h => h⟩
    · rw [compare_eq_iff_eq, Json.string.injEq]
  | booleans h =>
    obtain ⟨b, rfl⟩ := h v hv
    obtain ⟨c, rfl⟩ := h w hw
    refine ⟨compare b c, rfl, ?_, ?_, ?_⟩
    · rw [compare_lt_iff_lt]
      exact ⟨.bool, fun | .bool h => h⟩
    · rw [compare_gt_iff_gt]
      exact ⟨.bool, fun | .bool h => h⟩
    · rw [compare_eq_iff_eq, Json.bool.injEq]
  | integers h =>
    obtain ⟨m, rfl, hm⟩ := h v hv
    obtain ⟨n, rfl, hn⟩ := h w hw
    refine ⟨compare m n, Number.compare?_int hm hn, ?_, ?_, ?_⟩
    · rw [compare_lt_iff_lt]
      exact ⟨.integer, fun | .integer h => h⟩
    · rw [compare_gt_iff_gt]
      exact ⟨.integer, fun | .integer h => h⟩
    · rw [compare_eq_iff_eq, ofInt, ofInt, Json.number.injEq, Number.int.injEq]

end Json

/-! ## The order of entities -/

namespace SortKey

/-- One key puts `a` before `b`. What has no value comes last in either direction. -/
inductive Before (key : SortKey) (a b : Entity) : Prop
  | ascending {v w : Json} (direction : key.direction = .ascending) (left : key.value? a = some v)
    (right : key.value? b = some w) (less : v.Less w) : Before key a b
  | descending {v w : Json} (direction : key.direction = .descending) (left : key.value? a = some v)
    (right : key.value? b = some w) (less : w.Less v) : Before key a b
  | missing {v : Json} (left : key.value? a = some v) (right : key.value? b = none) : Before key a b

/-- The entity `a` comes before `b`: the first key under which their values differ decides, and if there is none, the
operations that led to the store. -/
inductive Precedes (operations : List (Int × Entities.Operation)) : List SortKey → Entity → Entity → Prop
  | key {key : SortKey} {rest : List SortKey} {a b : Entity} (h : key.Before a b) :
    Precedes operations (key :: rest) a b
  | tie {key : SortKey} {rest : List SortKey} {a b : Entity} (same : key.value? a = key.value? b)
    (h : Precedes operations rest a b) : Precedes operations (key :: rest) a b
  | inserted {a b : Entity} (h : Entities.Earlier operations a.key b.key) : Precedes operations [] a b

variable {key : SortKey} {sort : List SortKey} {operations : List (Int × Entities.Operation)} {among : Entity → Prop}
  {a b : Entity}

theorem directed_iff {among : Json → Prop} (h : Json.OneKind among) {v w : Json} (hv : among v) (hw : among w) :
    (key.directed v w = .lt ↔ key.direction = .ascending ∧ v.Less w ∨ key.direction = .descending ∧ w.Less v) ∧
      (key.directed v w = .eq ↔ v = w) := by
  obtain ⟨o, ho, hlt, hgt, heq⟩ := h.exists_compare? hv hw
  rw [directed, ho, Option.getD_some]
  cases key.direction with
  | ascending => simp [hlt, heq]
  | descending => cases o <;> simp_all

theorem before_iff {v w : Json} (hv : key.value? a = some v) (hw : key.value? b = some w) :
    key.Before a b ↔ key.direction = .ascending ∧ v.Less w ∨ key.direction = .descending ∧ w.Less v := by
  constructor
  · intro h
    cases h with
    | ascending direction left right less =>
      obtain rfl := Option.some.inj (hv.symm.trans left)
      obtain rfl := Option.some.inj (hw.symm.trans right)
      exact .inl ⟨direction, less⟩
    | descending direction left right less =>
      obtain rfl := Option.some.inj (hv.symm.trans left)
      obtain rfl := Option.some.inj (hw.symm.trans right)
      exact .inr ⟨direction, less⟩
    | missing _ right => cases hw.symm.trans right
  · rintro (⟨direction, less⟩ | ⟨direction, less⟩)
    · exact .ascending direction hv hw less
    · exact .descending direction hv hw less

theorem not_before_of_none (ha : key.value? a = none) : ¬ key.Before a b := by
  intro h
  cases h with
  | ascending _ left => cases ha.symm.trans left
  | descending _ left => cases ha.symm.trans left
  | missing left => cases ha.symm.trans left

theorem order_iff (h : Json.OneKind fun v => ∃ e, among e ∧ key.value? e = some v) (ha : among a) (hb : among b) :
    (key.order a b = .lt ↔ key.Before a b) ∧ (key.order a b = .eq ↔ key.value? a = key.value? b) := by
  rw [order_eq]
  cases hv : key.value? a with
  | none =>
    have hnot := not_before_of_none (b := b) hv
    cases key.value? b <;> simp [hnot]
  | some v =>
    cases hw : key.value? b with
    | none => simp [Before.missing hv hw]
    | some w =>
      rw [before_iff hv hw, Option.some.injEq]
      exact directed_iff h ⟨a, ha, hv⟩ ⟨b, hb, hw⟩

theorem orderAll_eq_lt_iff (hstored : ∀ e, among e → (Entities.empty.after operations).find? e.key = some e)
    (h : ∀ key ∈ sort, Json.OneKind fun v => ∃ e, among e ∧ key.value? e = some v) (ha : among a) (hb : among b) :
    orderAll sort a b = .lt ↔ Precedes operations sort a b := by
  induction sort with
  | nil =>
    change compare a.arrival b.arrival = .lt ↔ _
    rw [Nat.compare_eq_lt, Entities.arrival_lt_iff_earlier (hstored a ha) (hstored b hb)]
    exact ⟨.inserted, fun | .inserted h => h⟩
  | cons key rest ih =>
    obtain ⟨hlt, heq⟩ := order_iff (h key List.mem_cons_self) ha hb
    have hrest := ih fun k hk => h k (List.mem_cons_of_mem _ hk)
    change (key.order a b).then (orderAll rest a b) = .lt ↔ _
    rw [Ordering.then_eq_lt, hlt, heq, hrest]
    constructor
    · rintro (hbefore | ⟨hsame, hprecedes⟩)
      · exact .key hbefore
      · exact .tie hsame hprecedes
    · intro hprecedes
      cases hprecedes with
      | key hbefore => exact .inl hbefore
      | tie hsame hprecedes => exact .inr ⟨hsame, hprecedes⟩

end SortKey

/-! ## Sorting -/

namespace Entities

variable {sort : List SortKey} {among : Entity → Prop} {operations : List (Int × Operation)} {es : List Entity}
  {e : Entity} {stringMax : Nat} {q : StoreQuery}

section

variable (htrans : TransCmp fun a b : { e // among e } => SortKey.orderAll sort a b)
  (hdistinct : ∀ a b, among a → among b → SortKey.orderAll sort a b = .eq → a = b)
include htrans hdistinct

/-- A new entity keeps the reverse order in which those before it are kept. -/
theorem pairwise_insertLast (he : among e) (hamong : ∀ x ∈ es, among x) (hnew : e ∉ es)
    (h : es.Pairwise fun a b => SortKey.orderAll sort b a = .lt) :
    (insertLast sort e es).Pairwise fun a b => SortKey.orderAll sort b a = .lt := by
  induction es with
  | nil => exact List.pairwise_singleton _ _
  | cons last before ih =>
    obtain ⟨hlast, hbefore⟩ := List.pairwise_cons.mp h
    obtain ⟨hne, hnew⟩ := List.ne_and_not_mem_of_not_mem_cons hnew
    obtain ⟨hal, hab⟩ := List.forall_mem_cons.mp hamong
    rw [insertLast]
    split
    · rename_i hlt
      refine List.pairwise_cons.mpr ⟨fun x hx => ?_, ih hab hnew hbefore⟩
      rcases List.mem_cons.mp ((insertLast_perm sort e before).mem_iff.mp hx) with rfl | hx
      · exact hlt
      · exact hlast x hx
    · rename_i hnlt
      have horiented := SortKey.orientedCmp_orderAll sort
      have hle : SortKey.orderAll sort last e = .lt := by
        refine OrientedCmp.lt_of_gt ?_
        cases ho : SortKey.orderAll sort e last with
        | lt => exact absurd ho hnlt
        | eq => exact absurd (hdistinct e last he hal ho) hne
        | gt => rfl
      refine List.pairwise_cons.mpr ⟨List.forall_mem_cons.mpr ⟨hle, fun x hx => ?_⟩, h⟩
      exact htrans.lt_trans (a := ⟨x, hab x hx⟩) (b := ⟨last, hal⟩) (c := ⟨e, he⟩) (hlast x hx) hle

theorem pairwise_foldl_insertLast {acc : List Entity} (hamong : ∀ x ∈ es, among x) (hacc : ∀ x ∈ acc, among x)
    (hnodup : (es ++ acc).Nodup) (h : acc.Pairwise fun a b => SortKey.orderAll sort b a = .lt) :
    (es.foldl (fun acc e => insertLast sort e acc) acc).Pairwise fun a b => SortKey.orderAll sort b a = .lt := by
  induction es generalizing acc with
  | nil => exact h
  | cons e rest ih =>
    obtain ⟨he, hrest⟩ := List.forall_mem_cons.mp hamong
    have hperm := insertLast_perm sort e acc
    have hnew : e ∉ acc := fun hmem => (List.nodup_cons.mp hnodup).1 (List.mem_append_right rest hmem)
    refine ih hrest (fun x hx => ?_) ?_ (pairwise_insertLast htrans hdistinct he hacc hnew h)
    · exact List.forall_mem_cons.mpr ⟨he, hacc⟩ x (hperm.mem_iff.mp hx)
    · exact ((hperm.append_left rest).trans List.perm_middle).nodup_iff.mpr hnodup

theorem pairwise_sorted (hamong : ∀ x ∈ es, among x) (hnodup : es.Nodup) :
    (sorted sort es).Pairwise fun a b => SortKey.orderAll sort a b = .lt := by
  refine List.pairwise_reverse.mpr (pairwise_foldl_insertLast htrans hdistinct hamong ?_ ?_ .nil)
  · exact nofun
  · rwa [List.append_nil]

end

/-! ## What a query looks for -/

/-- An entity of the query's type that is stored and meets the query's condition. -/
structure Matches (s : Entities) (stringMax : Nat) (q : StoreQuery) (e : Entity) : Prop where
  stored : s.find? e.key = some e
  type : e.key.type = q.entityType
  condition : q.predicate.holds stringMax e = true

/-- All entities that a query looks for, each once and in the order that it asks for. -/
structure Listing (operations : List (Int × Operation)) (stringMax : Nat) (q : StoreQuery) (es : List Entity) :
    Prop where
  mem_iff : ∀ e, e ∈ es ↔ (empty.after operations).Matches stringMax q e
  nodup : (es.map Entity.key).Nodup
  ordered : es.Pairwise (SortKey.Precedes operations q.sort)

theorem WellFormed.mem_hits_iff {s : Entities} (h : s.WellFormed) :
    e ∈ s.hits stringMax q.entityType q.predicate ↔ s.Matches stringMax q e := by
  rw [hits, List.mem_filter, h.mem_values_iff, Bool.and_eq_true, beq_iff_eq]
  exact ⟨fun ⟨stored, type, condition⟩ => ⟨stored, type, condition⟩, fun h => ⟨h.stored, h.type, h.condition⟩⟩

variable (hkinds : ∀ key ∈ q.sort, Json.OneKind fun v =>
  ∃ e, (empty.after operations).Matches stringMax q e ∧ key.value? e = some v)
include hkinds

/-- Sorting what a query looks for lists it. -/
theorem listing_sorted :
    Listing operations stringMax q
      (sorted q.sort ((empty.after operations).hits stringMax q.entityType q.predicate)) := by
  have hwf := wellFormed_empty.after operations
  have hperm := sorted_perm q.sort ((empty.after operations).hits stringMax q.entityType q.predicate)
  have hmem : ∀ e, e ∈ sorted q.sort ((empty.after operations).hits stringMax q.entityType q.predicate) ↔
      (empty.after operations).Matches stringMax q e := fun e => hperm.mem_iff.trans hwf.mem_hits_iff
  have hnodup := hwf.nodup_values.filter fun e => e.key.type == q.entityType && q.predicate.holds stringMax e
  refine ⟨hmem, ?_, ?_⟩
  · refine List.Nodup.map_on (fun a ha b hb hkey => ?_) (hperm.nodup_iff.mpr hnodup)
    have ha := ((hmem a).mp ha).stored
    rw [hkey, ((hmem b).mp hb).stored] at ha
    exact (Option.some.inj ha).symm
  · have htrans := SortKey.transCmp_orderAll fun key hkey => (hkinds key hkey).comparable
    refine (pairwise_sorted htrans ?_ (fun e => hwf.mem_hits_iff.mp) hnodup).imp_of_mem fun ha hb hlt => ?_
    · intro a b ha hb heq
      have hkey := hwf.arrival_inj a.key b.key a b ha.stored hb.stored (SortKey.arrival_eq_of_orderAll heq)
      exact Option.some.inj (ha.stored.symm.trans (hkey ▸ hb.stored))
    · exact (SortKey.orderAll_eq_lt_iff (fun e => Matches.stored) hkinds ((hmem _).mp ha) ((hmem _).mp hb)).mp hlt

/-- There is one way to list what a query looks for. -/
theorem Listing.unique {es es' : List Entity} (h : Listing operations stringMax q es)
    (h' : Listing operations stringMax q es') : es = es' := by
  have hperm : es.Perm es' := by
    refine (List.perm_ext_iff_of_nodup (.of_map _ h.nodup) (.of_map _ h'.nodup)).mpr fun e => ?_
    rw [h.mem_iff, h'.mem_iff]
  refine hperm.eq_of_pairwise (fun a b ha hb hab hba => ?_) h.ordered h'.ordered
  have hma := (h.mem_iff a).mp ha
  have hmb := (h'.mem_iff b).mp hb
  have hiff : ∀ {a b}, (empty.after operations).Matches stringMax q a → (empty.after operations).Matches stringMax q b →
      (SortKey.orderAll q.sort a b = .lt ↔ SortKey.Precedes operations q.sort a b) :=
    SortKey.orderAll_eq_lt_iff (fun _ => Matches.stored) hkinds
  have horiented := SortKey.orientedCmp_orderAll q.sort
  have hgt := OrientedCmp.gt_of_lt ((hiff hmb hma).mpr hba)
  rw [(hiff hma hmb).mpr hab] at hgt
  cases hgt

end Entities

/-- Pages of one size follow each other without gaps. -/
theorem flatMap_pages {α : Type} (xs : List α) (size pages : Nat) :
    ((List.range pages).flatMap fun i => (xs.drop (i * size)).take size) = xs.take (pages * size) := by
  induction pages with
  | zero => simp
  | succ n ih =>
    rw [List.range_succ, List.flatMap_append, ih, List.flatMap_singleton, Nat.succ_mul, List.take_add]

/-- In any store that operations have led to, let the values under each sort key of what a query looks for be of one
kind. Then there is one list of it, each page is a part of this list, the count is its length, and pages of one size
together have all of it, each entity once. -/
theorem exists_listing_and_pages (operations : List (Int × Entities.Operation)) (stringMax : Nat) (q : StoreQuery)
    (hkinds : ∀ key ∈ q.sort, Json.OneKind fun v =>
      ∃ e, (Entities.empty.after operations).Matches stringMax q e ∧ key.value? e = some v) :
    ∃ members, Entities.Listing operations stringMax q members ∧
      (∀ es, Entities.Listing operations stringMax q es → es = members) ∧
      (∀ top skip, ((Entities.empty.after operations).run stringMax { q with top, skip }).rows =
        ((members.drop skip).take top).map ((Entities.empty.after operations).row q)) ∧
      (∀ top skip, ((Entities.empty.after operations).run stringMax { q with top, skip }).count =
        if q.inlineCount then some members.length else none) ∧
      ∀ size, 0 < size → ∀ pages, members.length ≤ pages * size →
        ((List.range pages).flatMap fun i =>
          ((Entities.empty.after operations).run stringMax { q with top := size, skip := i * size }).rows) =
            members.map ((Entities.empty.after operations).row q) := by
  have hlisting := Entities.listing_sorted hkinds
  refine ⟨_, hlisting, fun es hes => hes.unique hkinds hlisting, fun _ _ => rfl, fun _ _ => rfl, ?_⟩
  intro size _ pages hpages
  rw [← List.take_of_length_le hpages, ← flatMap_pages, List.map_flatMap]
  rfl

/-- With the greatest first, what has no value still comes last, also on a page that begins in between. -/
theorem exists_listing_and_pages_nulls :
    let operations : List (Int × Entities.Operation) :=
      [(1, .write ⟨"T", "a"⟩ (.ofList [("x", .ofInt 1)]) none), (2, .write ⟨"T", "b"⟩ (.ofList [("x", .null)]) none),
        (3, .write ⟨"T", "c"⟩ (.ofList [("x", .ofInt 2)]) none)]
    let q : StoreQuery := ⟨"T", .all, 2, 1, [⟨"x", .descending⟩], [], .all, true⟩
    ∃ members, Entities.Listing operations 100 q members ∧
      members.map Entity.key = [⟨"T", "c"⟩, ⟨"T", "a"⟩, ⟨"T", "b"⟩] ∧
      ((Entities.empty.after operations).run 100 q).rows.map Entities.Row.key = [⟨"T", "a"⟩, ⟨"T", "b"⟩] := by
  intro operations q
  have hvalues : (Entities.empty.after operations).entries.values =
      [.written "a" 1 (.ofInt 1), .written "b" 2 .null, .written "c" 3 (.ofInt 2)] := rfl
  obtain ⟨members, hlisting, _, hrows, hcount, _⟩ := exists_listing_and_pages operations 100 q (by
    intro key hkey
    obtain rfl := List.mem_singleton.mp hkey
    refine .integers ?_
    rintro v ⟨e, he, hv⟩
    have hmem := (Entities.wellFormed_empty.after operations).mem_values_iff.mpr he.stored
    simp only [hvalues, List.mem_cons, List.not_mem_nil, or_false] at hmem
    rcases hmem with rfl | rfl | rfl
    · obtain rfl := Option.some.inj ((rfl : some (Json.ofInt 1) = _).trans hv)
      exact ⟨1, rfl, by decide⟩
    · exact absurd ((rfl : (none : Option Json) = _).trans hv) (by simp)
    · obtain rfl := Option.some.inj ((rfl : some (Json.ofInt 2) = _).trans hv)
      exact ⟨2, rfl, by decide⟩)
  have hkeys : ∀ top skip, (((members.drop skip).take top).map Entity.key) =
      ((Entities.empty.after operations).run 100 { q with top, skip }).rows.map Entities.Row.key := by
    intro top skip
    rw [hrows, List.map_map]
    rfl
  have hlength : members.length = 3 := (Option.some.inj (hcount 0 0)).symm
  have hall := hkeys 3 0
  rw [List.drop_zero, List.take_of_length_le (Nat.le_of_eq hlength)] at hall
  have hmembers : members.map Entity.key = [⟨"T", "c"⟩, ⟨"T", "a"⟩, ⟨"T", "b"⟩] := hall.trans rfl
  refine ⟨members, hlisting, hmembers, (hkeys 2 1).symm.trans ?_⟩
  rw [List.map_take, List.map_drop, hmembers]
  rfl

end EntityStore
