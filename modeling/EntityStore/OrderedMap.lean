/-!
# Ordered maps

A finite map kept as a list of entries in strictly ascending key order, so that two maps with the same
bindings are equal and iteration is in key order. Main statements: `find?_insert`, `find?_erase`,
`mem_entries_iff` and `ext_find?`.
-/
namespace EntityStore

open Std

/-! ## Entry lists -/

namespace Entries

variable {κ ν : Type} [Ord κ]

/-- The value bound to `k`, in a list of any order. -/
def find? (k : κ) : List (κ × ν) → Option ν
  | [] => none
  | (k', v) :: rest => if compare k k' = .eq then some v else find? k rest

def insert (k : κ) (v : ν) : List (κ × ν) → List (κ × ν)
  | [] => [(k, v)]
  | (k', v') :: rest =>
    match compare k k' with
    | .lt => (k, v) :: (k', v') :: rest
    | .eq => (k, v) :: rest
    | .gt => (k', v') :: insert k v rest

def erase (k : κ) (entries : List (κ × ν)) : List (κ × ν) :=
  entries.filter fun e => compare k e.1 ≠ .eq

/-- Inserts the bindings of a list from left to right, so a later binding of a key wins. -/
def ofList (bindings : List (κ × ν)) : List (κ × ν) :=
  bindings.foldl (fun acc e => insert e.1 e.2 acc) []

def Ascending (entries : List (κ × ν)) : Prop :=
  entries.Pairwise fun a b => compare a.1 b.1 = .lt

theorem mem_insert {k : κ} {v : ν} {entries : List (κ × ν)} {e : κ × ν}
    (h : e ∈ insert k v entries) : e = (k, v) ∨ e ∈ entries := by
  induction entries with
  | nil => simpa [insert] using h
  | cons a rest ih =>
    obtain ⟨k', v'⟩ := a
    simp only [insert] at h
    split at h
    · simpa using h
    · rcases List.mem_cons.1 h with h | h
      · exact .inl h
      · exact .inr (List.mem_cons_of_mem _ h)
    · rcases List.mem_cons.1 h with h | h
      · exact .inr (h ▸ List.mem_cons_self)
      · exact (ih h).imp id (List.mem_cons_of_mem _)

theorem ascending_insert [TransOrd κ] [LawfulEqOrd κ] (k : κ) (v : ν) {entries : List (κ × ν)}
    (h : Ascending entries) : Ascending (insert k v entries) := by
  induction entries with
  | nil => simp [insert, Ascending]
  | cons a rest ih =>
    obtain ⟨k', v'⟩ := a
    obtain ⟨hk, hrest⟩ := List.pairwise_cons.1 h
    simp only [insert]
    split
    · rename_i hlt
      refine List.pairwise_cons.2 ⟨fun e he => ?_, h⟩
      rcases List.mem_cons.1 he with rfl | he
      · exact hlt
      · exact TransCmp.lt_trans hlt (hk e he)
    · rename_i heq
      have : k = k' := LawfulEqCmp.compare_eq_iff_eq.1 heq
      subst this
      exact List.pairwise_cons.2 ⟨hk, hrest⟩
    · rename_i hgt
      refine List.pairwise_cons.2 ⟨fun e he => ?_, ih hrest⟩
      rcases mem_insert he with rfl | he
      · exact OrientedCmp.gt_iff_lt.1 hgt
      · exact hk e he

theorem ascending_erase (k : κ) {entries : List (κ × ν)} (h : Ascending entries) :
    Ascending (erase k entries) :=
  List.Pairwise.filter _ h

theorem ascending_ofList [TransOrd κ] [LawfulEqOrd κ] (bindings : List (κ × ν)) :
    Ascending (ofList bindings) := by
  suffices ∀ acc : List (κ × ν), Ascending acc →
      Ascending (bindings.foldl (fun acc e => insert e.1 e.2 acc) acc) from this [] .nil
  induction bindings with
  | nil => exact fun _ h => h
  | cons e rest ih => exact fun acc h => ih _ (ascending_insert e.1 e.2 h)

theorem find?_insert [TransOrd κ] [LawfulEqOrd κ] [DecidableEq κ] (k k' : κ) (v : ν) (entries : List (κ × ν)) :
    find? k' (insert k v entries) = if k' = k then some v else find? k' entries := by
  induction entries with
  | nil => simp [insert, find?, LawfulEqCmp.compare_eq_iff_eq]
  | cons a rest ih =>
    obtain ⟨k₀, v₀⟩ := a
    simp only [insert]
    split <;> rename_i h
    · simp [find?, LawfulEqCmp.compare_eq_iff_eq]
    · have : k = k₀ := LawfulEqCmp.compare_eq_iff_eq.1 h
      subst this
      simp only [find?, LawfulEqCmp.compare_eq_iff_eq]
      split <;> rfl
    · have hne : k ≠ k₀ := by
        rintro rfl
        simp [ReflCmp.compare_self] at h
      simp only [find?, LawfulEqCmp.compare_eq_iff_eq, ih]
      by_cases h₁ : k' = k₀
      · have : k₀ ≠ k := fun h₂ => hne h₂.symm
        simp [h₁, this]
      · simp [h₁]

theorem find?_erase [LawfulEqOrd κ] [DecidableEq κ] (k k' : κ) (entries : List (κ × ν)) :
    find? k' (erase k entries) = if k' = k then none else find? k' entries := by
  induction entries with
  | nil => simp [erase, find?]
  | cons a rest ih =>
    obtain ⟨k₀, v₀⟩ := a
    simp only [erase, List.filter_cons] at ih ⊢
    by_cases h₀ : k = k₀
    · subst h₀
      simp only [LawfulEqCmp.compare_eq_iff_eq, decide_not, decide_true, Bool.not_true] at ih ⊢
      by_cases h : k' = k <;> simp_all [find?, LawfulEqCmp.compare_eq_iff_eq]
    · by_cases h : k' = k <;> by_cases h' : k' = k₀ <;>
        simp_all [find?, LawfulEqCmp.compare_eq_iff_eq]

theorem find?_eq_some_of_mem [TransOrd κ] [LawfulEqOrd κ] {entries : List (κ × ν)}
    (h : Ascending entries) {k : κ} {v : ν} (hm : (k, v) ∈ entries) : find? k entries = some v := by
  induction entries with
  | nil => simp at hm
  | cons a rest ih =>
    obtain ⟨k₀, v₀⟩ := a
    obtain ⟨hk, hrest⟩ := List.pairwise_cons.1 h
    rcases List.mem_cons.1 hm with hm | hm
    · cases hm
      simp [find?, ReflCmp.compare_self]
    · have hlt := hk _ hm
      have hne : k ≠ k₀ := by
        rintro rfl
        simp [ReflCmp.compare_self] at hlt
      simp [find?, LawfulEqCmp.compare_eq_iff_eq, hne, ih hrest hm]

theorem mem_of_find?_eq_some [LawfulEqOrd κ] {entries : List (κ × ν)} {k : κ} {v : ν}
    (h : find? k entries = some v) : (k, v) ∈ entries := by
  induction entries with
  | nil => simp [find?] at h
  | cons a rest ih =>
    obtain ⟨k₀, v₀⟩ := a
    simp only [find?] at h
    split at h
    · rename_i he
      cases h
      exact LawfulEqCmp.compare_eq_iff_eq.1 he ▸ List.mem_cons_self
    · exact List.mem_cons_of_mem _ (ih h)

/-- Two ascending lists with the same members are the same list. -/
theorem eq_of_mem_iff [TransOrd κ] [LawfulEqOrd κ] {a b : List (κ × ν)} (ha : Ascending a)
    (hb : Ascending b) (h : ∀ e, e ∈ a ↔ e ∈ b) : a = b := by
  have irrefl : ∀ k : κ, compare k k ≠ .lt := fun k => by simp [ReflCmp.compare_self]
  induction a generalizing b with
  | nil =>
    cases b with
    | nil => rfl
    | cons y ys => exact absurd ((h y).2 List.mem_cons_self) (by simp)
  | cons x xs ih =>
    cases b with
    | nil => exact absurd ((h x).1 List.mem_cons_self) (by simp)
    | cons y ys =>
      obtain ⟨hx, hxs⟩ := List.pairwise_cons.1 ha
      obtain ⟨hy, hys⟩ := List.pairwise_cons.1 hb
      have hxy : x = y := by
        rcases List.mem_cons.1 ((h x).1 List.mem_cons_self) with e | hxin
        · exact e
        · rcases List.mem_cons.1 ((h y).2 List.mem_cons_self) with e | hyin
          · exact e.symm
          · exact absurd (TransCmp.lt_trans (hx y hyin) (hy x hxin)) (irrefl _)
      subst hxy
      refine congrArg (x :: ·) (ih hxs hys fun e => ⟨fun he => ?_, fun he => ?_⟩)
      · rcases List.mem_cons.1 ((h e).1 (List.mem_cons_of_mem _ he)) with rfl | hin
        · exact absurd (hx e he) (irrefl _)
        · exact hin
      · rcases List.mem_cons.1 ((h e).2 (List.mem_cons_of_mem _ he)) with rfl | hin
        · exact absurd (hy e he) (irrefl _)
        · exact hin

end Entries

/-! ## Maps -/

/-- A finite map with its entries in strictly ascending key order. -/
structure OrderedMap (κ ν : Type) [Ord κ] where
  entries : List (κ × ν)
  ascending : Entries.Ascending entries

namespace OrderedMap

variable {κ ν : Type} [Ord κ]

instance [DecidableEq κ] [DecidableEq ν] : DecidableEq (OrderedMap κ ν) := fun a b =>
  if h : a.entries = b.entries then
    isTrue (by cases a; cases b; cases h; rfl)
  else
    isFalse fun e => h (e ▸ rfl)

def empty : OrderedMap κ ν := ⟨[], .nil⟩

instance : Inhabited (OrderedMap κ ν) := ⟨empty⟩

def find? (m : OrderedMap κ ν) (k : κ) : Option ν := Entries.find? k m.entries

def contains (m : OrderedMap κ ν) (k : κ) : Bool := (m.find? k).isSome

def keys (m : OrderedMap κ ν) : List κ := m.entries.map (·.1)

def values (m : OrderedMap κ ν) : List ν := m.entries.map (·.2)

def size (m : OrderedMap κ ν) : Nat := m.entries.length

def isEmpty (m : OrderedMap κ ν) : Bool := m.entries.isEmpty

def erase (m : OrderedMap κ ν) (k : κ) : OrderedMap κ ν :=
  ⟨Entries.erase k m.entries, Entries.ascending_erase k m.ascending⟩

section
variable [TransOrd κ] [LawfulEqOrd κ]

/-- Binds `k` to `v`, replacing an earlier binding. -/
def insert (m : OrderedMap κ ν) (k : κ) (v : ν) : OrderedMap κ ν :=
  ⟨Entries.insert k v m.entries, Entries.ascending_insert k v m.ascending⟩

/-- The bindings of a list in any order; a later binding of a key wins. -/
def ofList (bindings : List (κ × ν)) : OrderedMap κ ν :=
  ⟨Entries.ofList bindings, Entries.ascending_ofList bindings⟩

/-- Adds every binding of `more`, which wins over `m`. -/
def union (m more : OrderedMap κ ν) : OrderedMap κ ν :=
  more.entries.foldl (fun acc e => acc.insert e.1 e.2) m

def eraseAll (m : OrderedMap κ ν) (ks : List κ) : OrderedMap κ ν :=
  ks.foldl erase m

def modify (m : OrderedMap κ ν) (k : κ) (f : ν → ν) : OrderedMap κ ν :=
  match m.find? k with
  | some v => m.insert k (f v)
  | none => m

end

@[simp] theorem find?_empty (k : κ) : (empty : OrderedMap κ ν).find? k = none := rfl

theorem find?_insert [TransOrd κ] [LawfulEqOrd κ] [DecidableEq κ] (m : OrderedMap κ ν) (k k' : κ) (v : ν) :
    (m.insert k v).find? k' = if k' = k then some v else m.find? k' :=
  Entries.find?_insert k k' v m.entries

theorem find?_erase [LawfulEqOrd κ] [DecidableEq κ] (m : OrderedMap κ ν) (k k' : κ) :
    (m.erase k).find? k' = if k' = k then none else m.find? k' :=
  Entries.find?_erase k k' m.entries

theorem mem_entries_iff [TransOrd κ] [LawfulEqOrd κ] (m : OrderedMap κ ν) (k : κ) (v : ν) :
    (k, v) ∈ m.entries ↔ m.find? k = some v :=
  ⟨Entries.find?_eq_some_of_mem m.ascending, Entries.mem_of_find?_eq_some⟩

theorem find?_modify [TransOrd κ] [LawfulEqOrd κ] [DecidableEq κ] (m : OrderedMap κ ν) (k k' : κ)
    (f : ν → ν) : (m.modify k f).find? k' = if k' = k then (m.find? k).map f else m.find? k' := by
  unfold modify
  split <;> rename_i h
  · rw [find?_insert, h, Option.map_some]
  · split <;> simp_all

theorem contains_iff (m : OrderedMap κ ν) (k : κ) : m.contains k = true ↔ ∃ v, m.find? k = some v :=
  Option.isSome_iff_exists

theorem mem_keys_iff [TransOrd κ] [LawfulEqOrd κ] (m : OrderedMap κ ν) (k : κ) :
    k ∈ m.keys ↔ m.contains k = true := by
  rw [contains_iff, keys, List.mem_map]
  constructor
  · rintro ⟨⟨k', v⟩, h, rfl⟩
    exact ⟨v, (mem_entries_iff m k' v).1 h⟩
  · rintro ⟨v, h⟩
    exact ⟨(k, v), (mem_entries_iff m k v).2 h, rfl⟩

theorem ascending_keys (m : OrderedMap κ ν) : m.keys.Pairwise fun a b => compare a b = .lt :=
  List.pairwise_map.2 m.ascending

theorem nodup_keys [TransOrd κ] (m : OrderedMap κ ν) : m.keys.Nodup := by
  refine m.ascending_keys.imp fun hlt heq => ?_
  subst heq
  simp [ReflCmp.compare_self] at hlt

theorem find?_eraseAll [LawfulEqOrd κ] [DecidableEq κ] (m : OrderedMap κ ν) (ks : List κ) (k : κ) :
    (m.eraseAll ks).find? k = if k ∈ ks then none else m.find? k := by
  unfold eraseAll
  induction ks generalizing m with
  | nil => simp
  | cons k' ks ih =>
    rw [List.foldl_cons, ih, find?_erase]
    by_cases h : k ∈ ks <;> by_cases h' : k = k' <;> simp [h, h']

theorem find?_ofList_append [TransOrd κ] [LawfulEqOrd κ] [DecidableEq κ] (bindings : List (κ × ν))
    (k k' : κ) (v : ν) :
    (ofList (bindings ++ [(k, v)])).find? k' = if k' = k then some v else (ofList bindings).find? k' := by
  change Entries.find? k' (Entries.ofList (bindings ++ [(k, v)])) = _
  rw [Entries.ofList, List.foldl_append]
  exact Entries.find?_insert k k' v _

theorem contains_ofList [TransOrd κ] [LawfulEqOrd κ] [DecidableEq κ] (bindings : List (κ × ν)) (k : κ) :
    (ofList bindings).contains k = true ↔ ∃ v, (k, v) ∈ bindings := by
  have key : ∀ acc : List (κ × ν),
      (Entries.find? k (bindings.foldl (fun acc e => Entries.insert e.1 e.2 acc) acc)).isSome = true ↔
        (Entries.find? k acc).isSome = true ∨ ∃ v, (k, v) ∈ bindings := by
    induction bindings with
    | nil => simp
    | cons e rest ih =>
      intro acc
      obtain ⟨k₀, v₀⟩ := e
      rw [List.foldl_cons, ih, Entries.find?_insert]
      by_cases h : k = k₀ <;> simp [h]
  exact (key []).trans (by simp [Entries.find?])

/-- Two maps with the same look-ups are equal. -/
theorem ext_find? [TransOrd κ] [LawfulEqOrd κ] {a b : OrderedMap κ ν}
    (h : ∀ k, a.find? k = b.find? k) : a = b := by
  have : a.entries = b.entries := Entries.eq_of_mem_iff a.ascending b.ascending fun e => by
    rw [show e = (e.1, e.2) from rfl, mem_entries_iff, mem_entries_iff, h]
  cases a
  cases b
  cases this
  rfl

end OrderedMap

end EntityStore
