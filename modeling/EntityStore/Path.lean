/-!
# Paths

The slash-separated names of resources. Paths are ordered segment by segment, so a path comes before all paths
below it. Main statements: `isAbove_iff`, `move_of_isAbove`, `compare_eq_lt_of_isAbove` and
`isAbove_of_between`.
-/
namespace EntityStore

open Std

/-- The name of a resource: its segments from the root down. -/
structure Path where
  segments : List String
  deriving DecidableEq, Inhabited, Repr

namespace Path

instance : Ord Path := ⟨fun a b => compare a.segments b.segments⟩

theorem compare_def (a b : Path) : compare a b = compare a.segments b.segments := rfl

instance : TransOrd Path where
  eq_swap := by intro a b; exact @OrientedCmp.eq_swap _ (compare : List String → List String → Ordering) _ _ _
  isLE_trans := by
    intro a b c h₁ h₂
    exact @TransCmp.isLE_trans _ (compare : List String → List String → Ordering) _ _ _ _ h₁ h₂

instance : LawfulEqOrd Path where
  compare_self := by intro a; exact @ReflCmp.compare_self _ (compare : List String → List String → Ordering) _ _
  eq_of_compare := by
    intro a b h
    cases a
    cases b
    exact congrArg Path.mk (LawfulEqCmp.eq_of_compare h)

/-- A path of one segment, which may itself hold slashes. -/
def root (segment : String) : Path := ⟨[segment]⟩

/-- The path of a text: the pieces between slashes, empty ones left out. -/
def ofText (text : String) : Path :=
  ⟨((text.toList.splitOn '/').filter fun piece => !piece.isEmpty).map .ofList⟩

def child (p : Path) (segment : String) : Path := ⟨p.segments ++ [segment]⟩

/-- The path without its last segment, if something is left. -/
def parent? (p : Path) : Option Path :=
  if p.segments.length ≤ 1 then none else some ⟨p.segments.dropLast⟩

def name (p : Path) : String := p.segments.getLast?.getD ""

def depth (p : Path) : Nat := p.segments.length

/-- Does `q` lie strictly below `p`? -/
def isAbove (p q : Path) : Bool :=
  p.segments.length < q.segments.length && p.segments.isPrefixOf q.segments

/-- The path with its part `source` replaced by `target`; none if it lies neither at nor below `source`. -/
def move? (source target p : Path) : Option Path :=
  if p = source then some target
  else if source.isAbove p then some ⟨target.segments ++ p.segments.drop source.segments.length⟩
  else none

/-- Is one of two paths the other, or above it? -/
def related (p q : Path) : Bool := p == q || p.isAbove q || q.isAbove p

/-- A path as text, with a slash before every segment. -/
def text (p : Path) : String := "/" ++ "/".intercalate p.segments

theorem isAbove_iff {p q : Path} :
    p.isAbove q = true ↔ ∃ tail, tail ≠ [] ∧ q.segments = p.segments ++ tail := by
  simp only [isAbove, Bool.and_eq_true, decide_eq_true_eq, List.isPrefixOf_iff_prefix]
  constructor
  · rintro ⟨hlt, tail, ht⟩
    refine ⟨tail, ?_, ht.symm⟩
    rintro rfl
    simp [← ht] at hlt
  · rintro ⟨tail, hne, ht⟩
    refine ⟨?_, tail, ht.symm⟩
    have := List.length_pos_iff.2 hne
    rw [ht, List.length_append]
    omega

theorem move_of_isAbove {source target : Path} {tail : List String} (h : tail ≠ []) :
    move? source target ⟨source.segments ++ tail⟩ = some ⟨target.segments ++ tail⟩ := by
  have hne : (⟨source.segments ++ tail⟩ : Path) ≠ source := by
    intro he
    have := congrArg (fun p => p.segments.length) he
    simp only [List.length_append] at this
    have := List.length_pos_iff.2 h
    omega
  have habove : source.isAbove ⟨source.segments ++ tail⟩ = true := isAbove_iff.2 ⟨tail, h, rfl⟩
  simp [move?, hne, habove]

/-! ## Order -/

theorem compare_append (a : List String) {t : List String} (h : t ≠ []) : compare a (a ++ t) = .lt := by
  induction a with
  | nil =>
    cases t with
    | nil => exact absurd rfl h
    | cons x t => rfl
  | cons x a ih => rw [List.cons_append, List.compare_cons_cons, compare_self, ih]; rfl

theorem compare_eq_lt_of_isAbove {p q : Path} (h : p.isAbove q = true) : compare p q = .lt := by
  obtain ⟨tail, hne, hq⟩ := isAbove_iff.1 h
  rw [compare_def, hq]
  exact compare_append p.segments hne

theorem append_of_between {a b t : List String} (h₁ : compare a b = .lt) (h₂ : compare b (a ++ t) = .lt) :
    ∃ s, s ≠ [] ∧ b = a ++ s := by
  induction a generalizing b with
  | nil =>
    refine ⟨b, ?_, rfl⟩
    rintro rfl
    simp [ReflCmp.compare_self] at h₁
  | cons x a ih =>
    cases b with
    | nil => simp [List.compare_cons_nil] at h₁
    | cons y b =>
      rw [List.compare_cons_cons] at h₁
      rw [List.cons_append, List.compare_cons_cons] at h₂
      have hxy : x = y := by
        cases hc : compare x y with
        | eq => exact LawfulEqCmp.compare_eq_iff_eq.1 hc
        | lt =>
          rw [OrientedCmp.gt_of_lt hc] at h₂
          simp at h₂
        | gt =>
          rw [hc] at h₁
          simp at h₁
      subst hxy
      rw [compare_self] at h₁ h₂
      obtain ⟨s, hs, rfl⟩ := ih h₁ h₂
      exact ⟨s, hs, rfl⟩

/-- The paths below a path follow it without a gap. -/
theorem isAbove_of_between {p q r : Path} (h : p.isAbove r = true) (h₁ : compare p q = .lt)
    (h₂ : compare q r = .lt) : p.isAbove q = true := by
  obtain ⟨t, _, hr⟩ := isAbove_iff.1 h
  rw [compare_def, hr] at h₂
  obtain ⟨s, hs, hq⟩ := append_of_between h₁ h₂
  exact isAbove_iff.2 ⟨s, hs, hq⟩

end Path

end EntityStore
