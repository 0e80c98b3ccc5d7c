import EntityStore.Path
import Mathlib.Logic.Equiv.Defs

/-!
# Moving paths

Where a path lies after a subtree has moved. Main statements: `move?_eq_some_iff`, `move?_eq_none_of_unrelated` and
`move?_isSome_iff_and_relocation`.
-/
namespace EntityStore.Path

theorem ext_segments {p q : Path} (h : p.segments = q.segments) : p = q := by
  cases p
  cases q
  exact congrArg Path.mk h

variable {source target p q : Path}

/-- What lies at or below the source keeps its way from there. -/
theorem move?_eq_some_iff : move? source target p = some q ↔
    ∃ tail, p.segments = source.segments ++ tail ∧ q.segments = target.segments ++ tail := by
  constructor
  · intro h
    unfold move? at h
    split at h
    · rename_i hp
      cases h
      exact ⟨[], by simp [hp], by simp⟩
    · split at h
      · rename_i habove
        cases h
        obtain ⟨tail, _, hp⟩ := isAbove_iff.mp habove
        exact ⟨tail, hp, by simp [hp]⟩
      · cases h
  · rintro ⟨tail, hp, hq⟩
    obtain rfl : p = ⟨source.segments ++ tail⟩ := ext_segments hp
    obtain rfl : q = ⟨target.segments ++ tail⟩ := ext_segments hq
    cases tail with
    | nil => simp [move?]
    | cons segment tail => exact move_of_isAbove (List.cons_ne_nil segment tail)

theorem move?_eq_none_iff : move? source target p = none ↔ ¬ source.segments <+: p.segments := by
  rw [Option.eq_none_iff_forall_ne_some]
  constructor
  · rintro h ⟨tail, hp⟩
    exact h ⟨target.segments ++ tail⟩ (move?_eq_some_iff.mpr ⟨tail, hp.symm, rfl⟩)
  · intro h q hq
    obtain ⟨tail, hp, _⟩ := move?_eq_some_iff.mp hq
    exact h ⟨tail, hp.symm⟩

theorem isAbove_trans {r : Path} (h : p.isAbove q = true) (h' : q.isAbove r = true) : p.isAbove r = true := by
  rw [isAbove_iff] at h h' ⊢
  obtain ⟨tail, hne, hq⟩ := h
  obtain ⟨tail', _, hr⟩ := h'
  exact ⟨tail ++ tail', by simp [hne], by rw [hr, hq, List.append_assoc]⟩

theorem move?_symm (h : move? source target p = some q) : move? target source q = some p := by
  rw [move?_eq_some_iff] at h ⊢
  obtain ⟨tail, hp, hq⟩ := h
  exact ⟨tail, hq, hp⟩

theorem related_iff : source.related target = true ↔
    source.segments <+: target.segments ∨ target.segments <+: source.segments := by
  have habove : ∀ p q : Path, p.isAbove q = true → p.segments <+: q.segments := by
    intro p q h
    obtain ⟨tail, _, hq⟩ := isAbove_iff.mp h
    exact ⟨tail, hq.symm⟩
  have hpre : ∀ p q : Path, p.segments <+: q.segments → p = q ∨ p.isAbove q = true := by
    rintro p q ⟨tail, hq⟩
    cases tail with
    | nil => exact .inl (ext_segments (by simpa using hq))
    | cons segment tail => exact .inr (isAbove_iff.mpr ⟨_, List.cons_ne_nil segment tail, hq.symm⟩)
  simp only [related, Bool.or_eq_true, beq_iff_eq]
  constructor
  · rintro ((rfl | h) | h)
    · exact .inl (List.prefix_refl _)
    · exact .inl (habove _ _ h)
    · exact .inr (habove _ _ h)
  · rintro (h | h)
    · exact .inl (hpre _ _ h)
    · rcases hpre _ _ h with rfl | h
      · exact .inl (.inl rfl)
      · exact .inr h

theorem not_prefix_of_unrelated (hrelated : source.related target = false) :
    ¬ source.segments <+: target.segments ∧ ¬ target.segments <+: source.segments := by
  rw [← not_or, ← related_iff, hrelated]
  exact Bool.false_ne_true

/-- Nothing lies both at or below the source and at or below an unrelated target. -/
theorem move?_eq_none_of_unrelated (hrelated : source.related target = false) (h : move? source target p = some q) :
    move? target source p = none := by
  cases hback : move? target source p with
  | none => rfl
  | some q' =>
    obtain ⟨tail, hp, _⟩ := move?_eq_some_iff.mp h
    obtain ⟨tail', hp', _⟩ := move?_eq_some_iff.mp hback
    have hpre : source.segments <+: p.segments := ⟨tail, hp.symm⟩
    have hpre' : target.segments <+: p.segments := ⟨tail', hp'.symm⟩
    have hrelated' : source.related target = true :=
      related_iff.mpr (List.prefix_or_prefix_of_prefix hpre hpre')
    simp [hrelated'] at hrelated

theorem move?_isSome_iff {k : Path} :
    (move? source target k).isSome = true ↔ k = source ∨ source.isAbove k = true := by
  unfold move?
  by_cases hk : k = source <;> simp [hk]

/-! ## Subtrees -/

/-- The paths at or below a path. -/
def Subtree (p : Path) : Type := { k : Path // k = p ∨ p.isAbove k = true }

/-- Where a path of the subtree lies after the move. -/
def Subtree.move (target : Path) (k : Subtree source) : Subtree target :=
  have hsome : (move? source target k.1).isSome = true := move?_isSome_iff.mpr k.2
  ⟨(move? source target k.1).get hsome, by
    have hback := move?_symm (Option.some_get hsome).symm
    exact move?_isSome_iff.mp (Option.isSome_of_eq_some hback)⟩

theorem Subtree.move?_eq (k : Subtree source) (target : Path) : move? source target k.1 = some (k.move target).1 :=
  (Option.some_get _).symm

theorem Subtree.move_move (k : Subtree source) : (k.move target).move source = k := by
  have hback : move? target source (k.move target).1 = some k.1 := move?_symm (k.move?_eq _)
  exact Subtype.ext (Option.some.inj (((k.move target).move?_eq _).symm.trans hback))

/-- Moving a subtree to the target and moving it back. -/
def relocation (source target : Path) : Subtree source ≃ Subtree target where
  toFun k := k.move target
  invFun q := q.move source
  left_inv := Subtree.move_move
  right_inv := Subtree.move_move

theorem isAbove_append_iff {common a b : List String} :
    isAbove ⟨common ++ a⟩ ⟨common ++ b⟩ = true ↔ isAbove ⟨a⟩ ⟨b⟩ = true := by
  simp only [isAbove_iff, List.append_assoc, List.append_cancel_left_eq]

theorem compare_append_left (common a b : List String) : compare (common ++ a) (common ++ b) = compare a b := by
  induction common with
  | nil => rfl
  | cons segment common ih =>
    rw [List.cons_append, List.cons_append, List.compare_cons_cons, Std.compare_self, ih]
    rfl

namespace Subtree

/-- The path at the end of a way from the top of the subtree. -/
def along (p : Path) (way : List String) : Subtree p :=
  have hself : move? p p ⟨p.segments ++ way⟩ = some ⟨p.segments ++ way⟩ := move?_eq_some_iff.mpr ⟨way, rfl, rfl⟩
  ⟨⟨p.segments ++ way⟩, move?_isSome_iff.mp (Option.isSome_of_eq_some hself)⟩

theorem exists_along (k : Subtree p) : ∃ way, k = along p way := by
  obtain ⟨way, hsegments, -⟩ := move?_eq_some_iff.mp (k.move?_eq p)
  exact ⟨way, Subtype.ext (ext_segments hsegments)⟩

/-- Moving keeps the way from the top. -/
theorem move_along (source target : Path) (way : List String) : (along source way).move target = along target way := by
  have hmove : move? source target (along source way).1 = some (along target way).1 :=
    move?_eq_some_iff.mpr ⟨way, rfl, rfl⟩
  exact Subtype.ext (Option.some.inj (((along source way).move?_eq _).symm.trans hmove))

variable {way : List String}

theorem parent?_along (hp : p.segments ≠ []) (hway : way ≠ []) :
    (along p way).1.parent? = some (along p way.dropLast).1 := by
  have hlength : ¬ (p.segments ++ way).length ≤ 1 := by
    have := List.length_pos_iff.mpr hp
    have := List.length_pos_iff.mpr hway
    rw [List.length_append]
    omega
  rw [parent?, along, if_neg hlength, List.dropLast_append_of_ne_nil hway]
  rfl

theorem isAbove_along_iff {way' : List String} :
    (along p way).1.isAbove (along p way').1 = true ↔ isAbove ⟨way⟩ ⟨way'⟩ = true :=
  isAbove_append_iff

theorem compare_along (p : Path) (way way' : List String) :
    compare (along p way).1 (along p way').1 = compare way way' :=
  compare_append_left p.segments way way'

end Subtree

/-- A path can be moved exactly if it lies at or below the source. Moving is a bijection to what lies at or below the
target, with the move back as its inverse. It carries parents along, keeps who is above whom and the order of paths,
and leads out of the subtree if neither of source and target is the other or above it. -/
theorem move?_isSome_iff_and_relocation (source target : Path) :
    (∀ k, (move? source target k).isSome = true ↔ k = source ∨ source.isAbove k = true) ∧
    ∃ e : Subtree source ≃ Subtree target,
      (∀ k, move? source target k.1 = some (e k).1) ∧ (∀ q, move? target source q.1 = some (e.symm q).1) ∧
      (source.segments ≠ [] → target.segments ≠ [] → ∀ k, k.1 ≠ source →
        ∃ parent : Subtree source, k.1.parent? = some parent.1 ∧ (e k).1.parent? = some (e parent).1) ∧
      (∀ k l, (k.1.isAbove l.1 = true ↔ (e k).1.isAbove (e l).1 = true) ∧ compare k.1 l.1 = compare (e k).1 (e l).1) ∧
      (source ≠ target → source.isAbove target = false → target.isAbove source = false →
        ∀ k, move? source target (e k).1 = none) := by
  have hrelocation : ∀ way, relocation source target (Subtree.along source way) = Subtree.along target way :=
    Subtree.move_along source target
  refine ⟨fun _ => move?_isSome_iff, relocation source target, fun k => k.move?_eq target,
    fun q => q.move?_eq source, ?_, ?_, ?_⟩
  · intro hsource htarget k hk
    obtain ⟨way, rfl⟩ := k.exists_along
    have hway : way ≠ [] := by
      rintro rfl
      exact hk (ext_segments (List.append_nil _))
    refine ⟨Subtree.along source way.dropLast, Subtree.parent?_along hsource hway, ?_⟩
    rw [hrelocation, hrelocation, Subtree.parent?_along htarget hway]
  · intro k l
    obtain ⟨way, rfl⟩ := k.exists_along
    obtain ⟨way', rfl⟩ := l.exists_along
    rw [hrelocation, hrelocation, Subtree.isAbove_along_iff, Subtree.isAbove_along_iff, Subtree.compare_along,
      Subtree.compare_along]
    exact ⟨Iff.rfl, rfl⟩
  · intro hne habove hbelow k
    have hrelated : target.related source = false := by simp [related, hne.symm, habove, hbelow]
    exact move?_eq_none_of_unrelated hrelated (move?_symm (k.move?_eq _))

end EntityStore.Path
