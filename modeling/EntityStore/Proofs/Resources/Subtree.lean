import EntityStore.Proofs.Resources.WellFormed

/-!
# Where a subtree moves

When a tree lets a node move, and where every node is afterwards. Main statement: `move_iff_and_find?`.
-/
namespace EntityStore.Resources

variable {r r' : Resources} {now : Int} {source target : Path} {overwrite replaced : Bool}

/-! ## Moves that are allowed -/

theorem checkParent_eq_ok_iff {p : Path} : r.checkParent p = .ok () ↔
    ∀ parent, p.parent? = some parent → ∃ node, r.find? parent = some node ∧ node.isContainer = true := by
  unfold checkParent
  cases p.parent? with
  | none => simp
  | some parent =>
    cases hfind : r.find? parent with
    | none => simp [hfind]
    | some node => cases hcontainer : node.isContainer <;> simp [hfind, hcontainer]

theorem related_eq_false_iff : source.related target = false ↔
    source ≠ target ∧ source.isAbove target = false ∧ target.isAbove source = false := by
  simp [Path.related, and_assoc]

theorem exists_move_iff : (∃ replaced r', r.move now source target overwrite = .ok (replaced, r')) ↔
    source.related target = false ∧ r.nodes.contains source = true ∧ r.checkParent target = .ok () ∧
      (r.nodes.contains target = false ∨ overwrite = true) := by
  constructor
  · rintro ⟨replaced, r', hmove⟩
    obtain ⟨hrelated, hsource, hparent, hreplaced, hoverwrite, _⟩ := of_move hmove
    refine ⟨hrelated, hsource, hparent, ?_⟩
    cases replaced with
    | false => exact .inl hreplaced.symm
    | true => exact .inr (hoverwrite rfl)
  · rintro ⟨hrelated, hsource, hparent, hfree⟩
    have hallowed : (r.nodes.contains target && !overwrite) = false := by
      rcases hfree with hfree | hfree <;> simp [hfree]
    simp only [move, hrelated, hsource, hparent, hallowed, Bool.false_eq_true, Bool.not_true, if_false]
    exact ⟨_, _, rfl⟩

/-! ## Nodes after a move -/

theorem move?_append (suffix : List String) :
    Path.move? source target ⟨source.segments ++ suffix⟩ = some ⟨target.segments ++ suffix⟩ :=
  Path.move?_eq_some_iff.mpr ⟨suffix, rfl, rfl⟩

/-- Nothing is stored below an absent target: it is not the empty path, which lies above the source. -/
theorem Closed.contains_target (h : r.Closed) (hrelated : source.related target = false) (p : Path)
    (habove : target.isAbove p = true) (hp : r.nodes.contains p = true) : r.nodes.contains target = true := by
  have hnamed : target.segments ≠ [] := fun hnil =>
    (Path.not_prefix_of_unrelated hrelated).2 (hnil ▸ List.nil_prefix)
  exact h.contains_of_isAbove hnamed habove hp

theorem relocate_append (node : Node) (suffix : List String) :
    relocate now source ⟨source.segments ++ suffix⟩ ⟨target.segments ++ suffix⟩ node =
      if suffix = [] then
        { node with path := target, version := node.version + 1, updated := max now node.updated }
      else { node with path := ⟨target.segments ++ suffix⟩ } := by
  have hroot : (⟨source.segments ++ suffix⟩ : Path) = source ↔ suffix = [] := by
    constructor
    · intro h
      simpa using congrArg Path.segments h
    · rintro rfl
      exact Path.ext_segments (List.append_nil _)
  by_cases hsuffix : suffix = []
  · subst hsuffix
    simp [relocate, Node.touch]
  · simp [relocate, hroot, hsuffix]

/-- In a tree where no node lacks its parent, a node moves exactly if neither path is the other or above it, the
source is there, the target has a container as its parent if it has one, and it is free or may be overwritten. A move
tells whether the target was there. Then the subtree of the target is that of the source, with its paths changed and a
new version of its root only; the source and everything below it are gone, and the rest is as before. A move that fails
changes nothing. -/
theorem move_iff_and_find? (r : Resources) (h : r.Closed) (now : Int) (source target : Path) (overwrite : Bool) :
    ((∃ replaced r', r.move now source target overwrite = .ok (replaced, r')) ↔
      (source ≠ target ∧ source.isAbove target = false ∧ target.isAbove source = false) ∧
        (∃ node, r.find? source = some node) ∧
        (∀ parent, target.parent? = some parent → ∃ node, r.find? parent = some node ∧ node.isContainer = true) ∧
        (r.find? target = none ∨ overwrite = true)) ∧
    (∀ replaced r', r.move now source target overwrite = .ok (replaced, r') →
      (replaced = true ↔ ∃ node, r.find? target = some node) ∧
      (∀ suffix, r'.find? ⟨target.segments ++ suffix⟩ = (r.find? ⟨source.segments ++ suffix⟩).map fun node =>
        if suffix = [] then
          { node with path := target, version := node.version + 1, updated := max now node.updated }
        else { node with path := ⟨target.segments ++ suffix⟩ }) ∧
      (∀ suffix, r'.find? ⟨source.segments ++ suffix⟩ = none) ∧
      (∀ p : Path, ¬ source.segments <+: p.segments → ¬ target.segments <+: p.segments → r'.find? p = r.find? p) ∧
      r.step (now, .move source target overwrite) = r') ∧
    ∀ e, r.move now source target overwrite = .error e → r.step (now, .move source target overwrite) = r := by
  have hcontains : ∀ p, r.nodes.contains p = true ↔ ∃ node, r.find? p = some node := fun p =>
    OrderedMap.contains_iff r.nodes p
  refine ⟨?_, ?_, ?_⟩
  · rw [exists_move_iff, related_eq_false_iff, hcontains, checkParent_eq_ok_iff, find?_eq_none_iff]
  · intro replaced r' hmove
    obtain ⟨hrelated, _, _, hreplaced, _, _⟩ := of_move hmove
    have hbelow := h.contains_target hrelated
    refine ⟨?_, fun suffix => ?_, fun suffix => ?_, fun p => find?_move_of_apart hmove hbelow, ?_⟩
    · rw [hreplaced, hcontains]
    · rw [find?_move_of_moved hmove hbelow (move?_append suffix)]
      exact congrArg (fun f => Option.map f _) (funext fun node => relocate_append node suffix)
    · have hforth : Path.move? source target ⟨source.segments ++ suffix⟩ = some ⟨target.segments ++ suffix⟩ :=
        move?_append suffix
      rw [find?_move hmove hbelow, Path.move?_eq_none_of_unrelated hrelated hforth, hforth]
      rfl
    · simp [step, apply, hmove, Except.map]
  · intro e hmove
    simp [step, apply, hmove, Except.map]

/-- A collection with a file in it moves onto another collection, whose file is gone. -/
theorem move_iff_and_find?_overwrite :
    let r := empty.run [(1, .insert (.root "c") .cell), (2, .insert (.ofText "c/a") (.collection .plain)),
      (3, .putFile (.ofText "c/a/f") "text/plain" "new"), (4, .insert (.ofText "c/b") (.collection .plain)),
      (5, .putFile (.ofText "c/b/g") "text/plain" "old")]
    r.Closed ∧ ∃ r', r.move 6 (.ofText "c/a") (.ofText "c/b") true = .ok (true, r') ∧
      r'.find? (.ofText "c/b") =
        some ⟨.ofText "c/b", .collection .plain, "", .empty, 2, 2, 6⟩ ∧
      r'.find? (.ofText "c/b/f") = some ⟨.ofText "c/b/f", .file "text/plain", "new", .empty, 1, 3, 3⟩ ∧
      r'.find? (.ofText "c/b/g") = none ∧ r'.find? (.ofText "c/a/f") = none := by
  intro r
  have hclosed : r.Closed := (wellFormed_empty.run _).closed
  obtain ⟨hallowed, hmoved, _⟩ := move_iff_and_find? r hclosed 6 (.ofText "c/a") (.ofText "c/b") true
  have hsource : ∃ node, r.find? (.ofText "c/a") = some node := ⟨_, rfl⟩
  have htarget : ∃ node, r.find? (.ofText "c/b") = some node := ⟨_, rfl⟩
  obtain ⟨replaced, r', hmove⟩ := hallowed.mpr ⟨by decide, hsource, by
    rintro _ ⟨⟩
    exact ⟨_, rfl, rfl⟩, .inr rfl⟩
  obtain ⟨hreplaced, hfind, hgone, _⟩ := hmoved replaced r' hmove
  obtain rfl : replaced = true := hreplaced.mpr htarget
  exact ⟨hclosed, r', hmove, hfind [], hfind ["f"], hfind ["g"], hgone ["f"]⟩

end EntityStore.Resources
