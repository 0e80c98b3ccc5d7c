import EntityStore.Proofs.Except
import EntityStore.Proofs.Path
import EntityStore.Resources

/-!
# Moving subtrees

Every path after a move: the subtree of the source is at the target, and everything else is where it was. Main
statement: `find?_move`.
-/
namespace EntityStore.Resources

variable {now : Int} {source target : Path}

/-- A node at the place it is moved to; only the root of the subtree gets a new version. -/
def relocate (now : Int) (source p q : Path) (node : Node) : Node :=
  { (if p = source then node.touch now else node) with path := q }

/-! ## One node -/

theorem find?_moveNode {p q : Path} {node : Node} {nodes : OrderedMap Path Node} (hnode : nodes.find? p = some node)
    (hmove : Path.move? source target p = some q) (k : Path) :
    (moveNode now source target nodes p).find? k =
      if k = q then some (relocate now source p q node) else if k = p then none else nodes.find? k := by
  simp only [moveNode, hnode, hmove]
  rw [OrderedMap.find?_insert, OrderedMap.find?_erase]
  rfl

/-! ## All nodes of a subtree -/

/-- Moves distinct nodes of the subtree one after the other. The target is apart from the source, so no node is
overwritten before its turn. -/
theorem find?_foldl_moveNode (hrelated : source.related target = false) {ps : List Path} (hnodup : ps.Nodup)
    {nodes : OrderedMap Path Node}
    (hps : ∀ p ∈ ps, (∃ node, nodes.find? p = some node) ∧ ∃ q, Path.move? source target p = some q) (k : Path) :
    (ps.foldl (moveNode now source target) nodes).find? k =
      if k ∈ ps then none
      else match Path.move? target source k with
        | some p => if p ∈ ps then (nodes.find? p).map (relocate now source p k) else nodes.find? k
        | none => nodes.find? k := by
  induction ps generalizing nodes with
  | nil => cases Path.move? target source k <;> simp
  | cons p ps ih =>
    obtain ⟨hp, hnodup⟩ := List.nodup_cons.mp hnodup
    obtain ⟨⟨node, hnode⟩, q, hmove⟩ := hps p (by simp)
    have hfind : ∀ k, (moveNode now source target nodes p).find? k = _ := find?_moveNode hnode hmove
    have hback : Path.move? target source q = some p := Path.move?_symm hmove
    -- a path of the subtree is no place at the target
    have hapart : ∀ p' q', Path.move? source target p' = some q' → p' ≠ q := by
      rintro p' q' hmove' rfl
      simp [Path.move?_eq_none_of_unrelated hrelated hmove'] at hback
    have hrest : ∀ p' ∈ ps, (moveNode now source target nodes p).find? p' = nodes.find? p' := by
      intro p' hp'
      obtain ⟨_, q', hmove'⟩ := hps p' (by simp [hp'])
      have hne : p' ≠ p := by rintro rfl; exact hp hp'
      rw [hfind, if_neg (hapart p' q' hmove'), if_neg hne]
    rw [List.foldl_cons, ih hnodup fun p' hp' => hrest p' hp' ▸ hps p' (by simp [hp'])]
    have hpp : p ≠ q := hapart p q hmove
    by_cases hkp : k = p
    · subst hkp
      have hnone := Path.move?_eq_none_of_unrelated hrelated hmove
      simp [hp, hnone, hfind, hpp]
    by_cases hkps : k ∈ ps
    · simp [hkps]
    simp only [hkps, if_false, List.mem_cons, hkp, or_self]
    cases hk : Path.move? target source k with
    | none =>
      have hkq : k ≠ q := by rintro rfl; simp [hback] at hk
      simp [hfind, hkq, hkp]
    | some p' =>
      have hmove' : Path.move? source target p' = some k := Path.move?_symm hk
      by_cases hpp' : p' = p
      · subst hpp'
        obtain rfl : q = k := Option.some.inj (hmove.symm.trans hmove')
        simp [hp, hfind, hnode]
      · have hkq : k ≠ q := by
          rintro rfl
          exact hpp' (Option.some.inj (hk.symm.trans hback))
        have hpq : p' ≠ q := hapart p' k hmove'
        simp [hpp', hfind, hkq, hkp, hpq]

/-! ## The whole move -/

/-- Without the target and everything below it. -/
def clear (r : Resources) (target : Path) : Resources :=
  if r.nodes.contains target then ⟨r.nodes.eraseAll (target :: r.below target)⟩ else r

/-- What a move that succeeds has checked, and what it leaves. -/
theorem of_move {r r' : Resources} {overwrite replaced : Bool}
    (h : r.move now source target overwrite = .ok (replaced, r')) :
    source.related target = false ∧ r.nodes.contains source = true ∧ r.checkParent target = .ok () ∧
      replaced = r.nodes.contains target ∧ (replaced = true → overwrite = true) ∧
      r' = ⟨(source :: (r.clear target).below source).foldl (moveNode now source target) (r.clear target).nodes⟩ := by
  unfold move at h
  split at h
  · cases h
  split at h
  · cases h
  rename_i hrelated hsource
  simp only [bind_eq_ok] at h
  obtain ⟨⟨⟩, hparent, h⟩ := h
  split at h
  · cases h
  · rename_i hoverwrite
    cases h
    refine ⟨by simpa using hrelated, by simpa using hsource, hparent, rfl, ?_, rfl⟩
    intro hreplaced
    simpa [hreplaced] using hoverwrite

theorem find?_eq_none_iff {r : Resources} {k : Path} : r.find? k = none ↔ r.nodes.contains k = false := by
  rw [find?, OrderedMap.contains]
  cases r.nodes.find? k <;> simp

theorem find?_clear {r : Resources} (source : Path)
    (hbelow : ∀ p, target.isAbove p = true → r.nodes.contains p = true → r.nodes.contains target = true) (k : Path) :
    (r.clear target).find? k = if (Path.move? target source k).isSome then none else r.find? k := by
  unfold clear
  split
  · rename_i htarget
    have hmem : k ∈ target :: r.below target ↔ k = target ∨ r.nodes.contains k = true ∧ target.isAbove k = true := by
      rw [List.mem_cons, mem_below_iff]
    rw [find?, OrderedMap.find?_eraseAll]
    simp only [hmem, Path.move?_isSome_iff]
    cases hk : r.nodes.contains k with
    | true => simp [find?]
    | false =>
      have hnone : r.nodes.find? k = none := find?_eq_none_iff.mpr hk
      simp [find?, hnone]
  · rename_i htarget
    split
    · rename_i hk
      rw [find?_eq_none_iff]
      rcases Path.move?_isSome_iff.mp hk with rfl | habove
      · simpa using htarget
      · exact Bool.eq_false_iff.mpr fun hcontains => htarget (hbelow k habove hcontains)
    · rfl

theorem nodup_cons_below (r : Resources) (p : Path) : (p :: r.below p).Nodup := by
  rw [below_eq_filter, List.nodup_cons]
  constructor
  · intro hmem
    have hself : p.isAbove p = true := (List.mem_filter.mp hmem).2
    simp [Path.isAbove] at hself
  · refine (r.nodes.ascending_keys.imp ?_).filter _
    rintro a _ hlt rfl
    simp [Std.ReflCmp.compare_self] at hlt

theorem mem_cons_below_iff {r : Resources} (hsource : r.nodes.contains source = true) (target k : Path) :
    k ∈ source :: r.below source ↔ r.nodes.contains k = true ∧ ∃ q, Path.move? source target k = some q := by
  rw [List.mem_cons, mem_below_iff, ← Option.isSome_iff_exists, Path.move?_isSome_iff]
  constructor
  · rintro (rfl | ⟨hk, habove⟩)
    · exact ⟨hsource, .inl rfl⟩
    · exact ⟨hk, .inr habove⟩
  · rintro ⟨hk, rfl | habove⟩
    · exact .inl rfl
    · exact .inr ⟨hk, habove⟩

theorem movable_of_mem_cons_below {r : Resources} (hsource : r.nodes.contains source = true) (target : Path) {p : Path}
    (hp : p ∈ source :: r.below source) :
    (∃ node, r.nodes.find? p = some node) ∧ ∃ q, Path.move? source target p = some q := by
  obtain ⟨hcontains, hmove⟩ := (mem_cons_below_iff hsource target p).mp hp
  exact ⟨(OrderedMap.contains_iff _ _).mp hcontains, hmove⟩

/-- After a move the target has the subtree of the source and nothing else, the source has nothing, and what lies
apart from both is unchanged. -/
theorem find?_move {r r' : Resources} {overwrite replaced : Bool}
    (h : r.move now source target overwrite = .ok (replaced, r'))
    (hbelow : ∀ p, target.isAbove p = true → r.nodes.contains p = true → r.nodes.contains target = true) (k : Path) :
    r'.find? k =
      match Path.move? target source k with
      | some p => (r.find? p).map (relocate now source p k)
      | none => if (Path.move? source target k).isSome then none else r.find? k := by
  obtain ⟨hrelated, hsource, _, _, _, rfl⟩ := of_move h
  have hclear : ∀ k, (r.clear target).nodes.find? k = _ := find?_clear source hbelow
  have hkept : ∀ p q, Path.move? source target p = some q → (r.clear target).nodes.find? p = r.find? p := by
    intro p q hmove
    rw [hclear, Path.move?_eq_none_of_unrelated hrelated hmove]
    rfl
  have hsource' : (r.clear target).nodes.contains source = true := by
    rw [OrderedMap.contains, hkept source target (by simp [Path.move?])]
    exact hsource
  have hmem := mem_cons_below_iff hsource' target
  have hps := fun p => movable_of_mem_cons_below hsource' target (p := p)
  rw [find?, find?_foldl_moveNode hrelated (nodup_cons_below _ _) hps]
  cases hk : Path.move? target source k with
  | some p =>
    have hmove : Path.move? source target p = some k := Path.move?_symm hk
    have hnone : (r.clear target).nodes.find? k = none := by simp [hclear, hk]
    have hkmem : k ∉ source :: (r.clear target).below source := by
      intro hkmem
      obtain ⟨node, hnode⟩ := (hps k hkmem).1
      simp [hnone] at hnode
    have hpmem : p ∈ source :: (r.clear target).below source ↔ ∃ node, r.find? p = some node := by
      rw [hmem, OrderedMap.contains_iff, hkept p k hmove]
      exact and_iff_left ⟨k, hmove⟩
    dsimp only
    rw [if_neg hkmem]
    cases hp : r.find? p with
    | none =>
      have hpnot : p ∉ source :: (r.clear target).below source := by simp [hpmem, hp]
      rw [if_neg hpnot, hnone, Option.map_none]
    | some node =>
      have hpin : p ∈ source :: (r.clear target).below source := hpmem.mpr ⟨node, hp⟩
      rw [if_pos hpin, hkept p k hmove, hp]
  | none =>
    have hfind : (r.clear target).nodes.find? k = r.find? k := by simp [hclear, hk]
    have hkmem : k ∈ source :: (r.clear target).below source ↔
        (∃ node, r.find? k = some node) ∧ ∃ q, Path.move? source target k = some q := by
      rw [hmem, OrderedMap.contains_iff, hfind]
    dsimp only
    rw [hfind]
    cases hforth : Path.move? source target k with
    | none =>
      have hknot : k ∉ source :: (r.clear target).below source := by simp [hkmem, hforth]
      rw [if_neg hknot]
      rfl
    | some q =>
      cases hr : r.find? k with
      | none => simp
      | some node =>
        have hkin : k ∈ source :: (r.clear target).below source := hkmem.mpr ⟨⟨node, hr⟩, q, hforth⟩
        rw [if_pos hkin]
        rfl

/-- After a move there is a node at the target, in whatever state the tree was before. -/
theorem exists_target_of_move {r r' : Resources} {overwrite replaced : Bool}
    (h : r.move now source target overwrite = .ok (replaced, r')) : ∃ node, r'.find? target = some node := by
  obtain ⟨hrelated, hsource, _, _, _, rfl⟩ := of_move h
  have hforth : Path.move? source target source = some target := by simp [Path.move?]
  have hback : Path.move? target source target = some source := Path.move?_symm hforth
  have hkept : (r.clear target).nodes.contains source = true := by
    have hapart : source ∉ target :: r.below target := by
      rw [List.mem_cons, mem_below_iff]
      rintro (rfl | ⟨_, habove⟩)
      · simp [Path.related] at hrelated
      · simp [Path.related, habove] at hrelated
    unfold clear
    split
    · rw [OrderedMap.contains, OrderedMap.find?_eraseAll, if_neg hapart]
      exact hsource
    · exact hsource
  obtain ⟨node, hnode⟩ := (OrderedMap.contains_iff _ _).mp hkept
  have hin : source ∈ source :: (r.clear target).below source := List.mem_cons_self
  have hnotin : target ∉ source :: (r.clear target).below source := by
    intro hmem
    obtain ⟨q, hmove⟩ := (movable_of_mem_cons_below hkept target hmem).2
    simp [Path.move?_eq_none_of_unrelated hrelated hmove] at hback
  refine ⟨relocate now source source target node, ?_⟩
  rw [find?, find?_foldl_moveNode hrelated (nodup_cons_below _ _) fun p => movable_of_mem_cons_below hkept target]
  rw [if_neg hnotin, hback]
  dsimp only
  rw [if_pos hin, hnode, Option.map_some]

section

variable {r r' : Resources} {overwrite replaced : Bool} {k p : Path}
  (h : r.move now source target overwrite = .ok (replaced, r'))
  (hbelow : ∀ p, target.isAbove p = true → r.nodes.contains p = true → r.nodes.contains target = true)

include h hbelow

theorem find?_move_of_moved (hback : Path.move? target source k = some p) :
    r'.find? k = (r.find? p).map (relocate now source p k) := by
  rw [find?_move h hbelow, hback]

theorem find?_move_of_apart (hsource : ¬ source.segments <+: k.segments) (htarget : ¬ target.segments <+: k.segments) :
    r'.find? k = r.find? k := by
  rw [find?_move h hbelow, Path.move?_eq_none_iff.mpr htarget, Path.move?_eq_none_iff.mpr hsource]
  rfl

/-- Whatever a move leaves was there before, at the source or at the same place. -/
theorem exists_of_find?_move {node : Node} (hnode : r'.find? k = some node) :
    (∃ p old, Path.move? target source k = some p ∧ r.find? p = some old ∧ relocate now source p k old = node) ∨
      (¬ source.segments <+: k.segments ∧ ¬ target.segments <+: k.segments ∧ r.find? k = some node) := by
  rw [find?_move h hbelow] at hnode
  split at hnode
  · rename_i p hback
    obtain ⟨old, hold, hrelocate⟩ := Option.map_eq_some_iff.mp hnode
    exact .inl ⟨p, old, hback, hold, hrelocate⟩
  · rename_i hback
    split at hnode
    · cases hnode
    · rename_i hforth
      have hforth : Path.move? source target k = none := by simpa using hforth
      exact .inr ⟨Path.move?_eq_none_iff.mp hforth, Path.move?_eq_none_iff.mp hback, hnode⟩

end

end EntityStore.Resources
