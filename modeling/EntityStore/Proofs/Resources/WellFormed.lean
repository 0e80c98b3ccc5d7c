import EntityStore.Proofs.Resources.Move

/-!
# Well-formed trees

No operation leaves a node without the containers above it. A step lemma for each operation says that it keeps the
tree well-formed, and so does every run. Main statement: `wellFormed_run`.
-/
namespace EntityStore

/-- A node as it may be stored at a path. -/
structure Node.Fits (p : Path) (node : Node) : Prop where
  path : node.path = p
  body : node.isContainer = true → node.body = ""
  version : 1 ≤ node.version
  times : node.created ≤ node.updated

namespace Resources

/-- Every node fits its path, and a path of two or more segments has a container as its parent. -/
structure WellFormed (r : Resources) : Prop where
  fits : ∀ p node, r.find? p = some node → node.Fits p
  parent : ∀ p node, r.find? p = some node → 2 ≤ p.segments.length →
    ∃ parent, r.find? ⟨p.segments.dropLast⟩ = some parent ∧ parent.isContainer = true

/-- A change of the tree. -/
inductive Operation where
  | insert (p : Path) (kind : NodeKind)
  | putFile (p : Path) (contentType body : String)
  | setProperties (p : Path) (set : OrderedMap String String) (remove : List String)
  | remove (p : Path)
  | removeSubtree (p : Path)
  | move (source target : Path) (overwrite : Bool)

/-- The tree after an operation at a reading of the clock. -/
def apply (r : Resources) (now : Int) : Operation → Except StoreError Resources
  | .insert p kind => (r.insert now p kind).map (·.2)
  | .putFile p contentType body => (r.putFile now p contentType body).map (·.2)
  | .setProperties p set remove => (r.setProperties now p set remove).map (·.2)
  | .remove p => (r.remove p).map (·.2)
  | .removeSubtree p => (r.removeSubtree p).map (·.2)
  | .move source target overwrite => (r.move now source target overwrite).map (·.2)

/-- An operation that fails changes nothing. -/
def step (r : Resources) (operation : Int × Operation) : Resources :=
  match r.apply operation.1 operation.2 with
  | .ok r' => r'
  | .error _ => r

/-- The tree after operations one by one, each at its own reading of the clock. -/
def run (r : Resources) (operations : List (Int × Operation)) : Resources := operations.foldl step r

variable {r r' : Resources} {now : Int} {p : Path}

/-! ## What lies above a node -/

theorem checkParent_eq_ok (h : r.checkParent p = .ok ()) (hlength : 2 ≤ p.segments.length) :
    ∃ parent, r.find? ⟨p.segments.dropLast⟩ = some parent ∧ parent.isContainer = true := by
  have hparent : p.parent? = some ⟨p.segments.dropLast⟩ := by
    rw [Path.parent?, if_neg (by omega)]
  simp only [checkParent, hparent] at h
  split at h
  · cases h
  · rename_i node hnode
    split at h
    · rename_i hcontainer
      exact ⟨node, hnode, hcontainer⟩
    · cases h

/-- The parent of a path below another lies at or below that one. -/
theorem isAbove_dropLast {q : Path} (h : p.isAbove q = true) :
    (⟨q.segments.dropLast⟩ : Path) = p ∨ p.isAbove ⟨q.segments.dropLast⟩ = true := by
  obtain ⟨tail, hne, hq⟩ := Path.isAbove_iff.mp h
  rw [hq, List.dropLast_append_of_ne_nil hne]
  cases hdrop : tail.dropLast with
  | nil => exact .inl (Path.ext_segments (by simp))
  | cons segment more => exact .inr (Path.isAbove_iff.mpr ⟨_, List.cons_ne_nil segment more, rfl⟩)

/-- A path of two or more segments that is stored has its parent stored. -/
def Closed (r : Resources) : Prop :=
  ∀ p, r.nodes.contains p = true → 2 ≤ p.segments.length → r.nodes.contains ⟨p.segments.dropLast⟩ = true

/-- Every named path above a stored one is stored. -/
theorem Closed.contains_of_isAbove (h : r.Closed) (hnamed : p.segments ≠ []) {q : Path}
    (habove : p.isAbove q = true) (hq : r.nodes.contains q = true) : r.nodes.contains p = true := by
  induction hn : q.segments.length using Nat.strongRecOn generalizing q with
  | _ n ih =>
    have hlt : p.segments.length < q.segments.length := by
      simp only [Path.isAbove, Bool.and_eq_true, decide_eq_true_eq] at habove
      exact habove.1
    have hpos := List.length_pos_iff.mpr hnamed
    have hparent := h q hq (by omega)
    rcases isAbove_dropLast habove with rfl | habove'
    · exact hparent
    · refine ih (n - 1) (by omega) habove' hparent ?_
      simp [hn]

theorem WellFormed.closed (h : r.WellFormed) : r.Closed := by
  intro p hp hlength
  obtain ⟨node, hnode⟩ := (OrderedMap.contains_iff _ _).mp hp
  obtain ⟨parent, hparent, _⟩ := h.parent p node hnode hlength
  exact (OrderedMap.contains_iff _ _).mpr ⟨parent, hparent⟩

/-- Every named path above a node is that of a container: it is the parent of the next path on the way down. -/
theorem WellFormed.container_of_isAbove (h : r.WellFormed) {q : Path} {node : Node} (hnode : r.find? q = some node)
    (hnamed : p.segments ≠ []) (habove : p.isAbove q = true) :
    ∃ container, r.find? p = some container ∧ container.isContainer = true := by
  have hq : r.nodes.contains q = true := (OrderedMap.contains_iff _ _).mpr ⟨node, hnode⟩
  obtain ⟨tail, hne, hsegments⟩ := Path.isAbove_iff.mp habove
  obtain ⟨segment, more, rfl⟩ := List.exists_cons_of_ne_nil hne
  have hchild : r.nodes.contains (p.child segment) = true := by
    cases more with
    | nil => rwa [← show q = p.child segment from Path.ext_segments hsegments]
    | cons next more =>
      refine h.closed.contains_of_isAbove (by simp [Path.child]) (Path.isAbove_iff.mpr ?_) hq
      exact ⟨next :: more, List.cons_ne_nil _ _, by simp [Path.child, hsegments]⟩
  obtain ⟨childNode, hfound⟩ := (OrderedMap.contains_iff _ _).mp hchild
  have hlength : 2 ≤ (p.child segment).segments.length := by
    have hpos := List.length_pos_iff.mpr hnamed
    simp only [Path.child, List.length_append, List.length_singleton]
    omega
  have hparent : (⟨(p.child segment).segments.dropLast⟩ : Path) = p := Path.ext_segments (by simp [Path.child])
  obtain ⟨container, hcontainer⟩ := h.parent (p.child segment) childNode hfound hlength
  exact ⟨container, hparent ▸ hcontainer⟩

theorem isAbove_of_dropLast (h : p.segments ≠ []) : (⟨p.segments.dropLast⟩ : Path).isAbove p = true :=
  Path.isAbove_iff.mpr ⟨[p.segments.getLast h], by simp, (List.dropLast_concat_getLast h).symm⟩

/-! ## Single operations -/

theorem wellFormed_empty : empty.WellFormed where
  fits := by
    intro p node h
    cases h
  parent := by
    intro p node h
    cases h

/-- Storing a fitting node below a container, if it does not replace a container by a file. -/
theorem WellFormed.put (h : r.WellFormed) {node : Node} (hfits : node.Fits p)
    (hparent : 2 ≤ p.segments.length →
      ∃ parent, r.find? ⟨p.segments.dropLast⟩ = some parent ∧ parent.isContainer = true)
    (hkept : ∀ old, r.find? p = some old → old.isContainer = true → node.isContainer = true) :
    WellFormed ⟨r.nodes.insert p node⟩ := by
  have hfind : ∀ q, find? ⟨r.nodes.insert p node⟩ q = if q = p then some node else r.find? q :=
    fun q => OrderedMap.find?_insert r.nodes p q node
  constructor
  · intro q other hq
    rw [hfind] at hq
    split at hq
    · rename_i hqp
      cases hq
      exact hqp ▸ hfits
    · exact h.fits q other hq
  · intro q other hq hlength
    have hbefore : ∃ parent, r.find? ⟨q.segments.dropLast⟩ = some parent ∧ parent.isContainer = true := by
      rw [hfind] at hq
      split at hq
      · rename_i hqp
        subst hqp
        exact hparent hlength
      · exact h.parent q other hq hlength
    obtain ⟨parent, hfound, hcontainer⟩ := hbefore
    rw [hfind]
    split
    · rename_i hpp
      exact ⟨node, rfl, hkept parent (hpp ▸ hfound) hcontainer⟩
    · exact ⟨parent, hfound, hcontainer⟩

/-- Removing nodes together with everything below them. -/
theorem WellFormed.eraseAll (h : r.WellFormed) {ps : List Path}
    (hclosed : ∀ p ∈ ps, ∀ q, r.nodes.contains q = true → p.isAbove q = true → q ∈ ps) :
    WellFormed ⟨r.nodes.eraseAll ps⟩ := by
  have hfind : ∀ q, find? ⟨r.nodes.eraseAll ps⟩ q = if q ∈ ps then none else r.find? q :=
    OrderedMap.find?_eraseAll r.nodes ps
  have hfound : ∀ q node, find? ⟨r.nodes.eraseAll ps⟩ q = some node → q ∉ ps ∧ r.find? q = some node := by
    intro q node hq
    rw [hfind] at hq
    split at hq
    · cases hq
    · exact ⟨‹_›, hq⟩
  constructor
  · intro q node hq
    exact h.fits q node (hfound q node hq).2
  · intro q node hq hlength
    obtain ⟨hmem, hq⟩ := hfound q node hq
    obtain ⟨parent, hparent, hcontainer⟩ := h.parent q node hq hlength
    have hne : q.segments ≠ [] := List.ne_nil_of_length_pos (by omega)
    have hcontains : r.nodes.contains q = true := (OrderedMap.contains_iff _ _).mpr ⟨node, hq⟩
    have hparentKept : (⟨q.segments.dropLast⟩ : Path) ∉ ps := fun hp =>
      hmem (hclosed _ hp q hcontains (isAbove_of_dropLast hne))
    exact ⟨parent, by rw [hfind, if_neg hparentKept, hparent], hcontainer⟩

theorem fits_fresh {kind : NodeKind} {body : String} (hbody : kind.isContainer = true → body = "") :
    (Node.fresh now p kind body).Fits p :=
  ⟨rfl, hbody, Nat.le_refl _, Int.le_refl _⟩

theorem fits_touch {node : Node} (h : node.Fits p) : (node.touch now).Fits p where
  path := h.path
  body := h.body
  version := Nat.le_add_left 1 _
  times := Int.le_trans h.times (Int.le_max_right now _)

theorem WellFormed.insert (h : r.WellFormed) {kind : NodeKind} {node : Node}
    (hinsert : r.insert now p kind = .ok (node, r')) : r'.WellFormed := by
  unfold Resources.insert at hinsert
  split at hinsert
  · cases hinsert
  · rename_i hnew
    simp only [bind_eq_ok, pure_eq_ok] at hinsert
    obtain ⟨⟨⟩, hparent, heq⟩ := hinsert
    cases heq
    refine h.put (fits_fresh fun _ => rfl) (checkParent_eq_ok hparent) ?_
    intro old hold
    exact absurd ((OrderedMap.contains_iff _ _).mpr ⟨old, hold⟩) hnew

theorem WellFormed.putFile (h : r.WellFormed) {contentType body : String} {result : Node × Bool}
    (hput : r.putFile now p contentType body = .ok (result, r')) : r'.WellFormed := by
  have hbody : (NodeKind.file contentType).isContainer = true → body = "" := fun h => absurd h Bool.false_ne_true
  unfold Resources.putFile at hput
  split at hput
  · rename_i node hnode
    split at hput
    · cases hput
    · rename_i hfile
      cases hput
      have hfits : (node.touch now).Fits p := fits_touch (h.fits p node hnode)
      refine h.put ⟨hfits.path, hbody, hfits.version, hfits.times⟩ (h.parent p node hnode) ?_
      intro old hold hcontainer
      rw [hnode] at hold
      cases hold
      exact absurd hcontainer hfile
  · rename_i hnew
    simp only [bind_eq_ok, pure_eq_ok] at hput
    obtain ⟨⟨⟩, hparent, heq⟩ := hput
    cases heq
    refine h.put (fits_fresh hbody) (checkParent_eq_ok hparent) ?_
    intro old hold
    simp [hnew] at hold

theorem WellFormed.setProperties (h : r.WellFormed) {set : OrderedMap String String} {remove : List String}
    {node : Node} (hset : r.setProperties now p set remove = .ok (node, r')) : r'.WellFormed := by
  unfold Resources.setProperties at hset
  split at hset
  · cases hset
  · rename_i old hold
    cases hset
    have hfits : (old.touch now).Fits p := fits_touch (h.fits p old hold)
    refine h.put ⟨hfits.path, hfits.body, hfits.version, hfits.times⟩ (h.parent p old hold) ?_
    intro other hother hcontainer
    rw [hold] at hother
    cases hother
    exact hcontainer

theorem WellFormed.remove (h : r.WellFormed) {node : Node} (hremove : r.remove p = .ok (node, r')) :
    r'.WellFormed := by
  unfold Resources.remove at hremove
  split at hremove
  · cases hremove
  · split at hremove
    · rename_i hbelow
      cases hremove
      have hclosed : ∀ q ∈ [p], ∀ k, r.nodes.contains k = true → q.isAbove k = true → k ∈ [p] := by
        intro q hq k hk habove
        obtain rfl := List.mem_singleton.mp hq
        have hmem : k ∈ r.below q := mem_below_iff.mpr ⟨hk, habove⟩
        rw [List.isEmpty_iff.mp hbelow] at hmem
        cases hmem
      exact h.eraseAll hclosed
    · cases hremove

theorem WellFormed.removeSubtree (h : r.WellFormed) {removed : List Path}
    (hremove : r.removeSubtree p = .ok (removed, r')) : r'.WellFormed := by
  unfold Resources.removeSubtree at hremove
  split at hremove
  · cases hremove
    refine h.eraseAll ?_
    intro q hq k hk habove
    rcases List.mem_cons.mp hq with rfl | hq
    · exact List.mem_cons_of_mem _ (mem_below_iff.mpr ⟨hk, habove⟩)
    · have hbelow := (mem_below_iff.mp hq).2
      exact List.mem_cons_of_mem _ (mem_below_iff.mpr ⟨hk, Path.isAbove_trans hbelow habove⟩)
  · cases hremove

theorem fits_relocate {source q : Path} {node : Node} (h : node.Fits p) : (relocate now source p q node).Fits q := by
  unfold relocate
  split
  · have htouched : (node.touch now).Fits p := fits_touch h
    exact ⟨rfl, htouched.body, htouched.version, htouched.times⟩
  · exact ⟨rfl, h.body, h.version, h.times⟩

theorem isContainer_relocate {source q : Path} {node : Node} :
    (relocate now source p q node).isContainer = node.isContainer := by
  unfold relocate
  split <;> rfl

/-- What a move in a well-formed tree leaves has its parents: the root of the subtree goes below the container that
was checked, and everything else goes with its parent. -/
theorem WellFormed.parent_of_moved (h : r.WellFormed) {source target k p : Path} {node : Node}
    (hrelated : source.related target = false) (hchecked : r.checkParent target = .ok ())
    (hmoved : ∀ k p, Path.move? target source k = some p → r'.find? k = (r.find? p).map (relocate now source p k))
    (hapart : ∀ k : Path, ¬ source.segments <+: k.segments → ¬ target.segments <+: k.segments →
      r'.find? k = r.find? k)
    (hback : Path.move? target source k = some p) (hnode : r.find? p = some node) (hlength : 2 ≤ k.segments.length) :
    ∃ parent, r'.find? ⟨k.segments.dropLast⟩ = some parent ∧ parent.isContainer = true := by
  have hunrelated := Path.not_prefix_of_unrelated hrelated
  obtain ⟨tail, hk, hp⟩ := Path.move?_eq_some_iff.mp hback
  by_cases htail : tail = []
  · obtain rfl : k = target := Path.ext_segments (by simpa [htail] using hk)
    obtain ⟨parent, hparent, hcontainer⟩ := checkParent_eq_ok hchecked hlength
    have hsource : ¬ source.segments <+: k.segments.dropLast := fun hpre =>
      hunrelated.1 (hpre.trans (List.dropLast_prefix _))
    have htarget : ¬ k.segments <+: k.segments.dropLast := by
      intro hpre
      have hle := hpre.length_le
      simp only [List.length_dropLast] at hle
      omega
    exact ⟨parent, (hapart _ hsource htarget).trans hparent, hcontainer⟩
  · have hsourceLength : 0 < source.segments.length :=
      List.length_pos_iff.mpr fun hnil => hunrelated.1 (hnil ▸ List.nil_prefix)
    have htailLength : 0 < tail.length := List.length_pos_iff.mpr htail
    have hplength : 2 ≤ p.segments.length := by
      rw [hp, List.length_append]
      omega
    obtain ⟨parent, hparent, hcontainer⟩ := h.parent p node hnode hplength
    have hparentBack : Path.move? target source ⟨k.segments.dropLast⟩ = some ⟨p.segments.dropLast⟩ := by
      refine Path.move?_eq_some_iff.mpr ⟨tail.dropLast, ?_, ?_⟩
      · rw [hk, List.dropLast_append_of_ne_nil htail]
      · rw [hp, List.dropLast_append_of_ne_nil htail]
    refine ⟨_, by rw [hmoved _ _ hparentBack, hparent, Option.map_some], ?_⟩
    rw [isContainer_relocate, hcontainer]

theorem WellFormed.move (h : r.WellFormed) {source target : Path} {overwrite replaced : Bool}
    (hmove : r.move now source target overwrite = .ok (replaced, r')) : r'.WellFormed := by
  obtain ⟨hrelated, _, hchecked, _⟩ := of_move hmove
  have hnamed : target.segments ≠ [] := fun hnil =>
    (Path.not_prefix_of_unrelated hrelated).2 (hnil ▸ List.nil_prefix)
  have hbelow := fun q => h.closed.contains_of_isAbove hnamed (q := q)
  have hmoved := fun k p => find?_move_of_moved hmove hbelow (k := k) (p := p)
  have hapart := fun k => find?_move_of_apart hmove hbelow (k := k)
  constructor
  · intro k node hnode
    rcases exists_of_find?_move hmove hbelow hnode with ⟨p, old, _, hold, rfl⟩ | ⟨_, _, hsame⟩
    · exact fits_relocate (h.fits p old hold)
    · exact h.fits k node hsame
  · intro k node hnode hlength
    rcases exists_of_find?_move hmove hbelow hnode with ⟨p, old, hback, hold, _⟩ | ⟨hsource, htarget, hsame⟩
    · exact h.parent_of_moved hrelated hchecked hmoved hapart hback hold hlength
    · obtain ⟨parent, hparent, hcontainer⟩ := h.parent k node hsame hlength
      have hdrop : k.segments.dropLast <+: k.segments := List.dropLast_prefix _
      have hkept := hapart ⟨k.segments.dropLast⟩ (fun hpre => hsource (hpre.trans hdrop))
        (fun hpre => htarget (hpre.trans hdrop))
      exact ⟨parent, hkept.trans hparent, hcontainer⟩

/-! ## Runs -/

theorem WellFormed.apply (h : r.WellFormed) {operation : Operation} (happly : r.apply now operation = .ok r') :
    r'.WellFormed := by
  cases operation with
  | insert p kind =>
    obtain ⟨⟨node, _⟩, hinsert, rfl⟩ := map_eq_ok.mp happly
    exact h.insert hinsert
  | putFile p contentType body =>
    obtain ⟨⟨result, _⟩, hput, rfl⟩ := map_eq_ok.mp happly
    exact h.putFile hput
  | setProperties p set remove =>
    obtain ⟨⟨node, _⟩, hset, rfl⟩ := map_eq_ok.mp happly
    exact h.setProperties hset
  | remove p =>
    obtain ⟨⟨node, _⟩, hremove, rfl⟩ := map_eq_ok.mp happly
    exact h.remove hremove
  | removeSubtree p =>
    obtain ⟨⟨removed, _⟩, hremove, rfl⟩ := map_eq_ok.mp happly
    exact h.removeSubtree hremove
  | move source target overwrite =>
    obtain ⟨⟨replaced, _⟩, hmove, rfl⟩ := map_eq_ok.mp happly
    exact h.move hmove

theorem WellFormed.step (h : r.WellFormed) (operation : Int × Operation) : (r.step operation).WellFormed := by
  unfold Resources.step
  split
  · rename_i happly
    exact h.apply happly
  · exact h

theorem WellFormed.run (h : r.WellFormed) (operations : List (Int × Operation)) :
    (r.run operations).WellFormed := by
  induction operations generalizing r with
  | nil => exact h
  | cons operation rest ih => exact ih (h.step operation)

/-- Whatever operations run on the empty tree, every node is stored under its own path below a container, all named
paths above it are those of containers, containers have no content, versions start at one, and the last change is
not before the creation. -/
theorem wellFormed_run (operations : List (Int × Operation)) :
    (empty.run operations).WellFormed ∧
      ∀ p node, (empty.run operations).find? p = some node → ∀ q, q.segments ≠ [] → q.isAbove p = true →
        ∃ container, (empty.run operations).find? q = some container ∧ container.isContainer = true := by
  have h := wellFormed_empty.run operations
  exact ⟨h, fun p node hnode q hnamed habove => h.container_of_isAbove hnode hnamed habove⟩

end Resources

end EntityStore
