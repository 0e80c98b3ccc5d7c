import EntityStore.Schema

/-!
# Learning types from writes

What a schema knows of a property after any sequence of writes. A write touches the properties it names and no others,
so the values written for a property decide alone: the first that shows a type fixes it. Main statement:
`property?_after`.
-/
namespace EntityStore

namespace EdmType

/-- The type that a string, a number or a Boolean shows. -/
def shown? : Json → Option EdmType
  | .string _ => some string
  | .number _ => some double
  | .bool _ => some boolean
  | .null | .array _ | .object _ => none

/-- The type that the first string, number or Boolean shows; undeclared if there is none. -/
def firstShown (values : List Json) : EdmType := (values.findSome? shown?).getD undeclared

theorem ofValue_eq (value : Json) : ofValue value = (shown? value).getD undeclared := by
  cases value <;> rfl

theorem firstShown_cons_of_eq {value : Json} (h : ofValue value = undeclared) (values : List Json) :
    firstShown (value :: values) = firstShown values := by
  have hnone : shown? value = none := by
    cases value <;> first | rfl | cases h
  rw [firstShown, List.findSome?_cons, hnone, firstShown]

theorem firstShown_cons_of_ne {value : Json} (h : ofValue value ≠ undeclared) (values : List Json) :
    firstShown (value :: values) = ofValue value := by
  rw [ofValue_eq] at h ⊢
  rw [firstShown, List.findSome?_cons]
  cases hshown : shown? value with
  | none => simp [hshown] at h
  | some type => rfl

end EdmType

/-! ## One property -/

namespace Property

/-- No write changes a property that is declared or has a type. -/
def Settled (p : Property) : Prop := p.dynamic = false ∨ p.type ≠ .undeclared

/-- What a type knows of a property after a value was written for it. -/
def teach (type name : String) (known : Option Property) (value : Json) : Option Property :=
  if (EntityType.systemType? name).isSome then known
  else
    match known with
    | some p => some (if p.dynamic && p.type = .undeclared then { p with type := .ofValue value } else p)
    | none => some (learned type name (.ofValue value))

variable {p : Property} {type name : String}

theorem teach_of_system (h : EntityType.systemType? name ≠ none) (known : Option Property) (value : Json) :
    teach type name known value = known := by
  unfold teach
  rw [if_pos (Option.isSome_iff_ne_none.mpr h)]

theorem teach_none (hname : EntityType.systemType? name = none) (value : Json) :
    teach type name none value = some (learned type name (.ofValue value)) := by
  simp [teach, hname]

theorem teach_some (hname : EntityType.systemType? name = none) (p : Property) (value : Json) :
    teach type name (some p) value =
      some (if p.dynamic && p.type = .undeclared then { p with type := .ofValue value } else p) := by
  simp [teach, hname]

theorem foldl_teach_of_system (h : EntityType.systemType? name ≠ none) (known : Option Property)
    (values : List Json) : values.foldl (teach type name) known = known := by
  induction values with
  | nil => rfl
  | cons value values ih => rw [List.foldl_cons, teach_of_system h, ih]

theorem foldl_teach_of_settled (h : p.Settled) (values : List Json) :
    values.foldl (teach type name) (some p) = some p := by
  have hkept : ∀ value, teach type name (some p) value = some p := by
    intro value
    by_cases hname : EntityType.systemType? name = none
    · have hcondition : (p.dynamic && decide (p.type = .undeclared)) = false := by
        rcases h with h | h <;> simp [h]
      rw [teach_some hname, hcondition]
      rfl
    · exact teach_of_system hname _ _
  induction values with
  | nil => rfl
  | cons value values ih => rw [List.foldl_cons, hkept, ih]

theorem with_type_eq_self {edm : EdmType} (h : p.type = edm) : { p with type := edm } = p := by
  subst h
  rfl

section

variable (hname : EntityType.systemType? name = none)

include hname

/-- A dynamic property without a type takes the first that a value shows. -/
theorem foldl_teach_of_undeclared (hdynamic : p.dynamic = true) (hopen : p.type = .undeclared) (values : List Json) :
    values.foldl (teach type name) (some p) = some { p with type := .firstShown values } := by
  induction values with
  | nil => exact congrArg some (with_type_eq_self hopen).symm
  | cons value values ih =>
    have hteach : teach type name (some p) value = some { p with type := .ofValue value } := by
      rw [teach_some hname, hdynamic, hopen]
      rfl
    rw [List.foldl_cons, hteach]
    by_cases hshows : EdmType.ofValue value = .undeclared
    · rw [hshows, with_type_eq_self hopen, ih, EdmType.firstShown_cons_of_eq hshows]
    · rw [foldl_teach_of_settled (.inr hshows), EdmType.firstShown_cons_of_ne hshows]

/-- An unknown property becomes known with the first value, whether this shows a type or not. -/
theorem foldl_teach_none (values : List Json) : values.foldl (teach type name) none =
    if values = [] then none else some (learned type name (.firstShown values)) := by
  cases values with
  | nil => rfl
  | cons value values =>
    rw [List.foldl_cons, teach_none hname, if_neg (List.cons_ne_nil _ _)]
    by_cases hshows : EdmType.ofValue value = .undeclared
    · rw [foldl_teach_of_undeclared hname rfl hshows, EdmType.firstShown_cons_of_eq hshows]
      rfl
    · rw [foldl_teach_of_settled (.inr hshows), EdmType.firstShown_cons_of_ne hshows]

end

end Property

/-! ## One type -/

namespace EntityType

variable (t : EntityType)

theorem name_learn (name : String) (value : Json) : (t.learn name value).name = t.name := by
  simp only [learn]
  split
  · rfl
  · split
    · split <;> rfl
    · rfl

theorem learn_of_system {name : String} (h : systemType? name ≠ none) (value : Json) :
    t.learn name value = t := by
  unfold learn
  rw [if_pos (Option.isSome_iff_ne_none.mpr h)]

/-- A value teaches something of the property it is written for, and of no other. -/
theorem find?_learn (name : String) (value : Json) (k : String) : (t.learn name value).properties.find? k =
    if k = name then Property.teach t.name name (t.properties.find? name) value else t.properties.find? k := by
  by_cases hname : systemType? name = none
  · simp only [learn, hname, Option.isSome_none, Bool.false_eq_true, if_false]
    cases hfind : t.properties.find? name with
    | none =>
      rw [Property.teach_none hname]
      exact OrderedMap.find?_insert _ _ _ _
    | some p =>
      rw [Property.teach_some hname]
      have hkept : t.properties.find? k = if k = name then some p else t.properties.find? k := by
        split
        · rename_i hk
          rw [hk, hfind]
        · rfl
      by_cases hopen : (p.dynamic && decide (p.type = .undeclared)) = true
      · by_cases hshows : EdmType.ofValue value = .undeclared
        · -- without a type to learn the property stays as it is, which is what `teach` comes to
          have hundeclared : p.type = .undeclared := by simp_all
          simp only [hopen, hshows, Property.with_type_eq_self hundeclared, ne_eq, not_true_eq_false, decide_false,
            Bool.and_false, Bool.false_eq_true, if_false, ite_self]
          exact hkept
        · simp only [hopen, hshows, ne_eq, not_false_eq_true, decide_true, Bool.and_true, if_true]
          exact OrderedMap.find?_insert _ _ _ _
      · simp only [hopen, Bool.false_and, Bool.false_eq_true, if_false]
        exact hkept
  · rw [Property.teach_of_system hname, learn_of_system t hname]
    split
    · rename_i hk
      rw [hk]
    · rfl

/-- The fields of a body that belong to one property teach one after the other. -/
theorem find?_foldl_learn (entries : List (String × Json)) (k : String) :
    (entries.foldl (fun t f => if Name.isReserved f.1 || Name.isNavigation f.1 then t else t.learn f.1 f.2)
      t).properties.find? k =
      if Name.isReserved k || Name.isNavigation k then t.properties.find? k
      else ((entries.filter (·.1 = k)).map (·.2)).foldl (Property.teach t.name k) (t.properties.find? k) := by
  induction entries generalizing t with
  | nil => simp
  | cons entry entries ih =>
    obtain ⟨name, value⟩ := entry
    rw [List.foldl_cons, ih]
    dsimp only
    by_cases hk : k = name
    · subst hk
      cases hignored : Name.isReserved k || Name.isNavigation k with
      | true => simp
      | false => simp [name_learn, find?_learn]
    · have hsame : ∀ ignored : Bool, (if ignored then t else t.learn name value).name = t.name ∧
          (if ignored then t else t.learn name value).properties.find? k = t.properties.find? k := by
        intro ignored
        cases ignored with
        | true => exact ⟨rfl, rfl⟩
        | false => exact ⟨name_learn t name value, by simp only [Bool.false_eq_true, if_false, find?_learn, hk]⟩
      have hfilter : ((name, value) :: entries).filter (·.1 = k) = entries.filter (·.1 = k) :=
        List.filter_cons_of_neg (by simpa using fun h : name = k => hk h.symm)
      rw [(hsame _).1, (hsame _).2, hfilter]

end EntityType

/-- A body has at most one value of a name. -/
theorem Entries.filter_key_eq {entries : List (String × Json)} (h : Ascending entries) (k : String) :
    (entries.filter (·.1 = k)).map (·.2) = (find? k entries).toList := by
  induction entries with
  | nil => rfl
  | cons entry entries ih =>
    obtain ⟨name, value⟩ := entry
    obtain ⟨hfirst, hrest⟩ := List.pairwise_cons.mp h
    by_cases hk : name = k
    · subst hk
      have hnone : entries.filter (·.1 = name) = [] := by
        refine List.filter_eq_nil_iff.mpr fun entry hentry heq => ?_
        have hlt := hfirst entry hentry
        simp [of_decide_eq_true heq, Std.ReflCmp.compare_self] at hlt
      simp [hnone, find?, Std.ReflCmp.compare_self]
    · have hne : ¬ compare k name = .eq := fun heq =>
        hk (Std.LawfulEqCmp.compare_eq_iff_eq.mp heq).symm
      rw [List.filter_cons_of_neg (by simpa using hk), ih hrest, find?, if_neg hne]

namespace EntityType

theorem name_learnBody (t : EntityType) (body : Fields) : (t.learnBody body).name = t.name := by
  unfold learnBody
  induction body.entries generalizing t with
  | nil => rfl
  | cons field rest ih =>
    rw [List.foldl_cons, ih]
    split
    · rfl
    · exact name_learn t _ _

theorem find?_learnBody (t : EntityType) (body : Fields) (k : String) : (t.learnBody body).properties.find? k =
    if Name.isReserved k || Name.isNavigation k then t.properties.find? k
    else (body.find? k).toList.foldl (Property.teach t.name k) (t.properties.find? k) := by
  rw [learnBody, find?_foldl_learn, Entries.filter_key_eq body.ascending]
  rfl

end EntityType

/-! ## Sequences of writes -/

/-- What a schema is told: the value of one property, or a whole body. -/
inductive Lesson where
  | field (name : String) (value : Json)
  | body (fields : Fields)

namespace Lesson

/-- The value that is written for a property, if there is one; a body has none for a reserved name or a navigation. -/
def written (name : String) : Lesson → Option Json
  | field name' value => if name' = name then some value else none
  | body fields => if Name.isReserved name || Name.isNavigation name then none else fields.find? name

/-- A type after a lesson. -/
def teach (t : EntityType) : Lesson → EntityType
  | field name value => t.learn name value
  | body fields => t.learnBody fields

theorem name_teach (t : EntityType) (lesson : Lesson) : (lesson.teach t).name = t.name := by
  cases lesson with
  | field name value => exact t.name_learn name value
  | body fields => exact t.name_learnBody fields

theorem find?_teach (t : EntityType) (lesson : Lesson) (k : String) : (lesson.teach t).properties.find? k =
    (lesson.written k).toList.foldl (Property.teach t.name k) (t.properties.find? k) := by
  cases lesson with
  | field name value =>
    simp only [teach, written, EntityType.find?_learn]
    by_cases hk : k = name
    · subst hk
      simp
    · have hne : ¬ name = k := fun h => hk h.symm
      simp [hk, hne]
  | body fields =>
    simp only [teach, written, EntityType.find?_learnBody]
    split <;> rfl

end Lesson

namespace Schema

/-- A schema after a lesson on one of its types; a lesson on another type has no effect. -/
def teach (s : Schema) (lesson : String × Lesson) : Schema :=
  match lesson.2 with
  | .field name value => (s.learn lesson.1 name value).1
  | .body fields => (s.learnBody lesson.1 fields).1

def after (s : Schema) (lessons : List (String × Lesson)) : Schema := lessons.foldl teach s

/-- The values that lessons on a type write for a property, in their order. -/
def written (type name : String) (lessons : List (String × Lesson)) : List Json :=
  (lessons.filter (·.1 = type)).filterMap (·.2.written name)

variable {s : Schema} {type name : String} {t : EntityType}

theorem find?_teach (s : Schema) (lesson : String × Lesson) (type : String) : (s.teach lesson).types.find? type =
    if type = lesson.1 then (s.types.find? type).map lesson.2.teach else s.types.find? type := by
  obtain ⟨type', lesson⟩ := lesson
  have hmodify : ∀ f : EntityType → EntityType, (s.types.modify type' f).find? type =
      if type = type' then (s.types.find? type).map f else s.types.find? type := by
    intro f
    rw [OrderedMap.find?_modify]
    split
    · rename_i htype
      rw [htype]
    · rfl
  cases lesson with
  | field name value => exact hmodify _
  | body fields => exact hmodify _

/-- What lessons make of a type: a property comes to be known from the values written for it. -/
theorem find?_after (ht : s.types.find? type = some t) (lessons : List (String × Lesson)) :
    ∃ t', (s.after lessons).types.find? type = some t' ∧ t'.name = t.name ∧
      ∀ k, t'.properties.find? k =
        (written type k lessons).foldl (Property.teach t.name k) (t.properties.find? k) := by
  induction lessons generalizing s t with
  | nil => exact ⟨t, ht, rfl, fun k => rfl⟩
  | cons lesson lessons ih =>
    have hfind := find?_teach s lesson type
    by_cases htype : type = lesson.1
    · rw [if_pos htype, ht, Option.map_some] at hfind
      obtain ⟨t', ht', hname, hproperties⟩ := ih hfind
      refine ⟨t', ht', hname.trans (lesson.2.name_teach t), fun k => ?_⟩
      have hwritten : written type k (lesson :: lessons) =
          (lesson.2.written k).toList ++ written type k lessons := by
        subst htype
        cases hlesson : lesson.2.written k <;> simp [written, hlesson]
      rw [hproperties, lesson.2.name_teach, lesson.2.find?_teach, hwritten, List.foldl_append]
    · rw [if_neg htype, ht] at hfind
      obtain ⟨t', ht', hname, hproperties⟩ := ih hfind
      refine ⟨t', ht', hname, fun k => ?_⟩
      have hwritten : written type k (lesson :: lessons) = written type k lessons := by
        simp [written, Ne.symm htype]
      rw [hproperties, hwritten]

theorem property?_of_system {edm : EdmType} (ht : s.types.find? type = some t)
    (h : EntityType.systemType? name = some edm) :
    s.property? type name = some { Property.declared type name edm with nullable := false } := by
  simp [property?, ht, h]

theorem property?_of_not_system (ht : s.types.find? type = some t) (h : EntityType.systemType? name = none) :
    s.property? type name = t.properties.find? name := by
  simp [property?, ht, h]

/-- System properties are known and not dynamic. -/
theorem systemType?_eq_none (ht : s.types.find? type = some t)
    (h : ∀ p, s.property? type name = some p → p.dynamic = true) : EntityType.systemType? name = none := by
  cases hsystem : EntityType.systemType? name with
  | none => rfl
  | some edm => cases h _ (property?_of_system ht hsystem)

/-- What a property is after any lessons, by the values written for it alone. -/
theorem property?_after_eq (ht : s.types.find? type = some t) (lessons : List (String × Lesson)) :
    (s.after lessons).property? type name =
      (written type name lessons).foldl (Property.teach t.name name) (s.property? type name) := by
  obtain ⟨t', ht', hname, hproperties⟩ := find?_after ht lessons
  cases hsystem : EntityType.systemType? name with
  | none => rw [property?_of_not_system ht' hsystem, property?_of_not_system ht hsystem, hproperties]
  | some edm =>
    rw [property?_of_system ht' hsystem, property?_of_system ht hsystem,
      Property.foldl_teach_of_system (by simp [hsystem])]

theorem systemType?_ne_none (h : name ∈ [Name.id, Name.published, Name.updated]) :
    EntityType.systemType? name ≠ none := by
  simp only [List.mem_cons, List.not_mem_nil, or_false] at h
  rcases h with rfl | rfl | rfl <;> decide

/-- Lessons never change a system property, a declared one, or one that has a type. A dynamic property without a type
takes that of the first string, number or Boolean written for it, and has none as long as there is none; an unknown one
stays unknown as long as nothing is written for it. What is written for other properties or other types makes no
difference, nor does it when. -/
theorem property?_after (ht : s.types.find? type = some t) (lessons : List (String × Lesson)) (name : String) :
    let values := written type name lessons
    (name ∈ [Name.id, Name.published, Name.updated] →
      s.property? type name ≠ none ∧ (s.after lessons).property? type name = s.property? type name) ∧
    (∃ t', (s.after lessons).types.find? type = some t' ∧
      ∀ p, t.properties.find? name = some p → p.dynamic = false ∨ p.type ≠ .undeclared →
        t'.properties.find? name = some p) ∧
    (∀ p, s.property? type name = some p → p.dynamic = false ∨ p.type ≠ .undeclared →
      (s.after lessons).property? type name = some p) ∧
    (∀ p, s.property? type name = some p → p.dynamic = true → p.type = .undeclared →
      (s.after lessons).property? type name = some { p with type := .firstShown values }) ∧
    (s.property? type name = none → (s.after lessons).property? type name =
      if values = [] then none else some (.learned t.name name (.firstShown values))) ∧
    ∀ others, written type name others = values →
      (s.after others).property? type name = (s.after lessons).property? type name := by
  intro values
  have hafter : ∀ lessons, (s.after lessons).property? type name =
      (written type name lessons).foldl (Property.teach t.name name) (s.property? type name) :=
    property?_after_eq ht
  refine ⟨fun hname => ?_, ?_, fun p hp hsettled => ?_, fun p hp hdynamic hopen => ?_, fun hnone => ?_,
    fun others hothers => ?_⟩
  · have hsystem := systemType?_ne_none hname
    obtain ⟨edm, hedm⟩ := Option.ne_none_iff_exists'.mp hsystem
    exact ⟨by simp [property?_of_system ht hedm], by rw [hafter, Property.foldl_teach_of_system hsystem]⟩
  · obtain ⟨t', ht', _, hproperties⟩ := find?_after ht lessons
    exact ⟨t', ht', fun p hp hsettled => by rw [hproperties, hp, Property.foldl_teach_of_settled hsettled]⟩
  · rw [hafter, hp, Property.foldl_teach_of_settled hsettled]
  · have hname : EntityType.systemType? name = none := by
      refine systemType?_eq_none ht fun p' hp' => ?_
      rw [hp] at hp'
      cases hp'
      exact hdynamic
    rw [hafter, hp, Property.foldl_teach_of_undeclared hname hdynamic hopen]
  · have hname : EntityType.systemType? name = none := by
      refine systemType?_eq_none ht fun p hp => ?_
      rw [hnone] at hp
      cases hp
    rw [hafter, hnone, Property.foldl_teach_none hname]
  · rw [hafter, hafter, hothers]

/-- A type with a declared property and a dynamic one that has no type yet. -/
def sales : EntityType :=
  ((EntityType.named "Sales").declare (.declared "Sales" "number" .int32)).declare (.learned "Sales" "d" .undeclared)

/-- A null says nothing and the next value decides; a body with a declared property, a new one and a navigation; and a
lesson on another type. -/
def salesLessons : List (String × Lesson) :=
  [("Sales", .field "d" .null), ("Item", .field "d" (.bool true)),
    ("Sales", .body (.ofList [("number", .string "y"), ("n", .number (.int 5)), ("_Item", .bool true)])),
    ("Sales", .field "d" (.string "x")), ("Sales", .field "d" (.bool true))]

theorem property?_after_salesLessons :
    let s := Schema.empty.register sales
    let s' := s.after salesLessons
    s.types.find? "Sales" = some sales ∧
      s'.property? "Sales" "d" = some (.learned "Sales" "d" .string) ∧
      s'.property? "Sales" "number" = some (.declared "Sales" "number" .int32) ∧
      s'.property? "Sales" "n" = some (.learned "Sales" "n" .double) ∧
      s'.property? "Sales" "_Item" = none ∧
      s'.property? "Sales" Name.id = s.property? "Sales" Name.id := by
  have ht : (Schema.empty.register sales).types.find? "Sales" = some sales := OrderedMap.find?_insert _ _ _ _
  refine ⟨ht, ?_, ?_, ?_, ?_, ?_⟩
  · obtain ⟨_, _, _, hopen, _⟩ := property?_after ht salesLessons "d"
    exact hopen (.learned "Sales" "d" .undeclared) rfl rfl rfl
  · obtain ⟨_, _, hsettled, _⟩ := property?_after ht salesLessons "number"
    exact hsettled (.declared "Sales" "number" .int32) rfl (.inl rfl)
  · obtain ⟨_, _, _, _, hunknown, _⟩ := property?_after ht salesLessons "n"
    exact hunknown rfl
  · obtain ⟨_, _, _, _, hunknown, _⟩ := property?_after ht salesLessons "_Item"
    exact hunknown rfl
  · obtain ⟨hsystem, _⟩ := property?_after ht salesLessons Name.id
    exact (hsystem (by simp)).2

end Schema

end EntityStore
