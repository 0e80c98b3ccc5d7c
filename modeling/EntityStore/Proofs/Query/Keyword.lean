import EntityStore.Proofs.Query.Compilation
import EntityStore.Proofs.Text.Lowercase

/-!
# Keywords

A keyword is looked for in lower case, so a word that occurs as written is found unless a capital sigma in it has
another form there than in the word alone. Main statement: `holds_keyword_of_occurs_and_iff_not_hangs`.
-/
namespace EntityStore

open EntityStore.Text

variable {e : Entity} {value : Json} {s word : String} {before after : List Char}

theorem Entity.mentions_of_occurs (hvalue : value ∈ e.body.values) (hstring : value.HasString s)
    (hoccurs : s.toList = before ++ word.toList ++ after)
    (hkeeps : ∀ u v, word.toList = u ++ capitalSigma :: v → isFinal (before ++ u) (v ++ after) = isFinal u v) :
    e.Mentions word := by
  have hinfix : lower word.toList <:+: lower s.toList := hoccurs ▸ infix_lower hkeeps
  exact ⟨value, hvalue, s, hstring, hinfix⟩

/-- An entity with nothing but a text. -/
def Entity.ofText (text : String) : Entity := ⟨⟨"Note", "n"⟩, .ofList [("text", .string text)], 0, 0, 1, .empty, 1⟩

theorem Entity.mentions_ofText_iff {text : String} :
    (ofText text).Mentions word ↔ lower word.toList <:+: lower text.toList := by
  have hvalues : (ofText text).body.values = [.string text] := rfl
  constructor
  · rintro ⟨value, hvalue, s, hstring, hinfix⟩
    rw [hvalues, List.mem_singleton] at hvalue
    subst hvalue
    cases hstring
    exact hinfix
  · intro hinfix
    exact ⟨.string text, hvalues ▸ List.mem_singleton_self _, text, .self text, hinfix⟩

theorem Entity.forall_mentions_iff (word : String) :
    (∀ (e : Entity) value s, value ∈ e.body.values → value.HasString s → word.toList <:+: s.toList →
      e.Mentions word) ↔ ∀ u v, word.toList = u ++ capitalSigma :: v → ¬ Hangs u v := by
  rw [← forall_infix_lower_iff]
  constructor
  · intro h text htext
    rw [← String.toList_ofList (l := text)] at htext ⊢
    have hvalue : Json.string (.ofList text) ∈ (ofText (.ofList text)).body.values := List.mem_singleton_self _
    exact mentions_ofText_iff.mp (h _ _ _ hvalue (.self _) htext)
  · intro h e value s hvalue hstring hoccurs
    exact ⟨value, hvalue, s, hstring, h _ hoccurs⟩

/-- A word that occurs in a string of an entity, also in one within lists, is found if its capital sigmas are final
there where they are final in the word alone and nowhere else. The words that are found wherever they occur are those
of which no capital sigma hangs on its surroundings. -/
theorem holds_keyword_of_occurs_and_iff_not_hangs (stringMax : Nat) (word : String) :
    (∀ (e : Entity) value s before after, value ∈ e.body.values → value.HasString s →
      s.toList = before ++ word.toList ++ after →
      (∀ u v, word.toList = u ++ capitalSigma :: v → isFinal (before ++ u) (v ++ after) = isFinal u v) →
      (Predicate.keyword word).holds stringMax e = true) ∧
    ((∀ (e : Entity) value s, value ∈ e.body.values → value.HasString s → word.toList <:+: s.toList →
      (Predicate.keyword word).holds stringMax e = true) ↔
      ∀ u v, word.toList = u ++ capitalSigma :: v → ¬ Hangs u v) := by
  simp only [holds_keyword_iff]
  constructor
  · intro e value s before after hvalue hstring hoccurs hkeeps
    exact Entity.mentions_of_occurs hvalue hstring hoccurs hkeeps
  · exact Entity.forall_mentions_iff word

/-- A Greek word whose last letter is a sigma, standing apart within a list, and a word without sigmas. -/
theorem holds_keyword_of_occurs_and_iff_not_hangs_street :
    (Predicate.keyword "ΟΔΟΣ").holds 100
      ⟨⟨"Note", "n"⟩, .ofList [("lines", .array [.string "Η ΟΔΟΣ ΜΟΥ"])], 0, 0, 1, .empty, 1⟩ = true ∧
    (Predicate.keyword "Red").holds 100 (.ofText "aRedB") = true := by
  constructor
  · refine (holds_keyword_of_occurs_and_iff_not_hangs 100 "ΟΔΟΣ").1 _ _ "Η ΟΔΟΣ ΜΟΥ" "Η ".toList " ΜΟΥ".toList
      List.mem_cons_self (.item List.mem_cons_self (.self _)) (by decide) ?_
    have hbefore : startsCased "Η ".toList.reverse = false := by decide +kernel
    have hafter : startsCased " ΜΟΥ".toList = false := by decide +kernel
    exact fun u v _ => isFinal_of_apart hbefore hafter u v
  · have hnone : capitalSigma ∉ "Red".toList := by decide
    have hfree : ∀ u v, "Red".toList = u ++ capitalSigma :: v → ¬ Hangs u v := by
      intro u v hword
      rw [hword] at hnone
      simp at hnone
    have hoccurs : "Red".toList <:+: "aRedB".toList := ⟨['a'], ['B'], by decide⟩
    exact (holds_keyword_of_occurs_and_iff_not_hangs 100 "Red").2.mpr hfree _ _ _ List.mem_cons_self (.self _) hoccurs

/-- The sigma that ends the word does not end the text, so its lower-case form there is another one. -/
theorem not_holds_keyword_of_occurs :
    Json.string "ΑΣΑ" ∈ (Entity.ofText "ΑΣΑ").body.values ∧ (Json.string "ΑΣΑ").HasString "ΑΣΑ" ∧
      "ΑΣ".toList <:+: "ΑΣΑ".toList ∧ (Predicate.keyword "ΑΣ").holds 100 (.ofText "ΑΣΑ") = false :=
  ⟨List.mem_cons_self, .self _, ⟨[], ['Α'], by decide⟩, by decide +kernel⟩

end EntityStore
