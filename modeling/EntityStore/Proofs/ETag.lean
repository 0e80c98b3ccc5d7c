import EntityStore.ETag
import EntityStore.Proofs.Decimal
import EntityStore.Proofs.Text

/-!
# Written tags

A tag that was written is read back, with the mark of a weak tag or without it and whatever blanks are around it. The
version has no sign, so the first hyphen ends it also before a negative time. Main statement: `read?_text_and_admits`.
-/
namespace EntityStore

namespace ETag

/-- The version and the time are numbers of 64 bits. -/
structure Fits (t : ETag) : Prop where
  version : Decimal.fitsUInt64 t.version = true
  updated : Decimal.fitsInt64 t.updated = true

/-- The text of a tag without the mark of a weak tag. -/
def bareText (t : ETag) : String := "\"" ++ toString t.version ++ "-" ++ toString t.updated ++ "\""

/-- What stands between the quotes. -/
def inner (t : ETag) : List Char := Nat.toDigits 10 t.version ++ '-' :: (toString t.updated).toList

variable {t : ETag} {before after : String}

theorem toList_bareText (t : ETag) : t.bareText.toList = '"' :: (t.inner ++ ['"']) := by
  simp [bareText, inner]

theorem toList_text (t : ETag) : t.text.toList = 'W' :: '/' :: t.bareText.toList := by
  simp [text, bareText]

theorem bare_eq {bare : String} (h : t.text = "W/" ++ bare) : bare = t.bareText := by
  have hlist := congrArg String.toList h
  rw [toList_text, String.toList_append] at hlist
  simp only [String.reduceToList, List.cons_append, List.nil_append, List.cons.injEq, true_and] at hlist
  exact (String.toList_inj.mp hlist).symm

theorem mem_inner {c : Char} (h : c ∈ t.inner) : c.isDigit = true ∨ c = '-' := by
  simp only [inner, Decimal.toList_toString_int, List.mem_append, List.mem_cons] at h
  rcases h with h | h | h | h
  · exact .inl (Decimal.isDigit_of_mem_toDigits h)
  · exact .inr h
  · split at h
    · exact .inr (List.mem_singleton.mp h)
    · cases h
  · exact .inl (Decimal.isDigit_of_mem_toDigits h)

theorem isBlank_of_mem_bareText {c : Char} (h : c ∈ t.bareText.toList) : Text.isBlank c = false := by
  have hmarks : Text.isBlank '"' = false ∧ Text.isBlank '-' = false := by decide
  simp only [toList_bareText, List.mem_cons, List.mem_append, List.not_mem_nil, or_false] at h
  rcases h with rfl | h | rfl
  · exact hmarks.1
  · rcases mem_inner h with hdigit | rfl
    · exact Text.isBlank_of_isDigit hdigit
    · exact hmarks.2
  · exact hmarks.1

theorem isBlank_of_mem_text {c : Char} (h : c ∈ t.text.toList) : Text.isBlank c = false := by
  have hmarks : Text.isBlank 'W' = false ∧ Text.isBlank '/' = false := by decide
  rw [toList_text, List.mem_cons, List.mem_cons] at h
  rcases h with rfl | rfl | h
  · exact hmarks.1
  · exact hmarks.2
  · exact isBlank_of_mem_bareText h

/-! ## Reading -/

theorem dropWeak_text (t : ETag) : dropWeak t.text.toList = t.bareText.toList := by
  rw [toList_text]
  rfl

theorem dropWeak_bareText (t : ETag) : dropWeak t.bareText.toList = t.bareText.toList := by
  rw [toList_bareText]
  rfl

theorem unquote?_bareText (t : ETag) : unquote? t.bareText.toList = some t.inner := by
  simp [toList_bareText, unquote?]

/-- The first hyphen of a tag stands behind its version. -/
theorem span_inner (t : ETag) : t.inner.takeWhile (· != '-') = Nat.toDigits 10 t.version ∧
    t.inner.dropWhile (· != '-') = '-' :: (toString t.updated).toList := by
  have hversion : ∀ c ∈ Nat.toDigits 10 t.version, (c != '-') = true := by
    intro c hc
    have hdigit := Decimal.isDigit_of_mem_toDigits hc
    rw [bne_iff_ne]
    rintro rfl
    cases hdigit
  constructor
  · simp [inner, List.takeWhile_append_of_pos hversion]
  · simp [inner, List.dropWhile_append_of_pos hversion]

theorem readNat?_version (t : ETag) : Decimal.readNat? (Nat.toDigits 10 t.version) = some t.version := by
  rw [← Decimal.toList_toString_nat]
  exact Decimal.readNat?_toString t.version

/-- The mark of a weak tag does not count. -/
theorem read?_of_dropWeak (h : t.Fits) {s : String} (hs : dropWeak (Text.trimChars s.toList) = t.bareText.toList) :
    read? s = some t := by
  obtain ⟨htake, hdrop⟩ := span_inner t
  have hversion : (Decimal.readNat? (Nat.toDigits 10 t.version)).filter Decimal.fitsUInt64 = some t.version := by
    rw [readNat?_version, Option.filter_some, if_pos h.version]
  have hupdated : (Decimal.readInt? (toString t.updated).toList).filter Decimal.fitsInt64 = some t.updated := by
    rw [Decimal.readInt?_toString, Option.filter_some, if_pos h.updated]
  simp only [read?, hs, unquote?_bareText, Option.bind_eq_bind, Option.bind_some, htake, hdrop, hversion, hupdated]
  rfl

theorem read?_text (h : t.Fits) (hbefore : Text.AllBlank before) (hafter : Text.AllBlank after) :
    read? (before ++ t.text ++ after) = some t := by
  apply read?_of_dropWeak h
  rw [Text.trimChars_around hbefore hafter fun _ => isBlank_of_mem_text, dropWeak_text]

theorem read?_bareText (h : t.Fits) (hbefore : Text.AllBlank before) (hafter : Text.AllBlank after) :
    read? (before ++ t.bareText ++ after) = some t := by
  apply read?_of_dropWeak h
  rw [Text.trimChars_around hbefore hafter fun _ => isBlank_of_mem_bareText, dropWeak_bareText]

/-- The version and the time can be read off the text, so no two tags have the same. -/
theorem text_injective {t' : ETag} (h : t.Fits) (h' : t'.Fits) (htext : t.text = t'.text) : t = t' := by
  have hread := read?_text h Text.allBlank_empty Text.allBlank_empty
  rw [htext, read?_text h' Text.allBlank_empty Text.allBlank_empty] at hread
  exact (Option.some.inj hread).symm

end ETag

namespace Precondition

/-- The tag that is asked for has numbers of 64 bits. -/
def Fits : Precondition → Prop
  | any => True
  | tag t => t.Fits

variable {p : Precondition} {before after : String}

theorem read?_text (h : p.Fits) (hbefore : Text.AllBlank before) (hafter : Text.AllBlank after) :
    read? (before ++ p.text ++ after) = some p := by
  cases p with
  | any =>
    have hmark : ∀ c ∈ any.text.toList, Text.isBlank c = false := by simp [text, Text.isBlank]
    have hstar : Text.trim (before ++ any.text ++ after) = "*" := by
      rw [Text.trim, Text.trimChars_around hbefore hafter hmark, String.ofList_toList]
      rfl
    rw [read?, if_pos hstar]
  | tag t =>
    have htrim : Text.trim (before ++ t.text ++ after) = t.text := by
      rw [Text.trim, Text.trimChars_around hbefore hafter fun _ => ETag.isBlank_of_mem_text, String.ofList_toList]
    have hstar : t.text ≠ "*" := by
      intro heq
      have := congrArg String.toList heq
      simp [ETag.toList_text] at this
    have hread : ETag.read? (before ++ t.text ++ after) = some t := ETag.read?_text h hbefore hafter
    simp only [read?, text, htrim, hstar, if_false, hread, Option.map_some]

end Precondition

namespace ETag

/-- A tag with numbers of 64 bits is read back from its text, with or without the mark of a weak tag and with any blanks
around it; no two such tags have the same text. A precondition that is read back from its text admits the same tags. -/
theorem read?_text_and_admits :
    (∀ t : ETag, t.Fits → ∀ before after, Text.AllBlank before → Text.AllBlank after →
      read? (before ++ t.text ++ after) = some t ∧
      ∀ bare, t.text = "W/" ++ bare → read? (before ++ bare ++ after) = some t) ∧
    (∀ t t' : ETag, t.Fits → t'.Fits → t ≠ t' → t.text ≠ t'.text) ∧
    ∀ p : Precondition, p.Fits → ∀ before after, Text.AllBlank before → Text.AllBlank after →
      ∃ p', Precondition.read? (before ++ p.text ++ after) = some p' ∧ ∀ current, p'.admits current = p.admits current := by
  refine ⟨fun t h before after hbefore hafter => ?_, fun t t' h h' hne htext => ?_,
    fun p h before after hbefore hafter => ?_⟩
  · refine ⟨read?_text h hbefore hafter, fun bare hbare => ?_⟩
    rw [bare_eq hbare]
    exact read?_bareText h hbefore hafter
  · exact hne (text_injective h h' htext)
  · exact ⟨p, Precondition.read?_text h hbefore hafter, fun _ => rfl⟩

/-- The greatest version and the least time, which has a sign of its own, after a blank outside of ASCII. -/
theorem read?_text_and_admits_extremes :
    let t : ETag := ⟨18446744073709551615, -9223372036854775808⟩
    let t' : ETag := ⟨18446744073709551615, 9223372036854775807⟩
    t.Fits ∧ t'.Fits ∧ read? "\u3000\"18446744073709551615--9223372036854775808\"\n" = some t ∧ t.text ≠ t'.text ∧
      ∃ p, Precondition.read? "W/\"18446744073709551615--9223372036854775808\"" = some p ∧
        p.admits t = true ∧ p.admits t' = false := by
  intro t t'
  have hfits : t.Fits := ⟨by decide, by decide⟩
  have hfits' : t'.Fits := ⟨by decide, by decide⟩
  have hblank : Text.AllBlank "\u3000" := by simp [Text.AllBlank, Text.isBlank]
  have hnewline : Text.AllBlank "\n" := by simp [Text.AllBlank, Text.isBlank]
  have hmarked : t.text = "W/" ++ "\"18446744073709551615--9223372036854775808\"" := by decide
  have htext : (Precondition.tag t).text = "W/\"18446744073709551615--9223372036854775808\"" := by decide
  obtain ⟨hread, hdistinct, hadmits⟩ := read?_text_and_admits
  have hunmarked := (hread t hfits "\u3000" "\n" hblank hnewline).2 _ hmarked
  obtain ⟨p, hp, hsame⟩ := hadmits (.tag t) hfits "" "" Text.allBlank_empty Text.allBlank_empty
  rw [htext, String.empty_append, String.append_empty] at hp
  refine ⟨hfits, hfits', hunmarked, hdistinct t t' hfits hfits' (by decide), p, hp, ?_, ?_⟩
  · rw [hsame]
    decide
  · rw [hsame]
    decide

end ETag

end EntityStore
