/-!
# Blank characters

The Unicode property `White_Space`, and the cutting of texts at blanks. Main statements:
`words_ne_nil` and `not_isBlank_of_mem_words`.
-/
namespace EntityStore.Text

def isBlank (c : Char) : Bool :=
  let n := c.toNat
  (9 ≤ n && n ≤ 13) || n == 0x20 || n == 0x85 || n == 0xA0 || n == 0x1680 ||
    (0x2000 ≤ n && n ≤ 0x200A) || n == 0x2028 || n == 0x2029 || n == 0x202F || n == 0x205F ||
    n == 0x3000

/-- Cuts blanks off both ends. -/
def trimChars (cs : List Char) : List Char :=
  ((cs.dropWhile isBlank).reverse.dropWhile isBlank).reverse

/-- Cuts blanks off both ends. -/
def trim (s : String) : String := .ofList (trimChars s.toList)

/-- The maximal runs without blanks, after a run `word` (in reverse) that is still open. -/
def wordsFrom (word : List Char) : List Char → List (List Char)
  | [] => if word.isEmpty then [] else [word.reverse]
  | c :: rest =>
    if isBlank c then
      if word.isEmpty then wordsFrom [] rest else word.reverse :: wordsFrom [] rest
    else wordsFrom (c :: word) rest

def words (s : String) : List String := (wordsFrom [] s.toList).map .ofList

/-- The pieces between occurrences of `sep`; the empty text has one empty piece. -/
def split (sep : Char) (s : String) : List String := (s.toList.splitOn sep).map .ofList

theorem wordsFrom_spec {word cs : List Char} (hw : ∀ c ∈ word, isBlank c = false) :
    ∀ w ∈ wordsFrom word cs, w ≠ [] ∧ ∀ c ∈ w, isBlank c = false := by
  induction cs generalizing word with
  | nil =>
    intro w h
    simp only [wordsFrom] at h
    split at h
    · simp at h
    · rename_i hne
      simp only [List.mem_singleton] at h
      subst h
      exact ⟨by simpa using hne, fun c hc => hw c (by simpa using hc)⟩
  | cons c rest ih =>
    intro w h
    simp only [wordsFrom] at h
    split at h
    · split at h
      · exact ih (by simp) w h
      · rename_i hne
        rcases List.mem_cons.1 h with rfl | h
        · exact ⟨by simpa using hne, fun c hc => hw c (by simpa using hc)⟩
        · exact ih (by simp) w h
    · rename_i hc
      refine ih (fun d hd => ?_) w h
      rcases List.mem_cons.1 hd with rfl | hd
      · simpa using hc
      · exact hw d hd

theorem words_ne_nil {s w : String} (h : w ∈ words s) : w ≠ "" := by
  obtain ⟨l, hl, rfl⟩ := List.mem_map.1 h
  have := (wordsFrom_spec (by simp) l hl).1
  intro he
  exact this (by simpa using congrArg String.toList he)

theorem not_isBlank_of_mem_words {s w : String} (h : w ∈ words s) :
    ∀ c ∈ w.toList, isBlank c = false := by
  obtain ⟨l, hl, rfl⟩ := List.mem_map.1 h
  simpa using (wordsFrom_spec (by simp) l hl).2

end EntityStore.Text
