import EntityStore.Query.Request
import Mathlib.Data.List.Forall2
import Mathlib.Data.List.TakeWhile

/-!
# Writing query strings

A query string is read back as the options it was written from, whichever of its characters are escaped. First an
escaped text is decoded to the text; then the string is cut where it was put together, since the separators are
always escaped; last, the first value of each option is kept. Main statement: `ofQueryString_of_writes`.
-/
namespace EntityStore

open EntityStore.Text

namespace Text

/-! ## Octets -/

theorem lt_of_mem_octetsOfNat {n b : Nat} (hn : n < 0x110000) (hb : b ∈ octetsOfNat n) : b < 256 := by
  unfold octetsOfNat at hb
  split_ifs at hb <;> simp only [List.mem_cons, List.not_mem_nil, or_false] at hb <;> omega

theorem le_of_mem_octetsOfNat {n b : Nat} (hn : 0x80 ≤ n) (hb : b ∈ octetsOfNat n) : 0x80 ≤ b := by
  unfold octetsOfNat at hb
  split_ifs at hb <;> simp only [List.mem_cons, List.not_mem_nil, or_false] at hb <;> omega

theorem octetsOfNat_of_lt {n : Nat} (hn : n < 0x80) : octetsOfNat n = [n] := if_pos hn

theorem encode_cons (c : Char) (cs : List Char) : encode (c :: cs) = octetsOfNat c.toNat ++ encode cs :=
  List.flatMap_cons

theorem encode_append (cs ds : List Char) : encode (cs ++ ds) = encode cs ++ encode ds := List.flatMap_append

theorem toNat_lt (c : Char) : c.toNat < 0x110000 := by
  have hvalid : c.toNat < 0xD800 ∨ 0xDFFF < c.toNat ∧ c.toNat < 0x110000 := c.valid
  omega

end Text

namespace Percent

/-! ## Escapes -/

/-- A hexadecimal digit in either case. -/
def IsHex (n : Nat) (c : Char) : Prop := c = hexDigit n ∨ c = (hexDigit n).toLower

/-- Octets are written as their escapes. -/
inductive Escapes : List Nat → List Char → Prop
  | nil : Escapes [] []
  | cons {b : Nat} {high low : Char} {octets : List Nat} {text : List Char} : IsHex (b / 16) high →
      IsHex (b % 16) low → Escapes octets text → Escapes (b :: octets) ('%' :: high :: low :: text)

/-- The characters that stand for something else in a query string. -/
def reserved : List Char := ['%', '+', '&', '=', '?']

/-- Characters are written as they are, unless they are reserved, or as escapes, and blanks also as pluses. -/
inductive Writes : List Char → List Char → Prop
  | nil : Writes [] []
  | plain {c : Char} {cs text : List Char} : c ∉ reserved → Writes cs text → Writes (c :: cs) (c :: text)
  | plus {cs text : List Char} : Writes cs text → Writes (' ' :: cs) ('+' :: text)
  | escaped {c : Char} {cs escape text : List Char} : Escapes (octetsOfNat c.toNat) escape → Writes cs text →
      Writes (c :: cs) (escape ++ text)

variable {b n : Nat} {c : Char} {octets : List Nat} {cs text : List Char}

theorem writes_self (h : cs.all (· ∉ reserved) = true) : Writes cs cs := by
  induction cs with
  | nil => exact .nil
  | cons c cs ih =>
    obtain ⟨hc, hcs⟩ := Bool.and_eq_true_iff.mp h
    exact .plain (of_decide_eq_true hc) (ih hcs)

theorem IsHex.value (h : IsHex n c) (hn : n < 16) : octetValue? c.toNat = some n ∧ c.toNat < 0x80 := by
  have hdigits : ∀ n : Fin 16, (octetValue? (hexDigit n).toNat = some n.val ∧ (hexDigit n).toNat < 0x80) ∧
      octetValue? (hexDigit n).toLower.toNat = some n.val ∧ (hexDigit n).toLower.toNat < 0x80 := by decide
  rcases h with rfl | rfl
  · exact (hdigits ⟨n, hn⟩).1
  · exact (hdigits ⟨n, hn⟩).2

theorem IsHex.not_reserved (h : IsHex n c) (hn : n < 16) : c ∉ reserved := by
  have hdigits : ∀ n : Fin 16, hexDigit n ∉ reserved ∧ (hexDigit n).toLower ∉ reserved := by decide
  rcases h with rfl | rfl
  · exact (hdigits ⟨n, hn⟩).1
  · exact (hdigits ⟨n, hn⟩).2

theorem decodeOctets_plus (rest : List Nat) : decodeOctets (0x2B :: rest) = 0x20 :: decodeOctets rest := by
  rw [decodeOctets.eq_def]
  rfl

theorem decodeOctets_escape {high low : Char} (hb : b < 256) (hhigh : IsHex (b / 16) high) (hlow : IsHex (b % 16) low)
    (rest : List Nat) : decodeOctets (0x25 :: high.toNat :: low.toNat :: rest) = b :: decodeOctets rest := by
  have hvalue : b / 16 * 16 + b % 16 = b := Nat.div_add_mod' b 16
  rw [decodeOctets.eq_def]
  simp only [(hhigh.value (by omega)).1, (hlow.value (by omega)).1, hvalue]
  rfl

theorem decodeOctets_append (h : ∀ b ∈ octets, b ≠ 0x2B ∧ b ≠ 0x25) (rest : List Nat) :
    decodeOctets (octets ++ rest) = octets ++ decodeOctets rest := by
  induction octets with
  | nil => rfl
  | cons b octets ih =>
    obtain ⟨hplus, hpercent⟩ := h b List.mem_cons_self
    rw [List.cons_append, decodeOctets.eq_def]
    simp only [hplus, hpercent, if_false]
    rw [ih fun b hb => h b (List.mem_cons_of_mem _ hb), List.cons_append]

/-- Only a plus and a percent sign have octets that decoding changes. -/
theorem mem_octets_of_not_reserved (hc : c ∉ reserved) (hb : b ∈ octetsOfNat c.toNat) : b ≠ 0x2B ∧ b ≠ 0x25 := by
  rcases Nat.lt_or_ge c.toNat 0x80 with hascii | hwide
  · rw [octetsOfNat_of_lt hascii, List.mem_singleton] at hb
    have hne : ∀ d ∈ reserved, b ≠ d.toNat := by
      rintro d hd rfl
      exact hc (Char.toNat_inj.mp hb ▸ hd)
    exact ⟨hne '+' (by decide), hne '%' (by decide)⟩
  · have hle := le_of_mem_octetsOfNat hwide hb
    omega

theorem Escapes.decodeOctets (h : Escapes octets text) (hoctets : ∀ b ∈ octets, b < 256) (rest : List Nat) :
    decodeOctets (encode text ++ rest) = octets ++ decodeOctets rest := by
  induction h with
  | nil => rfl
  | @cons b high low octets text hhigh hlow _ ih =>
    have hb := hoctets b List.mem_cons_self
    have hpercent : octetsOfNat '%'.toNat = [0x25] := rfl
    rw [encode_cons, encode_cons, encode_cons, hpercent, octetsOfNat_of_lt (hhigh.value (by omega)).2,
      octetsOfNat_of_lt (hlow.value (by omega)).2]
    simp only [List.cons_append, List.nil_append]
    rw [decodeOctets_escape hb hhigh hlow, ih fun b hb => hoctets b (List.mem_cons_of_mem _ hb)]

theorem Writes.decodeOctets (h : Writes cs text) : decodeOctets (encode text) = encode cs := by
  induction h with
  | nil => simp [encode, Percent.decodeOctets]
  | plain hc _ ih =>
    rw [encode_cons, decodeOctets_append fun _ => mem_octets_of_not_reserved hc, ih, encode_cons]
  | plus _ ih =>
    rw [encode_cons, encode_cons, ← ih]
    exact decodeOctets_plus _
  | escaped hescape _ ih =>
    rw [encode_append, hescape.decodeOctets fun _ => lt_of_mem_octetsOfNat (toNat_lt _), ih, encode_cons]

/-- Decoding undoes every way of writing a text. -/
theorem Writes.decode (h : Writes cs text) : decode text = cs := by
  rw [Percent.decode, h.decodeOctets, decode_encode]

theorem ne_of_not_reserved (hc : c ∉ reserved) : c ≠ '&' ∧ c ≠ '=' ∧ c ≠ '?' := by
  have hne : ∀ d ∈ reserved, c ≠ d := fun _ hd heq => hc (heq ▸ hd)
  exact ⟨hne '&' (by decide), hne '=' (by decide), hne '?' (by decide)⟩

theorem Escapes.ne_of_mem (h : Escapes octets text) (hoctets : ∀ b ∈ octets, b < 256) (hc : c ∈ text) :
    c ≠ '&' ∧ c ≠ '=' ∧ c ≠ '?' := by
  induction h with
  | nil => cases hc
  | @cons b high low octets text hhigh hlow _ ih =>
    have hb := hoctets b List.mem_cons_self
    simp only [List.mem_cons] at hc
    rcases hc with rfl | rfl | rfl | hc
    · decide
    · exact ne_of_not_reserved (hhigh.not_reserved (by omega))
    · exact ne_of_not_reserved (hlow.not_reserved (by omega))
    · exact ih (fun b hb => hoctets b (List.mem_cons_of_mem _ hb)) hc

/-- What separates pairs, and the mark before them, is always escaped. -/
theorem Writes.ne_of_mem (h : Writes cs text) (hc : c ∈ text) : c ≠ '&' ∧ c ≠ '=' ∧ c ≠ '?' := by
  induction h with
  | nil => cases hc
  | plain hplain _ ih =>
    rcases List.mem_cons.mp hc with rfl | hc
    · exact ne_of_not_reserved hplain
    · exact ih hc
  | plus _ ih =>
    rcases List.mem_cons.mp hc with rfl | hc
    · decide
    · exact ih hc
  | escaped hescape _ ih =>
    rcases List.mem_append.mp hc with hc | hc
    · exact hescape.ne_of_mem (fun _ => lt_of_mem_octetsOfNat (toNat_lt _)) hc
    · exact ih hc

end Percent

namespace Request

open Percent

/-! ## Pairs -/

/-- A pair is written with an equals sign between its parts, which may be missing before an empty value. -/
inductive WritesPair : String × String → List Char → Prop
  | full {name value : String} {left right : List Char} : Writes name.toList left → Writes value.toList right →
      WritesPair (name, value) (left ++ '=' :: right)
  | bare {name : String} {text : List Char} : Writes name.toList text → WritesPair (name, "") text

variable {pair : String × String} {pairs : List (String × String)} {piece : List Char} {pieces : List (List Char)}

theorem WritesPair.ofPair (h : WritesPair pair piece) : ofPair piece = pair := by
  cases h with
  | @full name value left right hname hvalue =>
    have hleft : ∀ c ∈ left, (c != '=') = true := by
      intro c hc
      simpa using (hname.ne_of_mem hc).2.1
    rw [Request.ofPair, List.takeWhile_append_of_pos hleft, List.dropWhile_append_of_pos hleft]
    simp [hname.decode, hvalue.decode]
  | @bare name _ hname =>
    have htext : ∀ c ∈ piece, (c != '=') = true := by
      intro c hc
      simpa using (hname.ne_of_mem hc).2.1
    have hempty : Percent.decode [] = [] := Writes.nil.decode
    rw [Request.ofPair, List.takeWhile_eq_self_iff.mpr htext, List.dropWhile_eq_nil_iff.mpr htext]
    simp [hname.decode, hempty]

theorem WritesPair.ne_of_mem (h : WritesPair pair piece) {c : Char} (hc : c ∈ piece) : c ≠ '&' ∧ c ≠ '?' := by
  cases h with
  | full hname hvalue =>
    rcases List.mem_append.mp hc with hc | hc
    · exact ⟨(hname.ne_of_mem hc).1, (hname.ne_of_mem hc).2.2⟩
    rcases List.mem_cons.mp hc with rfl | hc
    · decide
    · exact ⟨(hvalue.ne_of_mem hc).1, (hvalue.ne_of_mem hc).2.2⟩
  | bare hname => exact ⟨(hname.ne_of_mem hc).1, (hname.ne_of_mem hc).2.2⟩

/-! ## Options -/

/-- The first value of each option. -/
def firstValues (pairs : List (String × String)) : Request where
  filter := pairs.lookup "$filter"
  top := pairs.lookup "$top"
  skip := pairs.lookup "$skip"
  orderBy := pairs.lookup "$orderby"
  expand := pairs.lookup "$expand"
  select := pairs.lookup "$select"
  inlineCount := pairs.lookup "$inlinecount"
  keywords := pairs.lookup "q"

/-- The options of two requests, those of the first going before. -/
def orElse (r s : Request) : Request where
  filter := r.filter <|> s.filter
  top := r.top <|> s.top
  skip := r.skip <|> s.skip
  orderBy := r.orderBy <|> s.orderBy
  expand := r.expand <|> s.expand
  select := r.select <|> s.select
  inlineCount := r.inlineCount <|> s.inlineCount
  keywords := r.keywords <|> s.keywords

theorem empty_orElse (r : Request) : ({} : Request).orElse r = r := by
  simp [orElse]

theorem orElse_empty (r : Request) : r.orElse {} = r := by
  simp [orElse]

theorem orElse_assoc (r s t : Request) : (r.orElse s).orElse t = r.orElse (s.orElse t) := by
  simp [orElse, Option.or_assoc]

theorem lookup_cons_eq (name value : String) (pairs : List (String × String)) (key : String) :
    ((name, value) :: pairs).lookup key = if key = name then some value else pairs.lookup key := by
  rw [List.lookup_cons]
  by_cases h : key = name
  · simp [h]
  · have hbeq : (key == name) = false := beq_false_of_ne h
    simp [hbeq, h]

theorem firstValues_cons (pair : String × String) (pairs : List (String × String)) :
    firstValues (pair :: pairs) = (firstValues [pair]).orElse (firstValues pairs) := by
  have hlookup (key : String) : (pair :: pairs).lookup key = ([pair].lookup key <|> pairs.lookup key) := by
    obtain ⟨name, value⟩ := pair
    rw [lookup_cons_eq, lookup_cons_eq]
    split <;> rfl
  simp only [firstValues, orElse, hlookup]

theorem add_eq (r : Request) (name value : String) : r.add name value = r.orElse (firstValues [(name, value)]) := by
  simp only [firstValues, lookup_cons_eq, List.lookup_nil]
  unfold add
  split
  case h_9 => simp_all [orElse, eq_comm]
  all_goals simp [orElse]

/-- Adding pairs one by one keeps the first values. -/
theorem foldl_add (pairs : List (String × String)) (r : Request) :
    pairs.foldl (fun r pair => r.add pair.1 pair.2) r = r.orElse (firstValues pairs) := by
  induction pairs generalizing r with
  | nil => exact r.orElse_empty.symm
  | cons pair pairs ih => rw [List.foldl_cons, ih, add_eq, orElse_assoc, ← firstValues_cons]

/-! ## The query string -/

theorem exists_of_mem_pieces (h : List.Forall₂ WritesPair pairs pieces) (hpiece : piece ∈ pieces) :
    ∃ pair, WritesPair pair piece := by
  induction h with
  | nil => cases hpiece
  | @cons pair _ _ _ hpair _ ih =>
    rcases List.mem_cons.mp hpiece with rfl | hpiece
    · exact ⟨pair, hpair⟩
    · exact ih hpiece

theorem map_ofPair (h : List.Forall₂ WritesPair pairs pieces) : pieces.map ofPair = pairs := by
  induction h with
  | nil => rfl
  | cons hpair _ ih => rw [List.map_cons, hpair.ofPair, ih]

/-- Empty pieces do not count. -/
theorem ne_of_mem_pieces (h : List.Forall₂ WritesPair pairs (pieces.filter (!·.isEmpty))) (hpiece : piece ∈ pieces)
    {c : Char} (hc : c ∈ piece) : c ≠ '&' ∧ c ≠ '?' := by
  have hfull : piece ∈ pieces.filter (!·.isEmpty) := by
    refine List.mem_filter.mpr ⟨hpiece, ?_⟩
    simpa using List.ne_nil_of_mem hc
  obtain ⟨pair, hpair⟩ := exists_of_mem_pieces h hfull
  exact hpair.ne_of_mem hc

theorem mem_intercalate {c separator : Char} (h : c ∈ [separator].intercalate pieces) :
    c = separator ∨ ∃ piece ∈ pieces, c ∈ piece := by
  induction pieces with
  | nil => cases h
  | cons piece pieces ih =>
    cases pieces with
    | nil =>
      rw [List.intercalate_singleton] at h
      exact .inr ⟨piece, List.mem_cons_self, h⟩
    | cons next pieces =>
      rw [List.intercalate_cons_cons, List.append_assoc, List.mem_append, List.singleton_append, List.mem_cons] at h
      rcases h with h | rfl | h
      · exact .inr ⟨piece, List.mem_cons_self, h⟩
      · exact .inl rfl
      · exact (ih h).imp_right fun ⟨other, hmem, hc⟩ => ⟨other, List.mem_cons_of_mem _ hmem, hc⟩

theorem foldl_splitOn (h : List.Forall₂ WritesPair pairs (pieces.filter (!·.isEmpty))) :
    (((['&'].intercalate pieces).splitOn '&').filter (!·.isEmpty)).foldl
      (fun r pair => r.add (ofPair pair).1 (ofPair pair).2) {} = firstValues pairs := by
  have hsplit : ((['&'].intercalate pieces).splitOn '&').filter (!·.isEmpty) = pieces.filter (!·.isEmpty) := by
    cases pieces with
    | nil => rfl
    | cons piece pieces =>
      rw [List.splitOn_intercalate '&' (fun _ hpiece hc => (ne_of_mem_pieces h hpiece hc).1 rfl) (List.cons_ne_nil _ _)]
  have hadd := foldl_add ((pieces.filter (!·.isEmpty)).map ofPair) {}
  rw [List.foldl_map, map_ofPair h, empty_orElse] at hadd
  rw [hsplit, hadd]

/-- However the pairs are escaped, and whatever empty pieces stand between them, a query string is read as the first
value of each option. -/
theorem ofQueryString_of_writes {text : String}
    (hpieces : List.Forall₂ WritesPair pairs (pieces.filter (!·.isEmpty)))
    (htext : text.toList = ['&'].intercalate pieces ∨ text.toList = '?' :: ['&'].intercalate pieces) :
    ofQueryString text =
      { filter := pairs.lookup "$filter", top := pairs.lookup "$top", skip := pairs.lookup "$skip",
        orderBy := pairs.lookup "$orderby", expand := pairs.lookup "$expand", select := pairs.lookup "$select",
        inlineCount := pairs.lookup "$inlinecount", keywords := pairs.lookup "q" } := by
  have hmark : '?' ∉ ['&'].intercalate pieces := by
    intro hc
    rcases mem_intercalate hc with heq | ⟨piece, hpiece, hc⟩
    · exact absurd heq (by decide)
    · exact (ne_of_mem_pieces hpieces hpiece hc).2 rfl
  unfold ofQueryString
  rcases htext with htext | htext
  · rw [htext]
    split
    · rename_i rest heq
      exact absurd (heq ▸ List.mem_cons_self) hmark
    · exact foldl_splitOn hpieces
  · rw [htext]
    exact foldl_splitOn hpieces

/-- Escapes in both cases, a repeated option, a name without a value and an empty piece. -/
theorem ofQueryString_of_writes_escapes :
    ofQueryString "?&x&%24top=5&q=%E6%bc%A2+%26&$top=7" = { top := some "5", keywords := some "漢 &" } := by
  let pieces := ["", "x", "%24top=5", "q=%E6%bc%A2+%26", "$top=7"].map String.toList
  have hdollar : Escapes (octetsOfNat '$'.toNat) ['%', '2', '4'] := .cons (.inl rfl) (.inl rfl) .nil
  have hamp : Escapes (octetsOfNat '&'.toNat) ['%', '2', '6'] := .cons (.inl rfl) (.inl rfl) .nil
  have hchar : Escapes (octetsOfNat '漢'.toNat) ['%', 'E', '6', '%', 'b', 'c', '%', 'A', '2'] :=
    .cons (.inl rfl) (.inl rfl) (.cons (.inr rfl) (.inr rfl) (.cons (.inl rfl) (.inl rfl) .nil))
  have htop : Writes "$top".toList "%24top".toList := .escaped hdollar (writes_self (by decide))
  have htop' : Writes "$top".toList "$top".toList := writes_self (by decide)
  have hfive : Writes "5".toList "5".toList := writes_self (by decide)
  have hseven : Writes "7".toList "7".toList := writes_self (by decide)
  have hq : Writes "q".toList "q".toList := writes_self (by decide)
  have hwords : Writes "漢 &".toList "%E6%bc%A2+%26".toList := .escaped hchar (.plus (.escaped hamp .nil))
  have hbare : WritesPair ("x", "") "x".toList := .bare (writes_self (by decide))
  have hfirst : WritesPair ("$top", "5") "%24top=5".toList := .full htop hfive
  have hkeywords : WritesPair ("q", "漢 &") "q=%E6%bc%A2+%26".toList := .full hq hwords
  have hlast : WritesPair ("$top", "7") "$top=7".toList := .full htop' hseven
  have hpieces : List.Forall₂ WritesPair [("x", ""), ("$top", "5"), ("q", "漢 &"), ("$top", "7")]
      (pieces.filter (!·.isEmpty)) := .cons hbare (.cons hfirst (.cons hkeywords (.cons hlast .nil)))
  exact ofQueryString_of_writes hpieces (.inr (by decide))

end Request

end EntityStore
