import EntityStore.Proofs.Timestamp

/-!
# The order of instants

Texts of one form without an offset compare as the instants they denote. Seconds and milliseconds that a text leaves
out are zero, and an offset is subtracted. Main statement: `read?_forms_and_order`.
-/
namespace EntityStore.Timestamp

variable {e e' : Ending} {f g : Fields} {as bs : List Char} {s t : String}

/-! ## Lengths -/

namespace Ending

/-- The number of characters of the form. -/
def width : Ending → Nat
  | minutes => 0
  | seconds _ => 3
  | millis _ _ => 7
  | offset _ _ _ => 13

end Ending

theorem Offset.length_text {o : Offset} (h : o.Valid) : o.text.length = 6 := by
  obtain ⟨hhours, hminutes⟩ := h
  have hlength : (padded 2 o.hours).toList.length = 2 := length_padded (by decide) (by omega)
  have hlength' : (padded 2 o.minutes).toList.length = 2 := length_padded (by decide) (by omega)
  simp only [Offset.text, List.length_cons, List.length_append, hlength, hlength']

theorem Ending.length_text (h : e.Valid) : e.text.length = e.width := by
  have hsecond : (padded 2 e.second).toList.length = 2 := length_padded (by decide) (by have := h.second_lt; omega)
  have hmilli : (padded 3 e.milli).toList.length = 3 := length_padded (by decide) (by have := h.milli_lt; omega)
  cases e with
  | minutes => rfl
  | seconds second =>
    rw [Ending.second] at hsecond
    simp only [Ending.text, List.length_cons, hsecond, width]
  | millis second milli =>
    rw [Ending.second] at hsecond
    rw [Ending.milli] at hmilli
    simp only [Ending.text, List.length_cons, List.length_append, hsecond, hmilli, width]
  | offset second milli o =>
    rw [Ending.second] at hsecond
    rw [Ending.milli] at hmilli
    simp only [Ending.text, List.length_cons, List.length_append, hsecond, hmilli, Offset.length_text h.2.2, width]

theorem Fields.length_head (h : f.Valid) : f.head.length = 16 := by
  have hyear : (padded 4 f.year).toList.length = 4 := length_padded (by decide) h.year
  have hmonth : (padded 2 f.month).toList.length = 2 := length_padded (by decide) h.month_lt
  have hday : (padded 2 f.day).toList.length = 2 := length_padded (by decide) h.day_lt
  have hhour : (padded 2 f.hour).toList.length = 2 := length_padded (by decide) h.hour_lt
  have hminute : (padded 2 f.minute).toList.length = 2 := length_padded (by decide) h.minute_lt
  simp only [Fields.head, List.length_cons, List.length_append, hyear, hmonth, hday, hhour, hminute]

theorem Fields.length_text (h : f.Valid) : f.text.length = 16 + f.ending.width := by
  rw [Fields.text, List.length_append, Fields.length_head h, Ending.length_text h.ending]

/-! ## Comparison -/

theorem padded_append_lt_iff {width m n : Nat} (hwidth : 0 < width) (hm : m < 10 ^ width) (hn : n < 10 ^ width) :
    (padded width m).toList ++ as < (padded width n).toList ++ bs ↔ m < n ∨ m = n ∧ as < bs := by
  have hlength := (length_padded hwidth hm).trans (length_padded hwidth hn).symm
  have heq : (padded width m).toList = (padded width n).toList ↔ m = n := by
    constructor
    · intro h
      rw [← ofDigits_padded width m, h, ofDigits_padded]
    · rintro rfl
      rfl
  rw [Decimal.append_lt_append_iff (fun _ => isDigit_of_mem_padded) (fun _ => isDigit_of_mem_padded) hlength,
    ofDigits_padded, ofDigits_padded, heq]

theorem padded_lt_iff {width m n : Nat} (hwidth : 0 < width) (hm : m < 10 ^ width) (hn : n < 10 ^ width) :
    (padded width m).toList < (padded width n).toList ↔ m < n := by
  simpa using @padded_append_lt_iff [] [] width m n hwidth hm hn

theorem cons_lt_cons (c : Char) : c :: as < c :: bs ↔ as < bs := by
  simp

/-- Fields of the texts up to the minutes decide before what follows them. -/
theorem head_append_lt_iff (hf : f.Valid) (hg : g.Valid) :
    f.head ++ as < g.head ++ bs ↔
      Calendar.Earlier f.date g.date ∨ f.date = g.date ∧
        (f.hour < g.hour ∨ f.hour = g.hour ∧ (f.minute < g.minute ∨ f.minute = g.minute ∧ as < bs)) := by
  have hfour : 0 < 4 := by decide
  have htwo : 0 < 2 := by decide
  simp only [Fields.head, List.append_assoc, List.cons_append]
  rw [padded_append_lt_iff hfour hf.year hg.year, cons_lt_cons,
    padded_append_lt_iff htwo hf.month_lt hg.month_lt, cons_lt_cons,
    padded_append_lt_iff htwo hf.day_lt hg.day_lt, cons_lt_cons,
    padded_append_lt_iff htwo hf.hour_lt hg.hour_lt, cons_lt_cons,
    padded_append_lt_iff htwo hf.minute_lt hg.minute_lt]
  simp only [Calendar.Earlier, Fields.date, Date.mk.injEq, Int.ofNat_inj, Int.ofNat_lt, and_or_left, or_assoc,
    and_assoc]

theorem ending_lt_iff (he : e.Valid) (he' : e'.Valid) (hwidth : e.width = e'.width) (hoffset : e.width ≠ 13) :
    e.text < e'.text ↔ e.second < e'.second ∨ e.second = e'.second ∧ e.milli < e'.milli := by
  have hsecond := he.second_lt
  have hsecond' := he'.second_lt
  have hmilli := he.milli_lt
  have hmilli' := he'.milli_lt
  have htwo : 0 < 2 := by decide
  cases e with
  | minutes =>
    cases e' with
    | minutes => simp [Ending.text, Ending.second, Ending.milli]
    | seconds | millis | offset => cases hwidth
  | seconds second =>
    cases e' with
    | seconds second' =>
      simp only [Ending.second] at hsecond hsecond'
      simp only [Ending.text, Ending.second, Ending.milli, cons_lt_cons]
      rw [padded_lt_iff htwo (by omega) (by omega)]
      simp
    | minutes | millis | offset => cases hwidth
  | millis second milli =>
    cases e' with
    | millis second' milli' =>
      simp only [Ending.second, Ending.milli] at hsecond hsecond' hmilli hmilli'
      simp only [Ending.text, Ending.second, Ending.milli, cons_lt_cons]
      rw [padded_append_lt_iff htwo (by omega) (by omega), cons_lt_cons,
        padded_lt_iff (by decide) (by omega) (by omega)]
    | minutes | seconds | offset => cases hwidth
  | offset second milli o => exact absurd rfl hoffset

theorem Fields.Valid.time_lt (h : f.Valid) : f.time < 86400000 := by
  have hsecond := h.ending.second_lt
  have hmilli := h.ending.milli_lt
  have hhour := h.hour
  have hminute := h.minute
  unfold Fields.time
  omega

/-- Times of day compare by hours, minutes, seconds and milliseconds, in this order. -/
theorem time_lt_iff (hf : f.Valid) (hg : g.Valid) :
    f.time < g.time ↔ f.hour < g.hour ∨ f.hour = g.hour ∧ (f.minute < g.minute ∨ f.minute = g.minute ∧
      (f.ending.second < g.ending.second ∨ f.ending.second = g.ending.second ∧ f.ending.milli < g.ending.milli)) := by
  have hsecond := hf.ending.second_lt
  have hsecond' := hg.ending.second_lt
  have hmilli := hf.ending.milli_lt
  have hmilli' := hg.ending.milli_lt
  have hminute := hf.minute
  have hminute' := hg.minute
  unfold Fields.time
  omega

theorem offsetMillis_eq_zero (h : e.width ≠ 13) : e.offsetMillis = 0 := by
  cases e with
  | minutes | seconds | millis => rfl
  | offset => exact absurd rfl h

/-- Texts of one form without an offset compare as their instants. -/
theorem text_lt_iff (hf : f.Valid) (hg : g.Valid) (hwidth : f.ending.width = g.ending.width)
    (hoffset : f.ending.width ≠ 13) : f.text < g.text ↔ f.millis < g.millis := by
  have htime := hf.time_lt
  have htime' := hg.time_lt
  have hdays := Calendar.dayNumber_lt_iff hf.date hg.date
  have hsame : f.date = g.date ↔ Calendar.dayNumber f.date = Calendar.dayNumber g.date :=
    ⟨congrArg _, Calendar.dayNumber_inj hf.date hg.date⟩
  rw [Fields.text, Fields.text, head_append_lt_iff hf hg, ending_lt_iff hf.ending hg.ending hwidth hoffset,
    ← time_lt_iff hf hg, ← hdays, hsame, Fields.millis, Fields.millis, offsetMillis_eq_zero hoffset,
    offsetMillis_eq_zero (hwidth ▸ hoffset)]
  omega

/-! ## Missing fields and offsets -/

/-- A text is read with more behind it as it is read alone, but for an offset, if its ending has with that text the
seconds and milliseconds that it has alone, and each ending of the whole begins with one of the text. -/
theorem read?_append_eq_map {more : List Char} {offset : Int}
    (hto : ∀ e : Ending, e.Valid → s.length = 16 + e.width → ∃ e' : Ending, e'.Valid ∧ e'.text = e.text ++ more ∧
      e'.second = e.second ∧ e'.milli = e.milli ∧ e'.offsetMillis = e.offsetMillis + offset)
    (hback : ∀ e' : Ending, e'.Valid → s.length + more.length = 16 + e'.width →
      ∃ (e : Ending) (rest : List Char), e.Valid ∧ s.length = 16 + e.width ∧ e'.text = e.text ++ rest) :
    read? (s ++ .ofList more) = (read? s).map (· - offset) := by
  cases hread : read? s with
  | some millis =>
    obtain ⟨f, hf, htext, hmillis⟩ := read?_eq_some_iff.mp hread
    have hwidth : s.length = 16 + f.ending.width := by rw [← String.length_toList, htext, Fields.length_text hf]
    obtain ⟨e', he', htext', hsecond, hmilli, hoffset⟩ := hto f.ending hf.ending hwidth
    refine read?_eq_some_iff.mpr ⟨{ f with ending := e' }, ⟨hf.year, hf.date, hf.hour, hf.minute, he'⟩, ?_, ?_⟩
    · rw [String.toList_append, String.toList_ofList, htext, Fields.text, List.append_assoc, ← htext']
      rfl
    · rw [← hmillis]
      simp only [Fields.millis, Fields.time, Fields.date, hsecond, hmilli, hoffset]
      omega
  | none =>
    rw [Option.map_none, Option.eq_none_iff_forall_ne_some]
    intro millis hread'
    obtain ⟨f, hf, htext, _⟩ := read?_eq_some_iff.mp hread'
    rw [String.toList_append, String.toList_ofList] at htext
    have hwidth : s.length + more.length = 16 + f.ending.width := by
      rw [← Fields.length_text hf, ← htext, List.length_append, String.length_toList]
    obtain ⟨e, rest, he, hwidth', hsplit⟩ := hback f.ending hf.ending hwidth
    have hvalid : Fields.Valid { f with ending := e } := ⟨hf.year, hf.date, hf.hour, hf.minute, he⟩
    have hlength : s.toList.length = (Fields.text { f with ending := e }).length := by
      rw [String.length_toList, hwidth', Fields.length_text hvalid]
    rw [Fields.text, hsplit, ← List.append_assoc] at htext
    have hfront := (List.append_inj htext hlength).1
    rw [read?_eq_some_iff.mpr ⟨_, hvalid, hfront, rfl⟩] at hread
    cases hread

/-- Seconds that are left out are zero. -/
theorem read?_append_seconds (h : s.length = 16) : read? (s ++ ":00") = read? s := by
  have hread : read? (s ++ .ofList (Ending.seconds 0).text) = (read? s).map (· - 0) := by
    apply read?_append_eq_map
    · intro e he hwidth
      rw [h] at hwidth
      cases e with
      | minutes => exact ⟨.seconds 0, Nat.zero_lt_succ _, rfl, rfl, rfl, rfl⟩
      | seconds | millis | offset => cases hwidth
    · exact fun e' _ _ => ⟨.minutes, e'.text, trivial, h, rfl⟩
  have hzero : ":00" = .ofList (Ending.seconds 0).text := rfl
  rw [hzero, hread]
  simp

/-- Milliseconds that are left out are zero. -/
theorem read?_append_millis (h : s.length = 19) : read? (s ++ ".000") = read? s := by
  have hread : read? (s ++ .ofList ('.' :: (padded 3 0).toList)) = (read? s).map (· - 0) := by
    apply read?_append_eq_map
    · intro e he hwidth
      rw [h] at hwidth
      cases e with
      | seconds second => exact ⟨.millis second 0, ⟨he, by decide⟩, rfl, rfl, rfl, rfl⟩
      | minutes | millis | offset => cases hwidth
    · intro e' he' hwidth
      rw [h] at hwidth
      cases e' with
      | millis second milli => exact ⟨.seconds second, '.' :: (padded 3 milli).toList, he'.1, h, rfl⟩
      | minutes | seconds | offset => cases hwidth
  have hzero : ".000" = .ofList ('.' :: (padded 3 0).toList) := rfl
  rw [hzero, hread]
  simp

/-- An offset is subtracted from the instant of the text before it. -/
theorem read?_append_offset {o : Offset} (h : s.length = 23) (ho : o.Valid) :
    read? (s ++ .ofList o.text) = (read? s).map (· - o.millis) := by
  have hsplit : ∀ second milli (o' : Offset),
      (Ending.offset second milli o').text = (Ending.millis second milli).text ++ o'.text := by
    intro second milli o'
    simp only [Ending.text, List.cons_append, List.append_assoc]
  apply read?_append_eq_map
  · intro e he hwidth
    rw [h] at hwidth
    cases e with
    | millis second milli =>
      exact ⟨.offset second milli o, ⟨he.1, he.2, ho⟩, hsplit _ _ _, rfl, rfl, (Int.zero_add _).symm⟩
    | minutes | seconds | offset => cases hwidth
  · intro e' he' hwidth
    rw [h, Offset.length_text ho] at hwidth
    cases e' with
    | offset second milli o' => exact ⟨.millis second milli, o'.text, ⟨he'.1, he'.2.1⟩, h, hsplit _ _ _⟩
    | minutes | seconds | millis => cases hwidth

/-! ## Instants and their texts -/

/-- The texts with an offset are those of 29 characters. -/
theorem length_text_eq_iff (h : f.Valid) :
    f.text.length = 29 ↔ ∃ second milli o, f.ending = .offset second milli o := by
  rw [Fields.length_text h]
  cases f.ending with
  | minutes | seconds | millis => simp [Ending.width]
  | offset second milli o => simp [Ending.width]

theorem lt_iff_of_read? {m n : Int} (hs : read? s = some m) (ht : read? t = some n) (hlength : s.length = t.length)
    (hoffset : s.length ≠ 29) : s < t ↔ m < n := by
  obtain ⟨f, hf, hftext, rfl⟩ := read?_eq_some_iff.mp hs
  obtain ⟨g, hg, hgtext, rfl⟩ := read?_eq_some_iff.mp ht
  have hf' := Fields.length_text hf
  have hg' := Fields.length_text hg
  rw [← hftext, String.length_toList] at hf'
  rw [← hgtext, String.length_toList] at hg'
  rw [String.lt_iff, hftext, hgtext]
  exact text_lt_iff hf hg (by omega) (by omega)

/-- What is read as an instant: a text in one of the four forms, whose fields are an existing date, a time of day and
an offset of at most 23 hours and 59 minutes. Texts of one length without an offset have the order of their instants;
seconds and milliseconds that are left out are zero; and an offset is subtracted from what is read without it. -/
theorem read?_forms_and_order :
    (∀ s millis, read? s = some millis ↔ ∃ f : Fields, f.Valid ∧ s.toList = f.text ∧ f.millis = millis) ∧
    (∀ f : Fields, f.Valid → (f.text.length = 29 ↔ ∃ second milli o, f.ending = .offset second milli o)) ∧
    (∀ s t m n, read? s = some m → read? t = some n → s.length = t.length → s.length ≠ 29 → (s < t ↔ m < n)) ∧
    (∀ s : String, s.length = 16 → read? (s ++ ":00") = read? s) ∧
    (∀ s : String, s.length = 19 → read? (s ++ ".000") = read? s) ∧
    ∀ (s : String) (o : Offset), s.length = 23 → o.Valid →
      read? (s ++ .ofList o.text) = (read? s).map (· - o.millis) :=
  ⟨fun _ _ => read?_eq_some_iff, fun _ => length_text_eq_iff, fun _ _ _ _ => lt_iff_of_read?,
    fun _ => read?_append_seconds, fun _ => read?_append_millis, fun _ _ => read?_append_offset⟩

/-- The last millisecond of a leap day comes before the first one of the next month, also as a text. -/
theorem read?_forms_and_order_leapDay :
    read? "2024-02-29T23:59:59.999" = some 1709251199999 ∧ read? "2024-03-01T00:00:00.000" = some 1709251200000 ∧
      "2024-02-29T23:59:59.999" < "2024-03-01T00:00:00.000" ∧
      read? ("2024-02-29T23:59:59.999" ++ .ofList (Offset.text ⟨true, 23, 59⟩)) = some 1709337539999 := by
  have hread : read? "2024-02-29T23:59:59.999" = some 1709251199999 := by decide
  have hread' : read? "2024-03-01T00:00:00.000" = some 1709251200000 := by decide
  have hlength : "2024-02-29T23:59:59.999".length = 23 ∧ "2024-03-01T00:00:00.000".length = 23 := by decide
  obtain ⟨_, _, horder, _, _, hoffset⟩ := read?_forms_and_order
  refine ⟨hread, hread', ?_, ?_⟩
  · apply (horder _ _ _ _ hread hread' (hlength.1.trans hlength.2.symm) _).mpr (by decide)
    rw [hlength.1]
    decide
  · rw [hoffset _ ⟨true, 23, 59⟩ hlength.1 ⟨by decide, by decide⟩, hread]
    rfl

end EntityStore.Timestamp
