import Stored.Json.Fuel

/-!
# Strings through the encoder and the decoder

`emitString` passes the byte 1F through as it is (its escapes stop below it), while `parseString`
refuses every control character up to 1F. Apart from that byte every string is read back, with
U+FFFD in place of each byte that starts no UTF-8 character; a valid UTF-8 text is read back
unchanged.
-/

namespace Stored.Json

open Bytes Utf8 Partial

/-- What the decoder makes of an emitted string, with the count of `emitChars`. -/
def repairChars : ℕ → List UInt8 → List UInt8
  | _, [] => []
  | len + 1, c :: s => c :: repairChars len s
  | 0, c :: s =>
    let len := utf8ValidateCz (c :: s)
    if len = 0 then 0xEF :: 0xBF :: 0xBD :: repairChars 0 s else c :: repairChars (len - 1) s

/-- Every byte that starts no character replaced by U+FFFD. -/
def repair (s : List UInt8) : List UInt8 := repairChars 0 s

/-- Neither a NUL, which no C string holds, nor the unit separator. -/
def Readable (s : List UInt8) : Prop := 0 ∉ s ∧ 0x1F ∉ s

instance (s : List UInt8) : Decidable (Readable s) := inferInstanceAs (Decidable (_ ∧ _))

theorem repairChars_invalid {c : UInt8} {s : List UInt8} (h : utf8ValidateCz (c :: s) = 0) :
    repairChars 0 (c :: s) = [0xEF, 0xBF, 0xBD] ++ repairChars 0 s := by
  simp [repairChars, h]

/-- The count of a character covers the bytes behind its first. -/
theorem repairChars_counted (w s : List UInt8) :
    repairChars w.length (w ++ s) = w ++ repairChars 0 s := by
  induction w with
  | nil => rfl
  | cons c w ih => exact congrArg (c :: ·) ih

theorem repairChars_char {w : List UInt8} (hw : Utf8Char w) (s : List UInt8) :
    repairChars 0 (w ++ s) = w ++ repairChars 0 s := by
  have hlen := utf8ValidateCz_append hw s
  cases w with
  | nil => exact nomatch hw
  | cons c w =>
    rw [List.cons_append] at hlen
    simp only [List.cons_append, repairChars, hlen, List.length_cons, Nat.succ_ne_zero, if_false]
    exact congrArg (c :: ·) (repairChars_counted w s)

/-- Valid UTF-8 is left as it is. -/
theorem repair_of_validUtf8 {s : List UInt8} (h : ValidUtf8 s) : repair s = s := by
  refine ValidUtf8.induction (motive := fun s ↦ repair s = s) rfl (fun w s hw _ ih ↦ ?_) h
  rw [repair, repairChars_char hw, ← repair, ih]

/-- A byte below 80 as it stands in an emitted string. -/
def emitAscii (c : UInt8) : List UInt8 := emitChars 0 [c]

theorem le_of_utf8ValidateCz {c : UInt8} {s : List UInt8} (h : utf8ValidateCz (c :: s) = 0) :
    0x80 ≤ c := by
  by_contra hc
  have hone : utf8ValidateCz (c :: s) = 1 := utf8ValidateCz_append (.one (by grind)) s
  omega

theorem emitChars_ascii {c : UInt8} (hc : c ≤ 0x7F) (s : List UInt8) :
    emitChars 0 (c :: s) = emitAscii c ++ emitChars 0 s := by
  have hlen (t : List UInt8) : utf8ValidateCz (c :: t) = 1 := utf8ValidateCz_append (.one hc) t
  rw [emitAscii, emitChars, emitChars]
  simp only [hlen, emitChars, apply_ite (· ++ emitChars 0 s), List.cons_append, List.append_assoc,
    List.nil_append, Nat.sub_self]

theorem emitChars_counted (w s : List UInt8) :
    emitChars w.length (w ++ s) = w ++ emitChars 0 s := by
  induction w with
  | nil => rfl
  | cons c w ih => exact congrArg (c :: ·) ih

/-- Past the ASCII range nothing is escaped. -/
theorem emitChars_of_le {c : UInt8} (hc : 0x80 ≤ c) (s : List UInt8) :
    emitChars 0 (c :: s) =
      if utf8ValidateCz (c :: s) = 0 then [0xEF, 0xBF, 0xBD] ++ emitChars 0 s
      else c :: emitChars (utf8ValidateCz (c :: s) - 1) s := by
  have hne (d : UInt8) (hd : d < 0x80) : c ≠ d := by grind
  have hcontrol : ¬c < 0x1F := by grind
  rw [emitChars, if_neg (hne _ (by decide)), if_neg (hne _ (by decide)),
    if_neg (hne _ (by decide)), if_neg (hne _ (by decide)), if_neg (hne _ (by decide)),
    if_neg (hne _ (by decide)), if_neg (hne _ (by decide))]
  simp only [hcontrol, if_false]
  rfl

theorem emitChars_invalid {c : UInt8} {s : List UInt8} (h : utf8ValidateCz (c :: s) = 0) :
    emitChars 0 (c :: s) = [0xEF, 0xBF, 0xBD] ++ emitChars 0 s := by
  rw [emitChars_of_le (le_of_utf8ValidateCz h), if_pos h]

/-- A character of more than one byte is copied. -/
theorem emitChars_char {w : List UInt8} (hw : Utf8Char w) (hlong : 1 < w.length)
    (s : List UInt8) : emitChars 0 (w ++ s) = w ++ emitChars 0 s := by
  have hlen := utf8ValidateCz_append hw s
  cases w with
  | nil => exact nomatch hw
  | cons c w =>
    have hc := hw.le_of_mem hlong List.mem_cons_self
    rw [List.cons_append] at hlen
    rw [List.cons_append, emitChars_of_le hc, hlen, if_neg (by omega)]
    exact congrArg (c :: ·) (emitChars_counted w s)

theorem parseChars_quote (fuel : ℕ) (rest : List UInt8) :
    parseChars (fuel + 1) (0x22 :: rest) = some ([], rest) := by
  simp [parseChars]

/-- A copied character is read as a whole. -/
theorem parseChars_char {w : List UInt8} (hw : Utf8Char w) (hlong : 1 < w.length) (fuel : ℕ)
    (t : List UInt8) :
    parseChars (fuel + 1) (w ++ t) = (parseChars fuel t).map fun r ↦ (w ++ r.1, r.2) := by
  have hlen := utf8ValidateCz_append hw t
  have hpeek : 0x80 ≤ peek (w ++ t) := by
    cases w with
    | nil => exact nomatch hw
    | cons c w => exact hw.le_of_mem hlong List.mem_cons_self
  rw [parseChars]
  simp only [hlen]
  rw [if_neg (by grind), if_neg (by grind), if_neg (by grind), if_neg (by omega)]
  simp only [List.drop_left, List.take_left]
  cases parseChars fuel t <;> rfl

/-- A backslash escape and the byte it stands for. -/
theorem parseChars_escape (fuel : ℕ) (c : UInt8) {s t : List UInt8}
    (h : parseEscape s = some ([c], t)) :
    parseChars (fuel + 1) (0x5C :: s) = (parseChars fuel t).map fun r ↦ (c :: r.1, r.2) := by
  rw [parseChars]
  simp only [peek_cons, List.tail_cons, h]
  rw [if_neg (by decide), if_pos trivial, Option.map_eq_bind]
  rfl

/-- A control character without a short escape goes through its code point. -/
theorem parseEscape_writeHex16 {c : UInt8} (hc : c ≤ 0x7F) (h0 : c ≠ 0) (t : List UInt8) :
    parseEscape (0x75 :: writeHex16 c.toUInt16 ++ t) = some ([c], t) := by
  have hsmall : ∀ n < 256, n ≠ 0 → ¬(0xD800 ≤ (UInt8.ofNat n).toUInt16) ∧
      (UInt8.ofNat n).toUInt16 ≠ 0 := by decide +kernel
  have hpos : c.toNat ≠ 0 := fun h ↦ h0 (UInt8.toNat_inj.mp h)
  obtain ⟨hlow, hne⟩ := hsmall c.toNat c.toNat_lt hpos
  simp only [UInt8.ofNat_toNat] at hlow hne
  rw [List.cons_append, parseEscape]
  simp only [peek_cons, List.tail_cons, parseUnicodeEscape, parseHex16_writeHex16]
  simp [hlow, hne, utf8WriteChar_toUInt32 hc]

/-- An escape, or a plain ASCII byte, is read back as the byte it stands for. -/
theorem parseChars_emitAscii {c : UInt8} (hc : c ≤ 0x7F) (h0 : c ≠ 0) (h31 : c ≠ 0x1F) (fuel : ℕ)
    (t : List UInt8) :
    parseChars (fuel + 1) (emitAscii c ++ t) = (parseChars fuel t).map fun r ↦ (c :: r.1, r.2) := by
  have hshort (d e : UInt8) (hd : emitAscii d = [0x5C, e])
      (he : parseEscape (e :: t) = some ([d], t)) : parseChars (fuel + 1) (emitAscii d ++ t) =
        (parseChars fuel t).map fun r ↦ (d :: r.1, r.2) := by
    rw [hd]
    exact parseChars_escape fuel d he
  by_cases hq : c = 0x22
  · subst hq
    exact hshort 0x22 0x22 rfl rfl
  by_cases hb : c = 0x5C
  · subst hb
    exact hshort 0x5C 0x5C rfl rfl
  by_cases h8 : c = 0x08
  · subst h8
    exact hshort 0x08 0x62 rfl rfl
  by_cases hF : c = 0x0C
  · subst hF
    exact hshort 0x0C 0x66 rfl rfl
  by_cases hN : c = 0x0A
  · subst hN
    exact hshort 0x0A 0x6E rfl rfl
  by_cases hR : c = 0x0D
  · subst hR
    exact hshort 0x0D 0x72 rfl rfl
  by_cases hT : c = 0x09
  · subst hT
    exact hshort 0x09 0x74 rfl rfl
  have hlen (s : List UInt8) : utf8ValidateCz (c :: s) = 1 := utf8ValidateCz_append (.one hc) s
  rw [emitAscii, emitChars, if_neg hq, if_neg hb, if_neg h8, if_neg hF, if_neg hN, if_neg hR,
    if_neg hT]
  simp only [hlen, Nat.one_ne_zero, if_false, emitChars]
  by_cases hcontrol : c < 0x1F
  · rw [if_pos hcontrol, List.append_nil]
    exact parseChars_escape fuel c (parseEscape_writeHex16 hc h0 t)
  · rw [if_neg hcontrol, parseChars]
    simp only [List.cons_append, List.nil_append, peek_cons, hlen]
    rw [if_neg hq, if_neg hb, if_neg (by grind), if_neg (by decide)]
    simp only [List.drop_succ_cons, List.drop_zero, List.take_succ_cons, List.take_zero]
    cases parseChars fuel t <;> rfl

/-- The unit separator is emitted as it is and refused. -/
theorem parseChars_emitAscii_none {c : UInt8} (h : c = 0 ∨ c = 0x1F) (fuel : ℕ) (t : List UInt8) :
    parseChars fuel (emitAscii c ++ t) = none := by
  cases fuel with
  | zero => rfl
  | succ fuel =>
    rcases h with rfl | rfl
    · have hnul : emitAscii 0 = 0x5C :: 0x75 :: writeHex16 (0 : UInt8).toUInt16 := by rfl
      rw [hnul, parseChars]
      simp only [List.cons_append, peek_cons, List.tail_cons, parseEscape, parseUnicodeEscape,
        parseHex16_writeHex16]
      rfl
    · rfl

/-- The decoder reads an emitted string back exactly if it is readable. -/
theorem settles_parseChars (s rest : List UInt8) :
    Settles (fun fuel ↦ parseChars fuel (emitChars 0 s ++ 0x22 :: rest)) (Readable s)
      (repair s, rest) := by
  induction s using scan_induction with
  | hnil =>
    refine (Settles.some ([], rest)).succ rfl (parseChars_quote · rest) |>.congr ?_ rfl
    simp [Readable]
  | hinvalid c s hlen ih =>
    have hc := le_of_utf8ValidateCz hlen
    have hreplacement : Utf8Char [0xEF, 0xBF, 0xBD] :=
      .three (by decide) (by decide) (by decide) (by decide) (by decide) (by decide)
    rw [emitChars_invalid hlen, List.append_assoc]
    refine (ih.map _).succ rfl (parseChars_char hreplacement (by decide) · _) |>.congr ?_ ?_
    · simp only [Readable, List.mem_cons]
      grind
    · rw [repair, repair, repairChars_invalid hlen]
  | hchar w s hw ih =>
    rw [repair, repairChars_char hw, ← repair]
    obtain ⟨a, rfl, ha⟩ | hlong := hw.ascii_or_long
    · rw [List.singleton_append, emitChars_ascii ha, List.append_assoc]
      by_cases hbad : a = 0 ∨ a = 0x1F
      · refine ⟨fun n ↦ ?_, fun h ↦ ?_, fun _ n ↦ parseChars_emitAscii_none hbad n _⟩
        · rw [parseChars_emitAscii_none hbad]
          exact below_none _
        · simp only [Readable, List.mem_cons] at h
          grind
      · rw [not_or] at hbad
        refine (ih.map _).succ rfl (parseChars_emitAscii ha hbad.1 hbad.2 · _) |>.congr ?_ rfl
        simp only [Readable, List.mem_cons]
        grind
    · have hascii (c : UInt8) (hc : c < 0x80) : c ∉ w := fun hmem ↦
        absurd (hw.le_of_mem hlong hmem) (UInt8.not_le.mpr hc)
      rw [emitChars_char hw hlong, List.append_assoc]
      refine (ih.map _).succ rfl (parseChars_char hw hlong · _) |>.congr ?_ rfl
      simp only [Readable, List.mem_append, hascii 0 (by decide), hascii 0x1F (by decide), false_or]

theorem settles_parseString (s rest : List UInt8) :
    Settles (fun fuel ↦ parseString fuel (emitString s ++ rest)) (Readable s) (repair s, rest) := by
  have h := settles_parseChars s rest
  simpa [parseString, emitString] using h

end Stored.Json
