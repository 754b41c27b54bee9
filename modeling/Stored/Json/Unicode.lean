import Stored.Lib.Bytes
import Stored.Lib.Utf8

/-!
# Unicode helpers of json.c

`utf8ValidateCz` accepts exactly the sequences of `Utf8.Utf8Char`, whatever follows them: the
terminating NUL is no continuation byte, so a sequence cut off by the end of the text is refused.
`writeHex16` and `parseHex16` are inverse on the escapes the encoder produces.
-/

namespace Stored.Json

open Bytes Utf8

/-- `((unsigned char) *s & 0xC0) != 0x80` fails. -/
def isTail (c : UInt8) : Bool := c &&& 0xC0 == 0x80

/-- The length of the UTF-8 character at the cursor, 0 where there is none. -/
def utf8ValidateCz (s : List UInt8) : ℕ :=
  let c := peek s
  let s := s.tail
  if c ≤ 0x7F then 1
  else if c ≤ 0xC1 then 0
  else if c ≤ 0xDF then
    if !isTail (peek s) then 0 else 2
  else if c ≤ 0xEF then
    if c == 0xE0 && peek s < 0xA0 then 0
    else if c == 0xED && peek s > 0x9F then 0
    else if !isTail (peek s) then 0
    else if !isTail (peek s.tail) then 0
    else 3
  else if c ≤ 0xF4 then
    if c == 0xF0 && peek s < 0x90 then 0
    else if c == 0xF4 && peek s > 0x8F then 0
    else if !isTail (peek s) then 0
    else if !isTail (peek s.tail) then 0
    else if !isTail (peek s.tail.tail) then 0
    else 4
  else 0

theorem isTail_iff (c : UInt8) : isTail c = true ↔ Tail c := by
  have h : ∀ n < 256, isTail (UInt8.ofNat n) = true ↔ Tail (UInt8.ofNat n) := by decide +kernel
  simpa using h c.toNat c.toNat_lt

theorem not_tail_zero : ¬Tail 0 := by decide

/-- A continuation byte under the cursor is a byte of the text, not its terminator. -/
theorem eq_cons_of_tail_peek {s : List UInt8} (h : Tail (peek s)) : s = peek s :: s.tail := by
  cases s with
  | nil => exact absurd h not_tail_zero
  | cons c s => rfl

/-- A character is accepted with its own length. -/
theorem utf8ValidateCz_append {w : List UInt8} (h : Utf8Char w) (rest : List UInt8) :
    utf8ValidateCz (w ++ rest) = w.length := by
  cases h with
  | one ha => simp [utf8ValidateCz, ha]
  | two ha ha' hb =>
    simp only [utf8ValidateCz, List.cons_append, List.nil_append, peek_cons, List.tail_cons,
      (isTail_iff _).mpr hb, List.length_cons, List.length_nil]
    grind
  | three ha ha' hb hc hlong hsurrogate =>
    simp only [utf8ValidateCz, List.cons_append, List.nil_append, peek_cons, List.tail_cons,
      (isTail_iff _).mpr hb, (isTail_iff _).mpr hc, List.length_cons, List.length_nil]
    grind
  | four ha ha' hb hc hd hlong hrange =>
    simp only [utf8ValidateCz, List.cons_append, List.nil_append, peek_cons, List.tail_cons,
      (isTail_iff _).mpr hb, (isTail_iff _).mpr hc, (isTail_iff _).mpr hd, List.length_cons,
      List.length_nil]
    grind

/-- What is accepted is one character, and the text goes on behind it. -/
theorem eq_append_of_utf8ValidateCz {s : List UInt8} (hs : s ≠ [])
    (h : utf8ValidateCz s ≠ 0) :
    ∃ w rest, s = w ++ rest ∧ Utf8Char w ∧ utf8ValidateCz s = w.length := by
  suffices hchar : ∃ w rest, s = w ++ rest ∧ Utf8Char w by
    obtain ⟨w, rest, rfl, hw⟩ := hchar
    exact ⟨w, rest, rfl, hw, utf8ValidateCz_append hw rest⟩
  obtain ⟨a, s, rfl⟩ := List.exists_cons_of_ne_nil hs
  simp only [utf8ValidateCz, peek_cons, List.tail_cons] at h
  by_cases h1 : a ≤ 0x7F
  · exact ⟨[a], s, rfl, .one h1⟩
  have h2 : 0xC2 ≤ a := by grind
  by_cases h3 : a ≤ 0xDF
  · have hb : Tail (peek s) := by grind [isTail_iff]
    rw [eq_cons_of_tail_peek hb]
    exact ⟨[a, peek s], s.tail, rfl, .two h2 h3 hb⟩
  have hb : Tail (peek s) := by grind [isTail_iff]
  have hc : Tail (peek s.tail) := by grind [isTail_iff]
  by_cases h4 : a ≤ 0xEF
  · rw [eq_cons_of_tail_peek hb, eq_cons_of_tail_peek hc]
    exact ⟨[a, peek s, peek s.tail], s.tail.tail, rfl,
      .three (by grind) h4 hb hc (by grind) (by grind)⟩
  have hd : Tail (peek s.tail.tail) := by grind [isTail_iff]
  rw [eq_cons_of_tail_peek hb, eq_cons_of_tail_peek hc, eq_cons_of_tail_peek hd]
  exact ⟨[a, peek s, peek s.tail, peek s.tail.tail], s.tail.tail.tail, rfl,
    .four (by grind) (by grind) hb hc hd (by grind) (by grind)⟩

/-- An induction along the scan of a text: a byte that starts no character is passed over alone,
a character as a whole. -/
theorem scan_induction {motive : List UInt8 → Prop} (hnil : motive [])
    (hinvalid : ∀ c s, utf8ValidateCz (c :: s) = 0 → motive s → motive (c :: s))
    (hchar : ∀ w s, Utf8Char w → motive s → motive (w ++ s)) (s : List UInt8) : motive s := by
  induction hn : s.length using Nat.strong_induction_on generalizing s with
  | _ n ih =>
    subst hn
    cases s with
    | nil => exact hnil
    | cons c s =>
      by_cases hlen : utf8ValidateCz (c :: s) = 0
      · exact hinvalid c s hlen (ih s.length (by simp) s rfl)
      · obtain ⟨w, rest, hs, hw, -⟩ := eq_append_of_utf8ValidateCz (List.cons_ne_nil c s) hlen
        rw [hs]
        refine hchar w rest hw (ih rest.length ?_ rest rfl)
        have hpos : 0 < w.length := by cases hw <;> simp
        rw [hs, List.length_append]
        omega

/-- `utf8_write_char` -/
def utf8WriteChar (unicode : UInt32) : List UInt8 :=
  if unicode ≤ 0x7F then [unicode.toUInt8]
  else if unicode ≤ 0x7FF then
    [(0xC0 : UInt8) ||| (unicode >>> 6).toUInt8, (0x80 : UInt8) ||| (unicode &&& 0x3F).toUInt8]
  else if unicode ≤ 0xFFFF then
    [(0xE0 : UInt8) ||| (unicode >>> 12).toUInt8, (0x80 : UInt8) ||| (unicode >>> 6 &&& 0x3F).toUInt8,
      (0x80 : UInt8) ||| (unicode &&& 0x3F).toUInt8]
  else
    [(0xF0 : UInt8) ||| (unicode >>> 18).toUInt8, (0x80 : UInt8) ||| (unicode >>> 12 &&& 0x3F).toUInt8,
      (0x80 : UInt8) ||| (unicode >>> 6 &&& 0x3F).toUInt8, (0x80 : UInt8) ||| (unicode &&& 0x3F).toUInt8]

/-- `from_surrogate_pair` -/
def fromSurrogatePair (uc lc : UInt16) : Option UInt32 :=
  if 0xD800 ≤ uc ∧ uc ≤ 0xDBFF ∧ 0xDC00 ≤ lc ∧ lc ≤ 0xDFFF then
    some ((0x10000 : UInt32) + (((uc.toUInt32 &&& 0x3FF) <<< 10) ||| (lc.toUInt32 &&& 0x3FF)))
  else none

/-- `hex[d & 0xF]` of `"0123456789ABCDEF"` -/
def hexDigit (d : UInt16) : UInt8 := (ascii "0123456789ABCDEF").getD (d &&& 0xF).toNat 0

/-- `write_hex16` -/
def writeHex16 (val : UInt16) : List UInt8 :=
  [hexDigit (val >>> 12), hexDigit (val >>> 8), hexDigit (val >>> 4), hexDigit val]

/-- One digit of `parse_hex16`, of either case. -/
def hexValue (c : UInt8) : Option UInt16 :=
  if 48 ≤ c ∧ c ≤ 57 then some (c - 48).toUInt16
  else if 65 ≤ c ∧ c ≤ 70 then some (c - 65 + 10).toUInt16
  else if 97 ≤ c ∧ c ≤ 102 then some (c - 97 + 10).toUInt16
  else none

/-- `parse_hex16`: exactly four digits, most significant first. -/
def parseHex16 (s : List UInt8) : Option (UInt16 × List UInt8) := do
  let a ← hexValue (peek s)
  let s := s.tail
  let b ← hexValue (peek s)
  let s := s.tail
  let c ← hexValue (peek s)
  let s := s.tail
  let d ← hexValue (peek s)
  some ((((a <<< 4 + b) <<< 4 + c) <<< 4) + d, s.tail)

theorem hexValue_hexDigit (d : UInt16) : hexValue (hexDigit d) = some (d &&& 0xF) := by
  have h : ∀ n < 16, hexValue ((ascii "0123456789ABCDEF").getD n 0) = some (UInt16.ofNat n) := by
    decide +kernel
  have hlt : (d &&& 0xF).toNat < 16 := by
    rw [UInt16.toNat_and]
    exact Nat.lt_of_le_of_lt Nat.and_le_right (by decide)
  simpa [hexDigit] using h _ hlt

/-- A byte written as `\u00XX` is read back as itself. -/
theorem parseHex16_writeHex16 (c : UInt8) (rest : List UInt8) :
    parseHex16 (writeHex16 c.toUInt16 ++ rest) = some (c.toUInt16, rest) := by
  have h : ∀ n < 256, let v := (UInt8.ofNat n).toUInt16
      ((((v >>> 12 &&& 0xF) <<< 4 + (v >>> 8 &&& 0xF)) <<< 4 + (v >>> 4 &&& 0xF)) <<< 4) +
        (v &&& 0xF) = v := by
    decide +kernel
  simpa [parseHex16, writeHex16, hexValue_hexDigit] using h c.toNat c.toNat_lt

/-- A code point below U+0080 is written back as the one byte it came from. -/
theorem utf8WriteChar_toUInt32 {c : UInt8} (hc : c ≤ 0x7F) : utf8WriteChar c.toUInt32 = [c] := by
  have h : ∀ n < 256, UInt8.ofNat n ≤ 0x7F →
      utf8WriteChar (UInt8.ofNat n).toUInt32 = [UInt8.ofNat n] := by
    decide +kernel
  simpa using h c.toNat c.toNat_lt (by simpa using hc)

end Stored.Json
