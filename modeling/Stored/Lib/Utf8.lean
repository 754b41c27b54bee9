import Mathlib.Data.Char
import Mathlib.Tactic.SplitIfs

/-!
# UTF-8 byte sequences

`Utf8Char` is the syntax of one encoded character, by the length of the sequence. Every Unicode
scalar value encodes to such a sequence, so a text that encodes some list of characters is a
concatenation of them.
-/

namespace Stored.Utf8

/-- A byte 80..BF. -/
def Tail (c : UInt8) : Prop := 0x80 ≤ c ∧ c ≤ 0xBF

instance (c : UInt8) : Decidable (Tail c) := inferInstanceAs (Decidable (_ ∧ _))

/-- One encoded character. Overlong sequences, surrogates and values past U+10FFFF are excluded
by the bounds on the second byte. -/
inductive Utf8Char : List UInt8 → Prop
  | one {a : UInt8} (ha : a ≤ 0x7F) : Utf8Char [a]
  | two {a b : UInt8} (ha : 0xC2 ≤ a) (ha' : a ≤ 0xDF) (hb : Tail b) : Utf8Char [a, b]
  | three {a b c : UInt8} (ha : 0xE0 ≤ a) (ha' : a ≤ 0xEF) (hb : Tail b) (hc : Tail c)
      (hlong : a = 0xE0 → 0xA0 ≤ b) (hsurrogate : a = 0xED → b ≤ 0x9F) : Utf8Char [a, b, c]
  | four {a b c d : UInt8} (ha : 0xF0 ≤ a) (ha' : a ≤ 0xF4) (hb : Tail b) (hc : Tail c)
      (hd : Tail d) (hlong : a = 0xF0 → 0x90 ≤ b) (hrange : a = 0xF4 → b ≤ 0x8F) :
      Utf8Char [a, b, c, d]

/-- A character is one ASCII byte, or longer. -/
theorem Utf8Char.ascii_or_long {w : List UInt8} (h : Utf8Char w) :
    (∃ a, w = [a] ∧ a ≤ 0x7F) ∨ 1 < w.length := by
  cases h with
  | @one a ha => exact .inl ⟨a, rfl, ha⟩
  | two | three | four => exact .inr (by simp)

/-- No byte of a longer character is an ASCII byte. -/
theorem Utf8Char.le_of_mem {w : List UInt8} (h : Utf8Char w) (hlong : 1 < w.length) {c : UInt8}
    (hc : c ∈ w) : 0x80 ≤ c := by
  cases h with
  | one ha => exact absurd hlong (lt_irrefl 1)
  | two | three | four =>
    simp only [List.mem_cons, List.not_mem_nil, or_false] at hc
    grind [Tail]

theorem utf8Char_encodeChar (c : Char) : Utf8Char (String.utf8EncodeChar c) := by
  have hvalid : c.val.toNat < 0xD800 ∨ 0xDFFF < c.val.toNat ∧ c.val.toNat < 0x110000 := c.valid
  unfold String.utf8EncodeChar
  simp only
  generalize c.val.toNat = v at hvalid
  have hle (m k : ℕ) (hm : m < 256) (hk : k < 256) (h : m ≤ k) : UInt8.ofNat m ≤ UInt8.ofNat k := by
    rw [UInt8.le_iff_toNat_le, UInt8.toNat_ofNat', UInt8.toNat_ofNat']
    omega
  have htail (k : ℕ) : Tail (UInt8.ofNat (k % 64 + 128)) :=
    ⟨hle 0x80 _ (by omega) (by omega) (by omega), hle _ 0xBF (by omega) (by omega) (by omega)⟩
  have hinj (m k : ℕ) (hm : m < 256) (hk : k < 256) (h : UInt8.ofNat m = UInt8.ofNat k) : m = k := by
    have := congrArg UInt8.toNat h
    rw [UInt8.toNat_ofNat', UInt8.toNat_ofNat'] at this
    omega
  split_ifs with hone htwo hthree
  · exact .one (hle _ 0x7F (by omega) (by omega) hone)
  · exact .two (hle 0xC2 _ (by omega) (by omega) (by omega))
      (hle _ 0xDF (by omega) (by omega) (by omega)) (htail v)
  · refine .three (hle 0xE0 _ (by omega) (by omega) (by omega))
      (hle _ 0xEF (by omega) (by omega) (by omega)) (htail _) (htail v) ?_ ?_
    · intro h
      have hlead := hinj _ 0xE0 (by omega) (by omega) h
      exact hle 0xA0 _ (by omega) (by omega) (by omega)
    · intro h
      have hlead := hinj _ 0xED (by omega) (by omega) h
      exact hle _ 0x9F (by omega) (by omega) (by omega)
  · refine .four (hle 0xF0 _ (by omega) (by omega) (by omega))
      (hle _ 0xF4 (by omega) (by omega) (by omega)) (htail _) (htail _) (htail v) ?_ ?_
    · intro h
      have hlead := hinj _ 0xF0 (by omega) (by omega) h
      exact hle 0x90 _ (by omega) (by omega) (by omega)
    · intro h
      have hlead := hinj _ 0xF4 (by omega) (by omega) h
      exact hle _ 0x8F (by omega) (by omega) (by omega)

/-- The bytes that a scalar value is encoded to. -/
def encodeNat (v : ℕ) : List UInt8 :=
  if v ≤ 0x7F then [UInt8.ofNat v]
  else if v ≤ 0x7FF then [UInt8.ofNat (v / 64 % 32 + 0xC0), UInt8.ofNat (v % 64 + 0x80)]
  else if v ≤ 0xFFFF then
    [UInt8.ofNat (v / 4096 % 16 + 0xE0), UInt8.ofNat (v / 64 % 64 + 0x80),
      UInt8.ofNat (v % 64 + 0x80)]
  else
    [UInt8.ofNat (v / 262144 % 8 + 0xF0), UInt8.ofNat (v / 4096 % 64 + 0x80),
      UInt8.ofNat (v / 64 % 64 + 0x80), UInt8.ofNat (v % 64 + 0x80)]

theorem utf8EncodeChar_ofNatAux (v : ℕ) (h : v.isValidChar) :
    String.utf8EncodeChar (Char.ofNatAux v h) = encodeNat v := rfl

theorem ofNat_eq_of_eq_toNat {n : ℕ} {c : UInt8} (h : n = c.toNat) : UInt8.ofNat n = c := by
  rw [h, UInt8.ofNat_toNat]

theorem Utf8Char.exists_char {w : List UInt8} (h : Utf8Char w) :
    ∃ c : Char, String.utf8EncodeChar c = w := by
  cases h with
  | @one a ha =>
    have hle : a.toNat ≤ 0x7F := UInt8.le_iff_toNat_le.mp ha
    refine ⟨Char.ofNatAux a.toNat (.inl (by omega)), ?_⟩
    rw [utf8EncodeChar_ofNatAux, encodeNat, if_pos hle, UInt8.ofNat_toNat]
  | @two a b ha ha' hb =>
    simp only [Tail, UInt8.le_iff_toNat_le, UInt8.reduceToNat] at ha ha' hb
    refine ⟨Char.ofNatAux ((a.toNat - 0xC0) * 64 + (b.toNat - 0x80)) (.inl (by omega)), ?_⟩
    rw [utf8EncodeChar_ofNatAux, encodeNat, if_neg (by omega), if_pos (by omega),
      ofNat_eq_of_eq_toNat (c := a) (by omega), ofNat_eq_of_eq_toNat (c := b) (by omega)]
  | @three a b c ha ha' hb hc hlong hsurrogate =>
    have hlong' : a.toNat = 0xE0 → 0xA0 ≤ b.toNat := fun h ↦
      UInt8.le_iff_toNat_le.mp (hlong (UInt8.toNat_inj.mp h))
    have hsurrogate' : a.toNat = 0xED → b.toNat ≤ 0x9F := fun h ↦
      UInt8.le_iff_toNat_le.mp (hsurrogate (UInt8.toNat_inj.mp h))
    simp only [Tail, UInt8.le_iff_toNat_le, UInt8.reduceToNat] at ha ha' hb hc
    refine ⟨Char.ofNatAux ((a.toNat - 0xE0) * 4096 + (b.toNat - 0x80) * 64 + (c.toNat - 0x80))
      ?_, ?_⟩
    · unfold Nat.isValidChar
      omega
    · rw [utf8EncodeChar_ofNatAux, encodeNat, if_neg (by omega), if_neg (by omega),
        if_pos (by omega), ofNat_eq_of_eq_toNat (c := a) (by omega),
        ofNat_eq_of_eq_toNat (c := b) (by omega), ofNat_eq_of_eq_toNat (c := c) (by omega)]
  | @four a b c d ha ha' hb hc hd hlong hrange =>
    have hlong' : a.toNat = 0xF0 → 0x90 ≤ b.toNat := fun h ↦
      UInt8.le_iff_toNat_le.mp (hlong (UInt8.toNat_inj.mp h))
    have hrange' : a.toNat = 0xF4 → b.toNat ≤ 0x8F := fun h ↦
      UInt8.le_iff_toNat_le.mp (hrange (UInt8.toNat_inj.mp h))
    simp only [Tail, UInt8.le_iff_toNat_le, UInt8.reduceToNat] at ha ha' hb hc hd
    refine ⟨Char.ofNatAux ((a.toNat - 0xF0) * 262144 + (b.toNat - 0x80) * 4096 +
      (c.toNat - 0x80) * 64 + (d.toNat - 0x80)) ?_, ?_⟩
    · unfold Nat.isValidChar
      omega
    · rw [utf8EncodeChar_ofNatAux, encodeNat, if_neg (by omega), if_neg (by omega),
        if_neg (by omega), ofNat_eq_of_eq_toNat (c := a) (by omega),
        ofNat_eq_of_eq_toNat (c := b) (by omega), ofNat_eq_of_eq_toNat (c := c) (by omega),
        ofNat_eq_of_eq_toNat (c := d) (by omega)]

/-- The encoding of some list of Unicode scalar values. -/
def ValidUtf8 (s : List UInt8) : Prop := ∃ chars : List Char, s = chars.flatMap String.utf8EncodeChar

/-- An induction over a valid text, one encoded character at a time. -/
theorem ValidUtf8.induction {motive : List UInt8 → Prop} (hnil : motive [])
    (hcons : ∀ w s, Utf8Char w → ValidUtf8 s → motive s → motive (w ++ s)) {s : List UInt8}
    (h : ValidUtf8 s) : motive s := by
  obtain ⟨chars, rfl⟩ := h
  induction chars with
  | nil => exact hnil
  | cons c chars ih => exact hcons _ _ (utf8Char_encodeChar c) ⟨chars, rfl⟩ ih

theorem validUtf8_nil : ValidUtf8 [] := ⟨[], rfl⟩

theorem ValidUtf8.eq_nil_or_append {s : List UInt8} (h : ValidUtf8 s) :
    s = [] ∨ ∃ w rest, s = w ++ rest ∧ Utf8Char w ∧ ValidUtf8 rest := by
  obtain ⟨chars, rfl⟩ := h
  cases chars with
  | nil => exact .inl rfl
  | cons c chars => exact .inr ⟨_, _, rfl, utf8Char_encodeChar c, chars, rfl⟩

theorem Utf8Char.validUtf8_append {w s : List UInt8} (hw : Utf8Char w) (hs : ValidUtf8 s) :
    ValidUtf8 (w ++ s) := by
  obtain ⟨c, rfl⟩ := hw.exists_char
  obtain ⟨chars, rfl⟩ := hs
  exact ⟨c :: chars, rfl⟩

end Stored.Utf8
