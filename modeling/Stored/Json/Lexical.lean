import Mathlib.Data.List.TakeWhile
import Stored.Json.RoundTrip

/-!
# The lexical grammar of JSON

White space, numbers and strings as relations between the bytes of a text and what they stand for.
A string is a sequence of Unicode scalar values, each written as itself in UTF-8 or as an escape.
The scanners of json.c consume exactly what the grammar derives.
-/

namespace Stored.Json

open Bytes Utf8

def Blank (s : List UInt8) : Prop := ∀ c ∈ s, c = 0x20 ∨ c = 0x09 ∨ c = 0x0A ∨ c = 0x0D

def Digits (s : List UInt8) : Prop := s ≠ [] ∧ ∀ c ∈ s, isDigit c = true

/-- No leading zero. -/
def Integer (s : List UInt8) : Prop := s = [0x30] ∨ Digits s ∧ peek s ≠ 0x30

def Fraction (s : List UInt8) : Prop := s = [] ∨ ∃ ds, Digits ds ∧ s = 0x2E :: ds

def Exponent (s : List UInt8) : Prop :=
  s = [] ∨ ∃ e sign ds, (e = 0x45 ∨ e = 0x65) ∧ (sign = [] ∨ sign = [0x2B] ∨ sign = [0x2D]) ∧
    Digits ds ∧ s = e :: (sign ++ ds)

def Number (s : List UInt8) : Prop :=
  ∃ sign int frac exp, (sign = [] ∨ sign = [0x2D]) ∧ Integer int ∧ Fraction frac ∧ Exponent exp ∧
    s = sign ++ (int ++ (frac ++ exp))

/-- A hexadecimal digit of either case. -/
def HexDigit (c : UInt8) (d : ℕ) : Prop :=
  c.toNat = 48 + d ∧ d < 10 ∨ c.toNat = 55 + d ∧ 10 ≤ d ∧ d < 16 ∨ c.toNat = 87 + d ∧ 10 ≤ d ∧ d < 16

/-- Four digits and the code unit that they stand for. -/
def CodeUnit (s : List UInt8) (v : ℕ) : Prop :=
  ∃ a b c d x y z w, s = [a, b, c, d] ∧ HexDigit a x ∧ HexDigit b y ∧ HexDigit c z ∧
    HexDigit d w ∧ v = ((x * 16 + y) * 16 + z) * 16 + w

/-- The escapes of one letter, with the code points that they stand for. -/
def shortEscapes : List (UInt8 × ℕ) :=
  [(0x22, 0x22), (0x5C, 0x5C), (0x2F, 0x2F), (0x62, 0x08), (0x66, 0x0C), (0x6E, 0x0A),
    (0x72, 0x0D), (0x74, 0x09)]

/-- What stands behind a backslash. The NUL character has no escape. -/
inductive Escape : List UInt8 → Char → Prop
  | short {b : UInt8} {c : Char} (h : (b, c.toNat) ∈ shortEscapes) : Escape [b] c
  | unit {s : List UInt8} {c : Char} (h : CodeUnit s c.toNat) (h0 : c.toNat ≠ 0) :
      Escape (0x75 :: s) c
  | pair {s s' : List UInt8} {hi lo : ℕ} {c : Char} (h : CodeUnit s hi) (h' : CodeUnit s' lo)
      (hhi : 0xD800 ≤ hi ∧ hi ≤ 0xDBFF) (hlo : 0xDC00 ≤ lo ∧ lo ≤ 0xDFFF)
      (hc : c.toNat = 0x10000 + (hi - 0xD800) * 0x400 + (lo - 0xDC00)) :
      Escape (0x75 :: (s ++ 0x5C :: 0x75 :: s')) c

/-- The bytes between the quotation marks. -/
inductive Chars : List UInt8 → List Char → Prop
  | nil : Chars [] []
  | plain {c : Char} {s : List UInt8} {cs : List Char} (hcontrol : 0x20 ≤ c.toNat)
      (hquote : c.toNat ≠ 0x22) (hslash : c.toNat ≠ 0x5C) (hs : Chars s cs) :
      Chars (String.utf8EncodeChar c ++ s) (c :: cs)
  | escape {w s : List UInt8} {c : Char} {cs : List Char} (hw : Escape w c) (hs : Chars s cs) :
      Chars (0x5C :: (w ++ s)) (c :: cs)

/-- The bytes of a C string that holds the characters. -/
def encode (cs : List Char) : List UInt8 := cs.flatMap String.utf8EncodeChar

theorem eq_cons_of_peek {s : List UInt8} {c : UInt8} (h : peek s = c) (hc : c ≠ 0) :
    s = c :: s.tail := by
  cases s with
  | nil => exact absurd h.symm hc
  | cons d s =>
    rw [← h]
    rfl

theorem expectLiteral_eq_some_iff {s str rest : List UInt8} (h0 : 0 ∉ str) :
    expectLiteral s str = some rest ↔ s = str ++ rest := by
  induction str generalizing s with
  | nil => exact Option.some_inj
  | cons c str ih =>
    rw [List.mem_cons, not_or] at h0
    rw [expectLiteral, List.cons_append]
    by_cases hpeek : peek s = c
    · rw [if_pos hpeek, ih h0.2]
      rw [eq_cons_of_peek hpeek (Ne.symm h0.1), List.tail_cons, List.cons_inj_right]
    · rw [if_neg hpeek]
      apply iff_of_false (Option.some_ne_none rest).symm
      rintro rfl
      exact hpeek rfl

theorem isSpace_iff (c : UInt8) :
    isSpace c = true ↔ c = 0x20 ∨ c = 0x09 ∨ c = 0x0A ∨ c = 0x0D := by
  unfold isSpace
  simp only [Bool.or_eq_true, beq_iff_eq]
  grind

theorem skipSpace_blank {ws : List UInt8} (hws : Blank ws) (s : List UInt8) :
    skipSpace (ws ++ s) = skipSpace s :=
  skipSpace_append (fun c hc ↦ (isSpace_iff c).mpr (hws c hc)) s

theorem exists_blank_append_skipSpace (s : List UInt8) : ∃ ws, Blank ws ∧ s = ws ++ skipSpace s := by
  refine ⟨s.takeWhile isSpace, ?_, List.takeWhile_append_dropWhile.symm⟩
  intro c hc
  exact (isSpace_iff c).mp (List.mem_takeWhile_imp hc)

theorem scanDigits_sound {s rest : List UInt8} (h : scanDigits s = some rest) :
    ∃ ds, Digits ds ∧ s = ds ++ rest := by
  unfold scanDigits at h
  split_ifs at h with hdigit
  refine ⟨s.takeWhile isDigit, ⟨?_, fun c hc ↦ List.mem_takeWhile_imp hc⟩, ?_⟩
  · cases s with
    | nil => exact absurd hdigit (by decide)
    | cons c s =>
      have hc : isDigit c = true := hdigit
      rw [List.takeWhile_cons_of_pos hc]
      exact List.cons_ne_nil _ _
  · rw [← Option.some.inj h]
    exact List.takeWhile_append_dropWhile.symm

theorem scanDigits_complete {ds rest : List UInt8} (hds : Digits ds)
    (hrest : isDigit (peek rest) = false) : scanDigits (ds ++ rest) = some rest :=
  scanDigits_append hds.2 hds.1 hrest

theorem scanInteger_sound {s rest : List UInt8} (h : scanInteger s = some rest) :
    ∃ sign int, (sign = [] ∨ sign = [0x2D]) ∧ Integer int ∧ s = sign ++ (int ++ rest) := by
  have hunsigned (t : List UInt8)
      (ht : (if peek t = 0x30 then some t.tail else scanDigits t) = some rest) :
      ∃ int, Integer int ∧ t = int ++ rest := by
    by_cases hzero : peek t = 0x30
    · rw [if_pos hzero] at ht
      refine ⟨[0x30], .inl rfl, ?_⟩
      rw [← Option.some.inj ht]
      exact eq_cons_of_peek hzero (by decide)
    · rw [if_neg hzero] at ht
      obtain ⟨ds, hds, heq⟩ := scanDigits_sound ht
      refine ⟨ds, .inr ⟨hds, ?_⟩, heq⟩
      cases ds with
      | nil => exact absurd rfl hds.1
      | cons c ds =>
        rw [heq] at hzero
        exact hzero
  unfold scanInteger at h
  by_cases hminus : peek s = 0x2D
  · rw [if_pos hminus] at h
    obtain ⟨int, hint, heq⟩ := hunsigned s.tail h
    refine ⟨[0x2D], int, .inr rfl, hint, ?_⟩
    rw [← heq]
    exact eq_cons_of_peek hminus (by decide)
  · rw [if_neg hminus] at h
    obtain ⟨int, hint, heq⟩ := hunsigned s h
    exact ⟨[], int, .inl rfl, hint, heq⟩

theorem scanFraction_sound {s rest : List UInt8} (h : scanFraction s = some rest) :
    ∃ frac, Fraction frac ∧ s = frac ++ rest := by
  unfold scanFraction at h
  split_ifs at h with hpoint
  · obtain ⟨ds, hds, heq⟩ := scanDigits_sound h
    refine ⟨0x2E :: ds, .inr ⟨ds, hds, rfl⟩, ?_⟩
    rw [List.cons_append, ← heq]
    exact eq_cons_of_peek hpoint (by decide)
  · exact ⟨[], .inl rfl, Option.some.inj h⟩

theorem scanExponent_sound {s rest : List UInt8} (h : scanExponent s = some rest) :
    ∃ exp, Exponent exp ∧ s = exp ++ rest := by
  unfold scanExponent at h
  simp only at h
  split_ifs at h with he hsign
  · obtain ⟨ds, hds, heq⟩ := scanDigits_sound h
    refine ⟨peek s :: peek s.tail :: ds, .inr ⟨peek s, [peek s.tail], ds, he, ?_, hds, rfl⟩, ?_⟩
    · rw [List.cons.injEq, List.cons.injEq]
      exact .inr (hsign.imp (⟨·, rfl⟩) (⟨·, rfl⟩))
    · rw [List.cons_append, List.cons_append, ← heq]
      have hs : s = peek s :: s.tail := eq_cons_of_peek rfl (by grind)
      have htail : s.tail = peek s.tail :: s.tail.tail := eq_cons_of_peek rfl (by grind)
      rwa [← htail]
  · obtain ⟨ds, hds, heq⟩ := scanDigits_sound h
    refine ⟨peek s :: ds, .inr ⟨peek s, [], ds, he, .inl rfl, hds, rfl⟩, ?_⟩
    rw [List.cons_append, ← heq]
    exact eq_cons_of_peek rfl (by grind)
  · exact ⟨[], .inl rfl, Option.some.inj h⟩

theorem scanNumber_sound {s rest : List UInt8} (h : scanNumber s = some rest) :
    ∃ w, Number w ∧ s = w ++ rest := by
  obtain ⟨s₂, h, hscan₂⟩ := Option.bind_eq_some_iff.mp h
  obtain ⟨s₁, hscan, hscan₁⟩ := Option.bind_eq_some_iff.mp h
  obtain ⟨sign, int, hsign, hint, rfl⟩ := scanInteger_sound hscan
  obtain ⟨frac, hfrac, rfl⟩ := scanFraction_sound hscan₁
  obtain ⟨exp, hexp, rfl⟩ := scanExponent_sound hscan₂
  refine ⟨_, ⟨sign, int, frac, exp, hsign, hint, hfrac, hexp, rfl⟩, ?_⟩
  simp only [List.append_assoc]

/-- What no number goes on with. -/
def NoNumber (rest : List UInt8) : Prop :=
  isDigit (peek rest) = false ∧ peek rest ≠ 0x2E ∧ peek rest ≠ 0x45 ∧ peek rest ≠ 0x65

instance (rest : List UInt8) : Decidable (NoNumber rest) := inferInstanceAs (Decidable (_ ∧ _))

theorem peek_digits {ds : List UInt8} (hds : Digits ds) (rest : List UInt8) :
    isDigit (peek (ds ++ rest)) = true := by
  cases ds with
  | nil => exact absurd rfl hds.1
  | cons c ds => exact hds.2 c List.mem_cons_self

theorem peek_integer {int : List UInt8} (hint : Integer int) (rest : List UInt8) :
    isDigit (peek (int ++ rest)) = true := by
  obtain rfl | ⟨hds, -⟩ := hint
  · rfl
  · exact peek_digits hds rest

theorem scanInteger_complete {sign int rest : List UInt8} (hsign : sign = [] ∨ sign = [0x2D])
    (hint : Integer int) (hrest : isDigit (peek rest) = false) :
    scanInteger (sign ++ (int ++ rest)) = some rest := by
  have hunsigned : (if peek (int ++ rest) = 0x30 then some (int ++ rest).tail
      else scanDigits (int ++ rest)) = some rest := by
    obtain rfl | ⟨hds, hzero⟩ := hint
    · rfl
    · have hpeek : peek (int ++ rest) = peek int := by
        cases int with
        | nil => exact absurd rfl hds.1
        | cons c int => rfl
      rw [if_neg (by rwa [hpeek]), scanDigits_complete hds hrest]
  have hminus : peek (int ++ rest) ≠ 0x2D := by
    intro hpeek
    have hdigit := peek_integer hint rest
    rw [hpeek] at hdigit
    exact absurd hdigit (by decide)
  obtain rfl | rfl := hsign
  · rw [scanInteger, List.nil_append, if_neg hminus]
    exact hunsigned
  · exact hunsigned

theorem scanFraction_complete {frac rest : List UInt8} (hfrac : Fraction frac)
    (hrest : isDigit (peek rest) = false ∧ peek rest ≠ 0x2E) :
    scanFraction (frac ++ rest) = some rest := by
  obtain rfl | ⟨ds, hds, rfl⟩ := hfrac
  · exact if_neg hrest.2
  · exact scanDigits_complete hds hrest.1

theorem scanExponent_complete {exp rest : List UInt8} (hexp : Exponent exp)
    (hrest : NoNumber rest) : scanExponent (exp ++ rest) = some rest := by
  obtain ⟨hdigit, -, hE, he⟩ := hrest
  obtain rfl | ⟨e, sign, ds, hletter, hsign, hds, rfl⟩ := hexp
  · exact if_neg (not_or.mpr ⟨hE, he⟩)
  · have hdigits := scanDigits_complete hds hdigit
    rw [List.cons_append, scanExponent, peek_cons, if_pos hletter, List.tail_cons]
    obtain rfl | rfl | rfl := hsign
    · have hpeek := peek_digits hds rest
      have hunsigned : ¬(peek (ds ++ rest) = 0x2B ∨ peek (ds ++ rest) = 0x2D) := by
        rintro (hplus | hminus)
        · rw [hplus] at hpeek
          exact absurd hpeek (by decide)
        · rw [hminus] at hpeek
          exact absurd hpeek (by decide)
      simpa only [List.nil_append, if_neg hunsigned] using hdigits
    · exact hdigits
    · exact hdigits

theorem peek_exponent {exp rest : List UInt8} (hexp : Exponent exp) (hrest : NoNumber rest) :
    isDigit (peek (exp ++ rest)) = false ∧ peek (exp ++ rest) ≠ 0x2E := by
  obtain rfl | ⟨e, sign, ds, rfl | rfl, -, -, rfl⟩ := hexp
  · exact ⟨hrest.1, hrest.2.1⟩
  · exact ⟨rfl, (by decide : (0x45 : UInt8) ≠ 0x2E)⟩
  · exact ⟨rfl, (by decide : (0x65 : UInt8) ≠ 0x2E)⟩

theorem isDigit_peek_fraction {frac exp rest : List UInt8} (hfrac : Fraction frac)
    (hexp : Exponent exp) (hrest : NoNumber rest) :
    isDigit (peek (frac ++ (exp ++ rest))) = false := by
  obtain rfl | ⟨ds, -, rfl⟩ := hfrac
  · exact (peek_exponent hexp hrest).1
  · rfl

/-- Behind a number the scanner stops where no number goes on. -/
theorem scanNumber_complete {w rest : List UInt8} (hw : Number w) (hrest : NoNumber rest) :
    scanNumber (w ++ rest) = some rest := by
  obtain ⟨sign, int, frac, exp, hsign, hint, hfrac, hexp, rfl⟩ := hw
  simp only [List.append_assoc]
  rw [scanNumber, scanInteger_complete hsign hint (isDigit_peek_fraction hfrac hexp hrest),
    Option.bind_some, scanFraction_complete hfrac (peek_exponent hexp hrest), Option.bind_some,
    scanExponent_complete hexp hrest]

instance (c : UInt8) (d : ℕ) : Decidable (HexDigit c d) := inferInstanceAs (Decidable (_ ∨ _))

theorem HexDigit.lt {c : UInt8} {d : ℕ} (h : HexDigit c d) : d < 16 := by
  unfold HexDigit at h
  omega

theorem hexValue_sound {c : UInt8} {d : UInt16} (h : hexValue c = some d) : HexDigit c d.toNat := by
  have hall : ∀ n < 256, (hexValue (UInt8.ofNat n)).all
      fun d ↦ decide (HexDigit (UInt8.ofNat n) d.toNat) := by
    decide +kernel
  have hc := hall c.toNat c.toNat_lt
  rw [UInt8.ofNat_toNat, h] at hc
  exact of_decide_eq_true hc

theorem hexValue_complete {c : UInt8} {d : ℕ} (h : HexDigit c d) :
    hexValue c = some (UInt16.ofNat d) := by
  have hall : ∀ n < 256, ∀ d < 16, HexDigit (UInt8.ofNat n) d →
      hexValue (UInt8.ofNat n) = some (UInt16.ofNat d) := by
    decide +kernel
  have hc := hall c.toNat c.toNat_lt d h.lt
  rw [UInt8.ofNat_toNat] at hc
  exact hc h

theorem hexStep_toNat (a b : UInt16) :
    (a <<< 4 + b).toNat = (a.toNat * 16 + b.toNat) % 65536 := by
  rw [UInt16.toNat_add, UInt16.toNat_shiftLeft, Nat.shiftLeft_eq]
  change (a.toNat * 16 % 65536 + b.toNat) % 65536 = _
  omega

theorem parseHex16_sound {s rest : List UInt8} {v : UInt16} (h : parseHex16 s = some (v, rest)) :
    ∃ w, CodeUnit w v.toNat ∧ s = w ++ rest := by
  simp only [parseHex16, Option.bind_eq_bind, Option.bind_eq_some_iff] at h
  obtain ⟨a, ha, b, hb, c, hc, d, hd, h⟩ := h
  obtain ⟨rfl, rfl⟩ := Prod.mk.inj (Option.some.inj h)
  have hdigits := And.intro (hexValue_sound ha).lt (And.intro (hexValue_sound hb).lt
    (And.intro (hexValue_sound hc).lt (hexValue_sound hd).lt))
  refine ⟨[_, _, _, _], ⟨_, _, _, _, _, _, _, _, rfl, hexValue_sound ha, hexValue_sound hb,
    hexValue_sound hc, hexValue_sound hd, ?_⟩, ?_⟩
  · rw [hexStep_toNat, hexStep_toNat, hexStep_toNat]
    omega
  · calc
      s = peek s :: s.tail := eq_cons_of_peek rfl (ne_zero_of_hexValue ha)
      _ = peek s :: peek s.tail :: s.tail.tail := by
        rw [← eq_cons_of_peek rfl (ne_zero_of_hexValue hb)]
      _ = peek s :: peek s.tail :: peek s.tail.tail :: s.tail.tail.tail := by
        rw [← eq_cons_of_peek rfl (ne_zero_of_hexValue hc)]
      _ = _ := by
        rw [List.cons_append, List.cons_append, List.cons_append, List.cons_append, List.nil_append,
          ← eq_cons_of_peek (s := s.tail.tail.tail) rfl (ne_zero_of_hexValue hd)]

theorem parseHex16_complete {w rest : List UInt8} {v : ℕ} (h : CodeUnit w v) :
    parseHex16 (w ++ rest) = some (UInt16.ofNat v, rest) := by
  obtain ⟨a, b, c, d, x, y, z, w, rfl, ha, hb, hc, hd, rfl⟩ := h
  have hdigits := And.intro ha.lt (And.intro hb.lt (And.intro hc.lt hd.lt))
  simp only [parseHex16, List.cons_append, List.nil_append, peek_cons, List.tail_cons,
    hexValue_complete ha, hexValue_complete hb, hexValue_complete hc, hexValue_complete hd,
    Option.bind_eq_bind, Option.bind_some, Option.some.injEq, Prod.mk.injEq, and_true]
  apply UInt16.toNat_inj.mp
  rw [hexStep_toNat, hexStep_toNat, hexStep_toNat]
  simp only [UInt16.toNat_ofNat']
  omega

theorem CodeUnit.lt {s : List UInt8} {v : ℕ} (h : CodeUnit s v) : v < 65536 := by
  obtain ⟨a, b, c, d, x, y, z, w, -, ha, hb, hc, hd, rfl⟩ := h
  have hdigits := And.intro ha.lt (And.intro hb.lt (And.intro hc.lt hd.lt))
  omega

theorem fromSurrogatePair_eq_some_iff {uc lc : UInt16} {u : UInt32} :
    fromSurrogatePair uc lc = some u ↔
      (0xD800 ≤ uc.toNat ∧ uc.toNat ≤ 0xDBFF) ∧ (0xDC00 ≤ lc.toNat ∧ lc.toNat ≤ 0xDFFF) ∧
        u.toNat = 0x10000 + (uc.toNat - 0xD800) * 0x400 + (lc.toNat - 0xDC00) := by
  have hlow (x : UInt16) : (x.toUInt32 &&& 0x3FF).toNat = x.toNat % 1024 := by
    rw [UInt32.toNat_and, UInt16.toNat_toUInt32]
    exact Nat.and_two_pow_sub_one_eq_mod x.toNat 10
  have hvalue : ((0x10000 : UInt32) + (((uc.toUInt32 &&& 0x3FF) <<< 10) |||
      (lc.toUInt32 &&& 0x3FF))).toNat = 0x10000 + uc.toNat % 1024 * 1024 + lc.toNat % 1024 := by
    rw [UInt32.toNat_add, UInt32.toNat_or, UInt32.toNat_shiftLeft, hlow, hlow]
    change (0x10000 + ((uc.toNat % 1024) <<< 10 % 4294967296 ||| lc.toNat % 1024)) % 4294967296 = _
    have hlt : lc.toNat % 1024 < 2 ^ 10 := Nat.mod_lt _ (by decide)
    have hshift : (uc.toNat % 1024) <<< 10 = uc.toNat % 1024 * 1024 := Nat.shiftLeft_eq _ _
    have hor := Nat.shiftLeft_add_eq_or_of_lt hlt (uc.toNat % 1024)
    rw [Nat.mod_eq_of_lt (by omega : (uc.toNat % 1024) <<< 10 < 4294967296), ← hor, hshift]
    omega
  unfold fromSurrogatePair
  simp only [UInt16.le_iff_toNat_le, UInt16.reduceToNat]
  by_cases hpair : 0xD800 ≤ uc.toNat ∧ uc.toNat ≤ 0xDBFF ∧ 0xDC00 ≤ lc.toNat ∧ lc.toNat ≤ 0xDFFF
  · rw [if_pos hpair, Option.some.injEq, ← UInt32.toNat_inj, hvalue]
    omega
  · rw [if_neg hpair]
    apply iff_of_false (Option.some_ne_none u).symm
    rintro ⟨⟨h₁, h₂⟩, ⟨h₃, h₄⟩, -⟩
    exact hpair ⟨h₁, h₂, h₃, h₄⟩

theorem utf8EncodeChar_eq (c : Char) : String.utf8EncodeChar c = encodeNat c.toNat := rfl

theorem isValidChar_of_codeUnit {n : ℕ} (hlt : n < 65536) (h : ¬(0xD800 ≤ n ∧ n ≤ 0xDFFF)) :
    n.isValidChar := by
  unfold Nat.isValidChar
  omega

/-- `utf8_write_char` writes the encoding of a code point. -/
theorem utf8WriteChar_eq {u : UInt32} (h : u.toNat < 0x110000) :
    utf8WriteChar u = encodeNat u.toNat := by
  have htail : ∀ n < 64, (0x80 : UInt8) ||| UInt8.ofNat n = UInt8.ofNat (n + 0x80) := by
    decide +kernel
  have htwo : ∀ n < 32, (0xC0 : UInt8) ||| UInt8.ofNat n = UInt8.ofNat (n + 0xC0) := by
    decide +kernel
  have hthree : ∀ n < 16, (0xE0 : UInt8) ||| UInt8.ofNat n = UInt8.ofNat (n + 0xE0) := by
    decide +kernel
  have hfour : ∀ n < 8, (0xF0 : UInt8) ||| UInt8.ofNat n = UInt8.ofNat (n + 0xF0) := by
    decide +kernel
  have hbyte (x : UInt32) : x.toUInt8 = UInt8.ofNat x.toNat := rfl
  have hlow (x : UInt32) : (x &&& 0x3F).toNat = x.toNat % 64 := by
    rw [UInt32.toNat_and]
    exact Nat.and_two_pow_sub_one_eq_mod x.toNat 6
  have h6 : (u >>> 6).toNat = u.toNat / 64 := by
    rw [UInt32.toNat_shiftRight]
    exact Nat.shiftRight_eq_div_pow u.toNat 6
  have h12 : (u >>> 12).toNat = u.toNat / 4096 := by
    rw [UInt32.toNat_shiftRight]
    exact Nat.shiftRight_eq_div_pow u.toNat 12
  have h18 : (u >>> 18).toNat = u.toNat / 262144 := by
    rw [UInt32.toNat_shiftRight]
    exact Nat.shiftRight_eq_div_pow u.toNat 18
  unfold utf8WriteChar encodeNat
  simp only [UInt32.le_iff_toNat_le, UInt32.reduceToNat, hbyte, hlow, h6, h12, h18]
  by_cases hone : u.toNat ≤ 0x7F
  · rw [if_pos hone, if_pos hone]
  rw [if_neg hone, if_neg hone]
  by_cases h2 : u.toNat ≤ 0x7FF
  · rw [if_pos h2, if_pos h2, htwo _ (by omega), htail _ (by omega),
      Nat.mod_eq_of_lt (by omega : u.toNat / 64 < 32)]
  rw [if_neg h2, if_neg h2]
  by_cases h3 : u.toNat ≤ 0xFFFF
  · rw [if_pos h3, if_pos h3, hthree _ (by omega), htail _ (by omega), htail _ (by omega),
      Nat.mod_eq_of_lt (by omega : u.toNat / 4096 < 16)]
  rw [if_neg h3, if_neg h3, hfour _ (by omega), htail _ (by omega), htail _ (by omega),
    htail _ (by omega), Nat.mod_eq_of_lt (by omega : u.toNat / 262144 < 8)]

/-- The first byte of a character is its code point, or past the ASCII range. -/
theorem peek_utf8EncodeChar (c : Char) (s : List UInt8) :
    (c.toNat ≤ 0x7F ∧ peek (String.utf8EncodeChar c ++ s) = UInt8.ofNat c.toNat) ∨
      (0x7F < c.toNat ∧ 0x80 ≤ peek (String.utf8EncodeChar c ++ s)) := by
  by_cases hascii : c.toNat ≤ 0x7F
  · rw [utf8EncodeChar_eq, encodeNat, if_pos hascii]
    exact .inl ⟨hascii, rfl⟩
  · have hlong : 1 < (String.utf8EncodeChar c).length := by
      rw [utf8EncodeChar_eq, encodeNat, if_neg hascii]
      split_ifs <;> simp
    refine .inr ⟨Nat.lt_of_not_le hascii, ?_⟩
    apply (utf8Char_encodeChar c).le_of_mem hlong
    cases hw : String.utf8EncodeChar c with
    | nil =>
      rw [hw] at hlong
      exact absurd hlong (by decide)
    | cons b w => exact List.mem_cons_self

theorem parseUnicodeEscape_sound {s out rest : List UInt8}
    (h : parseUnicodeEscape s = some (out, rest)) :
    ∃ w c, Escape (0x75 :: w) c ∧ s = w ++ rest ∧ out = String.utf8EncodeChar c := by
  simp only [parseUnicodeEscape, Option.bind_eq_bind, Option.bind_eq_some_iff] at h
  obtain ⟨⟨uc, s'⟩, huc, h⟩ := h
  obtain ⟨w, hw, rfl⟩ := parseHex16_sound huc
  simp only [UInt16.le_iff_toNat_le, UInt16.reduceToNat] at h
  by_cases hsurrogate : 0xD800 ≤ uc.toNat ∧ uc.toNat ≤ 0xDFFF
  · rw [if_pos hsurrogate] at h
    split_ifs at h with hslash hu
    simp only [Option.bind_eq_some_iff, Option.some.injEq, Prod.mk.injEq] at h
    obtain ⟨⟨lc, s''⟩, hlc, u, hpair, rfl, rfl⟩ := h
    obtain ⟨w', hw', heq⟩ := parseHex16_sound hlc
    obtain ⟨hhi, hlo, hu'⟩ := fromSurrogatePair_eq_some_iff.mp hpair
    have hvalid : u.toNat.isValidChar := by
      unfold Nat.isValidChar
      omega
    refine ⟨w ++ 0x5C :: 0x75 :: w', Char.ofNatAux u.toNat hvalid, .pair hw hw' hhi hlo hu', ?_,
      ?_⟩
    · rw [List.append_assoc, List.cons_append, List.cons_append, ← heq,
        ← eq_cons_of_peek (s := s'.tail) (not_not.mp hu) (by decide),
        ← eq_cons_of_peek (not_not.mp hslash) (by decide)]
    · rw [utf8EncodeChar_ofNatAux]
      exact utf8WriteChar_eq (by omega)
  · rw [if_neg hsurrogate] at h
    split_ifs at h with h0
    obtain ⟨rfl, rfl⟩ := Prod.mk.inj (Option.some.inj h)
    have hvalid := isValidChar_of_codeUnit hw.lt hsurrogate
    refine ⟨w, Char.ofNatAux uc.toNat hvalid, .unit hw ?_, rfl, ?_⟩
    · exact fun hnul ↦ h0 (UInt16.toNat_inj.mp hnul)
    · rw [utf8EncodeChar_ofNatAux, utf8WriteChar_eq]
      · rw [UInt16.toNat_toUInt32]
      · rw [UInt16.toNat_toUInt32]
        exact hw.lt.trans (by decide)

theorem utf8EncodeChar_of_le {c : Char} (h : c.toNat ≤ 0x7F) :
    String.utf8EncodeChar c = [UInt8.ofNat c.toNat] := by
  rw [utf8EncodeChar_eq, encodeNat, if_pos h]

/-- The letters of the short escapes, as the scanner goes through them. -/
theorem parseEscape_of_short {b : UInt8} {n : ℕ} (h : (b, n) ∈ shortEscapes)
    (rest : List UInt8) : parseEscape (b :: rest) = some ([UInt8.ofNat n], rest) := by
  simp only [shortEscapes, List.mem_cons, Prod.mk.injEq, List.not_mem_nil, or_false] at h
  rcases h with ⟨rfl, rfl⟩ | ⟨rfl, rfl⟩ | ⟨rfl, rfl⟩ | ⟨rfl, rfl⟩ | ⟨rfl, rfl⟩ | ⟨rfl, rfl⟩ |
    ⟨rfl, rfl⟩ | ⟨rfl, rfl⟩ <;> rfl

theorem parseEscape_cases {s out rest : List UInt8} (h : parseEscape s = some (out, rest)) :
    (∃ b n, (b, n) ∈ shortEscapes ∧ s = b :: rest ∧ out = [UInt8.ofNat n]) ∨
      (peek s = 0x75 ∧ parseUnicodeEscape s.tail = some (out, rest)) := by
  have hshort {b : UInt8} {n : ℕ} (hpeek : peek s = b) (hmem : (b, n) ∈ shortEscapes) (hb : b ≠ 0)
      (heq : some ([UInt8.ofNat n], s.tail) = some (out, rest)) :
      ∃ b n, (b, n) ∈ shortEscapes ∧ s = b :: rest ∧ out = [UInt8.ofNat n] := by
    obtain ⟨rfl, rfl⟩ := Prod.mk.inj (Option.some.inj heq)
    exact ⟨b, n, hmem, eq_cons_of_peek hpeek hb, rfl⟩
  unfold parseEscape at h
  simp only at h
  split_ifs at h with h1 h2 h3 h4 h5 h6 h7
  · rcases h1 with hpeek | hpeek | hpeek <;> rw [hpeek] at h
    · exact .inl (hshort (n := 0x22) hpeek (by decide) (by decide) h)
    · exact .inl (hshort (n := 0x5C) hpeek (by decide) (by decide) h)
    · exact .inl (hshort (n := 0x2F) hpeek (by decide) (by decide) h)
  · exact .inl (hshort (n := 0x08) h2 (by decide) (by decide) h)
  · exact .inl (hshort (n := 0x0C) h3 (by decide) (by decide) h)
  · exact .inl (hshort (n := 0x0A) h4 (by decide) (by decide) h)
  · exact .inl (hshort (n := 0x0D) h5 (by decide) (by decide) h)
  · exact .inl (hshort (n := 0x09) h6 (by decide) (by decide) h)
  · exact .inr ⟨h7, h⟩

theorem parseEscape_sound {s out rest : List UInt8} (h : parseEscape s = some (out, rest)) :
    ∃ w c, Escape w c ∧ s = w ++ rest ∧ out = String.utf8EncodeChar c := by
  obtain ⟨b, n, hmem, rfl, rfl⟩ | ⟨hu, hunicode⟩ := parseEscape_cases h
  · have hle : n ≤ 0x7F := by
      have hall : ∀ e ∈ shortEscapes, e.2 ≤ 0x7F := by decide
      exact hall _ hmem
    have hvalid : n.isValidChar := .inl (by omega)
    exact ⟨[b], Char.ofNatAux n hvalid, .short hmem, rfl,
      (utf8EncodeChar_of_le (c := Char.ofNatAux n hvalid) hle).symm⟩
  · obtain ⟨w, c, hescape, hs, hout⟩ := parseUnicodeEscape_sound hunicode
    refine ⟨0x75 :: w, c, hescape, ?_, hout⟩
    rw [List.cons_append, ← hs]
    exact eq_cons_of_peek hu (by decide)

theorem parseEscape_complete {w : List UInt8} {c : Char} (h : Escape w c) (rest : List UInt8) :
    parseEscape (w ++ rest) = some (String.utf8EncodeChar c, rest) := by
  have hunicode (s : List UInt8) : parseEscape (0x75 :: s) = parseUnicodeEscape s := rfl
  have hvalid : c.toNat < 0xD800 ∨ 0xDFFF < c.toNat ∧ c.toNat < 0x110000 := c.valid
  have hunit {n : ℕ} (hn : n < 65536) : (UInt16.ofNat n).toNat = n := Nat.mod_eq_of_lt hn
  cases h with
  | short hmem =>
    have hle : c.toNat ≤ 0x7F := by
      have hall : ∀ e ∈ shortEscapes, e.2 ≤ 0x7F := by decide
      exact hall _ hmem
    rw [utf8EncodeChar_of_le hle]
    exact parseEscape_of_short hmem rest
  | unit hs h0 =>
    rw [List.cons_append, hunicode, parseUnicodeEscape, parseHex16_complete hs]
    simp only [Option.bind_eq_bind, Option.bind_some, UInt16.le_iff_toNat_le, UInt16.reduceToNat,
      hunit hs.lt]
    rw [if_neg (by omega), if_neg, utf8WriteChar_eq]
    · rw [UInt16.toNat_toUInt32, hunit hs.lt]
      rfl
    · rw [UInt16.toNat_toUInt32, hunit hs.lt]
      omega
    · intro hnul
      apply h0
      rw [← hunit hs.lt, hnul]
      rfl
  | @pair s s' hi lo _ hs hs' hhi hlo hc =>
    obtain ⟨u, hu⟩ : ∃ u, fromSurrogatePair (UInt16.ofNat hi) (UInt16.ofNat lo) = some u := by
      rw [fromSurrogatePair, if_pos]
      · exact ⟨_, rfl⟩
      · simp only [UInt16.le_iff_toNat_le, UInt16.reduceToNat, hunit hs.lt, hunit hs'.lt]
        omega
    have hvalue := (fromSurrogatePair_eq_some_iff.mp hu).2.2
    rw [hunit hs.lt, hunit hs'.lt, ← hc] at hvalue
    rw [List.cons_append, hunicode, parseUnicodeEscape, List.append_assoc, parseHex16_complete hs]
    simp only [Option.bind_eq_bind, Option.bind_some, UInt16.le_iff_toNat_le, UInt16.reduceToNat,
      hunit hs.lt, List.cons_append, peek_cons, List.tail_cons, ne_eq, not_true_eq_false, if_false]
    rw [if_pos (by omega), parseHex16_complete hs', Option.bind_some, hu, Option.bind_some,
      utf8WriteChar_eq (by omega), hvalue]
    rfl

theorem parseChars_sound {fuel : ℕ} {s str rest : List UInt8}
    (h : parseChars fuel s = some (str, rest)) :
    ∃ w cs, Chars w cs ∧ s = w ++ 0x22 :: rest ∧ str = encode cs := by
  induction fuel generalizing s str rest with
  | zero => exact nomatch h
  | succ fuel ih =>
    rw [parseChars] at h
    simp only at h
    split_ifs at h with hquote hslash hcontrol hlen
    · obtain ⟨rfl, rfl⟩ := Prod.mk.inj (Option.some.inj h)
      exact ⟨[], [], .nil, eq_cons_of_peek hquote (by decide), rfl⟩
    · simp only [Option.bind_eq_bind, Option.bind_eq_some_iff] at h
      obtain ⟨⟨b, s'⟩, hescape, ⟨str', rest'⟩, hrest, h⟩ := h
      obtain ⟨rfl, rfl⟩ := Prod.mk.inj (Option.some.inj h)
      obtain ⟨e, c, he, hs, rfl⟩ := parseEscape_sound hescape
      obtain ⟨w, cs, hw, rfl, rfl⟩ := ih hrest
      refine ⟨0x5C :: (e ++ w), c :: cs, .escape he hw, ?_, rfl⟩
      rw [List.cons_append, List.append_assoc, ← hs]
      exact eq_cons_of_peek hslash (by decide)
    · simp only [Option.bind_eq_bind, Option.bind_eq_some_iff] at h
      obtain ⟨⟨str', rest'⟩, hrest, h⟩ := h
      obtain ⟨rfl, rfl⟩ := Prod.mk.inj (Option.some.inj h)
      have hs : s ≠ [] := by
        rintro rfl
        exact hcontrol (by decide)
      obtain ⟨u, t, rfl, hu, hlen'⟩ := eq_append_of_utf8ValidateCz hs hlen
      obtain ⟨c, rfl⟩ := hu.exists_char
      rw [hlen', List.drop_left] at hrest
      obtain ⟨w, cs, hw, rfl, rfl⟩ := ih hrest
      refine ⟨String.utf8EncodeChar c ++ w, c :: cs, .plain ?_ ?_ ?_ hw, ?_, ?_⟩
      · by_contra hlt
        obtain ⟨-, hpeek⟩ | ⟨hlong, -⟩ := peek_utf8EncodeChar c (w ++ 0x22 :: rest')
        · rw [hpeek] at hcontrol
          apply hcontrol
          rw [UInt8.le_iff_toNat_le, UInt8.toNat_ofNat']
          simp only [UInt8.reduceToNat]
          omega
        · omega
      · intro hc
        obtain ⟨-, hpeek⟩ | ⟨hlong, -⟩ := peek_utf8EncodeChar c (w ++ 0x22 :: rest')
        · rw [hc] at hpeek
          exact hquote hpeek
        · omega
      · intro hc
        obtain ⟨-, hpeek⟩ | ⟨hlong, -⟩ := peek_utf8EncodeChar c (w ++ 0x22 :: rest')
        · rw [hc] at hpeek
          exact hslash hpeek
        · omega
      · rw [List.append_assoc]
      · rw [hlen', List.take_left]
        rfl

theorem parseChars_complete {w : List UInt8} {cs : List Char} (h : Chars w cs)
    (rest : List UInt8) {fuel : ℕ} (hfuel : cs.length < fuel) :
    parseChars fuel (w ++ 0x22 :: rest) = some (encode cs, rest) := by
  induction h generalizing fuel with
  | nil =>
    cases fuel with
    | zero => exact absurd hfuel (Nat.not_lt_zero _)
    | succ fuel => exact parseChars_quote fuel rest
  | @plain c s cs hcontrol hquote hslash hs ih =>
    obtain ⟨fuel, rfl⟩ := Nat.exists_eq_add_of_le' (Nat.one_le_of_lt hfuel)
    have hrest := ih (Nat.lt_of_succ_lt_succ hfuel)
    have hlen := utf8ValidateCz_append (utf8Char_encodeChar c) (s ++ 0x22 :: rest)
    have hpos : (String.utf8EncodeChar c).length ≠ 0 := by
      intro hzero
      have hnil := utf8Char_encodeChar c
      rw [List.length_eq_zero_iff.mp hzero] at hnil
      exact nomatch hnil
    have hbyte : 0x20 ≤ peek (String.utf8EncodeChar c ++ (s ++ 0x22 :: rest)) ∧
        peek (String.utf8EncodeChar c ++ (s ++ 0x22 :: rest)) ≠ 0x22 ∧
        peek (String.utf8EncodeChar c ++ (s ++ 0x22 :: rest)) ≠ 0x5C := by
      obtain ⟨hle, hpeek⟩ | ⟨-, hlong⟩ := peek_utf8EncodeChar c (s ++ 0x22 :: rest)
      · have hto : (UInt8.ofNat c.toNat).toNat = c.toNat := Nat.mod_eq_of_lt (by omega)
        rw [hpeek, UInt8.le_iff_toNat_le, Ne, Ne, ← UInt8.toNat_inj, ← UInt8.toNat_inj, hto]
        exact ⟨hcontrol, hquote, hslash⟩
      · grind
    rw [List.append_assoc, parseChars]
    simp only [hlen]
    rw [if_neg hbyte.2.1, if_neg hbyte.2.2, if_neg (by grind), if_neg hpos, List.drop_left,
      List.take_left, hrest]
    rfl
  | @escape u s c cs hu hs ih =>
    obtain ⟨fuel, rfl⟩ := Nat.exists_eq_add_of_le' (Nat.one_le_of_lt hfuel)
    have hrest := ih (Nat.lt_of_succ_lt_succ hfuel)
    rw [List.cons_append, List.append_assoc, parseChars]
    simp only [peek_cons, List.tail_cons]
    rw [if_neg (by decide), if_pos trivial, parseEscape_complete hu, Option.bind_eq_bind,
      Option.bind_some, hrest]
    rfl

end Stored.Json
