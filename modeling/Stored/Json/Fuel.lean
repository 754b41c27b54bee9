import Stored.Json.Decode
import Stored.Lib.Partial

/-!
# The decoder's fuel

More fuel never changes an answer, and the fuel `jsonDecode` starts with is enough: whatever any
fuel decodes, `jsonDecode` decodes. The second fact rests on the text getting shorter with every
value, element and member that is read.
-/

namespace Stored.Json

open Bytes Partial

theorem parseChars_mono (fuel : ℕ) (s : List UInt8) :
    Below (parseChars fuel s) (parseChars (fuel + 1) s) := by
  induction fuel generalizing s with
  | zero => exact below_none _
  | succ fuel ih =>
    rw [parseChars, parseChars]
    refine .ite (fun _ ↦ .refl _) fun _ ↦ .ite (fun _ ↦ ?_) fun _ ↦ .ite (fun _ ↦ .refl _) fun _ ↦
      .ite (fun _ ↦ .refl _) fun _ ↦ ?_
    · exact .bind (.refl _) fun _ _ ↦ .bind (ih _) fun _ _ ↦ .refl _
    · exact .bind (ih _) fun _ _ ↦ .refl _

theorem parseString_mono (fuel : ℕ) (s : List UInt8) :
    Below (parseString fuel s) (parseString (fuel + 1) s) :=
  .ite (fun _ ↦ parseChars_mono _ _) fun _ ↦ .refl _

theorem parse_mono (libc : Libc) (fuel : ℕ) :
    (∀ s, Below (parseValue libc fuel s) (parseValue libc (fuel + 1) s)) ∧
    (∀ s, Below (parseArray libc fuel s) (parseArray libc (fuel + 1) s)) ∧
    (∀ s, Below (parseElements libc fuel s) (parseElements libc (fuel + 1) s)) ∧
    (∀ s, Below (parseObject libc fuel s) (parseObject libc (fuel + 1) s)) ∧
    (∀ s, Below (parseMembers libc fuel s) (parseMembers libc (fuel + 1) s)) := by
  induction fuel with
  | zero =>
    simp only [parseValue, parseArray, parseElements, parseObject, parseMembers, below_none,
      implies_true, and_self]
  | succ fuel ih =>
    obtain ⟨hvalue, harray, helements, hobject, hmembers⟩ := ih
    refine ⟨fun s ↦ ?_, fun s ↦ ?_, fun s ↦ ?_, fun s ↦ ?_, fun s ↦ ?_⟩
    · rw [parseValue, parseValue]
      exact .ite (fun _ ↦ .refl _) fun _ ↦ .ite (fun _ ↦ .refl _) fun _ ↦
        .ite (fun _ ↦ .refl _) fun _ ↦ .ite (fun _ ↦ .map _ (parseString_mono _ _)) fun _ ↦
        .ite (fun _ ↦ harray s) fun _ ↦ .ite (fun _ ↦ hobject s) fun _ ↦ .refl _
    · rw [parseArray, parseArray]
      exact .ite (fun _ ↦ .refl _) fun _ ↦ .ite (fun _ ↦ .refl _) fun _ ↦ .map _ (helements _)
    · rw [parseElements, parseElements]
      exact .bind (hvalue s) fun _ _ ↦ .ite (fun _ ↦ .refl _) fun _ ↦ .ite (fun _ ↦ .refl _) fun _ ↦
        .bind (helements _) fun _ _ ↦ .refl _
    · rw [parseObject, parseObject]
      exact .ite (fun _ ↦ .refl _) fun _ ↦ .ite (fun _ ↦ .refl _) fun _ ↦ .map _ (hmembers _)
    · rw [parseMembers, parseMembers]
      exact .bind (parseString_mono _ _) fun _ _ ↦ .ite (fun _ ↦ .refl _) fun _ ↦
        .bind (hvalue _) fun _ _ ↦ .ite (fun _ ↦ .refl _) fun _ ↦ .ite (fun _ ↦ .refl _) fun _ ↦
        .bind (hmembers _) fun _ _ ↦ .refl _

theorem length_tail_lt {s : List UInt8} (h : peek s ≠ 0) : s.tail.length < s.length := by
  cases s with
  | nil => exact absurd rfl h
  | cons c s => simp

theorem length_skipSpace_le (s : List UInt8) : (skipSpace s).length ≤ s.length :=
  (List.dropWhile_suffix _).length_le

theorem length_expectLiteral_le {s str rest : List UInt8} (h : expectLiteral s str = some rest) :
    rest.length ≤ s.length := by
  induction str generalizing s with
  | nil => simp_all [expectLiteral]
  | cons c str ih =>
    rw [expectLiteral] at h
    split_ifs at h
    have := ih h
    simp only [List.length_tail] at this
    omega

theorem length_expectLiteral_lt {s str rest : List UInt8} {c : UInt8} (hc : c ≠ 0)
    (h : expectLiteral s (c :: str) = some rest) : rest.length < s.length := by
  rw [expectLiteral] at h
  split_ifs at h with hpeek
  exact Nat.lt_of_le_of_lt (length_expectLiteral_le h) (length_tail_lt (hpeek ▸ hc))

theorem ne_zero_of_hexValue {c : UInt8} {d : UInt16} (h : hexValue c = some d) : c ≠ 0 := by
  rintro rfl
  exact nomatch h

theorem length_parseHex16 {s rest : List UInt8} {v : UInt16} (h : parseHex16 s = some (v, rest)) :
    rest.length < s.length := by
  simp only [parseHex16, Option.bind_eq_bind, Option.bind_eq_some_iff] at h
  obtain ⟨a, ha, b, hb, c, hc, d, hd, h⟩ := h
  have hfirst := length_tail_lt (ne_zero_of_hexValue ha)
  simp only [Option.some.injEq, Prod.mk.injEq] at h
  rw [← h.2]
  simp only [List.length_tail] at hfirst ⊢
  omega

theorem length_parseUnicodeEscape {s out rest : List UInt8}
    (h : parseUnicodeEscape s = some (out, rest)) : rest.length < s.length := by
  simp only [parseUnicodeEscape, Option.bind_eq_bind, Option.bind_eq_some_iff] at h
  obtain ⟨⟨uc, s'⟩, huc, h⟩ := h
  have hhigh := length_parseHex16 huc
  split_ifs at h
  · simp only [Option.bind_eq_some_iff, Option.some.injEq, Prod.mk.injEq] at h
    obtain ⟨⟨lc, s''⟩, hlc, unicode, -, -, rfl⟩ := h
    have hlow := length_parseHex16 hlc
    simp only [List.length_tail] at hlow ⊢
    omega
  · simp only [Option.some.injEq, Prod.mk.injEq] at h
    exact h.2 ▸ hhigh

theorem length_parseEscape {s out rest : List UInt8} (h : parseEscape s = some (out, rest)) :
    rest.length ≤ s.length := by
  have htail : s.tail.length ≤ s.length := by simp
  have hunicode : parseUnicodeEscape s.tail = some (out, rest) → rest.length < s.tail.length :=
    length_parseUnicodeEscape
  unfold parseEscape at h
  grind

theorem length_scanDigits {s rest : List UInt8} (h : scanDigits s = some rest) :
    rest.length < s.length := by
  unfold scanDigits at h
  split_ifs at h with hdigit
  cases s with
  | nil => exact absurd hdigit (by decide)
  | cons c s =>
    rw [← Option.some.inj h, List.dropWhile_cons_of_pos (by simpa using hdigit)]
    exact Nat.lt_succ_of_le (List.dropWhile_suffix _).length_le

theorem length_scanInteger {s rest : List UInt8} (h : scanInteger s = some rest) :
    rest.length < s.length := by
  unfold scanInteger at h
  simp only at h
  have hsign : (if peek s = 0x2D then s.tail else s).length ≤ s.length := by
    split_ifs <;> simp
  refine Nat.lt_of_lt_of_le ?_ hsign
  generalize (if peek s = 0x2D then s.tail else s) = t at h
  split_ifs at h with hzero
  · exact Option.some.inj h ▸ length_tail_lt (by rw [hzero]; decide)
  · exact length_scanDigits h

theorem length_scanFraction {s rest : List UInt8} (h : scanFraction s = some rest) :
    rest.length ≤ s.length := by
  unfold scanFraction at h
  split_ifs at h
  · exact (length_scanDigits h).le.trans (by simp)
  · exact (congrArg List.length (Option.some.inj h)).ge

theorem length_scanExponent {s rest : List UInt8} (h : scanExponent s = some rest) :
    rest.length ≤ s.length := by
  unfold scanExponent at h
  simp only at h
  split_ifs at h
  · exact (length_scanDigits h).le.trans (by simp; omega)
  · exact (length_scanDigits h).le.trans (by simp)
  · exact (congrArg List.length (Option.some.inj h)).ge

theorem length_scanNumber {s rest : List UInt8} (h : scanNumber s = some rest) :
    rest.length < s.length := by
  obtain ⟨s₂, h, hexp⟩ := Option.bind_eq_some_iff.mp h
  obtain ⟨s₁, hint, hfrac⟩ := Option.bind_eq_some_iff.mp h
  exact ((length_scanExponent hexp).trans (length_scanFraction hfrac)).trans_lt
    (length_scanInteger hint)

theorem length_parseChars {fuel : ℕ} {s str rest : List UInt8}
    (h : parseChars fuel s = some (str, rest)) : rest.length < s.length := by
  induction fuel generalizing s str rest with
  | zero => simp [parseChars] at h
  | succ fuel ih =>
    rw [parseChars] at h
    simp only at h
    split_ifs at h with hquote hslash hcontrol hlen
    · simp only [Option.some.injEq, Prod.mk.injEq] at h
      exact h.2 ▸ length_tail_lt (by rw [hquote]; decide)
    · simp only [Option.bind_eq_bind, Option.bind_eq_some_iff, Option.some.injEq,
        Prod.mk.injEq] at h
      obtain ⟨⟨b, s₁⟩, hescape, ⟨str', s₂⟩, hrec, -, rfl⟩ := h
      have hback := length_tail_lt (s := s) (by rw [hslash]; decide)
      have h₁ := length_parseEscape hescape
      have h₂ := ih hrec
      simp only at h₂ ⊢
      omega
    · simp only [Option.bind_eq_bind, Option.bind_eq_some_iff, Option.some.injEq,
        Prod.mk.injEq] at h
      obtain ⟨⟨str', s₁⟩, hrec, -, rfl⟩ := h
      have h₁ := ih hrec
      simp only [List.length_drop] at h₁ ⊢
      omega

theorem length_parseString {fuel : ℕ} {s str rest : List UInt8}
    (h : parseString fuel s = some (str, rest)) : rest.length < s.length := by
  unfold parseString at h
  split_ifs at h with hquote
  exact (length_parseChars h).trans (length_tail_lt (by rw [hquote]; decide))

theorem length_parseNumber {libc : Libc} {s rest : List UInt8} {v : JsonNode}
    (h : parseNumber libc s = some (v, rest)) : rest.length < s.length := by
  simp only [parseNumber, Option.bind_eq_bind, Option.bind_eq_some_iff, Option.some.injEq,
    Prod.mk.injEq] at h
  obtain ⟨rest', hscan, -, rfl⟩ := h
  exact length_scanNumber hscan

theorem length_parse (libc : Libc) (fuel : ℕ) :
    (∀ s v rest, parseValue libc fuel s = some (v, rest) → rest.length < s.length) ∧
    (∀ s v rest, parseArray libc fuel s = some (v, rest) → rest.length < s.length) ∧
    (∀ s v rest, parseElements libc fuel s = some (v, rest) → rest.length < s.length) ∧
    (∀ s v rest, parseObject libc fuel s = some (v, rest) → rest.length < s.length) ∧
    (∀ s v rest, parseMembers libc fuel s = some (v, rest) → rest.length < s.length) := by
  induction fuel with
  | zero => simp [parseValue, parseArray, parseElements, parseObject, parseMembers]
  | succ fuel ih =>
    obtain ⟨hvalue, harray, helements, hobject, hmembers⟩ := ih
    have htail (s : List UInt8) : s.tail.length ≤ s.length := by simp
    have hback (s : List UInt8) : (skipSpace s).tail.length ≤ s.length :=
      (htail _).trans (length_skipSpace_le s)
    have hopen {s : List UInt8} {c : UInt8} (hc : c ≠ 0) (h : peek s = c) :
        (skipSpace s.tail).length < s.length :=
      (length_skipSpace_le _).trans_lt (length_tail_lt (h ▸ hc))
    refine ⟨fun s v rest h ↦ ?_, fun s v rest h ↦ ?_, fun s v rest h ↦ ?_, fun s v rest h ↦ ?_,
      fun s v rest h ↦ ?_⟩
    · rw [parseValue] at h
      split_ifs at h
      · obtain ⟨s', hs', heq⟩ := Option.map_eq_some_iff.mp h
        exact (Prod.mk.inj heq).2 ▸ length_expectLiteral_lt (by decide) hs'
      · obtain ⟨s', hs', heq⟩ := Option.map_eq_some_iff.mp h
        exact (Prod.mk.inj heq).2 ▸ length_expectLiteral_lt (by decide) hs'
      · obtain ⟨s', hs', heq⟩ := Option.map_eq_some_iff.mp h
        exact (Prod.mk.inj heq).2 ▸ length_expectLiteral_lt (by decide) hs'
      · obtain ⟨⟨str, s'⟩, hs', heq⟩ := Option.map_eq_some_iff.mp h
        exact (Prod.mk.inj heq).2 ▸ length_parseString hs'
      · exact harray s v rest h
      · exact hobject s v rest h
      · exact length_parseNumber h
    · rw [parseArray] at h
      simp only [ne_eq, ite_not] at h
      split_ifs at h with hbracket hempty
      · simp only [Option.some.injEq, Prod.mk.injEq] at h
        exact h.2 ▸ (htail _).trans_lt (hopen (by decide) hbracket)
      · obtain ⟨⟨es, s'⟩, hs', heq⟩ := Option.map_eq_some_iff.mp h
        exact (Prod.mk.inj heq).2 ▸ (helements _ _ _ hs').trans (hopen (by decide) hbracket)
    · rw [parseElements] at h
      obtain ⟨⟨e, s₁⟩, he, h⟩ := Option.bind_eq_some_iff.mp h
      have h₁ := hvalue _ _ _ he
      simp only [ne_eq, ite_not] at h
      split_ifs at h with hclose hcomma
      · simp only [Option.some.injEq, Prod.mk.injEq] at h
        exact h.2 ▸ (hback s₁).trans_lt h₁
      · obtain ⟨⟨es, s₂⟩, hes, h⟩ := Option.bind_eq_some_iff.mp h
        simp only [Option.some.injEq, Prod.mk.injEq] at h
        exact h.2 ▸ (((helements _ _ _ hes).trans_le (length_skipSpace_le _)).trans_le
          (hback s₁)).trans h₁
    · rw [parseObject] at h
      simp only [ne_eq, ite_not] at h
      split_ifs at h with hbrace hempty
      · simp only [Option.some.injEq, Prod.mk.injEq] at h
        exact h.2 ▸ (htail _).trans_lt (hopen (by decide) hbrace)
      · obtain ⟨⟨ms, s'⟩, hs', heq⟩ := Option.map_eq_some_iff.mp h
        exact (Prod.mk.inj heq).2 ▸ (hmembers _ _ _ hs').trans (hopen (by decide) hbrace)
    · rw [parseMembers] at h
      obtain ⟨⟨k, s₁⟩, hk, h⟩ := Option.bind_eq_some_iff.mp h
      have h₁ := length_parseString hk
      simp only [ne_eq, ite_not] at h
      split_ifs at h with hcolon
      obtain ⟨⟨v, s₂⟩, hv, h⟩ := Option.bind_eq_some_iff.mp h
      have h₂ := ((hvalue _ _ _ hv).trans_le (length_skipSpace_le _)).trans_le (hback s₁)
      split_ifs at h with hclose hcomma
      · simp only [Option.some.injEq, Prod.mk.injEq] at h
        exact h.2 ▸ ((hback s₂).trans_lt h₂).trans h₁
      · obtain ⟨⟨ms, s₃⟩, hms, h⟩ := Option.bind_eq_some_iff.mp h
        simp only [Option.some.injEq, Prod.mk.injEq] at h
        exact h.2 ▸ ((((hmembers _ _ _ hms).trans_le (length_skipSpace_le _)).trans_le
          (hback s₂)).trans h₂).trans h₁

theorem parseChars_stable {fuel : ℕ} {s : List UInt8} (h : s.length < fuel) :
    Below (parseChars (fuel + 1) s) (parseChars fuel s) := by
  induction fuel generalizing s with
  | zero => omega
  | succ fuel ih =>
    rw [parseChars, parseChars]
    refine .ite (fun _ ↦ .refl _) fun _ ↦ .ite (fun hslash ↦ ?_) fun _ ↦ .ite (fun _ ↦ .refl _)
      fun hcontrol ↦ .ite (fun _ ↦ .refl _) fun hlen ↦ ?_
    · refine .bind (.refl _) fun r hr ↦ .bind (ih ?_) fun _ _ ↦ .refl _
      have hback := length_tail_lt (s := s) (by rw [hslash]; decide)
      have hescape := length_parseEscape hr
      omega
    · refine .bind (ih ?_) fun _ _ ↦ .refl _
      have hbyte := length_tail_lt (s := s) fun h0 ↦ hcontrol (h0 ▸ by decide)
      simp only [List.length_drop]
      omega

theorem parseString_stable {fuel : ℕ} {s : List UInt8} (h : s.length ≤ fuel) :
    Below (parseString (fuel + 1) s) (parseString fuel s) :=
  .ite (fun hquote ↦ parseChars_stable
    ((length_tail_lt (by rw [hquote]; decide)).trans_le h)) fun _ ↦ .refl _

theorem parse_stable (libc : Libc) (fuel : ℕ) :
    (∀ s, 3 * s.length + 3 ≤ fuel →
      Below (parseValue libc (fuel + 1) s) (parseValue libc fuel s)) ∧
    (∀ s, 3 * s.length + 2 ≤ fuel →
      Below (parseArray libc (fuel + 1) s) (parseArray libc fuel s)) ∧
    (∀ s, 3 * s.length + 4 ≤ fuel →
      Below (parseElements libc (fuel + 1) s) (parseElements libc fuel s)) ∧
    (∀ s, 3 * s.length + 2 ≤ fuel →
      Below (parseObject libc (fuel + 1) s) (parseObject libc fuel s)) ∧
    (∀ s, 3 * s.length + 4 ≤ fuel →
      Below (parseMembers libc (fuel + 1) s) (parseMembers libc fuel s)) := by
  induction fuel with
  | zero => simp
  | succ fuel ih =>
    obtain ⟨hvalue, harray, helements, hobject, hmembers⟩ := ih
    have hopen {s : List UInt8} {c : UInt8} (hc : c ≠ 0) (h : peek s = c) :
        (skipSpace s.tail).length < s.length :=
      (length_skipSpace_le _).trans_lt (length_tail_lt (h ▸ hc))
    have hback (s : List UInt8) : (skipSpace (skipSpace s).tail).length ≤ s.length :=
      (length_skipSpace_le _).trans ((by simp : (skipSpace s).tail.length ≤ _).trans
        (length_skipSpace_le s))
    refine ⟨fun s h ↦ ?_, fun s h ↦ ?_, fun s h ↦ ?_, fun s h ↦ ?_, fun s h ↦ ?_⟩
    · rw [parseValue, parseValue]
      exact .ite (fun _ ↦ .refl _) fun _ ↦ .ite (fun _ ↦ .refl _) fun _ ↦
        .ite (fun _ ↦ .refl _) fun _ ↦ .ite (fun _ ↦ .map _ (parseString_stable (by omega)))
        fun _ ↦ .ite (fun _ ↦ harray s (by omega)) fun _ ↦
        .ite (fun _ ↦ hobject s (by omega)) fun _ ↦ .refl _
    · rw [parseArray, parseArray]
      refine .ite (fun _ ↦ .refl _) fun hbracket ↦ .ite (fun _ ↦ .refl _) fun _ ↦
        .map _ (helements _ ?_)
      have := hopen (by decide) (not_not.mp hbracket)
      omega
    · rw [parseElements, parseElements]
      refine .bind (hvalue s (by omega)) fun r hr ↦ .ite (fun _ ↦ .refl _) fun _ ↦
        .ite (fun _ ↦ .refl _) fun _ ↦ .bind (helements _ ?_) fun _ _ ↦ .refl _
      have h₁ := (length_parse libc _).1 _ _ _ hr
      have h₂ := hback r.2
      omega
    · rw [parseObject, parseObject]
      refine .ite (fun _ ↦ .refl _) fun hbrace ↦ .ite (fun _ ↦ .refl _) fun _ ↦
        .map _ (hmembers _ ?_)
      have := hopen (by decide) (not_not.mp hbrace)
      omega
    · rw [parseMembers, parseMembers]
      refine .bind (parseString_stable (by omega)) fun r hr ↦ .ite (fun _ ↦ .refl _) fun _ ↦
        .bind (hvalue _ ?_) fun r' hr' ↦ .ite (fun _ ↦ .refl _) fun _ ↦
        .ite (fun _ ↦ .refl _) fun _ ↦ .bind (hmembers _ ?_) fun _ _ ↦ .refl _
      · have h₁ := length_parseString hr
        have h₂ := hback r.2
        omega
      · have h₁ := length_parseString hr
        have h₂ := hback r.2
        have h₃ := (length_parse libc _).1 _ _ _ hr'
        have h₄ := hback r'.2
        omega

/-- Whatever fuel it is given, the decoder answers only what `jsonDecode` answers. -/
theorem decodeWith_below_jsonDecode (libc : Libc) (fuel : ℕ) (json : List UInt8) :
    Below (decodeWith libc fuel json) (jsonDecode libc json) := by
  have hlen := length_skipSpace_le json
  exact .bind (.of_stable (f := fun fuel ↦ parseValue libc fuel (skipSpace json))
    (fun n ↦ (parse_mono libc n).1 _) (fun n hn ↦ (parse_stable libc n).1 _ (by omega)) fuel)
    fun _ _ ↦ .refl _

end Stored.Json
