import Stored.Json.Compact
import Stored.Json.WellFormed
import Stored.Lib.Buffer

/-!
# The string buffer

The encoders and `parse_string` as they write to memory. An `SB` grows by doubling; `emit_string` and
`parse_string` reserve room for the longest character before they write one, and `parse_string`
writes to a buffer of four bytes when its result is not wanted. None of the writes is behind the end
of its buffer, and what is in the buffer in the end is the text of the tree.
-/

namespace Stored.Json.Buffered

open Bytes Utf8 Growable

/-- `sb_init`; the byte behind the end is for the terminating NUL. -/
def sbInit : Buffer UInt8 := .empty UInt8 16 (by decide)

/-- `strlen` -/
def strlen (s : List UInt8) : ℕ := (s.takeWhile (· ≠ 0)).length

/-- `sb_put`; for a negative `count` no room is made, and `memcpy` takes it for a huge one. -/
def sbPut (bytes : List UInt8) (count : Int32) : Out UInt8 Unit :=
  if count < 0 then fail .overflow
  else do
    reserve count.toNatClampNeg
    pushAll (bytes.take count.toNatClampNeg)

/-- `sb_putc` -/
def sbPutc (c : UInt8) : Out UInt8 Unit := do
  reserve 1
  push c

/-- `sb_puts`; the length becomes an `int`. -/
def sbPuts (str : List UInt8) : Out UInt8 Unit := sbPut str (Int32.ofNat (strlen str))

/-- `sb_finish` -/
def sbFinish : Out UInt8 (List UInt8) := fun b ↦
  if strlen b.written = b.written.length then .ok (b.written, b) else .error .assertion

/-- A round of `emit_string`: the character at the cursor, and the text behind it. -/
def emitChar (s : List UInt8) : Out UInt8 (List UInt8) :=
  let c := peek s
  if c = 0x22 then do pushAll [0x5C, 0x22]; pure s.tail
  else if c = 0x5C then do pushAll [0x5C, 0x5C]; pure s.tail
  else if c = 0x08 then do pushAll [0x5C, 0x62]; pure s.tail
  else if c = 0x0C then do pushAll [0x5C, 0x66]; pure s.tail
  else if c = 0x0A then do pushAll [0x5C, 0x6E]; pure s.tail
  else if c = 0x0D then do pushAll [0x5C, 0x72]; pure s.tail
  else if c = 0x09 then do pushAll [0x5C, 0x74]; pure s.tail
  else
    let len := utf8ValidateCz s
    if len = 0 then do pushAll [0xEF, 0xBF, 0xBD]; pure s.tail
    else if c < 0x1F then do pushAll (0x5C :: 0x75 :: writeHex16 c.toUInt16); pure s.tail
    else do pushAll (s.take len); pure (s.drop len)

/-- The loop of `emit_string` -/
def emitChars : ℕ → List UInt8 → Out UInt8 Unit
  | 0, _ => fail .hang
  | fuel + 1, s =>
    if peek s = 0 then pure ()
    else do
      let s ← emitChar s
      reserve 14
      emitChars fuel s

/-- `emit_string` -/
def emitString (str : List UInt8) : Out UInt8 Unit := do
  reserve 14
  push 0x22
  emitChars (str.length + 1) str
  push 0x22

/-- `emit_number`; its `buf` has 64 characters. -/
def emitNumber (libc : Libc) (num : ℚ) : Out UInt8 Unit :=
  let buf := libc.formatG16 num
  if 64 ≤ buf.length then fail .overflow
  else if numberIsValid buf then sbPuts buf
  else sbPuts (ascii "null")

/-- `if (element->next != NULL) sb_putc(out, ',');` -/
def emitComma {α : Type} (rest : List α) : Out UInt8 Unit :=
  if rest.isEmpty then pure () else sbPutc 0x2C

mutual

/-- `emit_value`, with `emit_array` and `emit_object` -/
def emitValue (libc : Libc) : JsonNode → Out UInt8 Unit
  | .null => sbPuts (ascii "null")
  | .bool b => sbPuts (if b then ascii "true" else ascii "false")
  | .string s => emitString s
  | .number n => emitNumber libc n
  | .array elements => do
    sbPutc 0x5B
    emitArray libc elements
    sbPutc 0x5D
  | .object members => do
    sbPutc 0x7B
    emitObject libc members
    sbPutc 0x7D

/-- The loop of `emit_array` -/
def emitArray (libc : Libc) : List JsonNode → Out UInt8 Unit
  | [] => pure ()
  | element :: rest => do
    emitValue libc element
    emitComma rest
    emitArray libc rest

/-- The loop of `emit_object` -/
def emitObject (libc : Libc) : List (List UInt8 × JsonNode) → Out UInt8 Unit
  | [] => pure ()
  | (key, member) :: rest => do
    emitString key
    sbPutc 0x3A
    emitValue libc member
    emitComma rest
    emitObject libc rest

end

/-- `for (i = 0; i < indent_level; i++) sb_puts(out, space);` -/
def emitIndent (space : List UInt8) : ℕ → Out UInt8 Unit
  | 0 => pure ()
  | level + 1 => do
    sbPuts space
    emitIndent space level

mutual

/-- `emit_value_indented`, with `emit_array_indented` and `emit_object_indented` -/
def emitValueIndented (libc : Libc) (space : List UInt8) (level : ℕ) : JsonNode → Out UInt8 Unit
  | .null => sbPuts (ascii "null")
  | .bool b => sbPuts (if b then ascii "true" else ascii "false")
  | .string s => emitString s
  | .number n => emitNumber libc n
  | .array [] => sbPuts (ascii "[]")
  | .array (element :: rest) => do
    sbPuts (ascii "[\n")
    emitElements libc space level (element :: rest)
    emitIndent space level
    sbPutc 0x5D
  | .object [] => sbPuts (ascii "\x7b\x7d")
  | .object (member :: rest) => do
    sbPuts (ascii "\x7b\n")
    emitMembers libc space level (member :: rest)
    emitIndent space level
    sbPutc 0x7D

/-- The loop of `emit_array_indented` -/
def emitElements (libc : Libc) (space : List UInt8) (level : ℕ) : List JsonNode → Out UInt8 Unit
  | [] => pure ()
  | element :: rest => do
    emitIndent space (level + 1)
    emitValueIndented libc space (level + 1) element
    sbPuts (if rest.isEmpty then ascii "\n" else ascii ",\n")
    emitElements libc space level rest

/-- The loop of `emit_object_indented` -/
def emitMembers (libc : Libc) (space : List UInt8) (level : ℕ) :
    List (List UInt8 × JsonNode) → Out UInt8 Unit
  | [] => pure ()
  | (key, member) :: rest => do
    emitIndent space (level + 1)
    emitString key
    sbPuts (ascii ": ")
    emitValueIndented libc space (level + 1) member
    sbPuts (if rest.isEmpty then ascii "\n" else ascii ",\n")
    emitMembers libc space level rest

end

/-- `json_stringify`; a `space` of NULL is none. -/
def jsonStringify (libc : Libc) (node : JsonNode) (space : Option (List UInt8)) :
    Out UInt8 (List UInt8) := do
  match space with
  | some space => emitValueIndented libc space 0 node
  | none => emitValue libc node
  sbFinish

/-- `json_encode_string` -/
def jsonEncodeString (str : List UInt8) : Out UInt8 (List UInt8) := do
  emitString str
  sbFinish

/-- A round of `parse_string`: the character at the cursor is written, and the text behind it is
returned. -/
def parseChar (s : List UInt8) : Out UInt8 (Option (List UInt8)) :=
  let c := peek s
  if c = 0x5C then
    match parseEscape s.tail with
    | some (b, s) => do pushAll b; pure (some s)
    | none => pure none
  else if c ≤ 0x1F then pure none
  else
    let len := utf8ValidateCz s
    if len = 0 then pure none
    else do pushAll (s.take len); pure (some (s.drop len))

/-- Where the next character is written: behind the last one if the string is wanted, else again at
the start of `throwaway_buffer`. -/
def nextChar (out : Bool) : Out UInt8 Unit :=
  if out then reserve 4 else set (Buffer.empty UInt8 4 (by decide))

/-- The loop of `parse_string` -/
def parseChars (out : Bool) : ℕ → List UInt8 → Out UInt8 (Option (List UInt8))
  | 0, _ => fail .hang
  | fuel + 1, s =>
    if peek s = 0x22 then pure (some s.tail)
    else do
      match ← parseChar s with
      | none => pure none
      | some s =>
        nextChar out
        parseChars out fuel s

/-- `parse_string`, with the string where it is wanted and the text behind it. -/
def parseString (out : Bool) (s : List UInt8) :
    Out UInt8 (Option (Option (List UInt8) × List UInt8)) :=
  if peek s ≠ 0x22 then pure none
  else do
    nextChar out
    match ← parseChars out s.length s.tail with
    | none => pure none
    | some s =>
      if out then do
        let str ← sbFinish
        pure (some (some str, s))
      else pure (some (none, s))

/-! ## What the encoders write -/

/-- The size of `sb_init`, and the room that `emit_string` reserves. -/
def growth : Growth := ⟨16, 14⟩

/-- The program appends a C string. -/
structure Prints (p : Out UInt8 Unit) (s : List UInt8) : Prop where
  nulFree : 0 ∉ s
  writes : Writes growth 0 0 p s ()

theorem strlen_of_nulFree {s : List UInt8} (h : 0 ∉ s) : strlen s = s.length := by
  have hall : ∀ c ∈ s, decide (c ≠ 0) = true := by
    intro c hc
    exact decide_eq_true (ne_of_mem_of_not_mem hc h)
  rw [strlen, List.takeWhile_eq_self_iff.mpr hall]

/-- A C string whose length fits an `int`. -/
def Puttable (s : List UInt8) : Prop := 0 ∉ s ∧ s.length < 2 ^ 31

instance (s : List UInt8) : Decidable (Puttable s) := inferInstanceAs (Decidable (_ ∧ _))

theorem writes_sbPuts {s : List UInt8} (h : Puttable s) : Writes growth 0 0 (sbPuts s) s () := by
  obtain ⟨hnul, hlen⟩ := h
  have hpos : ¬Int32.ofNat s.length < 0 := Int32.not_lt.mpr (Int32.zero_le_ofNat_of_lt hlen)
  have hpush : Writes growth (0 + s.length) 0 (pushAll s) s () := .pushAll s
  rw [Nat.zero_add] at hpush
  rw [sbPuts, strlen_of_nulFree hnul, sbPut, if_neg hpos, Int32.toNatClampNeg_ofNat_of_lt hlen,
    List.take_length]
  exact ((Writes.reserve (Nat.zero_le _)).bind hpush).congr (List.nil_append s)

namespace Prints

variable {p q : Out UInt8 Unit} {s t : List UInt8}

theorem nil : Prints (pure ()) [] := ⟨List.not_mem_nil, .pure ()⟩

theorem bind (hp : Prints p s) (hq : Prints q t) : Prints (do p; q) (s ++ t) where
  nulFree := by
    rw [List.mem_append, not_or]
    exact ⟨hp.nulFree, hq.nulFree⟩
  writes := hp.writes.bind hq.writes

theorem congr (hp : Prints p s) (hs : s = t) : Prints p t := hs ▸ hp

theorem ite {c : Prop} [Decidable c] (hp : Prints p s) (hq : Prints q t) :
    Prints (if c then p else q) (if c then s else t) := by
  split_ifs
  · exact hp
  · exact hq

theorem sbPuts (h : Puttable s) : Prints (sbPuts s) s := ⟨h.1, writes_sbPuts h⟩

theorem sbPutc {c : UInt8} (h : c ≠ 0) : Prints (sbPutc c) [c] where
  nulFree := by simpa using h.symm
  writes := (Writes.reserve (Nat.zero_le _)).bind (.push c)

end Prints

/-- In the room that is left behind an opening quotation mark there is place for the longest
character, of six bytes. -/
theorem writes_chunk {w s : List UInt8} (hw : w.length ≤ 6) :
    Writes growth 13 7 (do pushAll w; pure s) w s := by
  have hpush : Writes growth (13 - w.length + w.length) (13 - w.length) (pushAll w) w () :=
    .pushAll w
  rw [Nat.sub_add_cancel (by omega)] at hpush
  have hroom : 7 ≤ 13 - w.length := by omega
  have hslack : 13 - w.length ≤ growth.slack := Nat.le_trans (Nat.sub_le _ _) (by decide)
  exact ((hpush.weaken hroom hslack).bind (.pure s)).congr (List.append_nil w)

theorem ite_chunk {c : Prop} [Decidable c] {a b s : List UInt8} {p : Out UInt8 (List UInt8)}
    (hp : p = (do pushAll b; pure s)) :
    (if c then (do pushAll a; pure s) else p) = (do pushAll (if c then a else b); pure s) := by
  split_ifs
  · rfl
  · exact hp

theorem emitChar_ascii {c : UInt8} (hc : c ≤ 0x7F) (s : List UInt8) :
    emitChar (c :: s) = (do pushAll (emitAscii c); pure s) := by
  have hlen (t : List UInt8) : utf8ValidateCz (c :: t) = 1 := utf8ValidateCz_append (.one hc) t
  rw [emitAscii, Json.emitChars, emitChar]
  iterate 7 apply ite_chunk
  simp only [hlen]
  exact ite_chunk (ite_chunk rfl)

theorem emitChar_of_le {c : UInt8} (hc : 0x80 ≤ c) (s : List UInt8) :
    emitChar (c :: s) =
      if utf8ValidateCz (c :: s) = 0 then (do pushAll [0xEF, 0xBF, 0xBD]; pure s)
      else (do
        pushAll ((c :: s).take (utf8ValidateCz (c :: s)))
        pure ((c :: s).drop (utf8ValidateCz (c :: s)))) := by
  have hne (d : UInt8) (hd : d < 0x80) : c ≠ d := by grind
  have hcontrol : ¬c < 0x1F := by grind
  rw [emitChar, peek_cons, if_neg (hne _ (by decide)), if_neg (hne _ (by decide)),
    if_neg (hne _ (by decide)), if_neg (hne _ (by decide)), if_neg (hne _ (by decide)),
    if_neg (hne _ (by decide)), if_neg (hne _ (by decide))]
  simp only [hcontrol, if_false]
  rfl

theorem emitChar_char {w : List UInt8} (hw : Utf8Char w) (hlong : 1 < w.length)
    (s : List UInt8) :
    emitChar (w ++ s) = (do pushAll w; pure s) := by
  have hlen := utf8ValidateCz_append hw s
  have htake : (w ++ s).take w.length = w := List.take_left
  have hdrop : (w ++ s).drop w.length = s := List.drop_left
  cases w with
  | nil => exact nomatch hw
  | cons c w =>
    have hc := hw.le_of_mem hlong List.mem_cons_self
    rw [List.cons_append] at hlen htake hdrop ⊢
    rw [emitChar_of_le hc, hlen, if_neg (Nat.ne_zero_of_lt hlong), htake, hdrop]

theorem emitAscii_bounds {c : UInt8} (hc : c ≤ 0x7F) (h0 : c ≠ 0) :
    (emitAscii c).length ≤ 6 ∧ 0 ∉ emitAscii c := by
  have h : ∀ n < 256, UInt8.ofNat n ≤ 0x7F → UInt8.ofNat n ≠ 0 →
      (emitAscii (UInt8.ofNat n)).length ≤ 6 ∧ 0 ∉ emitAscii (UInt8.ofNat n) := by
    decide +kernel
  have hbyte := h c.toNat c.toNat_lt
  rw [UInt8.ofNat_toNat] at hbyte
  exact hbyte hc h0

/-- A round of the loop, and the rest of the string. -/
theorem emitChars_round {u w s text : List UInt8} {fuel : ℕ} (hpeek : peek u ≠ 0)
    (hround : emitChar u = do pushAll w; pure s) (hw : w.length ≤ 6)
    (hs : Writes growth 13 13 (emitChars fuel s) text ()) :
    Writes growth 13 13 (emitChars (fuel + 1) u) (w ++ text) () := by
  have hnext : Writes growth 7 13 (do reserve 14; emitChars fuel s) ([] ++ text) () :=
    (Writes.reserve (by decide)).bind (hs.widen (by decide) (by decide))
  rw [emitChars, if_neg hpeek, hround]
  exact (writes_chunk hw).bind hnext

theorem writes_emitChars (s : List UInt8) : 0 ∉ s → ∀ fuel, s.length < fuel →
    Writes growth 13 13 (emitChars fuel s) (Json.emitChars 0 s) () ∧ 0 ∉ Json.emitChars 0 s := by
  induction s using scan_induction with
  | hnil =>
    rintro - (_ | fuel) hfuel
    · exact absurd hfuel (Nat.not_lt_zero _)
    · exact ⟨.pure (), List.not_mem_nil⟩
  | hinvalid c s hc ih =>
    rintro h0 (_ | fuel) hfuel
    · exact absurd hfuel (Nat.not_lt_zero _)
    rw [List.mem_cons, not_or] at h0
    obtain ⟨hwrites, hnul⟩ := ih h0.2 fuel (Nat.lt_of_succ_lt_succ hfuel)
    have hround := emitChar_of_le (le_of_utf8ValidateCz hc) s
    rw [if_pos hc] at hround
    rw [emitChars_invalid hc, List.mem_append, not_or]
    exact ⟨emitChars_round (Ne.symm h0.1) hround (by decide) hwrites, by decide, hnul⟩
  | hchar w s hw ih =>
    rintro h0 (_ | fuel) hfuel
    · exact absurd hfuel (Nat.not_lt_zero _)
    rw [List.mem_append, not_or] at h0
    rw [List.length_append] at hfuel
    have hpos : 0 < w.length := by cases hw <;> exact Nat.succ_pos _
    obtain ⟨hwrites, hnul⟩ := ih h0.2 fuel (by omega)
    by_cases hlong : 1 < w.length
    · have hpeek : peek (w ++ s) ≠ 0 := by
        obtain ⟨c, w, rfl⟩ := List.exists_cons_of_length_pos hpos
        exact (ne_of_mem_of_not_mem List.mem_cons_self h0.1)
      have hshort : w.length ≤ 6 := by cases hw <;> simp
      rw [emitChars_char hw hlong, List.mem_append, not_or]
      exact ⟨emitChars_round hpeek (emitChar_char hw hlong s) hshort hwrites, h0.1, hnul⟩
    · cases hw with
      | one hc =>
        rename_i c
        have hc0 : c ≠ 0 := ne_of_mem_of_not_mem List.mem_cons_self h0.1
        have hbounds := emitAscii_bounds hc hc0
        rw [List.singleton_append, emitChars_ascii hc, List.mem_append, not_or]
        exact ⟨emitChars_round hc0 (emitChar_ascii hc s) hbounds.1 hwrites, hbounds.2, hnul⟩
      | two | three | four => exact absurd (by simp) hlong

theorem prints_emitString {s : List UInt8} (h0 : 0 ∉ s) :
    Prints (emitString s) (Json.emitString s) := by
  obtain ⟨hwrites, hnul⟩ := writes_emitChars s h0 (s.length + 1) (Nat.lt_succ_self _)
  have hclose : Writes growth 13 0 (push (0x22 : UInt8)) [0x22] () :=
    (Writes.push (n := 12) (0x22 : UInt8)).weaken (Nat.zero_le _) (by decide)
  refine ⟨?_, ?_⟩
  · rw [Json.emitString, List.mem_append, List.mem_cons, not_or, not_or]
    exact ⟨⟨by decide, hnul⟩, by decide⟩
  · have hrest : Writes growth 13 0 (do emitChars (s.length + 1) s; push 0x22)
        (Json.emitChars 0 s ++ [0x22]) () := hwrites.bind hclose
    have hopen : Writes growth 14 13 (push (0x22 : UInt8)) [0x22] () := .push 0x22
    exact (Writes.reserve (Nat.zero_le _)).bind (hopen.bind hrest)

theorem Digits.nulFree {s : List UInt8} (h : Digits s) : 0 ∉ s := by
  intro hmem
  exact absurd (h.2 0 hmem) (by decide)

theorem Number.nulFree {s : List UInt8} (h : Number s) : 0 ∉ s := by
  obtain ⟨sign, int, frac, exp, hsign, hint, hfrac, hexp, rfl⟩ := h
  simp only [List.mem_append, not_or]
  refine ⟨?_, ?_, ?_, ?_⟩
  · obtain rfl | rfl := hsign <;> decide
  · obtain rfl | ⟨hds, -⟩ := hint
    · decide
    · exact Digits.nulFree hds
  · obtain rfl | ⟨ds, hds, rfl⟩ := hfrac
    · decide
    · rw [List.mem_cons, not_or]
      exact ⟨by decide, Digits.nulFree hds⟩
  · obtain rfl | ⟨e, sign, ds, he, hsign, hds, rfl⟩ := hexp
    · decide
    · rw [List.mem_cons, List.mem_append, not_or, not_or]
      refine ⟨?_, ?_, Digits.nulFree hds⟩
      · obtain rfl | rfl := he <;> decide
      · obtain rfl | rfl | rfl := hsign <;> decide

theorem prints_emitNumber (libc : Libc) {n : ℚ} (h : (libc.formatG16 n).length < 64) :
    Prints (emitNumber libc n) (Json.emitNumber libc n) := by
  unfold emitNumber Json.emitNumber
  rw [if_neg (not_le.mpr h)]
  by_cases hvalid : numberIsValid (libc.formatG16 n) = true
  · rw [if_pos hvalid, if_pos hvalid]
    obtain ⟨w, hw, hs⟩ := scanNumber_sound (beq_iff_eq.mp hvalid)
    rw [hs, List.append_nil] at h ⊢
    exact .sbPuts ⟨Number.nulFree hw, h.trans (by decide)⟩
  · rw [if_neg hvalid, if_neg hvalid]
    exact .sbPuts (by decide)

mutual

/-- The numbers of a tree. -/
def numbers : JsonNode → List ℚ
  | .null | .bool _ | .string _ => []
  | .number n => [n]
  | .array es => numbersElements es
  | .object ms => numbersMembers ms

def numbersElements : List JsonNode → List ℚ
  | [] => []
  | e :: es => numbers e ++ numbersElements es

def numbersMembers : List (List UInt8 × JsonNode) → List ℚ
  | [] => []
  | (_, m) :: ms => numbers m ++ numbersMembers ms

end

/-- What the encoders can write: C strings, and numbers that fit the `buf` of `emit_number`. -/
structure Encodable (libc : Libc) (ss : List (List UInt8)) (ns : List ℚ) : Prop where
  nulFree : ∀ s ∈ ss, 0 ∉ s
  shortNumbers : ∀ n ∈ ns, (libc.formatG16 n).length < 64

theorem Encodable.append {libc : Libc} {ss ss' : List (List UInt8)} {ns ns' : List ℚ}
    (h : Encodable libc (ss ++ ss') (ns ++ ns')) :
    Encodable libc ss ns ∧ Encodable libc ss' ns' := by
  obtain ⟨hs, hs'⟩ := List.forall_mem_append.mp h.nulFree
  obtain ⟨hn, hn'⟩ := List.forall_mem_append.mp h.shortNumbers
  exact ⟨⟨hs, hn⟩, ⟨hs', hn'⟩⟩

theorem Encodable.cons {libc : Libc} {s : List UInt8} {ss : List (List UInt8)} {ns : List ℚ}
    (h : Encodable libc (s :: ss) ns) : 0 ∉ s ∧ Encodable libc ss ns := by
  obtain ⟨hs, hss⟩ := List.forall_mem_cons.mp h.nulFree
  exact ⟨hs, hss, h.shortNumbers⟩

theorem prints_emitIndent {space : List UInt8} (h : Puttable space) (level : ℕ) :
    Prints (emitIndent space level) (indent space level) := by
  induction level with
  | zero => exact .nil
  | succ level ih => exact (Prints.sbPuts h).bind ih

/-- What stands between brackets. -/
theorem prints_brackets {p : Out UInt8 Unit} {text : List UInt8} {opening closing : UInt8}
    (hopening : opening ≠ 0) (hclosing : closing ≠ 0) (hp : Prints p text) :
    Prints (do sbPutc opening; p; sbPutc closing) ([opening] ++ text ++ [closing]) :=
  ((Prints.sbPutc hopening).bind (hp.bind (.sbPutc hclosing))).congr
    (List.append_assoc _ _ _).symm

theorem prints_comma {α : Type} (rest : List α) :
    Prints (emitComma rest) (if rest.isEmpty then [] else ascii ",") :=
  .ite .nil (.sbPutc (by decide))

mutual

theorem prints_emitValue (libc : Libc) (t : JsonNode) (h : Encodable libc (texts t) (numbers t)) :
    Prints (emitValue libc t) (Json.emitValue libc t) := by
  match t, h with
  | .null, _ => exact .sbPuts (by decide)
  | .bool true, _ => exact .sbPuts (by decide)
  | .bool false, _ => exact .sbPuts (by decide)
  | .string s, h => exact prints_emitString (h.nulFree s (List.mem_singleton_self s))
  | .number n, h => exact prints_emitNumber libc (h.shortNumbers n (List.mem_singleton_self n))
  | .array es, h =>
    exact prints_brackets (by decide) (by decide) (prints_emitArray libc es h)
  | .object ms, h =>
    exact prints_brackets (by decide) (by decide) (prints_emitObject libc ms h)

theorem prints_emitArray (libc : Libc) (es : List JsonNode)
    (h : Encodable libc (textsElements es) (numbersElements es)) :
    Prints (emitArray libc es) (Json.emitArray libc es) := by
  match es, h with
  | [], _ => exact .nil
  | e :: es, h =>
    obtain ⟨he, hes⟩ := h.append
    have hvalue := prints_emitValue libc e he
    have hrest := (prints_comma es).bind (prints_emitArray libc es hes)
    rw [Json.emitArray, List.append_assoc]
    exact hvalue.bind hrest

theorem prints_emitObject (libc : Libc) (ms : List (List UInt8 × JsonNode))
    (h : Encodable libc (textsMembers ms) (numbersMembers ms)) :
    Prints (emitObject libc ms) (Json.emitObject libc ms) := by
  match ms, h with
  | [], _ => exact .nil
  | (k, v) :: ms, h =>
    obtain ⟨hk, hrest⟩ := h.cons
    obtain ⟨hv, hms⟩ := hrest.append
    have hvalue := prints_emitValue libc v hv
    have hrest := (prints_comma ms).bind (prints_emitObject libc ms hms)
    have hcolon : Prints (sbPutc 0x3A) (ascii ":") := .sbPutc (by decide)
    rw [Json.emitObject, List.append_assoc, List.append_assoc, List.append_assoc]
    exact (prints_emitString hk).bind (hcolon.bind (hvalue.bind hrest))

end

/-- The line end behind a child. -/
theorem prints_lineEnd {α : Type} (rest : List α) :
    Prints (sbPuts (if rest.isEmpty then ascii "\n" else ascii ",\n"))
      (if rest.isEmpty then ascii "\n" else ascii ",\n") := by
  apply Prints.sbPuts
  split_ifs <;> decide

/-- What stands between brackets on lines of their own. -/
theorem prints_lines {p : Out UInt8 Unit} {space opening text : List UInt8} {closing : UInt8}
    (hspace : Puttable space) (hopening : Puttable opening) (hclosing : closing ≠ 0)
    (hp : Prints p text) (level : ℕ) : Prints (do sbPuts opening; p; emitIndent space level; sbPutc closing)
      (opening ++ text ++ indent space level ++ [closing]) := by
  have hclose := (prints_emitIndent hspace level).bind (Prints.sbPutc hclosing)
  rw [List.append_assoc, List.append_assoc]
  exact (Prints.sbPuts hopening).bind (hp.bind hclose)

mutual

theorem prints_emitValueIndented (libc : Libc) {space : List UInt8} (hspace : Puttable space)
    (level : ℕ) (t : JsonNode) (h : Encodable libc (texts t) (numbers t)) :
    Prints (emitValueIndented libc space level t) (Json.emitValueIndented libc space level t) := by
  match t, h with
  | .null, _ => exact .sbPuts (by decide)
  | .bool true, _ => exact .sbPuts (by decide)
  | .bool false, _ => exact .sbPuts (by decide)
  | .string s, h => exact prints_emitString (h.nulFree s (List.mem_singleton_self s))
  | .number n, h => exact prints_emitNumber libc (h.shortNumbers n (List.mem_singleton_self n))
  | .array [], _ => exact .sbPuts (by decide)
  | .array (e :: es), h =>
    exact prints_lines hspace (by decide) (by decide)
      (prints_emitElements libc hspace level (e :: es) h) level
  | .object [], _ => exact .sbPuts (by decide)
  | .object (m :: ms), h =>
    exact prints_lines hspace (by decide) (by decide)
      (prints_emitMembers libc hspace level (m :: ms) h) level

theorem prints_emitElements (libc : Libc) {space : List UInt8} (hspace : Puttable space)
    (level : ℕ) (es : List JsonNode) (h : Encodable libc (textsElements es) (numbersElements es)) :
    Prints (emitElements libc space level es) (Json.emitElements libc space level es) := by
  match es, h with
  | [], _ => exact .nil
  | e :: es, h =>
    obtain ⟨he, hes⟩ := h.append
    have hvalue := prints_emitValueIndented libc hspace (level + 1) e he
    have hrest := (prints_lineEnd es).bind (prints_emitElements libc hspace level es hes)
    rw [Json.emitElements, List.append_assoc, List.append_assoc]
    exact (prints_emitIndent hspace (level + 1)).bind (hvalue.bind hrest)

theorem prints_emitMembers (libc : Libc) {space : List UInt8} (hspace : Puttable space)
    (level : ℕ) (ms : List (List UInt8 × JsonNode))
    (h : Encodable libc (textsMembers ms) (numbersMembers ms)) :
    Prints (emitMembers libc space level ms) (Json.emitMembers libc space level ms) := by
  match ms, h with
  | [], _ => exact .nil
  | (k, v) :: ms, h =>
    obtain ⟨hk, hrest⟩ := h.cons
    obtain ⟨hv, hms⟩ := hrest.append
    have hvalue := prints_emitValueIndented libc hspace (level + 1) v hv
    have hrest := (prints_lineEnd ms).bind (prints_emitMembers libc hspace level ms hms)
    have hcolon : Prints (sbPuts (ascii ": ")) (ascii ": ") := .sbPuts (by decide)
    rw [Json.emitMembers, List.append_assoc, List.append_assoc, List.append_assoc, List.append_assoc]
    exact (prints_emitIndent hspace (level + 1)).bind
      ((prints_emitString hk).bind (hcolon.bind (hvalue.bind hrest)))

end

/-- The text is returned as it was written, from an allocation of twice its size at most. -/
theorem Prints.finish {p : Out UInt8 Unit} {text : List UInt8} (h : Prints p text) :
    ∃ b, (do p; sbFinish) sbInit = .ok (text, b) ∧
      b.alloc ≤ max 16 (2 * (text.length + 14)) := by
  obtain ⟨b, hok, hwritten, hready⟩ := h.writes sbInit (ready_empty growth (by decide))
  have htext : b.written = text := hwritten
  have htight := hready.tight
  rw [htext] at htight
  refine ⟨b, ?_, htight⟩
  change (p sbInit >>= fun r ↦ sbFinish r.2) = _
  rw [hok]
  change (if strlen b.written = b.written.length then _ else _) = _
  rw [htext, if_pos (strlen_of_nulFree h.nulFree)]

/-- The text of a tree, indented with a `space` or compact. -/
def textWith (libc : Libc) (t : JsonNode) : Option CString → List UInt8
  | some space => Json.jsonStringify libc t space.bytes
  | none => jsonEncode libc t

/-- `json_encode_string` -/
theorem jsonEncodeString_eq {s : List UInt8} (h : 0 ∉ s) :
    ∃ b, jsonEncodeString s sbInit = .ok (Json.emitString s, b) ∧
      b.alloc ≤ max 16 (2 * ((Json.emitString s).length + 14)) :=
  (prints_emitString h).finish

/-- `json_stringify` writes the text of the tree, with neither a write behind the end of a buffer
nor a failed assertion, if the length of `space` fits an `int`, and the text of each number the
64 characters of `emit_number`. -/
theorem jsonStringify_eq (libc : Libc) (space : Option CString) {t : JsonNode}
    (hspace : ∀ s ∈ space, s.bytes.length < 2 ^ 31)
    (htexts : ∀ s ∈ texts t, 0 ∉ s)
    (hnumbers : ∀ n ∈ numbers t, (libc.formatG16 n).length < 64) :
    ∃ b, jsonStringify libc t (space.map CString.bytes) sbInit = .ok (textWith libc t space, b) ∧
      b.alloc ≤ max 16 (2 * ((textWith libc t space).length + 14)) := by
  have h : Encodable libc (texts t) (numbers t) := ⟨htexts, hnumbers⟩
  cases space with
  | some space =>
    have hput : Puttable space.bytes := ⟨space.nulFree, hspace space rfl⟩
    exact (prints_emitValueIndented libc hput 0 t h).finish
  | none => exact (prints_emitValue libc t h).finish

/-- A control character needs six bytes. -/
theorem jsonStringify_array : ∃ b,
    jsonStringify exactLibc (.array [.string [0x01], .number 7]) (some [0x09]) sbInit =
        .ok (ascii "[\n\t\"\\u0001\",\n\t7\n]", b) ∧ b.alloc ≤ 62 :=
  jsonStringify_eq exactLibc (some ⟨[0x09], by decide⟩)
    (t := .array [.string [0x01], .number 7]) (by simp) (by decide) (by decide)

/-! ## What the decoder writes -/

/-- The character at the cursor and the text behind it. -/
def scanChar (s : List UInt8) : Option (List UInt8 × List UInt8) :=
  if peek s = 0x5C then parseEscape s.tail
  else if peek s ≤ 0x1F then none
  else if utf8ValidateCz s = 0 then none
  else some (s.take (utf8ValidateCz s), s.drop (utf8ValidateCz s))

theorem parseChars_succ (fuel : ℕ) (s : List UInt8) :
    Json.parseChars (fuel + 1) s = if peek s = 0x22 then some ([], s.tail)
      else (scanChar s).bind fun r ↦
        (Json.parseChars fuel r.2).map fun r' ↦ (r.1 ++ r'.1, r'.2) := by
  rw [Json.parseChars, scanChar]
  simp only [Option.bind_eq_bind, Option.map_eq_bind]
  split_ifs <;> rfl

theorem utf8ValidateCz_le (s : List UInt8) : utf8ValidateCz s ≤ 4 := by
  unfold utf8ValidateCz
  grind

/-- No character takes more than the four bytes that are reserved for it. -/
theorem length_scanChar {s w rest : List UInt8} (h : scanChar s = some (w, rest)) :
    w.length ≤ 4 ∧ rest.length < s.length := by
  unfold scanChar at h
  split_ifs at h with hslash hcontrol hlen
  · have hback := length_tail_lt (s := s) (by rw [hslash]; decide)
    have hrest := length_parseEscape h
    obtain ⟨u, c, -, -, rfl⟩ := parseEscape_sound h
    rw [String.length_utf8EncodeChar]
    exact ⟨c.utf8Size_le_four, hrest.trans_lt hback⟩
  · obtain ⟨rfl, rfl⟩ := Prod.mk.inj (Option.some.inj h)
    have hbyte := length_tail_lt (s := s) fun h0 ↦ hcontrol (h0 ▸ by decide)
    have hle := utf8ValidateCz_le s
    simp only [List.length_take, List.length_drop]
    omega

variable {g : Growth}

/-- A round of `parse_string` in the room for one character. -/
theorem writes_parseChar (hg : 4 ≤ g.slack) (s : List UInt8) :
    Writes g 4 0 (parseChar s) ((scanChar s).elim [] Prod.fst) ((scanChar s).map Prod.snd) := by
  have hnone : Writes g 4 0 (pure none : Out UInt8 (Option (List UInt8))) [] none :=
    (Writes.pure none).weaken (Nat.zero_le 4) hg
  have hsome {w : List UInt8} (rest : List UInt8) (hw : w.length ≤ 4) :
      Writes g 4 0 (do pushAll w; pure (some rest)) w (some rest) := by
    have hpush : Writes g (0 + w.length) 0 (pushAll w) w () := .pushAll w
    rw [Nat.zero_add] at hpush
    exact ((hpush.bind (.pure (some rest))).congr (List.append_nil w)).widen hw hg
  have hlong : ∀ r ∈ scanChar s, r.1.length ≤ 4 := fun r hr ↦ (length_scanChar hr).1
  unfold scanChar at hlong ⊢
  unfold parseChar
  simp only
  split_ifs at hlong ⊢
  · cases hescape : parseEscape s.tail with
    | none => exact hnone
    | some r => exact hsome r.2 (hlong r hescape)
  · exact hnone
  · exact hnone
  · exact hsome _ (hlong _ rfl)

/-- The size of `sb_init`, and the room for one character. -/
def stringGrowth : Growth := ⟨16, 4⟩

/-- The loop writes the string, or a part of it before it fails. -/
theorem writes_parseChars (fuel : ℕ) {s : List UInt8} (hfuel : s.length < fuel) :
    ∃ w, (∀ r ∈ Json.parseChars fuel s, r.1 = w) ∧ Writes stringGrowth 4 0 (parseChars true fuel s) w
      ((Json.parseChars fuel s).map Prod.snd) := by
  induction fuel generalizing s with
  | zero => exact absurd hfuel (Nat.not_lt_zero _)
  | succ fuel ih =>
    rw [parseChars_succ, parseChars]
    by_cases hquote : peek s = 0x22
    · rw [if_pos hquote, if_pos hquote]
      refine ⟨[], ?_, (Writes.pure (some s.tail)).weaken (Nat.zero_le 4) (by decide)⟩
      rintro r ⟨⟩
      rfl
    · rw [if_neg hquote, if_neg hquote]
      have hround := writes_parseChar (g := stringGrowth) (by decide) s
      cases hscan : scanChar s with
      | none =>
        rw [hscan] at hround
        exact ⟨[], fun r hr ↦ (nomatch hr), hround.bind (.pure none)⟩
      | some r =>
        rw [hscan] at hround
        obtain ⟨w, hw, hwrites⟩ := ih (Nat.lt_of_lt_of_le (length_scanChar hscan).2
          (Nat.le_of_lt_succ hfuel))
        have hnext : Writes stringGrowth 0 0 (do nextChar true; parseChars true fuel r.2)
            ([] ++ w) ((Json.parseChars fuel r.2).map Prod.snd) :=
          (Writes.reserve (Nat.zero_le _)).bind hwrites
        refine ⟨r.1 ++ w, ?_, ?_⟩
        · rintro r' hr'
          obtain ⟨r'', hr'', rfl⟩ := Option.map_eq_some_iff.mp hr'
          exact congrArg (r.1 ++ ·) (hw r'' hr'')
        · rw [Option.bind_some, Option.map_map]
          exact hround.bind hnext

/-- Every character fits into the throwaway buffer. -/
theorem parseChars_throwaway (fuel : ℕ) {s : List UInt8} (hfuel : s.length < fuel) :
    ∃ b, parseChars false fuel s (.empty UInt8 4 (by decide)) =
      .ok ((Json.parseChars fuel s).map Prod.snd, b) := by
  induction fuel generalizing s with
  | zero => exact absurd hfuel (Nat.not_lt_zero _)
  | succ fuel ih =>
    rw [parseChars_succ, parseChars]
    by_cases hquote : peek s = 0x22
    · rw [if_pos hquote, if_pos hquote]
      exact ⟨_, rfl⟩
    · rw [if_neg hquote, if_neg hquote]
      have hready : Ready ⟨4, 4⟩ 4 (Buffer.empty UInt8 4 (by decide)) :=
        ⟨Nat.le_refl 4, Nat.le_max_left _ _⟩
      obtain ⟨b, hok, -, -⟩ := writes_parseChar (Nat.le_refl 4) s _ hready
      cases hscan : scanChar s with
      | none =>
        rw [hscan] at hok
        refine ⟨b, ?_⟩
        change (parseChar s _ >>= fun r ↦ _) = _
        rw [hok]
        rfl
      | some r =>
        rw [hscan] at hok
        obtain ⟨b', hok'⟩ := ih (Nat.lt_of_lt_of_le (length_scanChar hscan).2
          (Nat.le_of_lt_succ hfuel))
        refine ⟨b', ?_⟩
        change (parseChar s _ >>= fun r ↦ _) = _
        rw [hok, Option.bind_some, Option.map_map]
        exact hok'

theorem nulFree_of_parseChars {fuel : ℕ} {s : List UInt8} {r : List UInt8 × List UInt8}
    (h : Json.parseChars fuel s = some r) : 0 ∉ r.1 := by
  obtain ⟨w, cs, hchars, -, hr⟩ := parseChars_sound h
  rw [hr]
  exact hchars.cleanText.nulFree

/-- With a result or without, `parse_string` reads what the decoder reads and stays within its
buffer. -/
theorem parseString_eq (s : List UInt8) :
    (∃ b, parseString true s sbInit =
        .ok ((Json.parseString s.length s).map fun r ↦ (some r.1, r.2), b) ∧
      b.alloc ≤ max 16 (2 * (b.written.length + 4))) ∧
    ∀ b, ∃ b', parseString false s b =
      .ok ((Json.parseString s.length s).map fun r ↦ (none, r.2), b') := by
  unfold parseString Json.parseString
  by_cases hquote : peek s = 0x22
  · have hfuel : s.tail.length < s.length := length_tail_lt (by rw [hquote]; decide)
    rw [if_neg (not_not.mpr hquote), if_neg (not_not.mpr hquote), if_pos hquote]
    constructor
    · obtain ⟨w, hw, hwrites⟩ := writes_parseChars s.length hfuel
      have hloop : Writes stringGrowth 0 0 (do nextChar true; parseChars true s.length s.tail)
          ([] ++ w) ((Json.parseChars s.length s.tail).map Prod.snd) :=
        (Writes.reserve (Nat.zero_le _)).bind hwrites
      obtain ⟨b, hok, hwritten, hready⟩ := hloop sbInit (ready_empty stringGrowth (by decide))
      have hstr : b.written = w := hwritten
      refine ⟨b, ?_, hready.tight⟩
      change ((do nextChar true; parseChars true s.length s.tail) sbInit >>= fun r ↦ _) = _
      rw [hok]
      cases hparse : Json.parseChars s.length s.tail with
      | none => rfl
      | some r =>
        change (sbFinish b >>= fun r' ↦ _) = _
        have hnul : 0 ∉ b.written := by
          rw [hstr, ← hw r hparse]
          exact nulFree_of_parseChars hparse
        rw [sbFinish, if_pos (strlen_of_nulFree hnul), hstr, ← hw r hparse]
        rfl
    · intro b
      obtain ⟨b', hok⟩ := parseChars_throwaway s.length hfuel
      refine ⟨b', ?_⟩
      change (parseChars false s.length s.tail (.empty UInt8 4 (by decide)) >>= fun r ↦ _) = _
      rw [hok]
      cases hparse : Json.parseChars s.length s.tail with
      | none => rfl
      | some r => rfl
  · rw [if_pos hquote, if_pos hquote, if_neg hquote]
    exact ⟨⟨sbInit, rfl, by decide⟩, fun b ↦ ⟨b, rfl⟩⟩

end Stored.Json.Buffered
