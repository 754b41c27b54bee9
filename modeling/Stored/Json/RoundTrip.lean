import Stored.Json.Strings

/-!
# Trees through the encoder and the decoder

A tree whose numbers are integers that an `int` holds, stringified with any white space for its
indentation, is decoded to the same tree with repaired strings if all its strings and keys are
readable, and is refused otherwise.
-/

namespace Stored.Json

open Bytes Utf8 Partial

theorem scanDigits_append {s rest : List UInt8} (hs : ∀ c ∈ s, isDigit c = true) (hne : s ≠ [])
    (hrest : isDigit (peek rest) = false) : scanDigits (s ++ rest) = some rest := by
  have hdrop : rest.dropWhile isDigit = rest := by
    cases rest with
    | nil => rfl
    | cons c rest => exact List.dropWhile_cons_of_neg (by simpa using hrest)
  obtain ⟨c, s', rfl⟩ := List.exists_cons_of_ne_nil hne
  rw [scanDigits, List.cons_append, peek_cons, if_pos (hs c (by simp)), ← List.cons_append,
    List.dropWhile_append_of_pos hs, hdrop]

theorem scanInteger_decimalNat (n : ℕ) {rest : List UInt8} (hrest : isDigit (peek rest) = false) :
    scanInteger (decimalNat n ++ rest) = some rest := by
  by_cases hn : n = 0
  · subst hn
    rfl
  · obtain ⟨c, s, hs, hc, h48⟩ := decimalNat_eq_cons hn
    have hdigits : ∀ d ∈ c :: s, isDigit d = true := fun d hd ↦
      isDigit_of_mem_decimalNat (hs ▸ hd)
    have hminus : c ≠ 0x2D := by
      rintro rfl
      exact absurd hc (by decide)
    rw [hs]
    simpa [scanInteger, hminus, h48] using scanDigits_append hdigits (List.cons_ne_nil c s) hrest

theorem scanInteger_decimal (i : ℤ) {rest : List UInt8} (hrest : isDigit (peek rest) = false) :
    scanInteger (decimal i ++ rest) = some rest := by
  unfold decimal
  split_ifs with hneg
  · have hnat := scanInteger_decimalNat i.natAbs hrest
    have hn : i.natAbs ≠ 0 := by omega
    obtain ⟨c, s, hs, hc, h48⟩ := decimalNat_eq_cons hn
    have hminus : c ≠ 0x2D := by
      rintro rfl
      exact absurd hc (by decide)
    rw [hs] at hnat ⊢
    simpa [scanInteger, hminus] using hnat
  · exact scanInteger_decimalNat _ hrest

theorem scanNumber_decimal (i : ℤ) {rest : List UInt8} (hrest : NumberEnd (peek rest)) :
    scanNumber (decimal i ++ rest) = some rest := by
  have hends : isDigit (peek rest) = false ∧ peek rest ≠ 0x2E ∧ peek rest ≠ 0x45 ∧
      peek rest ≠ 0x65 := by
    rcases hrest with h | h | h <;> rw [h] <;> decide
  obtain ⟨hdigit, hdot, hE, he⟩ := hends
  rw [scanNumber, scanInteger_decimal i hdigit, Option.bind_some, scanFraction, if_neg hdot,
    Option.bind_some, scanExponent, if_neg (by simp [hE, he])]

theorem emitNumber_int (libc : Libc) (i : Int32) : emitNumber libc i.toInt = decimal i.toInt := by
  have hvalid : scanNumber (decimal i.toInt ++ []) = some [] :=
    scanNumber_decimal i.toInt (.inl rfl)
  rw [List.append_nil] at hvalid
  rw [emitNumber, libc.formatG16_int]
  simp [numberIsValid, hvalid]

theorem parseNumber_decimal (libc : Libc) (i : Int32) {rest : List UInt8}
    (hrest : NumberEnd (peek rest)) :
    parseNumber libc (decimal i.toInt ++ rest) = some (.number i.toInt, rest) := by
  simp [parseNumber, scanNumber_decimal i.toInt hrest, libc.strtod_int i rest hrest]

/-- A number starts with a minus sign or a digit. -/
theorem peek_decimal (i : ℤ) (rest : List UInt8) :
    peek (decimal i ++ rest) = 0x2D ∨ isDigit (peek (decimal i ++ rest)) = true := by
  unfold decimal
  split_ifs
  · exact .inl rfl
  · right
    by_cases hn : i.natAbs = 0
    · rw [hn]
      rfl
    · obtain ⟨c, s, hs, hc, -⟩ := decimalNat_eq_cons hn
      rw [hs]
      exact hc

/-- The first byte of a number starts no other value. -/
theorem number_start {c : UInt8} (h : c = 0x2D ∨ isDigit c = true) :
    isSpace c = false ∧ c ≠ 0x6E ∧ c ≠ 0x66 ∧ c ≠ 0x74 ∧ c ≠ 0x22 ∧ c ≠ 0x5B ∧ c ≠ 0x7B ∧
      c ≠ 0x5D := by
  rw [isDigit_iff] at h
  refine ⟨?_, ?_, ?_, ?_, ?_, ?_, ?_, ?_⟩ <;> grind [isSpace]

theorem skipSpace_of_peek {s : List UInt8} (h : isSpace (peek s) = false) : skipSpace s = s := by
  cases s with
  | nil => rfl
  | cons c s => exact List.dropWhile_cons_of_neg (by simpa using h)

theorem skipSpace_append {space : List UInt8} (hspace : ∀ c ∈ space, isSpace c = true)
    (s : List UInt8) : skipSpace (space ++ s) = skipSpace s :=
  List.dropWhile_append_of_pos hspace

theorem skipSpace_indent {space : List UInt8} (hspace : ∀ c ∈ space, isSpace c = true) (level : ℕ)
    (s : List UInt8) : skipSpace (indent space level ++ s) = skipSpace s := by
  refine skipSpace_append (fun c hc ↦ ?_) s
  obtain ⟨l, hl, hcl⟩ := List.mem_flatten.mp hc
  exact hspace c (List.eq_of_mem_replicate hl ▸ hcl)

mutual

/-- Every number of the tree is an `int`. -/
def IntNumbers : JsonNode → Prop
  | .number n => ∃ i : Int32, n = i.toInt
  | .array es => IntElements es
  | .object ms => IntMembers ms
  | _ => True

def IntElements : List JsonNode → Prop
  | [] => True
  | e :: es => IntNumbers e ∧ IntElements es

def IntMembers : List (List UInt8 × JsonNode) → Prop
  | [] => True
  | (_, v) :: ms => IntNumbers v ∧ IntMembers ms

end

mutual

/-- Every string and every key of the tree is readable. -/
def ReadableNode : JsonNode → Prop
  | .string s => Readable s
  | .array es => ReadableElements es
  | .object ms => ReadableMembers ms
  | _ => True

def ReadableElements : List JsonNode → Prop
  | [] => True
  | e :: es => ReadableNode e ∧ ReadableElements es

def ReadableMembers : List (List UInt8 × JsonNode) → Prop
  | [] => True
  | (k, v) :: ms => Readable k ∧ ReadableNode v ∧ ReadableMembers ms

end

mutual

/-- The tree with every string and key repaired. -/
def repairNode : JsonNode → JsonNode
  | .string s => .string (repair s)
  | .array es => .array (repairElements es)
  | .object ms => .object (repairMembers ms)
  | node => node

def repairElements : List JsonNode → List JsonNode
  | [] => []
  | e :: es => repairNode e :: repairElements es

def repairMembers : List (List UInt8 × JsonNode) → List (List UInt8 × JsonNode)
  | [] => []
  | (k, v) :: ms => (repair k, repairNode v) :: repairMembers ms

end

variable (libc : Libc) {space : List UInt8}

/-- No value starts with white space. -/
theorem skipSpace_emitValue (level : ℕ) {node : JsonNode} (hint : IntNumbers node)
    (t : List UInt8) : skipSpace (emitValueIndented libc space level node ++ t) =
      emitValueIndented libc space level node ++ t := by
  refine skipSpace_of_peek ?_
  cases node with
  | null => rfl
  | bool b => cases b <;> rfl
  | string s => rfl
  | number n =>
    obtain ⟨i, rfl⟩ := hint
    rw [emitValueIndented, emitNumber_int]
    exact (number_start (peek_decimal i.toInt t)).1
  | array es => cases es <;> rfl
  | object ms => cases ms <;> rfl

/-- The closing bracket is not taken for the start of an element. -/
theorem peek_emitValue_ne (level : ℕ) {node : JsonNode} (hint : IntNumbers node)
    (t : List UInt8) : peek (emitValueIndented libc space level node ++ t) ≠ 0x5D := by
  cases node with
  | null => exact (by decide : (0x6E : UInt8) ≠ 0x5D)
  | bool b =>
    cases b
    · exact (by decide : (0x66 : UInt8) ≠ 0x5D)
    · exact (by decide : (0x74 : UInt8) ≠ 0x5D)
  | string s => exact (by decide : (0x22 : UInt8) ≠ 0x5D)
  | number n =>
    obtain ⟨i, rfl⟩ := hint
    rw [emitValueIndented, emitNumber_int]
    exact (number_start (peek_decimal i.toInt t)).2.2.2.2.2.2.2
  | array es => cases es <;> exact (by decide : (0x5B : UInt8) ≠ 0x5D)
  | object ms => cases ms <;> exact (by decide : (0x7B : UInt8) ≠ 0x5D)

/-- What stands behind a value inside an array or an object. -/
def separator (last : Bool) : List UInt8 := if last then ascii "\n" else ascii ",\n"

theorem numberEnd_separator (last : Bool) (t : List UInt8) :
    NumberEnd (peek (separator last ++ t)) := by
  cases last
  · exact .inr (.inr rfl)
  · exact .inr (.inl rfl)

/-- A bracket or brace behind the last child, after its newline and the indentation. -/
theorem skipSpace_close (hspace : ∀ c ∈ space, isSpace c = true) (level : ℕ) {c : UInt8}
    (hc : isSpace c = false) (rest : List UInt8) :
    skipSpace (separator true ++ (indent space level ++ c :: rest)) = c :: rest :=
  (skipSpace_indent hspace level _).trans (skipSpace_of_peek hc)

theorem skipSpace_emitElements (hspace : ∀ c ∈ space, isSpace c = true) (level : ℕ)
    {e : JsonNode} (hint : IntNumbers e) (es : List JsonNode) (t : List UInt8) :
    skipSpace (emitElements libc space level (e :: es) ++ t) =
      emitValueIndented libc space (level + 1) e ++
        (separator es.isEmpty ++ (emitElements libc space level es ++ t)) := by
  rw [emitElements]
  simp only [List.append_assoc]
  rw [skipSpace_indent hspace, skipSpace_emitValue libc (level + 1) hint]
  rfl

theorem skipSpace_emitMembers (hspace : ∀ c ∈ space, isSpace c = true) (level : ℕ)
    (k : List UInt8) (v : JsonNode) (ms : List (List UInt8 × JsonNode)) (t : List UInt8) :
    skipSpace (emitMembers libc space level ((k, v) :: ms) ++ t) =
      emitString k ++ (ascii ": " ++ (emitValueIndented libc space (level + 1) v ++
        (separator ms.isEmpty ++ (emitMembers libc space level ms ++ t)))) := by
  rw [emitMembers]
  simp only [List.append_assoc]
  rw [skipSpace_indent hspace]
  rfl

theorem parseArray_succ {s : List UInt8} (hopen : peek s = 0x5B)
    (hne : peek (skipSpace s.tail) ≠ 0x5D) (fuel : ℕ) : parseArray libc (fuel + 1) s =
      (parseElements libc fuel (skipSpace s.tail)).map fun r ↦ (.array r.1, r.2) := by
  rw [parseArray, if_neg (not_not.mpr hopen)]
  exact if_neg hne

theorem parseObject_succ {s : List UInt8} (hopen : peek s = 0x7B)
    (hne : peek (skipSpace s.tail) ≠ 0x7D) (fuel : ℕ) : parseObject libc (fuel + 1) s =
      (parseMembers libc fuel (skipSpace s.tail)).map fun r ↦ (.object r.1, r.2) := by
  rw [parseObject, if_neg (not_not.mpr hopen)]
  exact if_neg hne

/-- What a parse loop does behind a child: stop at the closing byte, or go on behind a comma. -/
def loopAfter {α : Type} (close : UInt8) (next : List UInt8 → Option (List α × List UInt8))
    (child : α) (s : List UInt8) : Option (List α × List UInt8) :=
  let s := skipSpace s
  if peek s = close then some ([child], s.tail)
  else if peek s ≠ 0x2C then none
  else (next (skipSpace s.tail)).map fun r ↦ (child :: r.1, r.2)

theorem parseElements_succ (fuel : ℕ) (s : List UInt8) : parseElements libc (fuel + 1) s =
    (parseValue libc fuel s).bind fun r ↦ loopAfter 0x5D (parseElements libc fuel) r.1 r.2 := by
  rw [parseElements]
  simp only [loopAfter, Option.map_eq_bind]
  rfl

theorem parseMembers_succ (fuel : ℕ) (s : List UInt8) : parseMembers libc (fuel + 1) s =
    (parseString fuel s).bind fun k ↦
      if peek (skipSpace k.2) ≠ 0x3A then none
      else (parseValue libc fuel (skipSpace (skipSpace k.2).tail)).bind fun r ↦
        loopAfter 0x7D (parseMembers libc fuel) (k.1, r.1) r.2 := by
  rw [parseMembers]
  simp only [loopAfter, Option.map_eq_bind]
  rfl

/-- Behind the last child the loop stops. -/
theorem settles_loopAfter_last {α : Type} (hspace : ∀ c ∈ space, isSpace c = true) (level : ℕ)
    {c : UInt8} (hc : isSpace c = false)
    (next : ℕ → List UInt8 → Option (List α × List UInt8)) (child : α) (rest : List UInt8) :
    Settles (fun fuel ↦ loopAfter c (next fuel) child
      (separator true ++ (indent space level ++ c :: rest))) True ([child], rest) := by
  have hskip := skipSpace_close hspace level hc rest
  simpa only [loopAfter, hskip, peek_cons, if_true, List.tail_cons] using
    Settles.some ([child], rest)

/-- Behind any other child it goes on with the next one. -/
theorem settles_loopAfter_comma {α : Type} {c : UInt8} (hc : c ≠ 0x2C)
    {next : ℕ → List UInt8 → Option (List α × List UInt8)} (child : α) {t : List UInt8} {ok : Prop}
    {r : List α × List UInt8} (h : Settles (fun fuel ↦ next fuel (skipSpace t)) ok r) :
    Settles (fun fuel ↦ loopAfter c (next fuel) child (separator false ++ t)) ok
      (child :: r.1, r.2) := by
  have hloop (fuel : ℕ) : loopAfter c (next fuel) child (separator false ++ t) =
      (next fuel (skipSpace t)).map fun r ↦ (child :: r.1, r.2) :=
    (if_neg fun h ↦ hc h.symm).trans (if_neg fun h ↦ h rfl)
  simpa only [hloop] using h.map fun r ↦ (child :: r.1, r.2)

section

variable (hspace : ∀ c ∈ space, isSpace c = true)
include hspace

mutual

theorem settles_parseValue (level : ℕ) (node : JsonNode) (hint : IntNumbers node)
    (rest : List UInt8) (hrest : NumberEnd (peek rest)) :
    Settles (fun fuel ↦ parseValue libc fuel (emitValueIndented libc space level node ++ rest))
      (ReadableNode node) (repairNode node, rest) := by
  match node, hint with
  | .null, _ => exact (Settles.some (JsonNode.null, rest)).succ rfl fun fuel ↦ rfl
  | .bool true, _ => exact (Settles.some (JsonNode.bool true, rest)).succ rfl fun fuel ↦ rfl
  | .bool false, _ => exact (Settles.some (JsonNode.bool false, rest)).succ rfl fun fuel ↦ rfl
  | .string s, _ =>
    exact ((settles_parseString s rest).map fun r ↦ (JsonNode.string r.1, r.2)).succ rfl
      fun fuel ↦ rfl
  | .number n, hint =>
    obtain ⟨i, rfl⟩ := hint
    refine (Settles.some (JsonNode.number i.toInt, rest)).succ rfl fun fuel ↦ ?_
    obtain ⟨-, hn, hf, ht, hq, ha, ho, -⟩ := number_start (peek_decimal i.toInt rest)
    rw [emitValueIndented, emitNumber_int, parseValue, if_neg hn, if_neg hf, if_neg ht, if_neg hq,
      if_neg ha, if_neg ho, parseNumber_decimal libc i hrest]
  | .array [], _ =>
    exact ((Settles.some (JsonNode.array [], rest)).succ (F := fun n ↦ parseArray libc n _)
      rfl fun fuel ↦ rfl).succ rfl fun fuel ↦ rfl
  | .array (e :: es), hint =>
    have helements := settles_parseElements level e es hint rest
    have htail : skipSpace (emitValueIndented libc space level (.array (e :: es)) ++ rest).tail =
        skipSpace (emitElements libc space level (e :: es) ++
          (indent space level ++ 0x5D :: rest)) := by
      simp only [emitValueIndented, List.append_assoc]
      rfl
    have hne : peek (skipSpace (emitElements libc space level (e :: es) ++
        (indent space level ++ 0x5D :: rest))) ≠ 0x5D := by
      rw [skipSpace_emitElements libc hspace level hint.1]
      exact peek_emitValue_ne libc _ hint.1 _
    have harray := (helements.map fun r ↦ (JsonNode.array r.1, r.2)).succ
      (F := fun fuel ↦ parseArray libc fuel
        (emitValueIndented libc space level (.array (e :: es)) ++ rest)) rfl fun fuel ↦ by
      rw [parseArray_succ libc rfl (htail ▸ hne), htail]
    exact harray.succ rfl fun fuel ↦ rfl
  | .object [], _ =>
    exact ((Settles.some (JsonNode.object [], rest)).succ (F := fun n ↦ parseObject libc n _)
      rfl fun fuel ↦ rfl).succ rfl fun fuel ↦ rfl
  | .object ((k, v) :: ms), hint =>
    have hmembers := settles_parseMembers level k v ms hint rest
    have htail : skipSpace
        (emitValueIndented libc space level (.object ((k, v) :: ms)) ++ rest).tail =
        skipSpace (emitMembers libc space level ((k, v) :: ms) ++
          (indent space level ++ 0x7D :: rest)) := by
      simp only [emitValueIndented, List.append_assoc]
      rfl
    have hne : peek (skipSpace (emitMembers libc space level ((k, v) :: ms) ++
        (indent space level ++ 0x7D :: rest))) ≠ 0x7D := by
      rw [skipSpace_emitMembers libc hspace]
      exact (by decide : (0x22 : UInt8) ≠ 0x7D)
    have hobject := (hmembers.map fun r ↦ (JsonNode.object r.1, r.2)).succ
      (F := fun fuel ↦ parseObject libc fuel
        (emitValueIndented libc space level (.object ((k, v) :: ms)) ++ rest)) rfl fun fuel ↦ by
      rw [parseObject_succ libc rfl (htail ▸ hne), htail]
    exact hobject.succ rfl fun fuel ↦ rfl
termination_by sizeOf node

theorem settles_parseElements (level : ℕ) (e : JsonNode) (es : List JsonNode)
    (hint : IntElements (e :: es)) (rest : List UInt8) :
    Settles (fun fuel ↦ parseElements libc fuel
      (skipSpace (emitElements libc space level (e :: es) ++ (indent space level ++ 0x5D :: rest))))
      (ReadableElements (e :: es)) (repairElements (e :: es), rest) := by
  rw [skipSpace_emitElements libc hspace level hint.1]
  have hvalue := settles_parseValue (level + 1) e hint.1 _ (numberEnd_separator es.isEmpty
    (emitElements libc space level es ++ (indent space level ++ 0x5D :: rest)))
  cases es with
  | nil =>
    have hafter := settles_loopAfter_last hspace level (c := 0x5D) rfl (parseElements libc)
      (repairNode e) rest
    exact (hvalue.bind (g := fun r fuel ↦ loopAfter 0x5D (parseElements libc fuel) r.1 r.2)
      hafter).succ rfl fun fuel ↦ parseElements_succ libc fuel _
  | cons e' es =>
    have hafter := settles_loopAfter_comma (by decide : (0x5D : UInt8) ≠ 0x2C) (repairNode e)
      (settles_parseElements level e' es hint.2 rest)
    exact (hvalue.bind (g := fun r fuel ↦ loopAfter 0x5D (parseElements libc fuel) r.1 r.2)
      hafter).succ rfl fun fuel ↦ parseElements_succ libc fuel _
termination_by sizeOf (e :: es)

theorem settles_parseMembers (level : ℕ) (k : List UInt8) (v : JsonNode)
    (ms : List (List UInt8 × JsonNode)) (hint : IntMembers ((k, v) :: ms)) (rest : List UInt8) :
    Settles (fun fuel ↦ parseMembers libc fuel
      (skipSpace (emitMembers libc space level ((k, v) :: ms) ++
        (indent space level ++ 0x7D :: rest))))
      (ReadableMembers ((k, v) :: ms)) (repairMembers ((k, v) :: ms), rest) := by
  rw [skipSpace_emitMembers libc hspace]
  have hkey := settles_parseString k (ascii ": " ++ (emitValueIndented libc space (level + 1) v ++
    (separator ms.isEmpty ++ (emitMembers libc space level ms ++
      (indent space level ++ 0x7D :: rest)))))
  have hvalue := settles_parseValue (level + 1) v hint.1 _ (numberEnd_separator ms.isEmpty
    (emitMembers libc space level ms ++ (indent space level ++ 0x7D :: rest)))
  have hcolon (t : List UInt8) :
      skipSpace (skipSpace (ascii ": " ++ (emitValueIndented libc space (level + 1) v ++ t))).tail =
        emitValueIndented libc space (level + 1) v ++ t :=
    skipSpace_emitValue libc (level + 1) hint.1 t
  have hpeek (t : List UInt8) : peek (skipSpace (ascii ": " ++ t)) = 0x3A := rfl
  have hafter : Settles (fun fuel ↦ loopAfter 0x7D (parseMembers libc fuel)
      (repair k, repairNode v) (separator ms.isEmpty ++ (emitMembers libc space level ms ++
        (indent space level ++ 0x7D :: rest)))) (ReadableMembers ms)
      (repairMembers ((k, v) :: ms), rest) := by
    match ms, hint with
    | [], _ => exact settles_loopAfter_last hspace level (c := 0x7D) rfl (parseMembers libc) _ rest
    | (k', v') :: ms, hint =>
      exact settles_loopAfter_comma (by decide : (0x7D : UInt8) ≠ 0x2C) _
        (settles_parseMembers level k' v' ms hint.2 rest)
  have hmember := hvalue.bind
    (g := fun r fuel ↦ loopAfter 0x7D (parseMembers libc fuel) (repair k, r.1) r.2) hafter
  refine (hkey.bind (g := fun k fuel ↦ if peek (skipSpace k.2) ≠ 0x3A then none
    else (parseValue libc fuel (skipSpace (skipSpace k.2).tail)).bind fun r ↦
      loopAfter 0x7D (parseMembers libc fuel) (k.1, r.1) r.2) ?_).succ rfl
    fun fuel ↦ parseMembers_succ libc fuel _
  simpa only [hcolon, hpeek, ne_eq, not_true_eq_false, if_false] using hmember
termination_by sizeOf ((k, v) :: ms)

end

end

/-- The C library on integers, which it prints and reads exactly. -/
def exactLibc : Libc where
  formatG16 q := decimal q.num
  strtod s := if peek s = 0x2D then -(ofDigits (s.tail.takeWhile isDigit) : ℚ)
    else ofDigits (s.takeWhile isDigit)
  formatG16_int i := by simp
  strtod_int i rest hrest := by
    have hdigit : isDigit (peek rest) = false := by rcases hrest with h | h | h <;> rw [h] <;> rfl
    have htake (n : ℕ) : (decimalNat n ++ rest).takeWhile isDigit = decimalNat n := by
      have hnone : rest.takeWhile isDigit = [] := by
        cases rest with
        | nil => rfl
        | cons c rest => exact List.takeWhile_cons_of_neg (by simpa using hdigit)
      rw [List.takeWhile_append_of_pos fun c hc ↦ isDigit_of_mem_decimalNat hc, hnone,
        List.append_nil]
    generalize i.toInt = i
    unfold decimal
    split_ifs with hneg hminus hminus
    · rw [List.cons_append, List.tail_cons, htake, ofDigits_decimalNat]
      have habs : (i.natAbs : ℤ) = -i := by omega
      rw [← Int.cast_natCast, habs]
      simp
    · exact absurd rfl hminus
    · have hdigits : isDigit (peek (decimalNat i.natAbs ++ rest)) = true := by
        by_cases hn : i.natAbs = 0
        · rw [hn]
          rfl
        · obtain ⟨c, s, hs, hc, -⟩ := decimalNat_eq_cons hn
          rw [hs]
          exact hc
      rw [hminus] at hdigits
      exact absurd hdigits (by decide)
    · rw [htake, ofDigits_decimalNat]
      have habs : (i.natAbs : ℤ) = i := by omega
      rw [← Int.cast_natCast, habs]

/-- `json_decode` after `json_stringify`: the repaired tree, or a refusal. -/
theorem jsonDecode_jsonStringify {space : List UInt8} (hspace : ∀ c ∈ space, isSpace c = true)
    {node : JsonNode} (hint : IntNumbers node) :
    (ReadableNode node →
      jsonDecode libc (jsonStringify libc node space) = some (repairNode node)) ∧
    (¬ReadableNode node → jsonDecode libc (jsonStringify libc node space) = none) := by
  have hvalue := settles_parseValue libc hspace 0 node hint [] (.inl rfl)
  rw [List.append_nil] at hvalue
  have hskip : skipSpace (emitValueIndented libc space 0 node ++ []) = _ :=
    skipSpace_emitValue libc 0 hint []
  rw [List.append_nil] at hskip
  constructor
  · intro hread
    obtain ⟨fuel, hfuel⟩ := hvalue.answers hread
    refine decodeWith_below_jsonDecode libc fuel _ _ ?_
    simp only [decodeWith, jsonStringify, hskip, hfuel]
    rfl
  · intro hread
    simp only [jsonDecode, decodeWith, jsonStringify, hskip, hvalue.refuses hread]
    rfl

end Stored.Json
