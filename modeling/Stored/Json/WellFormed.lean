import Stored.Json.Check
import Stored.Json.Grammar
import Stored.Json.Parser

/-!
# Decoded trees are well formed

Whatever text is decoded, its keys and strings come out as UTF-8 without a NUL, so that `json_check`
accepts the nodes that `json_decode` has made.
-/

namespace Stored.Json

open Bytes Utf8

/-- A text of Unicode characters of which none is NUL. -/
def CleanText (s : List UInt8) : Prop := ∃ cs : List Char, s = encode cs ∧ ∀ c ∈ cs, c.toNat ≠ 0

theorem CleanText.validUtf8 {s : List UInt8} (h : CleanText s) : ValidUtf8 s :=
  h.imp fun _ hcs ↦ hcs.1

theorem zero_notMem_utf8EncodeChar {c : Char} (h : c.toNat ≠ 0) : 0 ∉ String.utf8EncodeChar c := by
  intro hmem
  by_cases hascii : c.toNat ≤ 0x7F
  · rw [utf8EncodeChar_of_le hascii, List.mem_singleton] at hmem
    have hnat := congrArg UInt8.toNat hmem
    rw [UInt8.toNat_ofNat'] at hnat
    change 0 = c.toNat % 256 at hnat
    omega
  · have hlong : 1 < (String.utf8EncodeChar c).length := by
      rw [utf8EncodeChar_eq, encodeNat, if_neg hascii]
      split_ifs <;> simp
    exact absurd ((utf8Char_encodeChar c).le_of_mem hlong hmem) (by decide)

/-- A C string can hold the text. -/
theorem CleanText.nulFree {s : List UInt8} (h : CleanText s) : 0 ∉ s := by
  obtain ⟨cs, rfl, hcs⟩ := h
  intro hmem
  obtain ⟨c, hc, hzero⟩ := List.mem_flatMap.mp hmem
  exact zero_notMem_utf8EncodeChar (hcs c hc) hzero

theorem Escape.toNat_ne_zero {w : List UInt8} {c : Char} (h : Escape w c) : c.toNat ≠ 0 := by
  cases h with
  | short hmem =>
    have hall : ∀ e ∈ shortEscapes, e.2 ≠ 0 := by decide
    exact hall _ hmem
  | unit _ h0 => exact h0
  | pair _ _ _ _ hc => omega

theorem Chars.cleanText {s : List UInt8} {cs : List Char} (h : Chars s cs) :
    CleanText (encode cs) := by
  refine ⟨cs, rfl, ?_⟩
  induction h with
  | nil => exact List.forall_mem_nil _
  | plain hcontrol _ _ _ ih => exact List.forall_mem_cons.mpr ⟨by omega, ih⟩
  | escape hw _ ih => exact List.forall_mem_cons.mpr ⟨hw.toNat_ne_zero, ih⟩

variable {reads : List UInt8 → ℚ → Prop}

mutual

theorem Value.cleanTexts {w : List UInt8} {t : JsonNode} (h : Value reads w t) :
    ∀ s ∈ texts t, CleanText s := by
  match h with
  | .null => exact List.forall_mem_nil _
  | .bool b => exact List.forall_mem_nil _
  | .string hs => exact List.forall_mem_singleton.mpr hs.cleanText
  | .number _ _ => exact List.forall_mem_nil _
  | .emptyArray _ => exact List.forall_mem_nil _
  | .array hs => exact hs.cleanTexts
  | .emptyObject _ => exact List.forall_mem_nil _
  | .object hs => exact hs.cleanTexts

theorem Elements.cleanTexts {w : List UInt8} {es : List JsonNode} (h : Elements reads w es) :
    ∀ s ∈ textsElements es, CleanText s := by
  match h with
  | .last _ hw _ =>
    rw [textsElements, List.forall_mem_append]
    exact ⟨hw.cleanTexts, List.forall_mem_nil _⟩
  | .comma _ hw _ hs =>
    rw [textsElements, List.forall_mem_append]
    exact ⟨hw.cleanTexts, hs.cleanTexts⟩

theorem Member.cleanTexts {w : List UInt8} {m : List UInt8 × JsonNode} (h : Member reads w m) :
    ∀ s ∈ m.1 :: texts m.2, CleanText s := by
  match h with
  | .mk hk _ _ hw => exact List.forall_mem_cons.mpr ⟨hk.cleanText, hw.cleanTexts⟩

theorem Members.cleanTexts {w : List UInt8} {ms : List (List UInt8 × JsonNode)}
    (h : Members reads w ms) : ∀ s ∈ textsMembers ms, CleanText s := by
  match h with
  | .last _ hw _ =>
    rw [textsMembers, ← List.cons_append, List.forall_mem_append]
    exact ⟨hw.cleanTexts, List.forall_mem_nil _⟩
  | .comma _ hw _ hs =>
    rw [textsMembers, ← List.cons_append, List.forall_mem_append]
    exact ⟨hw.cleanTexts, hs.cleanTexts⟩

end

/-- Every key and every string of a decoded tree is clean. -/
theorem cleanTexts_of_jsonDecode {libc : Libc} (json : CString) {t : JsonNode}
    (h : jsonDecode libc json.bytes = some t) : ∀ s ∈ texts t, CleanText s := by
  have hdocument : Document (fun _ _ ↦ True) json.bytes t :=
    document_of_jsonDecode (fun _ _ _ _ ↦ trivial) json.nulFree h
  obtain ⟨a, w, b, -, hw, -, -⟩ := hdocument
  exact hw.cleanTexts

end Stored.Json

namespace Stored.Json.Linked

open Bytes Separation Heap Assertion

/-- `json_check` as an operation on the tree that it reads. -/
theorem eventually_triple_jsonCheck (t : JsonNode) : ∀ᶠ fuel in Filter.atTop, ∀ a,
    Triple (detached t a) (jsonCheck fuel (some a)) fun r ↦
      fact (r = none ↔ ∀ s ∈ texts t, Utf8.ValidUtf8 s) * detached t a := by
  filter_upwards [eventually_jsonCheck t] with fuel hcheck a F m hholds
  obtain ⟨r, hr, hiff⟩ := hcheck m a (le_iff.mp (mul_le_mul_right le_top _) _ hholds)
  rw [hr]
  change (fact (r = none ↔ ∀ s ∈ texts t, Utf8.ValidUtf8 s) * detached t a * F).Holds m.cells
  rwa [fact_of hiff, one_mul]

/-- A text is decoded, the nodes checked and freed. -/
def decodeAndCheck (A : Alloc) (libc : Libc) (fuel : ℕ) (json : List UInt8) :
    Cmd (Option String) := do
  let root ← jsonDecode A libc fuel json
  if root = none then pure none
  else
    let message ← jsonCheck fuel root
    jsonDelete fuel root
    pure message

/-- `json_check` has nothing to say about a tree that `json_decode` returns. -/
theorem eventually_decodeAndCheck (A : Alloc) (libc : Libc) (json : CString) :
    ∀ᶠ fuel in Filter.atTop, Triple 1 (decodeAndCheck A libc fuel json.bytes) fun r ↦
      fact (r = none) := by
  cases hdecode : Json.jsonDecode libc json.bytes with
  | none =>
    filter_upwards [eventually_jsonDecode A libc json.bytes] with fuel hfuel
    rw [hdecode] at hfuel
    apply Triple.bind 1 hfuel (one_mul 1).symm
    intro root
    apply Triple.of_fact
    rintro rfl
    exact Triple.pure (fact_of rfl).ge
  | some t =>
    have htexts : ∀ s ∈ texts t, Utf8.ValidUtf8 s := fun s hs ↦
      (cleanTexts_of_jsonDecode json hdecode s hs).validUtf8
    filter_upwards [eventually_jsonDecode A libc json.bytes, eventually_triple_jsonCheck t,
      eventually_frees t] with fuel hfuel hcheck hfrees
    rw [hdecode] at hfuel
    apply Triple.bind 1 hfuel (one_mul 1).symm
    intro root
    rw [mul_one, decoded]
    apply Triple.of_iSup
    intro a
    apply Triple.of_fact
    rintro rfl
    rw [if_neg (Option.some_ne_none a)]
    apply Triple.bind 1 (hcheck a) (mul_one _).symm
    intro r
    rw [mul_one]
    apply Triple.of_fact
    intro hiff
    apply Triple.bind 1 (hfrees a) (mul_one _).symm
    intro x
    exact Triple.pure ((one_mul 1).le.trans (fact_of (hiff.mpr htexts)).ge)

end Stored.Json.Linked
