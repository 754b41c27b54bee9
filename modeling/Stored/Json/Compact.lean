import Stored.Json.Grammar

/-!
# The compact encoder

`json_encode` writes a tree without white space. Both encoders write texts of the grammar, whatever
the numbers are: a number that `sprintf` prints as no JSON number becomes `null`. Decoding either text
gives the same tree.
-/

namespace Stored.Json

open Bytes Utf8

mutual

/-- `emit_value`, with `emit_array` and `emit_object` -/
def emitValue (libc : Libc) : JsonNode → List UInt8
  | .null => ascii "null"
  | .bool b => if b then ascii "true" else ascii "false"
  | .string s => emitString s
  | .number n => emitNumber libc n
  | .array es => ascii "[" ++ emitArray libc es ++ ascii "]"
  | .object ms => ascii "\x7b" ++ emitObject libc ms ++ ascii "\x7d"

/-- The loop of `emit_array` -/
def emitArray (libc : Libc) : List JsonNode → List UInt8
  | [] => []
  | element :: rest =>
    emitValue libc element ++ (if rest.isEmpty then [] else ascii ",") ++ emitArray libc rest

/-- The loop of `emit_object` -/
def emitObject (libc : Libc) : List (List UInt8 × JsonNode) → List UInt8
  | [] => []
  | (key, member) :: rest =>
    emitString key ++ ascii ":" ++ emitValue libc member ++
      (if rest.isEmpty then [] else ascii ",") ++ emitObject libc rest

end

/-- `json_encode` -/
def jsonEncode (libc : Libc) (node : JsonNode) : List UInt8 := emitValue libc node

/-- A number as it is read again. -/
def rereadNumber (libc : Libc) (n : ℚ) : JsonNode :=
  if numberIsValid (libc.formatG16 n) then .number (libc.strtod (libc.formatG16 n)) else .null

mutual

/-- A tree as it is read again: every string and key repaired, every number printed and read. -/
def reread (libc : Libc) : JsonNode → JsonNode
  | .string s => .string (repair s)
  | .number n => rereadNumber libc n
  | .array es => .array (rereadElements libc es)
  | .object ms => .object (rereadMembers libc ms)
  | node => node

def rereadElements (libc : Libc) : List JsonNode → List JsonNode
  | [] => []
  | e :: es => reread libc e :: rereadElements libc es

def rereadMembers (libc : Libc) :
    List (List UInt8 × JsonNode) → List (List UInt8 × JsonNode)
  | [] => []
  | (k, v) :: ms => (repair k, reread libc v) :: rereadMembers libc ms

end

/-- What the decoder reads back between the quotation marks is in the grammar. -/
theorem chars_emitChars {s : List UInt8} (h : Readable s) :
    ∃ cs, Chars (emitChars 0 s) cs ∧ encode cs = repair s := by
  obtain ⟨n, hn⟩ := (settles_parseChars s []).answers h
  obtain ⟨w, cs, hw, heq, hstr⟩ := parseChars_sound hn
  rw [List.append_cancel_right heq]
  exact ⟨cs, hw, hstr.symm⟩

theorem value_emitString {reads : List UInt8 → ℚ → Prop} {s : List UInt8} (h : Readable s) :
    Value reads (emitString s) (.string (repair s)) := by
  obtain ⟨cs, hcs, heq⟩ := chars_emitChars h
  rw [← heq]
  exact .string hcs

variable {libc : Libc}

theorem number_of_numberIsValid {w : List UInt8} (h : numberIsValid w = true) : Number w := by
  obtain ⟨w', hw', heq⟩ := scanNumber_sound (beq_iff_eq.mp h)
  rw [heq, List.append_nil]
  exact hw'

theorem value_emitNumber (n : ℚ) :
    Value (fun w x ↦ x = libc.strtod w) (emitNumber libc n) (rereadNumber libc n) := by
  unfold emitNumber rereadNumber
  by_cases hvalid : numberIsValid (libc.formatG16 n) = true
  · rw [if_pos hvalid]
    simp only [hvalid, if_true]
    exact .number (number_of_numberIsValid hvalid) rfl
  · rw [if_neg hvalid]
    simp only [hvalid]
    exact .null

theorem member_emitString {reads : List UInt8 → ℚ → Prop} {k b w : List UInt8} {v : JsonNode}
    (hk : Readable k) (hb : Blank b) (hw : Value reads w v) :
    Member reads (emitString k ++ 0x3A :: (b ++ w)) (repair k, v) := by
  obtain ⟨cs, hcs, heq⟩ := chars_emitChars hk
  have hmember := Member.mk hcs blank_nil hb hw
  rw [heq] at hmember
  rw [emitString, List.cons_append, List.cons_append, List.append_assoc]
  exact hmember

/-- The numbers of the grammar, as `strtod` reads them. -/
abbrev readBy (libc : Libc) : List UInt8 → ℚ → Prop := fun w x ↦ x = libc.strtod w

mutual

theorem value_emitValue (t : JsonNode) (h : ReadableNode t) :
    Value (readBy libc) (emitValue libc t) (reread libc t) := by
  match t, h with
  | .null, _ => exact .null
  | .bool true, _ => exact .bool true
  | .bool false, _ => exact .bool false
  | .string s, h => exact value_emitString h
  | .number n, _ => exact value_emitNumber n
  | .array [], _ => exact .emptyArray blank_nil
  | .array (e :: es), h => exact .array (elements_emitArray e es h)
  | .object [], _ => exact .emptyObject blank_nil
  | .object ((k, v) :: ms), h => exact .object (members_emitObject k v ms h)
termination_by sizeOf t

theorem elements_emitArray (e : JsonNode) (es : List JsonNode) (h : ReadableElements (e :: es)) :
    Elements (readBy libc) (emitArray libc (e :: es)) (rereadElements libc (e :: es)) := by
  have he := value_emitValue e h.1
  match es, h with
  | [], _ =>
    have htext : emitArray libc [e] = [] ++ (emitValue libc e ++ []) := by
      simp only [emitArray, List.isEmpty_nil, if_true, List.append_nil, List.nil_append]
    rw [htext]
    exact .last blank_nil he blank_nil
  | e' :: es, h =>
    have htext : emitArray libc (e :: e' :: es) =
        [] ++ (emitValue libc e ++ ([] ++ 0x2C :: emitArray libc (e' :: es))) := by
      rw [emitArray, List.append_assoc]
      rfl
    rw [htext]
    exact .comma blank_nil he blank_nil (elements_emitArray e' es h.2)
termination_by sizeOf (e :: es)

theorem members_emitObject (k : List UInt8) (v : JsonNode) (ms : List (List UInt8 × JsonNode))
    (h : ReadableMembers ((k, v) :: ms)) :
    Members (readBy libc) (emitObject libc ((k, v) :: ms)) (rereadMembers libc ((k, v) :: ms)) := by
  have hv := member_emitString h.1 blank_nil (value_emitValue v h.2.1)
  match ms, h with
  | [], _ =>
    have htext : emitObject libc [(k, v)] =
        [] ++ ((emitString k ++ 0x3A :: ([] ++ emitValue libc v)) ++ []) := by
      simp only [emitObject, List.isEmpty_nil, if_true, List.append_nil, List.nil_append]
      rw [List.append_assoc]
      rfl
    rw [htext]
    exact .last blank_nil hv blank_nil
  | (k', v') :: ms, h =>
    have htext : emitObject libc ((k, v) :: (k', v') :: ms) =
        [] ++ ((emitString k ++ 0x3A :: ([] ++ emitValue libc v)) ++
          ([] ++ 0x2C :: emitObject libc ((k', v') :: ms))) := by
      rw [emitObject, List.append_assoc, List.append_assoc (emitString k)]
      rfl
    rw [htext]
    exact .comma blank_nil hv blank_nil (members_emitObject k' v' ms h.2.2)
termination_by sizeOf ((k, v) :: ms)

end

variable {space : List UInt8}

theorem blank_indent (hspace : Blank space) (level : ℕ) : Blank (indent space level) := by
  intro c hc
  obtain ⟨s, hs, hmem⟩ := List.mem_flatten.mp hc
  rw [List.eq_of_mem_replicate hs] at hmem
  exact hspace c hmem

theorem blank_newline : Blank (ascii "\n") := by
  intro c hc
  exact .inr (.inr (.inl (List.mem_singleton.mp hc)))

theorem blank_blank : Blank (ascii " ") := by
  intro c hc
  exact .inl (List.mem_singleton.mp hc)

mutual

theorem value_emitValueIndented (hspace : Blank space) (level : ℕ) (t : JsonNode)
    (h : ReadableNode t) :
    Value (readBy libc) (emitValueIndented libc space level t) (reread libc t) := by
  match t, h with
  | .null, _ => exact .null
  | .bool true, _ => exact .bool true
  | .bool false, _ => exact .bool false
  | .string s, h => exact value_emitString h
  | .number n, _ => exact value_emitNumber n
  | .array [], _ => exact .emptyArray blank_nil
  | .array (e :: es), h =>
    have helements := (elements_emitElements hspace level e es h).append_blank
      (blank_indent hspace level)
    have harray := Value.array (helements.blank_append blank_newline)
    rw [emitValueIndented, List.append_assoc (ascii "[\n")]
    exact harray
  | .object [], _ => exact .emptyObject blank_nil
  | .object ((k, v) :: ms), h =>
    have hmembers := (members_emitMembers hspace level k v ms h).append_blank
      (blank_indent hspace level)
    have hobject := Value.object (hmembers.blank_append blank_newline)
    rw [emitValueIndented, List.append_assoc (ascii "\x7b\n")]
    exact hobject
termination_by sizeOf t

theorem elements_emitElements (hspace : Blank space) (level : ℕ) (e : JsonNode) (es : List JsonNode)
    (h : ReadableElements (e :: es)) : Elements (readBy libc)
      (emitElements libc space level (e :: es)) (rereadElements libc (e :: es)) := by
  have he := value_emitValueIndented hspace (level + 1) e h.1
  have hindent := blank_indent hspace (level + 1)
  match es, h with
  | [], _ =>
    have hlast := Elements.last hindent he blank_newline
    have htext : emitElements libc space level [e] = indent space (level + 1) ++
        (emitValueIndented libc space (level + 1) e ++ ascii "\n") := by
      simp only [emitElements, List.isEmpty_nil, if_true, List.append_nil, List.append_assoc]
    rw [htext]
    exact hlast
  | e' :: es, h =>
    have hrest := (elements_emitElements hspace level e' es h.2).blank_append blank_newline
    have htext : emitElements libc space level (e :: e' :: es) =
        indent space (level + 1) ++ (emitValueIndented libc space (level + 1) e ++
          ([] ++ 0x2C :: (ascii "\n" ++ emitElements libc space level (e' :: es)))) := by
      rw [emitElements, List.append_assoc, List.append_assoc]
      rfl
    rw [htext]
    exact .comma hindent he blank_nil hrest
termination_by sizeOf (e :: es)

theorem members_emitMembers (hspace : Blank space) (level : ℕ) (k : List UInt8) (v : JsonNode)
    (ms : List (List UInt8 × JsonNode)) (h : ReadableMembers ((k, v) :: ms)) :
    Members (readBy libc) (emitMembers libc space level ((k, v) :: ms))
      (rereadMembers libc ((k, v) :: ms)) := by
  have hv := member_emitString h.1 blank_blank (value_emitValueIndented hspace (level + 1) v h.2.1)
  have hindent := blank_indent hspace (level + 1)
  match ms, h with
  | [], _ =>
    have hlast := Members.last hindent hv blank_newline
    have htext : emitMembers libc space level [(k, v)] = indent space (level + 1) ++
        (emitString k ++ 0x3A :: (ascii " " ++ emitValueIndented libc space (level + 1) v) ++
          ascii "\n") := by
      simp only [emitMembers, List.isEmpty_nil, if_true, List.append_nil, List.append_assoc]
      rfl
    rw [htext]
    exact hlast
  | (k', v') :: ms, h =>
    have hrest := (members_emitMembers hspace level k' v' ms h.2.2).blank_append blank_newline
    have htext : emitMembers libc space level ((k, v) :: (k', v') :: ms) =
        indent space (level + 1) ++
          (emitString k ++ 0x3A :: (ascii " " ++ emitValueIndented libc space (level + 1) v) ++
            ([] ++ 0x2C :: (ascii "\n" ++ emitMembers libc space level ((k', v') :: ms)))) := by
      rw [emitMembers]
      simp only [List.append_assoc]
      rfl
    rw [htext]
    exact .comma hindent hv blank_nil hrest
termination_by sizeOf ((k, v) :: ms)

end

/-- White space around a value is none of the value's. -/
theorem document_of_value {reads : List UInt8 → ℚ → Prop} {w : List UInt8} {t : JsonNode}
    (h : Value reads w t) : Document reads w t :=
  ⟨[], w, [], blank_nil, h, blank_nil, (List.append_nil w).symm⟩

theorem blank_tab : Blank [0x09] := by
  intro c hc
  rw [List.mem_singleton.mp hc]
  decide

end Stored.Json
