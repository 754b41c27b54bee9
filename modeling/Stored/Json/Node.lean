import Mathlib.Data.Rat.Defs
import Stored.Json.Unicode

/-!
# JSON trees and the indented encoder

`JsonNode` is the tree a `JsonNode *` of json.c spans: an array holds its children in list order,
an object also their keys. The emit functions return the bytes that the source appends to its
string buffer; the same functions on the growing buffer are those of `Json.Buffered`. The program is
built without assertions, so a text that is not UTF-8 is repaired by `emitString`, not refused.
-/

namespace Stored.Json

open Bytes

inductive JsonNode
  | null
  | bool (b : Bool)
  | string (s : List UInt8)
  | number (n : ℚ)
  | array (elements : List JsonNode)
  | object (members : List (List UInt8 × JsonNode))

/-- What the encoder puts behind a number: the end of the text, a newline or a comma. -/
def NumberEnd (c : UInt8) : Prop := c = 0 ∨ c = 0x0A ∨ c = 0x2C

/-- What json.c takes from the C library: `sprintf("%.16g")` and `strtod`, both exact on the
integers that an `int` holds. -/
structure Libc where
  formatG16 : ℚ → List UInt8
  strtod : List UInt8 → ℚ
  formatG16_int : ∀ i : Int32, formatG16 i.toInt = decimal i.toInt
  strtod_int : ∀ (i : Int32) (rest : List UInt8), NumberEnd (peek rest) →
    strtod (decimal i.toInt ++ rest) = i.toInt

/-- `if (!is_digit(*s)) return false; do { s++; } while (is_digit(*s));` -/
def scanDigits (s : List UInt8) : Option (List UInt8) :=
  if isDigit (peek s) then some (s.dropWhile isDigit) else none

/-- `'-'? (0 | [1-9][0-9]*)` -/
def scanInteger (s : List UInt8) : Option (List UInt8) :=
  let s := if peek s = 0x2D then s.tail else s
  if peek s = 0x30 then some s.tail else scanDigits s

/-- `('.' [0-9]+)?` -/
def scanFraction (s : List UInt8) : Option (List UInt8) :=
  if peek s = 0x2E then scanDigits s.tail else some s

/-- `([Ee] [+-]? [0-9]+)?` -/
def scanExponent (s : List UInt8) : Option (List UInt8) :=
  if peek s = 0x45 ∨ peek s = 0x65 then
    let s := s.tail
    scanDigits (if peek s = 0x2B ∨ peek s = 0x2D then s.tail else s)
  else some s

/-- The pattern of `parse_number`; the result is the text behind the number. -/
def scanNumber (s : List UInt8) : Option (List UInt8) :=
  ((scanInteger s).bind scanFraction).bind scanExponent

/-- `number_is_valid` -/
def numberIsValid (num : List UInt8) : Bool := scanNumber num == some []

/-- `emit_number` -/
def emitNumber (libc : Libc) (num : ℚ) : List UInt8 :=
  let buf := libc.formatG16 num
  if numberIsValid buf then buf else ascii "null"

/-- The loop of `emit_string`. The first argument counts the bytes of the current character that
are still to be copied by `while (len--)`. As `escape_unicode` is false, the bytes written as
`\u` escapes are the control characters below 0x1F, of one byte each. -/
def emitChars : ℕ → List UInt8 → List UInt8
  | _, [] => []
  | len + 1, c :: s => c :: emitChars len s
  | 0, c :: s =>
    if c = 0x22 then 0x5C :: 0x22 :: emitChars 0 s
    else if c = 0x5C then 0x5C :: 0x5C :: emitChars 0 s
    else if c = 0x08 then 0x5C :: 0x62 :: emitChars 0 s
    else if c = 0x0C then 0x5C :: 0x66 :: emitChars 0 s
    else if c = 0x0A then 0x5C :: 0x6E :: emitChars 0 s
    else if c = 0x0D then 0x5C :: 0x72 :: emitChars 0 s
    else if c = 0x09 then 0x5C :: 0x74 :: emitChars 0 s
    else
      let len := utf8ValidateCz (c :: s)
      -- an invalid byte becomes U+FFFD and is skipped
      if len = 0 then 0xEF :: 0xBF :: 0xBD :: emitChars 0 s
      else if c < 0x1F then 0x5C :: 0x75 :: writeHex16 c.toUInt16 ++ emitChars 0 s
      else c :: emitChars (len - 1) s

/-- `emit_string` -/
def emitString (str : List UInt8) : List UInt8 := 0x22 :: emitChars 0 str ++ [0x22]

/-- `for (i = 0; i < indent_level; i++) sb_puts(out, space);` -/
def indent (space : List UInt8) (level : ℕ) : List UInt8 := (List.replicate level space).flatten

mutual

/-- `emit_value_indented` -/
def emitValueIndented (libc : Libc) (space : List UInt8) (level : ℕ) : JsonNode → List UInt8
  | .null => ascii "null"
  | .bool b => if b then ascii "true" else ascii "false"
  | .string s => emitString s
  | .number n => emitNumber libc n
  | .array [] => ascii "[]"
  | .array (element :: rest) =>
    ascii "[\n" ++ emitElements libc space level (element :: rest) ++ indent space level ++ ascii "]"
  | .object [] => ascii "\x7b\x7d"
  | .object (member :: rest) =>
    ascii "\x7b\n" ++ emitMembers libc space level (member :: rest) ++ indent space level ++ ascii "\x7d"

/-- The loop of `emit_array_indented` -/
def emitElements (libc : Libc) (space : List UInt8) (level : ℕ) : List JsonNode → List UInt8
  | [] => []
  | element :: rest =>
    indent space (level + 1) ++ emitValueIndented libc space (level + 1) element ++
      (if rest.isEmpty then ascii "\n" else ascii ",\n") ++ emitElements libc space level rest

/-- The loop of `emit_object_indented` -/
def emitMembers (libc : Libc) (space : List UInt8) (level : ℕ) :
    List (List UInt8 × JsonNode) → List UInt8
  | [] => []
  | (key, member) :: rest =>
    indent space (level + 1) ++ emitString key ++ ascii ": " ++
      emitValueIndented libc space (level + 1) member ++
      (if rest.isEmpty then ascii "\n" else ascii ",\n") ++ emitMembers libc space level rest

end

/-- `json_stringify` with a `space` that is not NULL; its length is to fit the `int` of `sb_put`. -/
def jsonStringify (libc : Libc) (node : JsonNode) (space : List UInt8) : List UInt8 :=
  emitValueIndented libc space 0 node

end Stored.Json
