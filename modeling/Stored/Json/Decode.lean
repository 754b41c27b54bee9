import Stored.Json.Node

/-!
# The decoder

Every parse function takes the text at the cursor and returns its result with the text left
behind it, or nothing where the source returns false. Recursion and loops count down a fuel;
`jsonDecode` starts with more than a text of its length can use up.
-/

namespace Stored.Json

open Bytes

/-- `is_space(c)` -/
def isSpace (c : UInt8) : Bool := c == 0x09 || c == 0x0A || c == 0x0D || c == 0x20

/-- `skip_space` -/
def skipSpace (s : List UInt8) : List UInt8 := s.dropWhile isSpace

/-- `expect_literal` -/
def expectLiteral : List UInt8 → List UInt8 → Option (List UInt8)
  | s, [] => some s
  | s, c :: str => if peek s = c then expectLiteral s.tail str else none

/-- A `\u` escape, with its low half where it starts a surrogate pair. -/
def parseUnicodeEscape (s : List UInt8) : Option (List UInt8 × List UInt8) := do
  let (uc, s) ← parseHex16 s
  if 0xD800 ≤ uc ∧ uc ≤ 0xDFFF then
    if peek s ≠ 0x5C then none
    else if peek s.tail ≠ 0x75 then none
    else
      let (lc, s) ← parseHex16 s.tail.tail
      let unicode ← fromSurrogatePair uc lc
      some (utf8WriteChar unicode, s)
  else if uc = 0 then none
  else some (utf8WriteChar uc.toUInt32, s)

/-- The byte behind a backslash and what it stands for. -/
def parseEscape (s : List UInt8) : Option (List UInt8 × List UInt8) :=
  let c := peek s
  let s := s.tail
  if c = 0x22 ∨ c = 0x5C ∨ c = 0x2F then some ([c], s)
  else if c = 0x62 then some ([0x08], s)
  else if c = 0x66 then some ([0x0C], s)
  else if c = 0x6E then some ([0x0A], s)
  else if c = 0x72 then some ([0x0D], s)
  else if c = 0x74 then some ([0x09], s)
  else if c = 0x75 then parseUnicodeEscape s
  else none

/-- The loop of `parse_string`, from behind the opening quotation mark. -/
def parseChars : ℕ → List UInt8 → Option (List UInt8 × List UInt8)
  | 0, _ => none
  | fuel + 1, s =>
    let c := peek s
    if c = 0x22 then some ([], s.tail)
    else if c = 0x5C then do
      let (b, s) ← parseEscape s.tail
      let (str, s) ← parseChars fuel s
      some (b ++ str, s)
    else if c ≤ 0x1F then none
    else
      let len := utf8ValidateCz s
      if len = 0 then none
      else do
        let (str, rest) ← parseChars fuel (s.drop len)
        some (s.take len ++ str, rest)

/-- `parse_string` -/
def parseString (fuel : ℕ) (s : List UInt8) : Option (List UInt8 × List UInt8) :=
  if peek s = 0x22 then parseChars fuel s.tail else none

/-- `parse_number` -/
def parseNumber (libc : Libc) (s : List UInt8) : Option (JsonNode × List UInt8) := do
  let rest ← scanNumber s
  some (.number (libc.strtod s), rest)

mutual

/-- `parse_value` -/
def parseValue (libc : Libc) : ℕ → List UInt8 → Option (JsonNode × List UInt8)
  | 0, _ => none
  | fuel + 1, s =>
    if peek s = 0x6E then (expectLiteral s (ascii "null")).map fun s ↦ (.null, s)
    else if peek s = 0x66 then (expectLiteral s (ascii "false")).map fun s ↦ (.bool false, s)
    else if peek s = 0x74 then (expectLiteral s (ascii "true")).map fun s ↦ (.bool true, s)
    else if peek s = 0x22 then (parseString fuel s).map fun (str, s) ↦ (.string str, s)
    else if peek s = 0x5B then parseArray libc fuel s
    else if peek s = 0x7B then parseObject libc fuel s
    else parseNumber libc s

/-- `parse_array` -/
def parseArray (libc : Libc) : ℕ → List UInt8 → Option (JsonNode × List UInt8)
  | 0, _ => none
  | fuel + 1, s =>
    if peek s ≠ 0x5B then none
    else
      let s := skipSpace s.tail
      if peek s = 0x5D then some (.array [], s.tail)
      else (parseElements libc fuel s).map fun (elements, s) ↦ (.array elements, s)

/-- `for (;;)` of `parse_array` -/
def parseElements (libc : Libc) : ℕ → List UInt8 → Option (List JsonNode × List UInt8)
  | 0, _ => none
  | fuel + 1, s => do
    let (element, s) ← parseValue libc fuel s
    let s := skipSpace s
    if peek s = 0x5D then some ([element], s.tail)
    else if peek s ≠ 0x2C then none
    else
      let (elements, s) ← parseElements libc fuel (skipSpace s.tail)
      some (element :: elements, s)

/-- `parse_object` -/
def parseObject (libc : Libc) : ℕ → List UInt8 → Option (JsonNode × List UInt8)
  | 0, _ => none
  | fuel + 1, s =>
    if peek s ≠ 0x7B then none
    else
      let s := skipSpace s.tail
      if peek s = 0x7D then some (.object [], s.tail)
      else (parseMembers libc fuel s).map fun (members, s) ↦ (.object members, s)

/-- `for (;;)` of `parse_object` -/
def parseMembers (libc : Libc) :
    ℕ → List UInt8 → Option (List (List UInt8 × JsonNode) × List UInt8)
  | 0, _ => none
  | fuel + 1, s => do
    let (key, s) ← parseString fuel s
    let s := skipSpace s
    if peek s ≠ 0x3A then none
    else
      let (value, s) ← parseValue libc fuel (skipSpace s.tail)
      let s := skipSpace s
      if peek s = 0x7D then some ([(key, value)], s.tail)
      else if peek s ≠ 0x2C then none
      else
        let (members, s) ← parseMembers libc fuel (skipSpace s.tail)
        some ((key, value) :: members, s)

end

/-- `json_decode`, on a given fuel. -/
def decodeWith (libc : Libc) (fuel : ℕ) (json : List UInt8) : Option JsonNode := do
  let (ret, s) ← parseValue libc fuel (skipSpace json)
  if peek (skipSpace s) ≠ 0 then none else some ret

/-- `json_decode` -/
def jsonDecode (libc : Libc) (json : List UInt8) : Option JsonNode :=
  decodeWith libc (3 * json.length + 3) json

end Stored.Json
