import Stored.Json.Node
import Stored.Lib.Heap

/-!
# JSON nodes in memory

The nodes of json.c as cells with their pointers. A text belongs to the node that points to it and
is kept there; it is duplicated where the source duplicates it and goes with its node. The assertions
of the two appends are kept, so that a run that returns has met them. Those of the encoder are left
out as in `Json.emitString`: with them a run stops at a text that is not UTF-8 and reaches no other
state.
-/

namespace Stored.Json.Linked

open Bytes Separation Heap

abbrev Ptr := Option ℕ

inductive JsonTag where
  | null
  | bool
  | string
  | number
  | array
  | object
  deriving DecidableEq

/-- The tag with the member of the union that it selects; arrays and objects share theirs. -/
inductive Value where
  | null
  | bool (bool_ : Bool)
  | string (string_ : Option (List UInt8))
  | number (number_ : ℚ)
  | children (object : Bool) (head tail : Ptr)
  deriving DecidableEq

def Value.tag : Value → JsonTag
  | null => .null
  | bool _ => .bool
  | string _ => .string
  | number _ => .number
  | children false _ _ => .array
  | children true _ _ => .object

/-- The union as `calloc` leaves it. -/
def Value.zero : JsonTag → Value
  | .null => null
  | .bool => bool false
  | .string => string none
  | .number => number 0
  | .array => children false none none
  | .object => children true none none

/-- `struct JsonNode` -/
structure Node where
  parent : Ptr
  prev : Ptr
  next : Ptr
  key : Option (List UInt8)
  value : Value
  deriving DecidableEq

abbrev Cmd := Prog ℕ Node
abbrev Alloc := Allocator ℕ Node

def Value.head : Value → Option Ptr
  | children _ head _ => some head
  | _ => none

def Value.tail : Value → Option Ptr
  | children _ _ tail => some tail
  | _ => none

def Value.setHead (head : Ptr) : Value → Option Value
  | children object _ tail => some (children object head tail)
  | _ => none

def Value.setTail (tail : Ptr) : Value → Option Value
  | children object head _ => some (children object head tail)
  | _ => none

def Value.setBool (bool_ : Bool) : Value → Option Value
  | bool _ => some (bool bool_)
  | _ => none

def Value.setString (string_ : Option (List UInt8)) : Value → Option Value
  | string _ => some (string string_)
  | _ => none

def Value.setNumber (number_ : ℚ) : Value → Option Value
  | number _ => some (number number_)
  | _ => none

def Value.getNumber : Value → Option ℚ
  | number number_ => some number_
  | _ => none

/-- The text behind `string_`, if there is one. -/
def Value.getString : Value → Option (List UInt8)
  | string string_ => string_
  | _ => none

/-- Reads a member of the union. -/
def readValue {γ : Type} (node : Ptr) (read : Value → Option γ) : Cmd γ := do
  let n ← load node
  member (read n.value)

/-- Writes a member of the union. -/
def writeValue (node : Ptr) (write : Value → Option Value) : Cmd Unit := do
  let value ← readValue node write
  update node fun n ↦ { n with value := value }

/-- `mknode`: the other members are zero. -/
def mknode (A : Alloc) (tag : JsonTag) : Cmd Ptr :=
  allocate A ⟨none, none, none, none, .zero tag⟩

/-- `json_strdup` -/
def jsonStrdup (A : Alloc) (str : List UInt8) : Cmd (List UInt8) := do
  request A
  pure str

/-- `json_mknull` -/
def jsonMknull (A : Alloc) : Cmd Ptr := mknode A .null

/-- `json_mkbool` -/
def jsonMkbool (A : Alloc) (b : Bool) : Cmd Ptr := do
  let ret ← mknode A .bool
  writeValue ret (Value.setBool b)
  pure ret

/-- `mkstring` -/
def mkstring (A : Alloc) (s : List UInt8) : Cmd Ptr := do
  let ret ← mknode A .string
  writeValue ret (Value.setString (some s))
  pure ret

/-- `json_mkstring` -/
def jsonMkstring (A : Alloc) (s : List UInt8) : Cmd Ptr := do
  let s ← jsonStrdup A s
  mkstring A s

/-- `json_mknumber` -/
def jsonMknumber (A : Alloc) (n : ℚ) : Cmd Ptr := do
  let node ← mknode A .number
  writeValue node (Value.setNumber n)
  pure node

/-- `json_mkarray` -/
def jsonMkarray (A : Alloc) : Cmd Ptr := mknode A .array

/-- `json_mkobject` -/
def jsonMkobject (A : Alloc) : Cmd Ptr := mknode A .object

/-- The write behind the two branches of `append_node`. -/
def linkAppended (parent child tail : Ptr) : Cmd Unit :=
  if tail ≠ none then update tail fun n ↦ { n with next := child }
  else writeValue parent (Value.setHead child)

/-- `append_node` -/
def appendNode (parent child : Ptr) : Cmd Unit := do
  update child fun n ↦ { n with parent := parent }
  let tail ← readValue parent Value.tail
  update child fun n ↦ { n with prev := tail }
  update child fun n ↦ { n with next := none }
  let tail ← readValue parent Value.tail
  linkAppended parent child tail
  writeValue parent (Value.setTail child)

/-- `append_member` -/
def appendMember (object : Ptr) (key : List UInt8) (value : Ptr) : Cmd Unit := do
  update value fun n ↦ { n with key := some key }
  appendNode object value

/-- `json_append_element` -/
def jsonAppendElement (array element : Ptr) : Cmd Unit := do
  let a ← load array
  assert (a.value.tag = .array)
  let e ← load element
  assert (e.parent = none)
  appendNode array element

/-- `json_append_member` -/
def jsonAppendMember (A : Alloc) (object : Ptr) (key : String) (value : Ptr) : Cmd Unit := do
  let o ← load object
  assert (o.value.tag = .object)
  let v ← load value
  assert (v.parent = none)
  let key ← jsonStrdup A (ascii key)
  appendMember object key value

/-- The write behind the two branches of `prepend_node`. -/
def linkPrepended (parent child head : Ptr) : Cmd Unit :=
  if head ≠ none then update head fun n ↦ { n with prev := child }
  else writeValue parent (Value.setTail child)

/-- `prepend_node` -/
def prependNode (parent child : Ptr) : Cmd Unit := do
  update child fun n ↦ { n with parent := parent }
  update child fun n ↦ { n with prev := none }
  let head ← readValue parent Value.head
  update child fun n ↦ { n with next := head }
  let head ← readValue parent Value.head
  linkPrepended parent child head
  writeValue parent (Value.setHead child)

/-- `json_prepend_element` -/
def jsonPrependElement (array element : Ptr) : Cmd Unit := do
  let a ← load array
  assert (a.value.tag = .array)
  let e ← load element
  assert (e.parent = none)
  prependNode array element

/-- `json_prepend_member` -/
def jsonPrependMember (A : Alloc) (object : Ptr) (key : String) (value : Ptr) : Cmd Unit := do
  let o ← load object
  assert (o.value.tag = .object)
  let v ← load value
  assert (v.parent = none)
  let key ← jsonStrdup A (ascii key)
  update value fun n ↦ { n with key := some key }
  prependNode object value

/-- The branches of `json_remove_from_parent` for the link before the node. -/
def unlinkPrev (parent prev next : Ptr) : Cmd Unit :=
  if prev ≠ none then update prev fun n ↦ { n with next := next }
  else writeValue parent (Value.setHead next)

/-- The branches of `json_remove_from_parent` for the link behind the node. -/
def unlinkNext (parent prev next : Ptr) : Cmd Unit :=
  if next ≠ none then update next fun n ↦ { n with prev := prev }
  else writeValue parent (Value.setTail prev)

/-- `json_remove_from_parent` -/
def jsonRemoveFromParent (node : Ptr) : Cmd Unit := do
  let n ← load node
  if n.parent ≠ none then
    unlinkPrev n.parent n.prev n.next
    let n' ← load node
    unlinkNext n.parent n'.prev n'.next
    update node fun n ↦ { n with parent := none }
    update node fun n ↦ { n with prev := none, next := none }
    update node fun n ↦ { n with key := none }

mutual

/-- `json_delete` -/
def jsonDelete : ℕ → Ptr → Cmd Unit
  | _, none => pure ()
  | 0, some _ => hang
  | fuel + 1, some node => do
    jsonRemoveFromParent (some node)
    let n ← load (some node)
    deleteChildren fuel (n.value.head.getD none)
    free (some node)

/-- The loop of `json_delete` over the children. -/
def deleteChildren : ℕ → Ptr → Cmd Unit
  | _, none => pure ()
  | 0, some _ => hang
  | fuel + 1, some child => do
    let c ← load (some child)
    jsonDelete fuel (some child)
    deleteChildren fuel c.next

end

/-- `json_first_child` -/
def jsonFirstChild : Ptr → Cmd Ptr
  | none => pure none
  | some node => do
    let n ← load (some node)
    pure (n.value.head.getD none)

/-- The `json_foreach` of `json_find_member` from a member on. -/
def findFrom (name : String) : ℕ → Ptr → Cmd Ptr
  | _, none => pure none
  | 0, some _ => hang
  | fuel + 1, some m => do
    let n ← load (some m)
    let key ← member n.key
    if key = ascii name then pure (some m) else findFrom name fuel n.next

/-- `json_find_member` -/
def jsonFindMember (fuel : ℕ) (object : Ptr) (name : String) : Cmd Ptr :=
  match object with
  | none => pure none
  | some o => do
    let n ← load (some o)
    if n.value.tag ≠ .object then pure none
    else
      let first ← jsonFirstChild (some o)
      findFrom name fuel first

/-- The `json_foreach` of `json_find_element` from an element on, which is the one at `i`. The
counter is an `int`, which an array of up to 2 ^ 31 elements does not overflow. -/
def findAt (index : Int32) : ℕ → ℕ → Ptr → Cmd Ptr
  | _, _, none => pure none
  | 0, _, some _ => hang
  | fuel + 1, i, some element =>
    if (i : ℤ) = index.toInt then pure (some element)
    else do
      let n ← load (some element)
      findAt index fuel (i + 1) n.next

/-- `json_find_element` -/
def jsonFindElement (fuel : ℕ) (array : Ptr) (index : Int32) : Cmd Ptr :=
  match array with
  | none => pure none
  | some a => do
    let n ← load (some a)
    if n.value.tag ≠ .array then pure none
    else
      let first ← jsonFirstChild (some a)
      findAt index fuel 0 first

/-- `json_foreach` from a node on; the body's results in order. -/
def foreachFrom {γ : Type} (body : Ptr → Cmd γ) : ℕ → Ptr → Cmd (List γ)
  | _, none => pure []
  | 0, some _ => hang
  | fuel + 1, some i => do
    let x ← body (some i)
    let n ← load (some i)
    let xs ← foreachFrom body fuel n.next
    pure (x :: xs)

/-- `json_foreach` -/
def jsonForeach {γ : Type} (body : Ptr → Cmd γ) (fuel : ℕ) (node : Ptr) : Cmd (List γ) := do
  let first ← jsonFirstChild node
  foreachFrom body fuel first

mutual

/-- `emit_value_indented`, with `emit_array_indented` and `emit_object_indented` -/
def emitValueIndented (libc : Libc) (space : List UInt8) : ℕ → ℕ → Ptr → Cmd (List UInt8)
  | 0, _, _ => hang
  | fuel + 1, level, node => do
    let n ← load node
    match n.value with
    | .null => pure (ascii "null")
    | .bool b => pure (if b then ascii "true" else ascii "false")
    | .string s => do
      let s ← member s
      pure (emitString s)
    | .number x => pure (emitNumber libc x)
    | .children false head _ =>
      if head = none then pure (ascii "[]")
      else do
        let text ← emitElements libc space fuel level head
        pure (ascii "[\n" ++ text ++ indent space level ++ ascii "]")
    | .children true head _ =>
      if head = none then pure (ascii "\x7b\x7d")
      else do
        let text ← emitMembers libc space fuel level head
        pure (ascii "\x7b\n" ++ text ++ indent space level ++ ascii "\x7d")

/-- The loop of `emit_array_indented` -/
def emitElements (libc : Libc) (space : List UInt8) : ℕ → ℕ → Ptr → Cmd (List UInt8)
  | _, _, none => pure []
  | 0, _, some _ => hang
  | fuel + 1, level, some element => do
    let text ← emitValueIndented libc space fuel (level + 1) (some element)
    let n ← load (some element)
    let rest ← emitElements libc space fuel level n.next
    pure (indent space (level + 1) ++ text ++
      (if n.next ≠ none then ascii ",\n" else ascii "\n") ++ rest)

/-- The loop of `emit_object_indented` -/
def emitMembers (libc : Libc) (space : List UInt8) : ℕ → ℕ → Ptr → Cmd (List UInt8)
  | _, _, none => pure []
  | 0, _, some _ => hang
  | fuel + 1, level, some m => do
    let n ← load (some m)
    let key ← member n.key
    let text ← emitValueIndented libc space fuel (level + 1) (some m)
    let n ← load (some m)
    let rest ← emitMembers libc space fuel level n.next
    pure (indent space (level + 1) ++ emitString key ++ ascii ": " ++ text ++
      (if n.next ≠ none then ascii ",\n" else ascii "\n") ++ rest)

end

/-- `json_stringify` with a `space` that is not NULL and whose length fits an `int`; one request
stands for those of the string buffer. -/
def jsonStringify (A : Alloc) (libc : Libc) (fuel : ℕ) (node : Ptr) (space : List UInt8) :
    Cmd (List UInt8) := do
  request A
  emitValueIndented libc space fuel 0 node

end Stored.Json.Linked
