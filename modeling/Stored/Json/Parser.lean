import Stored.Json.RoundTrip
import Stored.Json.Ownership

/-!
# The decoder on nodes

`json_decode` makes the nodes of the tree that it reads, and where the text is refused it frees what
it has made so far. `json_validate` runs the same functions without a place for the nodes.
-/

namespace Stored.Json.Linked

open Bytes Partial Separation Heap Assertion

/-- What is made only for a caller that passes a place for it. -/
def given (out : Bool) (make : Cmd Ptr) : Cmd Ptr := if out then make else pure none

/-- `parse_string`; one request stands for those of the string buffer. -/
def parseString (A : Alloc) (out : Bool) (fuel : ℕ) (s : List UInt8) :
    Cmd (Option (List UInt8 × List UInt8)) := do
  if out = true ∧ peek s = 0x22 then request A
  pure (Json.parseString fuel s)

/-- `failure: json_delete(ret); return false;` -/
def failure {γ : Type} (fuel : ℕ) (ret : Ptr) : Cmd (Option γ) := do
  jsonDelete fuel ret
  pure none

mutual

/-- `parse_value`, with `out` for a caller that wants the node: the node and the text behind it. -/
def parseValue (A : Alloc) (libc : Libc) (out : Bool) :
    ℕ → List UInt8 → Cmd (Option (Ptr × List UInt8))
  | 0, _ => hang
  | fuel + 1, s =>
    if peek s = 0x6E then
      match expectLiteral s (ascii "null") with
      | some s => do
        let node ← given out (jsonMknull A)
        pure (some (node, s))
      | none => pure none
    else if peek s = 0x66 then
      match expectLiteral s (ascii "false") with
      | some s => do
        let node ← given out (jsonMkbool A false)
        pure (some (node, s))
      | none => pure none
    else if peek s = 0x74 then
      match expectLiteral s (ascii "true") with
      | some s => do
        let node ← given out (jsonMkbool A true)
        pure (some (node, s))
      | none => pure none
    else if peek s = 0x22 then do
      match ← parseString A out fuel s with
      | some (str, s) =>
        let node ← given out (mkstring A str)
        pure (some (node, s))
      | none => pure none
    else if peek s = 0x5B then parseArray A libc out fuel s
    else if peek s = 0x7B then parseObject A libc out fuel s
    else
      match scanNumber s with
      | some rest => do
        let node ← given out (jsonMknumber A (libc.strtod s))
        pure (some (node, rest))
      | none => pure none

/-- `parse_array` -/
def parseArray (A : Alloc) (libc : Libc) (out : Bool) :
    ℕ → List UInt8 → Cmd (Option (Ptr × List UInt8))
  | 0, _ => hang
  | fuel + 1, s => do
    let ret ← given out (jsonMkarray A)
    if peek s ≠ 0x5B then failure fuel ret
    else
      let s := skipSpace s.tail
      if peek s = 0x5D then pure (some (ret, s.tail))
      else parseElements A libc out fuel ret s

/-- `for (;;)` of `parse_array` -/
def parseElements (A : Alloc) (libc : Libc) (out : Bool) :
    ℕ → Ptr → List UInt8 → Cmd (Option (Ptr × List UInt8))
  | 0, _, _ => hang
  | fuel + 1, ret, s => do
    match ← parseValue A libc out fuel s with
    | none => failure fuel ret
    | some (element, s) =>
      let s := skipSpace s
      if out then jsonAppendElement ret element
      if peek s = 0x5D then pure (some (ret, s.tail))
      else if peek s ≠ 0x2C then failure fuel ret
      else parseElements A libc out fuel ret (skipSpace s.tail)

/-- `parse_object` -/
def parseObject (A : Alloc) (libc : Libc) (out : Bool) :
    ℕ → List UInt8 → Cmd (Option (Ptr × List UInt8))
  | 0, _ => hang
  | fuel + 1, s => do
    let ret ← given out (jsonMkobject A)
    if peek s ≠ 0x7B then failure fuel ret
    else
      let s := skipSpace s.tail
      if peek s = 0x7D then pure (some (ret, s.tail))
      else parseMembers A libc out fuel ret s

/-- `for (;;)` of `parse_object`; the key is freed with the caller's frame. -/
def parseMembers (A : Alloc) (libc : Libc) (out : Bool) :
    ℕ → Ptr → List UInt8 → Cmd (Option (Ptr × List UInt8))
  | 0, _, _ => hang
  | fuel + 1, ret, s => do
    match ← parseString A out fuel s with
    | none => failure fuel ret
    | some (key, s) =>
      let s := skipSpace s
      if peek s ≠ 0x3A then failure fuel ret
      else
        match ← parseValue A libc out fuel (skipSpace s.tail) with
        | none => failure fuel ret
        | some (value, s) =>
          let s := skipSpace s
          if out then appendMember ret key value
          if peek s = 0x7D then pure (some (ret, s.tail))
          else if peek s ≠ 0x2C then failure fuel ret
          else parseMembers A libc out fuel ret (skipSpace s.tail)

end

/-- `json_decode` -/
def jsonDecode (A : Alloc) (libc : Libc) (fuel : ℕ) (json : List UInt8) : Cmd Ptr := do
  match ← parseValue A libc true fuel (skipSpace json) with
  | none => pure none
  | some (ret, s) =>
    if peek (skipSpace s) ≠ 0 then
      jsonDelete fuel ret
      pure none
    else pure ret

/-- `json_validate` -/
def jsonValidate (A : Alloc) (libc : Libc) (fuel : ℕ) (json : List UInt8) : Cmd Bool := do
  match ← parseValue A libc false fuel (skipSpace json) with
  | none => pure false
  | some (_, s) => pure (peek (skipSpace s) = 0)

/-- What both loops do behind a child that has been appended. -/
def afterChild (fuel : ℕ) (close : UInt8) (ret : Ptr)
    (loop : List UInt8 → Cmd (Option (Ptr × List UInt8))) (s : List UInt8) :
    Cmd (Option (Ptr × List UInt8)) :=
  if peek (skipSpace s) = close then pure (some (ret, (skipSpace s).tail))
  else if peek (skipSpace s) ≠ 0x2C then failure fuel ret
  else loop (skipSpace (skipSpace s).tail)

variable {A : Alloc} {libc : Libc}

theorem parseElements_succ (fuel : ℕ) (ret : Ptr) (s : List UInt8) :
    parseElements A libc true (fuel + 1) ret s = (do
      match ← parseValue A libc true fuel s with
      | none => failure fuel ret
      | some (element, s) =>
        jsonAppendElement ret element
        afterChild fuel 0x5D ret (parseElements A libc true fuel ret) s) := by
  rw [parseElements]
  rfl

theorem parseMembers_succ (fuel : ℕ) (ret : Ptr) (s : List UInt8) :
    parseMembers A libc true (fuel + 1) ret s = (do
      match ← parseString A true fuel s with
      | none => failure fuel ret
      | some (key, s) =>
        if peek (skipSpace s) ≠ 0x3A then failure fuel ret
        else
          match ← parseValue A libc true fuel (skipSpace (skipSpace s).tail) with
          | none => failure fuel ret
          | some (value, s) =>
            appendMember ret key value
            afterChild fuel 0x7D ret (parseMembers A libc true fuel ret) s) := by
  rw [parseMembers]
  rfl

/-- A node for the tree that is read and the text behind it; nothing where the text is refused. -/
def parsed : Option (JsonNode × List UInt8) → Option (Ptr × List UInt8) → Assertion ℕ Node
  | none, r => fact (r = none)
  | some (t, rest), r => ⨆ a, fact (r = some (some a, rest)) * detached t a

/-- The node that a loop has added its children to, those before the loop included. -/
def parsedLoop {γ : Type} (tree : List γ → JsonNode) (ret : ℕ) (before : List γ) :
    Option (List γ × List UInt8) → Option (Ptr × List UInt8) → Assertion ℕ Node
  | none, r => fact (r = none)
  | some (cs, rest), r => fact (r = some (some ret, rest)) * detached (tree (before ++ cs)) ret

/-- Every node of the tree can be freed on the given fuel. -/
def Frees (t : JsonNode) (fuel : ℕ) : Prop :=
  ∀ a, Triple (detached t a) (jsonDelete fuel (some a)) fun _ ↦ 1

theorem triple_failure {γ : Type} {t : JsonNode} {fuel : ℕ} (h : Frees t fuel) (a : ℕ) :
    Triple (detached t a) (failure fuel (some a)) fun r : Option γ ↦ fact (r = none) := by
  apply Triple.bind 1 (h a) (mul_one _).symm
  intro x
  rw [mul_one]
  apply Triple.pure
  rw [fact_of rfl]

theorem triple_afterChild {γ : Type} {tree : List γ → JsonNode} {fuel ret : ℕ} {close : UInt8}
    {before : List γ} {c : γ} {s : List UInt8}
    {loop : List UInt8 → Cmd (Option (Ptr × List UInt8))}
    {next : List UInt8 → Option (List γ × List UInt8)}
    (hfrees : Frees (tree (before ++ [c])) fuel)
    (hloop : Triple (detached (tree (before ++ [c])) ret) (loop (skipSpace (skipSpace s).tail))
      (parsedLoop tree ret (before ++ [c]) (next (skipSpace (skipSpace s).tail)))) :
    Triple (detached (tree (before ++ [c])) ret) (afterChild fuel close (some ret) loop s)
      (parsedLoop tree ret before (loopAfter close next c s)) := by
  unfold afterChild loopAfter
  by_cases hclose : peek (skipSpace s) = close
  · rw [if_pos hclose, if_pos hclose]
    apply Triple.pure
    rw [parsedLoop, fact_of rfl, one_mul]
  · rw [if_neg hclose, if_neg hclose]
    by_cases hcomma : peek (skipSpace s) = 0x2C
    · rw [if_neg (not_not.mpr hcomma), if_neg (not_not.mpr hcomma)]
      apply hloop.mono le_rfl
      intro r
      cases next (skipSpace (skipSpace s).tail) with
      | none => exact le_rfl
      | some r' =>
        rw [Option.map_some, parsedLoop, parsedLoop, List.append_assoc, List.singleton_append]
    · rw [if_pos hcomma, if_pos hcomma]
      exact triple_failure hfrees ret

variable (A libc)

def ParsesValue (s : List UInt8) (fuel : ℕ) : Prop :=
  Triple 1 (parseValue A libc true fuel s) (parsed (Json.parseValue libc fuel s))

def ParsesElements (es : List JsonNode) (s : List UInt8) (fuel : ℕ) : Prop :=
  ∀ ret, Triple (detached (.array es) ret) (parseElements A libc true fuel (some ret) s)
    (parsedLoop .array ret es (Json.parseElements libc fuel s))

def ParsesMembers (ms : List (List UInt8 × JsonNode)) (s : List UInt8) (fuel : ℕ) : Prop :=
  ∀ ret, Triple (detached (.object ms) ret) (parseMembers A libc true fuel (some ret) s)
    (parsedLoop .object ret ms (Json.parseMembers libc fuel s))

variable {A libc}

/-- A value is read, and what follows depends on whether there is one. -/
theorem triple_parseValue_bind {γ : Type} {s : List UInt8} {fuel : ℕ} {P : Assertion ℕ Node}
    {k : Option (Ptr × List UInt8) → Cmd γ} {Q : γ → Assertion ℕ Node}
    (hvalue : ParsesValue A libc s fuel)
    (hnone : Json.parseValue libc fuel s = none → Triple P (k none) Q)
    (hsome : ∀ t rest a, Json.parseValue libc fuel s = some (t, rest) →
      Triple (detached t a * P) (k (some (some a, rest))) Q) :
    Triple P (parseValue A libc true fuel s >>= k) Q := by
  apply Triple.bind P hvalue (one_mul P).symm
  intro r
  cases hparse : Json.parseValue libc fuel s with
  | none =>
    apply Triple.of_fact
    rintro rfl
    exact hnone hparse
  | some r' =>
    rw [parsed, Quantale.iSup_mul_distrib]
    apply Triple.of_iSup
    intro a
    rw [mul_assoc]
    apply Triple.of_fact
    rintro rfl
    exact hsome r'.1 r'.2 a hparse

theorem parsesElements_succ {es : List JsonNode} {s : List UInt8} {fuel : ℕ}
    (hvalue : ParsesValue A libc s fuel) (hfrees : Frees (.array es) fuel)
    (hnext : ∀ e rest, Json.parseValue libc fuel s = some (e, rest) →
      Frees (.array (es ++ [e])) fuel ∧
        ParsesElements A libc (es ++ [e]) (skipSpace (skipSpace rest).tail) fuel) :
    ParsesElements A libc es s (fuel + 1) := by
  intro ret
  rw [parseElements_succ, Json.parseElements_succ]
  apply triple_parseValue_bind hvalue
  · intro hnone
    rw [hnone]
    exact triple_failure hfrees ret
  · intro e rest a hsome
    rw [hsome, Option.bind_some, mul_comm]
    apply Triple.bind 1 triple_jsonAppendElement (mul_one _).symm
    intro x
    rw [mul_one]
    exact triple_afterChild (hnext e rest hsome).1 ((hnext e rest hsome).2 ret)

theorem triple_appendMember {ms : List (List UInt8 × JsonNode)} {key : List UInt8} {t : JsonNode}
    {p c : ℕ} : Triple (detached (.object ms) p * detached t c)
      (appendMember (some p) key (some c)) fun _ ↦ detached (.object (ms ++ [(key, t)])) p := by
  apply triple_of_detached (contentOf_object ms)
  intro head tail v
  apply Triple.update_bind (a := c) _ (mul_left_comm _ _ _)
  rw [mul_left_comm]
  apply (triple_appendNode_children (m := ⟨none, none, none, some key, v⟩) rfl).mono le_rfl
  intro x
  rw [detached, nodeAt, nodeLink, contentOf_object, List.map_append]
  rfl

theorem parseString_bind {γ : Type} {s : List UInt8} {fuel : ℕ} {P : Assertion ℕ Node}
    {k : Option (List UInt8 × List UInt8) → Cmd γ} {Q : γ → Assertion ℕ Node}
    (hk : Triple P (k (Json.parseString fuel s)) Q) :
    Triple P (parseString A true fuel s >>= k) Q := by
  unfold parseString
  by_cases hquote : peek s = 0x22
  · rw [if_pos ⟨rfl, hquote⟩, bind_assoc]
    apply Triple.request_bind
    rwa [pure_bind]
  · rw [if_neg fun h ↦ hquote h.2, pure_bind]
    exact hk

theorem parsesMembers_succ {ms : List (List UInt8 × JsonNode)} {s : List UInt8} {fuel : ℕ}
    (hvalue : ∀ key rest, Json.parseString fuel s = some (key, rest) →
      ParsesValue A libc (skipSpace (skipSpace rest).tail) fuel)
    (hfrees : Frees (.object ms) fuel)
    (hnext : ∀ key rest v rest', Json.parseString fuel s = some (key, rest) →
      Json.parseValue libc fuel (skipSpace (skipSpace rest).tail) = some (v, rest') →
      Frees (.object (ms ++ [(key, v)])) fuel ∧
        ParsesMembers A libc (ms ++ [(key, v)]) (skipSpace (skipSpace rest').tail) fuel) :
    ParsesMembers A libc ms s (fuel + 1) := by
  intro ret
  rw [parseMembers_succ, Json.parseMembers_succ]
  apply parseString_bind
  cases hstring : Json.parseString fuel s with
  | none => exact triple_failure hfrees ret
  | some k =>
    rw [Option.bind_some]
    by_cases hcolon : peek (skipSpace k.2) = 0x3A
    · rw [if_neg (not_not.mpr hcolon)]
      change Triple _ (if peek (skipSpace k.2) ≠ 0x3A then _ else _) _
      rw [if_neg (not_not.mpr hcolon)]
      apply triple_parseValue_bind (hvalue k.1 k.2 hstring)
      · intro hnone
        rw [hnone]
        exact triple_failure hfrees ret
      · intro v rest a hsome
        rw [hsome, Option.bind_some, mul_comm]
        apply Triple.bind 1 triple_appendMember (mul_one _).symm
        intro x
        rw [mul_one]
        exact triple_afterChild (hnext k.1 k.2 v rest hstring hsome).1
          ((hnext k.1 k.2 v rest hstring hsome).2 ret)
    · rw [if_pos hcolon]
      change Triple _ (if peek (skipSpace k.2) ≠ 0x3A then _ else _) _
      rw [if_pos hcolon]
      exact triple_failure hfrees ret

theorem eventually_frees (t : JsonNode) : ∀ᶠ fuel in Filter.atTop, Frees t fuel :=
  eventually_jsonDelete t

theorem eventually_parseValue_eq (libc : Libc) (s : List UInt8) :
    ∃ v, ∀ᶠ fuel in Filter.atTop, Json.parseValue libc fuel s = v :=
  ⟨_, eventually_eq_of_stable (f := (Json.parseValue libc · s)) (fun n ↦ (parse_mono libc n).1 s)
    fun n hn ↦ (parse_stable libc n).1 s hn⟩

theorem eventually_parseString_eq (s : List UInt8) :
    ∃ v, ∀ᶠ fuel in Filter.atTop, Json.parseString fuel s = v :=
  ⟨_, eventually_eq_of_stable (f := (Json.parseString · s)) (fun n ↦ parseString_mono n s)
    fun _ hn ↦ parseString_stable hn⟩

theorem length_skipSpace_tail_le (s : List UInt8) :
    (skipSpace (skipSpace s).tail).length ≤ s.length := by
  calc
    _ ≤ (skipSpace s).tail.length := length_skipSpace_le _
    _ ≤ (skipSpace s).length := by simp
    _ ≤ s.length := length_skipSpace_le s

variable {n : ℕ}

theorem eventually_parsesElements
    (hvalue : ∀ s, s.length < n → ∀ᶠ fuel in Filter.atTop, ParsesValue A libc s fuel)
    (es : List JsonNode) (s : List UInt8) (hs : s.length < n) :
    ∀ᶠ fuel in Filter.atTop, ParsesElements A libc es s fuel := by
  induction hlen : s.length using Nat.strong_induction_on generalizing s es with
  | _ m ih =>
    subst hlen
    obtain ⟨v, hv⟩ := eventually_parseValue_eq libc s
    cases v with
    | none =>
      apply eventually_succ ((hvalue s hs).and (hv.and (eventually_frees (.array es))))
      rintro fuel ⟨hvalue, hnone, hfrees⟩
      apply parsesElements_succ hvalue hfrees
      intro e rest hsome
      exact absurd (hnone.symm.trans hsome) (Option.some_ne_none _).symm
    | some r =>
      obtain ⟨e, rest⟩ := r
      obtain ⟨fuel, hfuel⟩ := hv.exists
      have hshort : (skipSpace (skipSpace rest).tail).length < s.length :=
        (length_skipSpace_tail_le rest).trans_lt ((length_parse libc fuel).1 s e rest hfuel)
      have hnext := ih _ hshort (es ++ [e]) _ (hshort.trans hs) rfl
      apply eventually_succ ((hvalue s hs).and (hv.and ((eventually_frees (.array es)).and
        ((eventually_frees (.array (es ++ [e]))).and hnext))))
      rintro fuel ⟨hvalue, hsome, hfrees, hfrees', hnext⟩
      apply parsesElements_succ hvalue hfrees
      intro e' rest' hsome'
      obtain ⟨rfl, rfl⟩ := Prod.mk.inj (Option.some.inj (hsome.symm.trans hsome'))
      exact ⟨hfrees', hnext⟩

theorem eventually_parsesMembers
    (hvalue : ∀ s, s.length < n → ∀ᶠ fuel in Filter.atTop, ParsesValue A libc s fuel)
    (ms : List (List UInt8 × JsonNode)) (s : List UInt8) (hs : s.length < n) :
    ∀ᶠ fuel in Filter.atTop, ParsesMembers A libc ms s fuel := by
  induction hlen : s.length using Nat.strong_induction_on generalizing s ms with
  | _ m ih =>
    subst hlen
    obtain ⟨k, hk⟩ := eventually_parseString_eq s
    cases k with
    | none =>
      apply eventually_succ (hk.and (eventually_frees (.object ms)))
      rintro fuel ⟨hnone, hfrees⟩
      refine parsesMembers_succ (fun key rest hsome ↦ ?_) hfrees fun key rest v rest' hsome ↦ ?_
      · exact nomatch hnone.symm.trans hsome
      · exact nomatch hnone.symm.trans hsome
    | some k =>
      obtain ⟨key, rest⟩ := k
      obtain ⟨fuel, hfuel⟩ := hk.exists
      have hshort : (skipSpace (skipSpace rest).tail).length < s.length :=
        (length_skipSpace_tail_le rest).trans_lt (length_parseString hfuel)
      have hvalue' := hvalue _ (hshort.trans hs)
      obtain ⟨v, hv⟩ := eventually_parseValue_eq libc (skipSpace (skipSpace rest).tail)
      cases v with
      | none =>
        apply eventually_succ (hk.and (hv.and (hvalue'.and (eventually_frees (.object ms)))))
        rintro fuel ⟨hkey, hnone, hvalue, hfrees⟩
        refine parsesMembers_succ (fun key' rest' hkey' ↦ ?_) hfrees
          fun key' rest' v rest'' hkey' hsome ↦ ?_
        · obtain ⟨rfl, rfl⟩ := Prod.mk.inj (Option.some.inj (hkey.symm.trans hkey'))
          exact hvalue
        · obtain ⟨rfl, rfl⟩ := Prod.mk.inj (Option.some.inj (hkey.symm.trans hkey'))
          exact absurd (hnone.symm.trans hsome) (Option.some_ne_none _).symm
      | some r =>
        obtain ⟨v, rest'⟩ := r
        obtain ⟨fuel, hfuel⟩ := hv.exists
        have hshort' : (skipSpace (skipSpace rest').tail).length < s.length :=
          (length_skipSpace_tail_le rest').trans_lt
            (((length_parse libc fuel).1 _ v rest' hfuel).trans hshort)
        have hnext := ih _ hshort' (ms ++ [(key, v)]) _ (hshort'.trans hs) rfl
        apply eventually_succ (hk.and (hv.and (hvalue'.and ((eventually_frees (.object ms)).and
          ((eventually_frees (.object (ms ++ [(key, v)]))).and hnext)))))
        rintro fuel ⟨hkey, hsome, hvalue, hfrees, hfrees', hnext⟩
        refine parsesMembers_succ (fun key' rest₁ hkey' ↦ ?_) hfrees
          fun key' rest₁ v' rest₂ hkey' hsome' ↦ ?_
        · obtain ⟨rfl, rfl⟩ := Prod.mk.inj (Option.some.inj (hkey.symm.trans hkey'))
          exact hvalue
        · obtain ⟨rfl, rfl⟩ := Prod.mk.inj (Option.some.inj (hkey.symm.trans hkey'))
          obtain ⟨rfl, rfl⟩ := Prod.mk.inj (Option.some.inj (hsome.symm.trans hsome'))
          exact ⟨hfrees', hnext⟩

theorem triple_refused : Triple 1 (pure none) (parsed none) := by
  apply Triple.pure
  rw [parsed, fact_of rfl]

theorem triple_made {make : Cmd Ptr} {t : JsonNode} {rest : List UInt8}
    (hmake : Triple 1 make fun p ↦ ⨆ a, fact (p = some a) * detached t a) :
    Triple 1
      (do
        let node ← given true make
        pure (some (node, rest)))
      (parsed (some (t, rest))) := by
  apply Triple.new_bind hmake
  intro a
  rw [mul_one]
  apply Triple.pure
  apply le_iSup_of_le a
  rw [fact_of rfl, one_mul]

theorem triple_jsonMknull : Triple 1 (jsonMknull A) fun p ↦
    ⨆ a, fact (p = some a) * detached .null a := by
  apply triple_mknode
  intro a
  rw [contentOf, Value.zero, fact_of rfl]

theorem triple_jsonMkbool (b : Bool) : Triple 1 (jsonMkbool A b) fun p ↦
    ⨆ a, fact (p = some a) * detached (.bool b) a := by
  apply triple_mknode_writeValue A (by rfl)
  intro a
  rw [contentOf, fact_of rfl]

theorem triple_mkstring (s : List UInt8) : Triple 1 (mkstring A s) fun p ↦
    ⨆ a, fact (p = some a) * detached (.string s) a := by
  apply triple_mknode_writeValue A (by rfl)
  intro a
  rw [contentOf, fact_of rfl]

theorem triple_of_parsedLoop {γ : Type} {tree : List γ → JsonNode} {ret : ℕ}
    {P : Assertion ℕ Node} {program : Cmd (Option (Ptr × List UInt8))}
    {r : Option (List γ × List UInt8)} (h : Triple P program (parsedLoop tree ret [] r)) :
    Triple P program (parsed (r.map fun x ↦ (tree x.1, x.2))) := by
  apply h.mono le_rfl
  intro x
  cases r with
  | none => exact le_rfl
  | some r => exact le_iSup_of_le ret le_rfl

theorem parseValue_array {s : List UInt8} (hopen : peek s = 0x5B) (fuel : ℕ) :
    (∀ out, parseValue A libc out (fuel + 1) s = parseArray A libc out fuel s) ∧
      Json.parseValue libc (fuel + 1) s = Json.parseArray libc fuel s := by
  simp [parseValue, Json.parseValue, hopen]

theorem parseValue_object {s : List UInt8} (hopen : peek s = 0x7B) (fuel : ℕ) :
    (∀ out, parseValue A libc out (fuel + 1) s = parseObject A libc out fuel s) ∧
      Json.parseValue libc (fuel + 1) s = Json.parseObject libc fuel s := by
  simp [parseValue, Json.parseValue, hopen]

theorem parsesValue_array {s : List UInt8} {fuel : ℕ} (hopen : peek s = 0x5B)
    (helements : ParsesElements A libc [] (skipSpace s.tail) fuel) :
    ParsesValue A libc s (fuel + 2) := by
  rw [ParsesValue, (parseValue_array hopen _).1, (parseValue_array (A := A) hopen _).2, parseArray]
  apply Triple.new_bind (triple_jsonMkarray A)
  intro ret
  rw [mul_one, if_neg (not_not.mpr hopen)]
  by_cases hempty : peek (skipSpace s.tail) = 0x5D
  · rw [Json.parseArray, if_neg (not_not.mpr hopen)]
    change Triple _ (if peek (skipSpace s.tail) = 0x5D then _ else _)
      (parsed (if peek (skipSpace s.tail) = 0x5D then _ else _))
    rw [if_pos hempty, if_pos hempty]
    apply Triple.pure
    apply le_iSup_of_le ret
    rw [fact_of rfl, one_mul]
  · rw [parseArray_succ libc hopen hempty]
    change Triple _ (if peek (skipSpace s.tail) = 0x5D then _ else _) _
    rw [if_neg hempty]
    exact triple_of_parsedLoop (helements ret)

theorem parsesValue_object {s : List UInt8} {fuel : ℕ} (hopen : peek s = 0x7B)
    (hmembers : ParsesMembers A libc [] (skipSpace s.tail) fuel) :
    ParsesValue A libc s (fuel + 2) := by
  rw [ParsesValue, (parseValue_object hopen _).1, (parseValue_object (A := A) hopen _).2,
    parseObject]
  apply Triple.new_bind (triple_jsonMkobject A)
  intro ret
  rw [mul_one, if_neg (not_not.mpr hopen)]
  by_cases hempty : peek (skipSpace s.tail) = 0x7D
  · rw [Json.parseObject, if_neg (not_not.mpr hopen)]
    change Triple _ (if peek (skipSpace s.tail) = 0x7D then _ else _)
      (parsed (if peek (skipSpace s.tail) = 0x7D then _ else _))
    rw [if_pos hempty, if_pos hempty]
    apply Triple.pure
    apply le_iSup_of_le ret
    rw [fact_of rfl, one_mul]
  · rw [parseObject_succ libc hopen hempty]
    change Triple _ (if peek (skipSpace s.tail) = 0x7D then _ else _) _
    rw [if_neg hempty]
    exact triple_of_parsedLoop (hmembers ret)

/-- A value without children is one new node. -/
theorem parsesValue_leaf {s : List UInt8} (harray : peek s ≠ 0x5B) (hobject : peek s ≠ 0x7B)
    (fuel : ℕ) : ParsesValue A libc s (fuel + 1) := by
  rw [ParsesValue, parseValue, Json.parseValue]
  by_cases hnull : peek s = 0x6E
  · rw [if_pos hnull, if_pos hnull]
    cases expectLiteral s (ascii "null") with
    | none => exact triple_refused
    | some rest => exact triple_made triple_jsonMknull
  rw [if_neg hnull, if_neg hnull]
  by_cases hfalse : peek s = 0x66
  · rw [if_pos hfalse, if_pos hfalse]
    cases expectLiteral s (ascii "false") with
    | none => exact triple_refused
    | some rest => exact triple_made (triple_jsonMkbool false)
  rw [if_neg hfalse, if_neg hfalse]
  by_cases htrue : peek s = 0x74
  · rw [if_pos htrue, if_pos htrue]
    cases expectLiteral s (ascii "true") with
    | none => exact triple_refused
    | some rest => exact triple_made (triple_jsonMkbool true)
  rw [if_neg htrue, if_neg htrue]
  by_cases hstring : peek s = 0x22
  · rw [if_pos hstring, if_pos hstring]
    apply parseString_bind
    cases Json.parseString fuel s with
    | none => exact triple_refused
    | some r => exact triple_made (triple_mkstring r.1)
  rw [if_neg hstring, if_neg hstring, if_neg harray, if_neg harray, if_neg hobject,
    if_neg hobject, parseNumber]
  cases scanNumber s with
  | none => exact triple_refused
  | some rest => exact triple_made (triple_jsonMknumber A (libc.strtod s))

theorem eventually_parsesValue (s : List UInt8) :
    ∀ᶠ fuel in Filter.atTop, ParsesValue A libc s fuel := by
  induction hlen : s.length using Nat.strong_induction_on generalizing s with
  | _ n ih =>
    subst hlen
    have hshort (hopen : peek s ≠ 0) : (skipSpace s.tail).length < s.length :=
      (length_skipSpace_le _).trans_lt (length_tail_lt hopen)
    have hvalue : ∀ s', s'.length < s.length →
        ∀ᶠ fuel in Filter.atTop, ParsesValue A libc s' fuel := fun s' hs' ↦ ih _ hs' s' rfl
    by_cases harray : peek s = 0x5B
    · have helements := eventually_parsesElements hvalue [] _ (hshort (by rw [harray]; decide))
      have hsucc : ∀ᶠ fuel in Filter.atTop, ParsesValue A libc s (fuel + 1) :=
        eventually_succ helements fun fuel ↦ parsesValue_array harray
      exact eventually_succ hsucc fun _ ↦ id
    by_cases hobject : peek s = 0x7B
    · have hmembers := eventually_parsesMembers hvalue [] _ (hshort (by rw [hobject]; decide))
      have hsucc : ∀ᶠ fuel in Filter.atTop, ParsesValue A libc s (fuel + 1) :=
        eventually_succ hmembers fun fuel ↦ parsesValue_object hobject
      exact eventually_succ hsucc fun _ ↦ id
    have htrue : ∀ᶠ fuel : ℕ in Filter.atTop, True := .of_forall fun _ ↦ trivial
    exact eventually_succ htrue fun fuel _ ↦ parsesValue_leaf harray hobject fuel

/-- The pointer that `json_decode` returns, with the nodes that it leaves. -/
def decoded : Option JsonNode → Ptr → Assertion ℕ Node
  | none, r => fact (r = none)
  | some t, r => ⨆ a, fact (r = some a) * detached t a

theorem decodeWith_eq (libc : Libc) {json : List UInt8} {fuel : ℕ}
    (hfuel : 3 * json.length + 3 ≤ fuel) :
    decodeWith libc fuel json = Json.jsonDecode libc json := by
  apply (decodeWith_below_jsonDecode libc fuel json).antisymm
  apply Below.bind (.of_le (fun n ↦ (parse_mono libc n).1 _) hfuel)
  intro r _
  exact .refl _

/-- `json_decode` makes the nodes of the tree that the text stands for, and nothing else; for a
text that stands for none it returns NULL, and every node that it has made is freed again. -/
theorem eventually_jsonDecode (A : Alloc) (libc : Libc) (json : List UInt8) :
    ∀ᶠ fuel in Filter.atTop, Triple 1 (jsonDecode A libc fuel json)
      (decoded (Json.jsonDecode libc json)) := by
  obtain ⟨v, hv⟩ := eventually_parseValue_eq libc (skipSpace json)
  have hparses : ∀ᶠ fuel in Filter.atTop, ParsesValue A libc (skipSpace json) fuel :=
    eventually_parsesValue (skipSpace json)
  cases v with
  | none =>
    filter_upwards [hparses, hv,
      Filter.eventually_ge_atTop (3 * json.length + 3)] with fuel hvalue hnone hfuel
    rw [← decodeWith_eq libc hfuel, decodeWith, hnone]
    apply triple_parseValue_bind hvalue
    · intro _
      exact Triple.pure (fact_of rfl).ge
    · intro t rest a hsome
      exact absurd (hnone.symm.trans hsome) (Option.some_ne_none _).symm
  | some r =>
    obtain ⟨t, rest⟩ := r
    filter_upwards [hparses, hv,
      Filter.eventually_ge_atTop (3 * json.length + 3), eventually_frees t]
      with fuel hvalue hsome hfuel hfrees
    rw [← decodeWith_eq libc hfuel, decodeWith, hsome]
    apply triple_parseValue_bind hvalue
    · intro hnone
      exact absurd (hsome.symm.trans hnone) (Option.some_ne_none _)
    · intro t' rest' a hsome'
      obtain ⟨rfl, rfl⟩ := Prod.mk.inj (Option.some.inj (hsome.symm.trans hsome'))
      rw [mul_one]
      change Triple _ (if peek (skipSpace rest) ≠ 0 then _ else _)
        (decoded (if peek (skipSpace rest) ≠ 0 then _ else _))
      by_cases hend : peek (skipSpace rest) = 0
      · rw [if_neg (not_not.mpr hend), if_neg (not_not.mpr hend)]
        apply Triple.pure
        apply le_iSup_of_le a
        rw [fact_of rfl, one_mul]
      · rw [if_pos hend, if_pos hend]
        exact triple_failure hfrees a

/-! ## Validation -/

theorem failure_none {γ : Type} (fuel : ℕ) : failure (γ := γ) fuel none = pure none := by
  cases fuel <;> rw [failure, jsonDelete, pure_bind]

/-- The result of a function that is called without a place for the node. -/
def scanned {γ : Type} (r : Option (γ × List UInt8)) : Option (Ptr × List UInt8) :=
  r.map fun x ↦ (none, x.2)

theorem parseElements_succ_false (fuel : ℕ) (s : List UInt8) :
    parseElements A libc false (fuel + 1) none s = (do
      match ← parseValue A libc false fuel s with
      | none => failure fuel none
      | some (_, s) => afterChild fuel 0x5D none (parseElements A libc false fuel none) s) := by
  rw [parseElements]
  rfl

theorem parseMembers_succ_false (fuel : ℕ) (s : List UInt8) :
    parseMembers A libc false (fuel + 1) none s = (do
      match ← parseString A false fuel s with
      | none => failure fuel none
      | some (_, s) =>
        if peek (skipSpace s) ≠ 0x3A then failure fuel none
        else
          match ← parseValue A libc false fuel (skipSpace (skipSpace s).tail) with
          | none => failure fuel none
          | some (_, s) =>
            afterChild fuel 0x7D none (parseMembers A libc false fuel none) s) := by
  rw [parseMembers]
  rfl

theorem parseString_false (fuel : ℕ) (s : List UInt8) :
    parseString A false fuel s = pure (Json.parseString fuel s) := by
  rw [parseString, if_neg fun h ↦ absurd h.1 Bool.false_ne_true]

theorem afterChild_none {γ : Type} {fuel : ℕ} {close : UInt8} {c : γ} {s : List UInt8}
    {loop : List UInt8 → Cmd (Option (Ptr × List UInt8))}
    {next : List UInt8 → Option (List γ × List UInt8)}
    (hloop : loop (skipSpace (skipSpace s).tail) =
      pure (scanned (next (skipSpace (skipSpace s).tail)))) :
    afterChild fuel close none loop s = pure (scanned (loopAfter close next c s)) := by
  unfold afterChild loopAfter
  by_cases hclose : peek (skipSpace s) = close
  · rw [if_pos hclose, if_pos hclose]
    rfl
  · rw [if_neg hclose, if_neg hclose]
    by_cases hcomma : peek (skipSpace s) = 0x2C
    · rw [if_neg (not_not.mpr hcomma), if_neg (not_not.mpr hcomma), hloop]
      rw [scanned, scanned, Option.map_map]
      rfl
    · rw [if_pos hcomma, if_pos hcomma, failure_none]
      rfl

theorem parseValue_leaf_false {s : List UInt8} (harray : peek s ≠ 0x5B) (hobject : peek s ≠ 0x7B)
    (fuel : ℕ) : parseValue A libc false (fuel + 1) s =
      pure (scanned (Json.parseValue libc (fuel + 1) s)) := by
  rw [parseValue, Json.parseValue]
  by_cases hnull : peek s = 0x6E
  · rw [if_pos hnull, if_pos hnull]
    cases expectLiteral s (ascii "null") <;> rfl
  rw [if_neg hnull, if_neg hnull]
  by_cases hfalse : peek s = 0x66
  · rw [if_pos hfalse, if_pos hfalse]
    cases expectLiteral s (ascii "false") <;> rfl
  rw [if_neg hfalse, if_neg hfalse]
  by_cases htrue : peek s = 0x74
  · rw [if_pos htrue, if_pos htrue]
    cases expectLiteral s (ascii "true") <;> rfl
  rw [if_neg htrue, if_neg htrue]
  by_cases hstring : peek s = 0x22
  · rw [if_pos hstring, if_pos hstring, parseString_false, pure_bind]
    cases Json.parseString fuel s <;> rfl
  rw [if_neg hstring, if_neg hstring, if_neg harray, if_neg harray, if_neg hobject,
    if_neg hobject, parseNumber]
  cases scanNumber s <;> rfl

/-- Without a place for the node the functions run on no memory at all, and take the same texts. -/
theorem parse_false (A : Alloc) (libc : Libc) (fuel : ℕ) :
    (∀ s, 3 * s.length + 3 ≤ fuel →
      parseValue A libc false fuel s = pure (scanned (Json.parseValue libc fuel s))) ∧
    (∀ s, 3 * s.length + 2 ≤ fuel → peek s = 0x5B →
      parseArray A libc false fuel s = pure (scanned (Json.parseArray libc fuel s))) ∧
    (∀ s, 3 * s.length + 4 ≤ fuel →
      parseElements A libc false fuel none s = pure (scanned (Json.parseElements libc fuel s))) ∧
    (∀ s, 3 * s.length + 2 ≤ fuel → peek s = 0x7B →
      parseObject A libc false fuel s = pure (scanned (Json.parseObject libc fuel s))) ∧
    (∀ s, 3 * s.length + 4 ≤ fuel →
      parseMembers A libc false fuel none s = pure (scanned (Json.parseMembers libc fuel s))) := by
  induction fuel with
  | zero => exact ⟨by omega, by omega, by omega, by omega, by omega⟩
  | succ fuel ih =>
    obtain ⟨hvalue, harray, helements, hobject, hmembers⟩ := ih
    have hopen {s : List UInt8} {c : UInt8} (hc : c ≠ 0) (h : peek s = c) :
        (skipSpace s.tail).length < s.length :=
      (length_skipSpace_le _).trans_lt (length_tail_lt (h ▸ hc))
    refine ⟨fun s hs ↦ ?_, fun s hs hbracket ↦ ?_, fun s hs ↦ ?_, fun s hs hbrace ↦ ?_,
      fun s hs ↦ ?_⟩
    · by_cases hbracket : peek s = 0x5B
      · rw [(parseValue_array hbracket fuel).1, (parseValue_array (A := A) hbracket fuel).2]
        exact harray s (by omega) hbracket
      by_cases hbrace : peek s = 0x7B
      · rw [(parseValue_object hbrace fuel).1, (parseValue_object (A := A) hbrace fuel).2]
        exact hobject s (by omega) hbrace
      exact parseValue_leaf_false hbracket hbrace fuel
    · rw [parseArray, given, if_neg Bool.false_ne_true, pure_bind, if_neg (not_not.mpr hbracket)]
      change (if peek (skipSpace s.tail) = 0x5D then _ else _) = _
      by_cases hempty : peek (skipSpace s.tail) = 0x5D
      · rw [if_pos hempty, Json.parseArray, if_neg (not_not.mpr hbracket)]
        change _ = pure (scanned (if peek (skipSpace s.tail) = 0x5D then _ else _))
        rw [if_pos hempty]
        rfl
      · have hshort := hopen (by decide) hbracket
        rw [if_neg hempty, parseArray_succ libc hbracket hempty, helements _ (by omega), scanned,
          scanned, Option.map_map]
        rfl
    · rw [parseElements_succ_false, Json.parseElements_succ, hvalue s (by omega), pure_bind]
      cases hparse : Json.parseValue libc fuel s with
      | none => exact failure_none fuel
      | some r =>
        have hshort := (length_parse libc fuel).1 s r.1 r.2 hparse
        have hle := length_skipSpace_tail_le r.2
        exact afterChild_none (helements _ (by omega))
    · rw [parseObject, given, if_neg Bool.false_ne_true, pure_bind, if_neg (not_not.mpr hbrace)]
      change (if peek (skipSpace s.tail) = 0x7D then _ else _) = _
      by_cases hempty : peek (skipSpace s.tail) = 0x7D
      · rw [if_pos hempty, Json.parseObject, if_neg (not_not.mpr hbrace)]
        change _ = pure (scanned (if peek (skipSpace s.tail) = 0x7D then _ else _))
        rw [if_pos hempty]
        rfl
      · have hshort := hopen (by decide) hbrace
        rw [if_neg hempty, parseObject_succ libc hbrace hempty, hmembers _ (by omega), scanned,
          scanned, Option.map_map]
        rfl
    · rw [parseMembers_succ_false, Json.parseMembers_succ, parseString_false, pure_bind]
      cases hstring : Json.parseString fuel s with
      | none => exact failure_none fuel
      | some k =>
        have hshort := length_parseString hstring
        have hle := length_skipSpace_tail_le k.2
        rw [Option.bind_some]
        change (if peek (skipSpace k.2) ≠ 0x3A then failure fuel none else _) = _
        by_cases hcolon : peek (skipSpace k.2) = 0x3A
        · rw [if_neg (not_not.mpr hcolon), if_neg (not_not.mpr hcolon), hvalue _ (by omega),
            pure_bind]
          cases hparse : Json.parseValue libc fuel (skipSpace (skipSpace k.2).tail) with
          | none => exact failure_none fuel
          | some r =>
            have hshort' := (length_parse libc fuel).1 _ r.1 r.2 hparse
            have hle' := length_skipSpace_tail_le r.2
            exact afterChild_none (hmembers _ (by omega))
        · rw [if_pos hcolon, if_pos hcolon]
          exact failure_none fuel

/-- `json_validate` says whether `json_decode` would read the text. It makes no request for memory
and reads and writes no node. -/
theorem jsonValidate_eq (A : Alloc) (libc : Libc) (json : List UInt8) {fuel : ℕ}
    (hfuel : 3 * json.length + 3 ≤ fuel) :
    jsonValidate A libc fuel json = pure (Json.jsonDecode libc json).isSome := by
  have hlen := length_skipSpace_le json
  rw [jsonValidate, (parse_false A libc fuel).1 _ (by omega), pure_bind,
    ← decodeWith_eq libc hfuel, decodeWith]
  cases Json.parseValue libc fuel (skipSpace json) with
  | none => rfl
  | some r =>
    change pure (decide (peek (skipSpace r.2) = 0)) =
      pure (if peek (skipSpace r.2) ≠ 0 then none else some r.1).isSome
    by_cases hend : peek (skipSpace r.2) = 0
    · rw [if_neg (not_not.mpr hend), decide_eq_true hend]
      rfl
    · rw [if_pos hend, decide_eq_false hend]
      rfl

def noMemory : Alloc := ⟨fun _ _ ↦ none, fun h ↦ absurd h (Option.some_ne_none _).symm⟩

/-- Even with no memory left the text is validated. -/
theorem jsonValidate_member :
    jsonValidate noMemory exactLibc 24 (ascii "\x7b\"a\":1\x7d") = pure true :=
  jsonValidate_eq noMemory exactLibc (ascii "\x7b\"a\":1\x7d") (by decide)

end Stored.Json.Linked
