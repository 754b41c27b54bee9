import Stored.Json.Lexical

/-!
# The grammar of JSON

`Value` relates a text to the tree that it stands for, white space and escapes included. The decoder
accepts exactly the texts of the grammar and returns their trees.
-/

namespace Stored.Json

open Bytes Utf8 Partial

mutual

inductive Value (reads : List UInt8 → ℚ → Prop) : List UInt8 → JsonNode → Prop
  | null : Value reads (ascii "null") .null
  | bool (b : Bool) : Value reads (ascii (if b then "true" else "false")) (.bool b)
  | string {s : List UInt8} {cs : List Char} (h : Chars s cs) :
      Value reads (0x22 :: (s ++ [0x22])) (.string (encode cs))
  | number {w : List UInt8} {x : ℚ} (h : Number w) (hx : reads w x) : Value reads w (.number x)
  | emptyArray {a : List UInt8} (ha : Blank a) : Value reads (0x5B :: (a ++ [0x5D])) (.array [])
  | array {s : List UInt8} {es : List JsonNode} (h : Elements reads s es) :
      Value reads (0x5B :: (s ++ [0x5D])) (.array es)
  | emptyObject {a : List UInt8} (ha : Blank a) : Value reads (0x7B :: (a ++ [0x7D])) (.object [])
  | object {s : List UInt8} {ms : List (List UInt8 × JsonNode)} (h : Members reads s ms) :
      Value reads (0x7B :: (s ++ [0x7D])) (.object ms)

/-- The elements of an array that has some, with the white space around them. -/
inductive Elements (reads : List UInt8 → ℚ → Prop) : List UInt8 → List JsonNode → Prop
  | last {a w b : List UInt8} {e : JsonNode} (ha : Blank a) (hw : Value reads w e) (hb : Blank b) :
      Elements reads (a ++ (w ++ b)) [e]
  | comma {a w b s : List UInt8} {e : JsonNode} {es : List JsonNode} (ha : Blank a)
      (hw : Value reads w e) (hb : Blank b) (hs : Elements reads s es) :
      Elements reads (a ++ (w ++ (b ++ 0x2C :: s))) (e :: es)

/-- One member without the white space around it. -/
inductive Member (reads : List UInt8 → ℚ → Prop) : List UInt8 → List UInt8 × JsonNode → Prop
  | mk {k a b w : List UInt8} {cs : List Char} {v : JsonNode} (hk : Chars k cs) (ha : Blank a)
      (hb : Blank b) (hw : Value reads w v) :
      Member reads (0x22 :: (k ++ 0x22 :: (a ++ 0x3A :: (b ++ w)))) (encode cs, v)

/-- The members of an object that has some, with the white space around them. -/
inductive Members (reads : List UInt8 → ℚ → Prop) : List UInt8 → List (List UInt8 × JsonNode) → Prop
  | last {a w b : List UInt8} {m : List UInt8 × JsonNode} (ha : Blank a) (hw : Member reads w m)
      (hb : Blank b) : Members reads (a ++ (w ++ b)) [m]
  | comma {a w b s : List UInt8} {m : List UInt8 × JsonNode} {ms : List (List UInt8 × JsonNode)}
      (ha : Blank a) (hw : Member reads w m) (hb : Blank b) (hs : Members reads s ms) :
      Members reads (a ++ (w ++ (b ++ 0x2C :: s))) (m :: ms)

end

/-- A value with the white space around it. -/
def Document (reads : List UInt8 → ℚ → Prop) (s : List UInt8) (t : JsonNode) : Prop :=
  ∃ a w b, Blank a ∧ Value reads w t ∧ Blank b ∧ s = a ++ (w ++ b)

/-- What stands behind a value: white space, a comma, a closing bracket or the end. -/
def Delimited (rest : List UInt8) : Prop :=
  isSpace (peek rest) = true ∨ peek rest = 0x2C ∨ peek rest = 0x5D ∨ peek rest = 0x7D ∨ peek rest = 0

theorem Delimited.noNumber {rest : List UInt8} (h : Delimited rest) : NoNumber rest := by
  have hall : ∀ c : UInt8, isSpace c = true ∨ c = 0x2C ∨ c = 0x5D ∨ c = 0x7D ∨ c = 0 →
      isDigit c = false ∧ c ≠ 0x2E ∧ c ≠ 0x45 ∧ c ≠ 0x65 := by
    intro c hc
    rw [isSpace_iff] at hc
    rcases hc with (rfl | rfl | rfl | rfl) | rfl | rfl | rfl | rfl <;> decide
  exact hall _ h

theorem delimited_blank_append {a : List UInt8} (ha : Blank a) {rest : List UInt8}
    (hrest : Delimited rest) : Delimited (a ++ rest) := by
  cases a with
  | nil => exact hrest
  | cons c a => exact .inl ((isSpace_iff c).mpr (ha c List.mem_cons_self))

theorem delimited_of_skipSpace {s : List UInt8} (h : Delimited (skipSpace s)) : Delimited s := by
  obtain ⟨a, ha, heq⟩ := exists_blank_append_skipSpace s
  rw [heq]
  exact delimited_blank_append ha h

theorem skipSpace_cons_of_ne {c : UInt8} (hc : isSpace c = false) (s : List UInt8) :
    skipSpace (c :: s) = c :: s :=
  skipSpace_of_peek hc

variable {libc : Libc} {reads : List UInt8 → ℚ → Prop}

/-- What a value starts with. -/
theorem Value.peek {w : List UInt8} {t : JsonNode} (h : Value reads w t) (rest : List UInt8) :
    isSpace (peek (w ++ rest)) = false ∧ peek (w ++ rest) ≠ 0x5D := by
  have hof {c : UInt8} (hpeek : Bytes.peek (w ++ rest) = c) (hc : isSpace c = false ∧ c ≠ 0x5D) :
      isSpace (Bytes.peek (w ++ rest)) = false ∧ Bytes.peek (w ++ rest) ≠ 0x5D := by
    rw [hpeek]
    exact hc
  cases h with
  | null => exact hof (c := 0x6E) rfl (by decide)
  | bool b =>
    cases b with
    | false => exact hof (c := 0x66) rfl (by decide)
    | true => exact hof (c := 0x74) rfl (by decide)
  | string | emptyArray | array | emptyObject | object => exact ⟨rfl, by simp⟩
  | number hw _ =>
    obtain ⟨sign, int, frac, exp, hsign, hint, -, -, rfl⟩ := hw
    have hdigit : isDigit (Bytes.peek (int ++ (frac ++ exp) ++ rest)) = true := by
      rw [List.append_assoc]
      exact peek_integer hint _
    have hall : ∀ c : UInt8, isDigit c = true → isSpace c = false ∧ c ≠ 0x5D := by
      intro c hc
      rw [isDigit_iff] at hc
      refine ⟨?_, by grind⟩
      rw [← Bool.not_eq_true, isSpace_iff]
      grind
    obtain rfl | rfl := hsign
    · exact hall _ hdigit
    · exact ⟨rfl, by simp⟩

/-- What a parse function returns is read off the text before the rest. -/
def SoundValue (reads : List UInt8 → ℚ → Prop) (r : Option (JsonNode × List UInt8))
    (s : List UInt8) : Prop :=
  ∀ t rest, r = some (t, rest) → ∃ w, s = w ++ rest ∧ (Delimited rest → Value reads w t)

/-- What a parse loop returns is read off the text before the closing bracket. -/
def SoundLoop {γ : Type} (close : UInt8) (derives : List UInt8 → List γ → Prop)
    (r : Option (List γ × List UInt8)) (s : List UInt8) : Prop :=
  ∀ cs rest, r = some (cs, rest) → ∃ w, s = w ++ close :: rest ∧ derives w cs

/-- A loop behind one child. -/
theorem soundLoop_loopAfter {γ : Type} {close : UInt8} {derives : List UInt8 → List γ → Prop}
    {c : γ} {w s : List UInt8} {next : List UInt8 → Option (List γ × List UInt8)}
    (hclose : Delimited [close]) (h0 : close ≠ 0)
    (hchild : Delimited s → ∀ b, Blank b → derives (w ++ b) [c] ∧
      ∀ a u cs, Blank a → derives u cs → derives (w ++ (b ++ 0x2C :: (a ++ u))) (c :: cs))
    (hnext : ∀ s, SoundLoop close derives (next s) s) :
    SoundLoop close derives (loopAfter close next c s) (w ++ s) := by
  intro cs rest h
  unfold loopAfter at h
  simp only at h
  obtain ⟨b, hb, hs⟩ := exists_blank_append_skipSpace s
  split_ifs at h with hpeek hcomma
  · obtain ⟨rfl, rfl⟩ := Prod.mk.inj (Option.some.inj h)
    have hend : skipSpace s = close :: (skipSpace s).tail := eq_cons_of_peek hpeek h0
    have hdelim : Delimited s := by
      apply delimited_of_skipSpace
      rw [hend]
      exact hclose
    refine ⟨w ++ b, ?_, (hchild hdelim b hb).1⟩
    rw [List.append_assoc, ← hend, ← hs]
  · rw [not_not] at hcomma
    obtain ⟨⟨cs', rest'⟩, hrest, h⟩ := Option.map_eq_some_iff.mp h
    obtain ⟨rfl, rfl⟩ := Prod.mk.inj h
    have hend : skipSpace s = 0x2C :: (skipSpace s).tail := eq_cons_of_peek hcomma (by decide)
    have hdelim : Delimited s := by
      apply delimited_of_skipSpace
      exact .inr (.inl hcomma)
    obtain ⟨u, hu, hder⟩ := hnext _ _ _ hrest
    obtain ⟨a, ha, htail⟩ := exists_blank_append_skipSpace (skipSpace s).tail
    refine ⟨w ++ (b ++ 0x2C :: (a ++ u)), ?_, (hchild hdelim b hb).2 a u cs' ha hder⟩
    calc
      w ++ s = w ++ (b ++ 0x2C :: (a ++ skipSpace (skipSpace s).tail)) := by
        rw [← htail, ← hend, ← hs]
      _ = _ := by
        rw [hu]
        simp only [List.append_assoc, List.cons_append]

theorem Blank.append {a b : List UInt8} (ha : Blank a) (hb : Blank b) : Blank (a ++ b) :=
  List.forall_mem_append.mpr ⟨ha, hb⟩

theorem blank_nil : Blank [] := List.forall_mem_nil _

theorem Elements.blank_append {a s : List UInt8} {es : List JsonNode} (ha : Blank a)
    (h : Elements reads s es) : Elements reads (a ++ s) es := by
  cases h with
  | last ha' hw hb =>
    rw [← List.append_assoc]
    exact .last (ha.append ha') hw hb
  | comma ha' hw hb hs =>
    rw [← List.append_assoc]
    exact .comma (ha.append ha') hw hb hs

theorem Members.blank_append {a s : List UInt8} {ms : List (List UInt8 × JsonNode)} (ha : Blank a)
    (h : Members reads s ms) : Members reads (a ++ s) ms := by
  cases h with
  | last ha' hw hb =>
    rw [← List.append_assoc]
    exact .last (ha.append ha') hw hb
  | comma ha' hw hb hs =>
    rw [← List.append_assoc]
    exact .comma (ha.append ha') hw hb hs

theorem Elements.append_blank {s b : List UInt8} {es : List JsonNode} (h : Elements reads s es)
    (hb : Blank b) : Elements reads (s ++ b) es := by
  match h with
  | .last ha hw hb' =>
    rw [List.append_assoc, List.append_assoc]
    exact .last ha hw (hb'.append hb)
  | .comma ha hw hb' hs =>
    rw [List.append_assoc, List.append_assoc, List.append_assoc, List.cons_append]
    exact .comma ha hw hb' (hs.append_blank hb)

theorem Members.append_blank {s b : List UInt8} {ms : List (List UInt8 × JsonNode)}
    (h : Members reads s ms) (hb : Blank b) : Members reads (s ++ b) ms := by
  match h with
  | .last ha hw hb' =>
    rw [List.append_assoc, List.append_assoc]
    exact .last ha hw (hb'.append hb)
  | .comma ha hw hb' hs =>
    rw [List.append_assoc, List.append_assoc, List.append_assoc, List.cons_append]
    exact .comma ha hw hb' (hs.append_blank hb)

theorem parseString_sound {fuel : ℕ} {s str rest : List UInt8}
    (h : parseString fuel s = some (str, rest)) :
    ∃ k cs, Chars k cs ∧ s = 0x22 :: (k ++ 0x22 :: rest) ∧ str = encode cs := by
  unfold parseString at h
  split_ifs at h with hquote
  obtain ⟨k, cs, hk, hs, hstr⟩ := parseChars_sound h
  refine ⟨k, cs, hk, ?_, hstr⟩
  rw [← hs]
  exact eq_cons_of_peek hquote (by decide)

theorem soundLoop_parseElements {fuel : ℕ}
    (hvalue : ∀ s, SoundValue reads (parseValue libc fuel s) s)
    (hnext : ∀ s, SoundLoop 0x5D (Elements reads) (parseElements libc fuel s) s) (s : List UInt8) :
    SoundLoop 0x5D (Elements reads) (parseElements libc (fuel + 1) s) s := by
  intro es rest h
  rw [parseElements_succ] at h
  obtain ⟨⟨e, s'⟩, he, hloop⟩ := Option.bind_eq_some_iff.mp h
  obtain ⟨w, rfl, hw⟩ := hvalue s e s' he
  apply soundLoop_loopAfter (.inr (.inr (.inl rfl))) (by decide) _ hnext es rest hloop
  intro hdelim b hb
  constructor
  · exact .last blank_nil (hw hdelim) hb
  · intro a u cs ha hu
    exact .comma blank_nil (hw hdelim) hb (hu.blank_append ha)

theorem soundLoop_parseMembers {fuel : ℕ}
    (hvalue : ∀ s, SoundValue reads (parseValue libc fuel s) s)
    (hnext : ∀ s, SoundLoop 0x7D (Members reads) (parseMembers libc fuel s) s) (s : List UInt8) :
    SoundLoop 0x7D (Members reads) (parseMembers libc (fuel + 1) s) s := by
  intro ms rest h
  rw [parseMembers_succ] at h
  obtain ⟨⟨key, s'⟩, hkey, h⟩ := Option.bind_eq_some_iff.mp h
  split_ifs at h with hcolon
  rw [not_not] at hcolon
  obtain ⟨⟨v, s''⟩, hv, hloop⟩ := Option.bind_eq_some_iff.mp h
  obtain ⟨k, cs, hk, rfl, rfl⟩ := parseString_sound hkey
  obtain ⟨a, ha, hbefore⟩ := exists_blank_append_skipSpace s'
  obtain ⟨b, hb, hbehind⟩ := exists_blank_append_skipSpace (skipSpace s').tail
  obtain ⟨w, hsplit, hw⟩ := hvalue _ v s'' hv
  have hmember : 0x22 :: (k ++ 0x22 :: s') =
      0x22 :: (k ++ 0x22 :: (a ++ 0x3A :: (b ++ w))) ++ s'' := by
    calc
      _ = 0x22 :: (k ++ 0x22 :: (a ++ 0x3A :: (b ++ skipSpace (skipSpace s').tail))) := by
        rw [← hbehind, ← eq_cons_of_peek hcolon (by decide), ← hbefore]
      _ = _ := by
        rw [hsplit]
        simp only [List.append_assoc, List.cons_append]
  rw [hmember]
  apply soundLoop_loopAfter (.inr (.inr (.inr (.inl rfl)))) (by decide) _ hnext ms rest hloop
  intro hdelim d hd
  constructor
  · exact .last blank_nil (.mk hk ha hb (hw hdelim)) hd
  · intro c u cs' hc hu
    exact .comma blank_nil (.mk hk ha hb (hw hdelim)) hd (hu.blank_append hc)

theorem parseArray_sound {fuel : ℕ} {s rest : List UInt8} {t : JsonNode}
    (helements : ∀ s, SoundLoop 0x5D (Elements reads) (parseElements libc fuel s) s)
    (h : parseArray libc (fuel + 1) s = some (t, rest)) :
    ∃ w, s = w ++ rest ∧ Value reads w t := by
  rw [parseArray] at h
  simp only at h
  obtain ⟨a, ha, hs⟩ := exists_blank_append_skipSpace s.tail
  split_ifs at h with hopen hclose
  all_goals rw [not_not] at hopen
  all_goals rw [eq_cons_of_peek hopen (by decide)]
  · obtain ⟨rfl, rfl⟩ := Prod.mk.inj (Option.some.inj h)
    refine ⟨0x5B :: (a ++ [0x5D]), ?_, .emptyArray ha⟩
    rw [List.cons_append, List.append_assoc, List.singleton_append,
      ← eq_cons_of_peek hclose (by decide), ← hs]
  · obtain ⟨⟨es, rest'⟩, hloop, h⟩ := Option.map_eq_some_iff.mp h
    obtain ⟨rfl, rfl⟩ := Prod.mk.inj h
    obtain ⟨w, hw, hes⟩ := helements _ es rest' hloop
    refine ⟨0x5B :: (a ++ w ++ [0x5D]), ?_, .array (hes.blank_append ha)⟩
    rw [List.cons_append, List.append_assoc, List.append_assoc, List.singleton_append, ← hw, ← hs]

theorem parseObject_sound {fuel : ℕ} {s rest : List UInt8} {t : JsonNode}
    (hmembers : ∀ s, SoundLoop 0x7D (Members reads) (parseMembers libc fuel s) s)
    (h : parseObject libc (fuel + 1) s = some (t, rest)) :
    ∃ w, s = w ++ rest ∧ Value reads w t := by
  rw [parseObject] at h
  simp only at h
  obtain ⟨a, ha, hs⟩ := exists_blank_append_skipSpace s.tail
  split_ifs at h with hopen hclose
  all_goals rw [not_not] at hopen
  all_goals rw [eq_cons_of_peek hopen (by decide)]
  · obtain ⟨rfl, rfl⟩ := Prod.mk.inj (Option.some.inj h)
    refine ⟨0x7B :: (a ++ [0x7D]), ?_, .emptyObject ha⟩
    rw [List.cons_append, List.append_assoc, List.singleton_append,
      ← eq_cons_of_peek hclose (by decide), ← hs]
  · obtain ⟨⟨ms, rest'⟩, hloop, h⟩ := Option.map_eq_some_iff.mp h
    obtain ⟨rfl, rfl⟩ := Prod.mk.inj h
    obtain ⟨w, hw, hms⟩ := hmembers _ ms rest' hloop
    refine ⟨0x7B :: (a ++ w ++ [0x7D]), ?_, .object (hms.blank_append ha)⟩
    rw [List.cons_append, List.append_assoc, List.append_assoc, List.singleton_append, ← hw, ← hs]

theorem soundValue_parseValue
    (hreads : ∀ w rest, Number w → Delimited rest → reads w (libc.strtod (w ++ rest))) {fuel : ℕ}
    (harray : ∀ s t rest, parseArray libc fuel s = some (t, rest) →
      ∃ w, s = w ++ rest ∧ Value reads w t)
    (hobject : ∀ s t rest, parseObject libc fuel s = some (t, rest) →
      ∃ w, s = w ++ rest ∧ Value reads w t) (s : List UInt8) :
    SoundValue reads (parseValue libc (fuel + 1) s) s := by
  intro t rest h
  have hliteral {str : String} {u : JsonNode} (h0 : 0 ∉ ascii str) (hu : Value reads (ascii str) u)
      (hmap : (expectLiteral s (ascii str)).map (fun s ↦ (u, s)) = some (t, rest)) :
      ∃ w, s = w ++ rest ∧ (Delimited rest → Value reads w t) := by
    obtain ⟨s', hs', heq⟩ := Option.map_eq_some_iff.mp hmap
    obtain ⟨rfl, rfl⟩ := Prod.mk.inj heq
    exact ⟨ascii str, (expectLiteral_eq_some_iff h0).mp hs', fun _ ↦ hu⟩
  rw [parseValue] at h
  split_ifs at h
  · exact hliteral (by decide) .null h
  · exact hliteral (by decide) (.bool false) h
  · exact hliteral (by decide) (.bool true) h
  · obtain ⟨⟨str, s'⟩, hstring, heq⟩ := Option.map_eq_some_iff.mp h
    obtain ⟨rfl, rfl⟩ := Prod.mk.inj heq
    obtain ⟨k, cs, hk, rfl, rfl⟩ := parseString_sound hstring
    refine ⟨0x22 :: (k ++ [0x22]), ?_, fun _ ↦ .string hk⟩
    simp only [List.cons_append, List.append_assoc, List.nil_append]
  · exact (harray s t rest h).imp fun w hw ↦ ⟨hw.1, fun _ ↦ hw.2⟩
  · exact (hobject s t rest h).imp fun w hw ↦ ⟨hw.1, fun _ ↦ hw.2⟩
  · simp only [parseNumber, Option.bind_eq_bind, Option.bind_eq_some_iff] at h
    obtain ⟨s', hscan, heq⟩ := h
    obtain ⟨rfl, rfl⟩ := Prod.mk.inj (Option.some.inj heq)
    obtain ⟨w, hw, rfl⟩ := scanNumber_sound hscan
    exact ⟨w, rfl, fun hdelim ↦ .number hw (hreads w s' hw hdelim)⟩

theorem parse_sound
    (hreads : ∀ w rest, Number w → Delimited rest → reads w (libc.strtod (w ++ rest))) (fuel : ℕ) :
    (∀ s, SoundValue reads (parseValue libc fuel s) s) ∧
    (∀ s t rest, parseArray libc fuel s = some (t, rest) → ∃ w, s = w ++ rest ∧ Value reads w t) ∧
    (∀ s, SoundLoop 0x5D (Elements reads) (parseElements libc fuel s) s) ∧
    (∀ s t rest, parseObject libc fuel s = some (t, rest) → ∃ w, s = w ++ rest ∧ Value reads w t) ∧
    (∀ s, SoundLoop 0x7D (Members reads) (parseMembers libc fuel s) s) := by
  induction fuel with
  | zero =>
    refine ⟨fun s t rest h ↦ ?_, fun s t rest h ↦ ?_, fun s cs rest h ↦ ?_, fun s t rest h ↦ ?_,
      fun s cs rest h ↦ ?_⟩
    · exact nomatch h
    · exact nomatch h
    · exact nomatch h
    · exact nomatch h
    · exact nomatch h
  | succ fuel ih =>
    obtain ⟨hvalue, harray, helements, hobject, hmembers⟩ := ih
    exact ⟨soundValue_parseValue hreads harray hobject, fun s t rest ↦ parseArray_sound helements,
      soundLoop_parseElements hvalue helements, fun s t rest ↦ parseObject_sound hmembers,
      soundLoop_parseMembers hvalue hmembers⟩

/-! ## What is in the grammar is decoded -/

theorem settles_string {s : List UInt8} {cs : List Char} (h : Chars s cs) (rest : List UInt8) :
    Settles (fun fuel ↦ parseString fuel (0x22 :: (s ++ 0x22 :: rest))) True (encode cs, rest) :=
  Settles.of_some (fun n ↦ parseString_mono n _)
    (parseChars_complete h rest (Nat.lt_succ_self cs.length))

section Loop

variable {γ : Type} {close : UInt8} {b : List UInt8}
  {next : ℕ → List UInt8 → Option (List γ × List UInt8)}

theorem settles_loop_last (hb : Blank b) (hclose : isSpace close = false) (child : γ)
    (rest : List UInt8) : Settles (fun fuel ↦ loopAfter close (next fuel) child (b ++ close :: rest))
      True ([child], rest) := by
  have hskip : skipSpace (b ++ close :: rest) = close :: rest := by
    rw [skipSpace_blank hb, skipSpace_cons_of_ne hclose]
  simpa only [loopAfter, hskip, peek_cons, if_true, List.tail_cons] using
    Settles.some ([child], rest)

theorem settles_loop_comma (hb : Blank b) (hclose : close ≠ 0x2C) (child : γ) {t : List UInt8}
    {r : List γ × List UInt8} (h : Settles (fun fuel ↦ next fuel (skipSpace t)) True r) :
    Settles (fun fuel ↦ loopAfter close (next fuel) child (b ++ 0x2C :: t)) True
      (child :: r.1, r.2) := by
  have hskip : skipSpace (b ++ 0x2C :: t) = 0x2C :: t := by
    rw [skipSpace_blank hb, skipSpace_cons_of_ne rfl]
  have hloop (fuel : ℕ) : loopAfter close (next fuel) child (b ++ 0x2C :: t) =
      (next fuel (skipSpace t)).map fun r ↦ (child :: r.1, r.2) := by
    simp only [loopAfter, hskip, peek_cons, if_neg hclose.symm, ne_eq, not_true_eq_false, if_false,
      List.tail_cons]
  simpa only [hloop] using h.map fun r ↦ (child :: r.1, r.2)

end Loop

theorem Value.skipSpace {a w : List UInt8} {t : JsonNode} (ha : Blank a) (h : Value reads w t)
    (rest : List UInt8) : skipSpace (a ++ (w ++ rest)) = w ++ rest := by
  rw [skipSpace_blank ha, skipSpace_of_peek (h.peek rest).1]

theorem Member.peek {w : List UInt8} {m : List UInt8 × JsonNode} (h : Member reads w m)
    (rest : List UInt8) : peek (w ++ rest) = 0x22 := by
  cases h
  rfl

theorem Member.skipSpace {a w : List UInt8} {m : List UInt8 × JsonNode} (ha : Blank a)
    (h : Member reads w m) (rest : List UInt8) : skipSpace (a ++ (w ++ rest)) = w ++ rest := by
  rw [skipSpace_blank ha, skipSpace_of_peek]
  rw [h.peek]
  rfl

theorem Elements.peek {s : List UInt8} {es : List JsonNode} (h : Elements reads s es)
    (rest : List UInt8) : peek (Json.skipSpace (s ++ rest)) ≠ 0x5D := by
  cases h with
  | last ha hw hb =>
    rw [List.append_assoc, List.append_assoc, hw.skipSpace ha]
    exact (hw.peek _).2
  | comma ha hw hb hs =>
    rw [List.append_assoc, List.append_assoc, hw.skipSpace ha]
    exact (hw.peek _).2

theorem Members.peek {s : List UInt8} {ms : List (List UInt8 × JsonNode)} (h : Members reads s ms)
    (rest : List UInt8) : peek (Json.skipSpace (s ++ rest)) ≠ 0x7D := by
  cases h with
  | last ha hw hb =>
    rw [List.append_assoc, List.append_assoc, hw.skipSpace ha, hw.peek]
    decide
  | comma ha hw hb hs =>
    rw [List.append_assoc, List.append_assoc, hw.skipSpace ha, hw.peek]
    decide

theorem settles_number {w rest : List UInt8} (hw : Number w) (hrest : Delimited rest) :
    Settles (fun fuel ↦ parseValue libc fuel (w ++ rest)) True
      (.number (libc.strtod (w ++ rest)), rest) := by
  have hstart : peek (w ++ rest) = 0x2D ∨ isDigit (peek (w ++ rest)) = true := by
    obtain ⟨sign, int, frac, exp, hsign, hint, -, -, rfl⟩ := hw
    obtain rfl | rfl := hsign
    · rw [List.nil_append, List.append_assoc]
      exact .inr (peek_integer hint _)
    · exact .inl rfl
  obtain ⟨-, hn, hf, ht, hq, ha, ho, -⟩ := number_start hstart
  refine (Settles.some (JsonNode.number (libc.strtod (w ++ rest)), rest)).succ rfl fun fuel ↦ ?_
  rw [parseValue, if_neg hn, if_neg hf, if_neg ht, if_neg hq, if_neg ha, if_neg ho, parseNumber,
    scanNumber_complete hw hrest.noNumber]
  rfl

theorem parseArray_empty {s : List UInt8} (hopen : peek s = 0x5B)
    (hclose : peek (skipSpace s.tail) = 0x5D) (fuel : ℕ) :
    parseArray libc (fuel + 1) s = some (.array [], (skipSpace s.tail).tail) := by
  rw [parseArray, if_neg (not_not.mpr hopen)]
  exact if_pos hclose

theorem parseObject_empty {s : List UInt8} (hopen : peek s = 0x7B)
    (hclose : peek (skipSpace s.tail) = 0x7D) (fuel : ℕ) :
    parseObject libc (fuel + 1) s = some (.object [], (skipSpace s.tail).tail) := by
  rw [parseObject, if_neg (not_not.mpr hopen)]
  exact if_pos hclose

theorem skipSpace_blank_cons {a : List UInt8} (ha : Blank a) {c : UInt8} (hc : isSpace c = false)
    (s : List UInt8) : skipSpace (a ++ c :: s) = c :: s := by
  rw [skipSpace_blank ha, skipSpace_cons_of_ne hc]

/-- `strtod` reads each number as the grammar does. -/
def ReadBy (libc : Libc) (reads : List UInt8 → ℚ → Prop) : Prop :=
  ∀ w x rest, Number w → reads w x → Delimited rest → libc.strtod (w ++ rest) = x

mutual

/-- Induction on the derivation; the rest is what the loops leave behind a child. -/
theorem settles_value (hreads : ReadBy libc reads) {w : List UInt8} {t : JsonNode}
    (h : Value reads w t) (rest : List UInt8) (hrest : Delimited rest) :
    Settles (fun fuel ↦ parseValue libc fuel (w ++ rest)) True (t, rest) := by
  match h with
  | .null => exact (Settles.some (JsonNode.null, rest)).succ rfl fun fuel ↦ rfl
  | .bool true => exact (Settles.some (JsonNode.bool true, rest)).succ rfl fun fuel ↦ rfl
  | .bool false => exact (Settles.some (JsonNode.bool false, rest)).succ rfl fun fuel ↦ rfl
  | .string hs =>
    rw [List.cons_append, List.append_assoc]
    exact ((settles_string hs rest).map fun r ↦ (JsonNode.string r.1, r.2)).succ rfl fun fuel ↦ rfl
  | .number hw hx =>
    rw [← hreads _ _ rest hw hx hrest]
    exact settles_number hw hrest
  | .emptyArray (a := a) ha =>
    rw [List.cons_append, List.append_assoc, List.singleton_append]
    have hskip := skipSpace_blank_cons ha (c := 0x5D) rfl rest
    have harray := (Settles.some (JsonNode.array [], rest)).succ
      (F := fun fuel ↦ parseArray libc fuel (0x5B :: (a ++ 0x5D :: rest))) rfl fun fuel ↦ by
      rw [parseArray_empty rfl (by rw [List.tail_cons, hskip]; rfl), List.tail_cons, hskip]
      rfl
    exact harray.succ rfl fun fuel ↦ rfl
  | .array (s := s) hs =>
    rw [List.cons_append, List.append_assoc, List.singleton_append]
    have helements := settles_elements hreads hs rest
    have harray := (helements.map fun r ↦ (JsonNode.array r.1, r.2)).succ
      (F := fun fuel ↦ parseArray libc fuel (0x5B :: (s ++ 0x5D :: rest))) rfl fun fuel ↦
      parseArray_succ libc (s := 0x5B :: (s ++ 0x5D :: rest)) rfl (hs.peek (0x5D :: rest)) fuel
    exact harray.succ rfl fun fuel ↦ rfl
  | .emptyObject (a := a) ha =>
    rw [List.cons_append, List.append_assoc, List.singleton_append]
    have hskip := skipSpace_blank_cons ha (c := 0x7D) rfl rest
    have hobject := (Settles.some (JsonNode.object [], rest)).succ
      (F := fun fuel ↦ parseObject libc fuel (0x7B :: (a ++ 0x7D :: rest))) rfl fun fuel ↦ by
      rw [parseObject_empty rfl (by rw [List.tail_cons, hskip]; rfl), List.tail_cons, hskip]
      rfl
    exact hobject.succ rfl fun fuel ↦ rfl
  | .object (s := s) hs =>
    rw [List.cons_append, List.append_assoc, List.singleton_append]
    have hmembers := settles_members hreads hs rest
    have hobject := (hmembers.map fun r ↦ (JsonNode.object r.1, r.2)).succ
      (F := fun fuel ↦ parseObject libc fuel (0x7B :: (s ++ 0x7D :: rest))) rfl fun fuel ↦
      parseObject_succ libc (s := 0x7B :: (s ++ 0x7D :: rest)) rfl (hs.peek (0x7D :: rest)) fuel
    exact hobject.succ rfl fun fuel ↦ rfl

theorem settles_elements (hreads : ReadBy libc reads) {s : List UInt8} {es : List JsonNode}
    (h : Elements reads s es) (rest : List UInt8) :
    Settles (fun fuel ↦ parseElements libc fuel (skipSpace (s ++ 0x5D :: rest))) True
      (es, rest) := by
  match h with
  | .last (w := w) (b := b) ha hw hb =>
    have hvalue := settles_value hreads hw (b ++ 0x5D :: rest)
      (delimited_blank_append hb (.inr (.inr (.inl rfl))))
    have hloop := hvalue.bind_true
      (g := fun r fuel ↦ loopAfter 0x5D (parseElements libc fuel) r.1 r.2)
      (settles_loop_last hb rfl _ rest)
    rw [List.append_assoc, List.append_assoc, hw.skipSpace ha]
    exact hloop.succ rfl fun fuel ↦ parseElements_succ libc fuel _
  | .comma (w := w) (b := b) (s := s) ha hw hb hs =>
    have hnext := settles_elements hreads hs rest
    have hvalue := settles_value hreads hw (b ++ 0x2C :: (s ++ 0x5D :: rest))
      (delimited_blank_append hb (.inr (.inl rfl)))
    have hloop := hvalue.bind_true
      (g := fun r fuel ↦ loopAfter 0x5D (parseElements libc fuel) r.1 r.2)
      (settles_loop_comma hb (by decide) _ hnext)
    rw [List.append_assoc, List.append_assoc, List.append_assoc, List.cons_append, hw.skipSpace ha]
    exact hloop.succ rfl fun fuel ↦ parseElements_succ libc fuel _

/-- A member and what the loop does behind it. -/
theorem settles_member (hreads : ReadBy libc reads) {w : List UInt8} {m : List UInt8 × JsonNode}
    (h : Member reads w m) {rest : List UInt8} (hrest : Delimited rest)
    {r : List (List UInt8 × JsonNode) × List UInt8}
    (hloop : Settles (fun fuel ↦ loopAfter 0x7D (parseMembers libc fuel) m rest) True r) :
    Settles (fun fuel ↦ parseMembers libc fuel (w ++ rest)) True r := by
  match h with
  | .mk (k := k) (a := a) (b := b) (w := w) hk ha hb hw =>
    have hvalue := (settles_value hreads hw rest hrest).bind_true
      (g := fun r fuel ↦ loopAfter 0x7D (parseMembers libc fuel) (encode _, r.1) r.2) hloop
    have hskip := skipSpace_blank_cons ha (c := 0x3A) rfl (b ++ (w ++ rest))
    have hmember := (settles_string hk (a ++ 0x3A :: (b ++ (w ++ rest)))).bind_true
      (g := fun k fuel ↦ if peek (skipSpace k.2) ≠ 0x3A then none
        else (parseValue libc fuel (skipSpace (skipSpace k.2).tail)).bind fun r ↦
          loopAfter 0x7D (parseMembers libc fuel) (k.1, r.1) r.2)
      (by simpa only [hskip, peek_cons, List.tail_cons, ne_eq, not_true_eq_false, if_false,
            hw.skipSpace hb] using hvalue)
    have htext : 0x22 :: (k ++ 0x22 :: (a ++ 0x3A :: (b ++ w))) ++ rest =
        0x22 :: (k ++ 0x22 :: (a ++ 0x3A :: (b ++ (w ++ rest)))) := by
      simp only [List.cons_append, List.append_assoc]
    rw [htext]
    exact hmember.succ rfl fun fuel ↦ parseMembers_succ libc fuel _

theorem settles_members (hreads : ReadBy libc reads) {s : List UInt8}
    {ms : List (List UInt8 × JsonNode)} (h : Members reads s ms) (rest : List UInt8) :
    Settles (fun fuel ↦ parseMembers libc fuel (skipSpace (s ++ 0x7D :: rest))) True
      (ms, rest) := by
  match h with
  | .last (w := w) (b := b) ha hw hb =>
    rw [List.append_assoc, List.append_assoc, hw.skipSpace ha]
    exact settles_member hreads hw (delimited_blank_append hb (.inr (.inr (.inr (.inl rfl)))))
      (settles_loop_last hb rfl _ rest)
  | .comma (w := w) (b := b) (s := s) ha hw hb hs =>
    have hnext := settles_members hreads hs rest
    rw [List.append_assoc, List.append_assoc, List.append_assoc, List.cons_append, hw.skipSpace ha]
    exact settles_member hreads hw (delimited_blank_append hb (.inr (.inl rfl)))
      (settles_loop_comma hb (by decide) _ hnext)

end

theorem eq_nil_of_peek {s : List UInt8} (hnul : 0 ∉ s) (h : peek s = 0) : s = [] := by
  cases s with
  | nil => rfl
  | cons c s =>
    rw [peek_cons] at h
    exact absurd (h ▸ List.mem_cons_self) hnul

/-- What is decoded is in the grammar. -/
theorem document_of_jsonDecode
    (hreads : ∀ w rest, Number w → Delimited rest → reads w (libc.strtod (w ++ rest)))
    {json : List UInt8} (hnul : 0 ∉ json) {t : JsonNode} (h : jsonDecode libc json = some t) :
    Document reads json t := by
  simp only [jsonDecode, decodeWith, Option.bind_eq_bind, Option.bind_eq_some_iff] at h
  obtain ⟨⟨t', rest⟩, hparse, h⟩ := h
  split_ifs at h with hend
  rw [not_not] at hend
  obtain rfl := Option.some.inj h
  obtain ⟨a, ha, hjson⟩ := exists_blank_append_skipSpace json
  obtain ⟨w, hw, hvalue⟩ := (parse_sound hreads _).1 _ _ _ hparse
  obtain ⟨b, hb, hrest⟩ := exists_blank_append_skipSpace rest
  have hnil : skipSpace rest = [] := by
    apply eq_nil_of_peek _ hend
    intro hmem
    apply hnul
    rw [hjson, hw, hrest]
    exact List.mem_append_right _ (List.mem_append_right _ (List.mem_append_right _ hmem))
  have hdelim : Delimited rest := delimited_of_skipSpace (.inr (.inr (.inr (.inr hend))))
  refine ⟨a, w, b, ha, hvalue hdelim, hb, ?_⟩
  rw [hnil, List.append_nil] at hrest
  rw [← hrest, ← hw, ← hjson]

/-- What is in the grammar is decoded. -/
theorem jsonDecode_of_document (hreads : ReadBy libc reads) {json : List UInt8} {t : JsonNode}
    (h : Document reads json t) : jsonDecode libc json = some t := by
  obtain ⟨a, w, b, ha, hw, hb, rfl⟩ := h
  have hdelim : Delimited b := by
    rw [← List.append_nil b]
    exact delimited_blank_append hb (.inr (.inr (.inr (.inr rfl))))
  obtain ⟨n, hn⟩ := (settles_value hreads hw b hdelim).answers trivial
  have hend : skipSpace b = [] := by
    rw [← List.append_nil b, skipSpace_blank hb]
    rfl
  apply decodeWith_below_jsonDecode libc n
  rw [decodeWith, hw.skipSpace ha, hn]
  change (if peek (skipSpace b) ≠ 0 then none else some t) = some t
  rw [hend]
  rfl

/-- `strtod` reads a number up to its end. -/
def ReadsNumbers (libc : Libc) : Prop :=
  ∀ w rest, Number w → Delimited rest → libc.strtod (w ++ rest) = libc.strtod w

/-- `json_decode` accepts exactly the texts of the grammar, and returns the tree that the text stands
for. -/
theorem jsonDecode_eq_some_iff (hlibc : ReadsNumbers libc) (json : CString) (t : JsonNode) :
    jsonDecode libc json.bytes = some t ↔
      Document (fun w x ↦ x = libc.strtod w) json.bytes t := by
  constructor
  · exact document_of_jsonDecode (fun w rest ↦ hlibc w rest) json.nulFree
  · apply jsonDecode_of_document
    rintro w x rest hw rfl hrest
    exact hlibc w rest hw hrest

theorem takeWhile_integer {int rest : List UInt8} (hint : Integer int)
    (hrest : isDigit (peek rest) = false) : (int ++ rest).takeWhile isDigit = int := by
  have hall : ∀ c ∈ int, isDigit c = true := by
    obtain rfl | ⟨hds, -⟩ := hint
    · exact List.forall_mem_singleton.mpr rfl
    · exact hds.2
  have hnone : rest.takeWhile isDigit = [] := by
    cases rest with
    | nil => rfl
    | cons c rest => exact List.takeWhile_cons_of_neg (Bool.eq_false_iff.mp hrest)
  rw [List.takeWhile_append_of_pos hall, hnone, List.append_nil]

/-- The exact library reads the integer part of a number, whatever stands behind the number. -/
theorem exactLibc_strtod {sign int frac exp rest : List UInt8} (hsign : sign = [] ∨ sign = [0x2D])
    (hint : Integer int) (hfrac : Fraction frac) (hexp : Exponent exp) (hrest : NoNumber rest) :
    exactLibc.strtod (sign ++ (int ++ (frac ++ exp)) ++ rest) =
      if sign = [] then (ofDigits int : ℚ) else -(ofDigits int : ℚ) := by
  have hbehind : isDigit (peek (frac ++ exp ++ rest)) = false := by
    rw [List.append_assoc]
    exact isDigit_peek_fraction hfrac hexp hrest
  have htake := takeWhile_integer hint hbehind
  have hpeek : peek (int ++ (frac ++ exp ++ rest)) ≠ 0x2D := by
    intro heq
    have hdigit := peek_integer hint (frac ++ exp ++ rest)
    rw [heq] at hdigit
    exact absurd hdigit (by decide)
  rw [List.append_assoc, List.append_assoc int]
  change (if peek (sign ++ (int ++ (frac ++ exp ++ rest))) = 0x2D then
    -(ofDigits ((sign ++ (int ++ (frac ++ exp ++ rest))).tail.takeWhile isDigit) : ℚ)
    else ofDigits ((sign ++ (int ++ (frac ++ exp ++ rest))).takeWhile isDigit)) = _
  obtain rfl | rfl := hsign
  · rw [List.nil_append, if_neg hpeek, if_pos rfl, htake]
  · rw [List.singleton_append, peek_cons, if_pos rfl, List.tail_cons, htake,
      if_neg (List.cons_ne_nil _ _)]

theorem readsNumbers_exactLibc : ReadsNumbers exactLibc := by
  rintro w rest ⟨sign, int, frac, exp, hsign, hint, hfrac, hexp, rfl⟩ hrest
  have hend : NoNumber [] := by decide
  have hread := exactLibc_strtod hsign hint hfrac hexp hend
  rw [List.append_nil] at hread
  rw [exactLibc_strtod hsign hint hfrac hexp hrest.noNumber, hread]

theorem document_array : Document (fun w x ↦ x = exactLibc.strtod w) (ascii " [-7, \"\\u0041\"] ")
    (.array [.number (-7), .string (ascii "A")]) :=
  (jsonDecode_eq_some_iff readsNumbers_exactLibc ⟨ascii " [-7, \"\\u0041\"] ", by decide⟩ _).mp rfl

end Stored.Json
