import Stored.Json.Siblings
import Stored.Json.Strings

/-!
# The check of a tree

`json_check` follows the pointers of a node and below it and names the first problem. On the nodes
of a tree there is none with the pointers: what is left are the texts that are not UTF-8.
-/

namespace Stored.Json

open Bytes Utf8

/-- The loop of `utf8_validate`. The first argument counts the bytes that `s += len` skips. -/
def utf8ValidateFrom : ℕ → List UInt8 → Bool
  | _, [] => true
  | len + 1, _ :: s => utf8ValidateFrom len s
  | 0, c :: s =>
    let len := utf8ValidateCz (c :: s)
    if len = 0 then false else utf8ValidateFrom (len - 1) s

/-- `utf8_validate` -/
def utf8Validate (s : List UInt8) : Bool := utf8ValidateFrom 0 s

theorem utf8ValidateFrom_counted (w s : List UInt8) :
    utf8ValidateFrom w.length (w ++ s) = utf8Validate s := by
  induction w with
  | nil => rfl
  | cons c w ih => exact ih

theorem utf8Validate_char {w : List UInt8} (hw : Utf8Char w) (s : List UInt8) :
    utf8Validate (w ++ s) = utf8Validate s := by
  have hlen := utf8ValidateCz_append hw s
  cases w with
  | nil => exact nomatch hw
  | cons c w =>
    rw [List.cons_append] at hlen
    rw [utf8Validate, List.cons_append, utf8ValidateFrom, hlen]
    exact utf8ValidateFrom_counted w s

/-- A character at the start of a valid text is the one that `utf8_validate_cz` sees. -/
theorem validUtf8_append_iff {w : List UInt8} (hw : Utf8Char w) (s : List UInt8) :
    ValidUtf8 (w ++ s) ↔ ValidUtf8 s := by
  constructor
  · intro hvalid
    obtain hnil | ⟨w', s', heq, hw', hs'⟩ := hvalid.eq_nil_or_append
    · rw [(List.append_eq_nil_iff.mp hnil).2]
      exact validUtf8_nil
    · have hlen : w.length = w'.length := by
        rw [← utf8ValidateCz_append hw s, heq, utf8ValidateCz_append hw' s']
      rwa [(List.append_inj heq hlen).2]
  · exact hw.validUtf8_append

theorem utf8Validate_iff (s : List UInt8) : utf8Validate s = true ↔ ValidUtf8 s := by
  induction s using scan_induction with
  | hnil => exact iff_of_true rfl validUtf8_nil
  | hinvalid c s hlen _ =>
    apply iff_of_false
    · rw [utf8Validate, utf8ValidateFrom, if_pos hlen]
      exact Bool.false_ne_true
    · intro hvalid
      obtain hnil | ⟨w, rest, heq, hw, -⟩ := hvalid.eq_nil_or_append
      · exact List.cons_ne_nil c s hnil
      · rw [heq, utf8ValidateCz_append hw] at hlen
        rw [List.length_eq_zero_iff.mp hlen] at hw
        exact nomatch hw
  | hchar w s hw ih => rw [utf8Validate_char hw, ih, validUtf8_append_iff hw]

/-- What is wrong with a key. -/
def keyProblem : Option (List UInt8) → Option String
  | none => none
  | some key => if utf8Validate key then none else some "key contains invalid UTF-8"

mutual

/-- The first problem of a tree, in the order of the texts. -/
def problem : JsonNode → Option String
  | .null | .bool _ | .number _ => none
  | .string s => if utf8Validate s then none else some "string_ contains invalid UTF-8"
  | .array es => problemElements es
  | .object ms => problemMembers ms

def problemElements : List JsonNode → Option String
  | [] => none
  | e :: es => (problem e).or (problemElements es)

def problemMembers : List (List UInt8 × JsonNode) → Option String
  | [] => none
  | (key, m) :: ms => ((keyProblem (some key)).or (problem m)).or (problemMembers ms)

end

mutual

/-- The keys and strings of a tree. -/
def texts : JsonNode → List (List UInt8)
  | .null | .bool _ | .number _ => []
  | .string s => [s]
  | .array es => textsElements es
  | .object ms => textsMembers ms

def textsElements : List JsonNode → List (List UInt8)
  | [] => []
  | e :: es => texts e ++ textsElements es

def textsMembers : List (List UInt8 × JsonNode) → List (List UInt8)
  | [] => []
  | (key, m) :: ms => key :: (texts m ++ textsMembers ms)

end

theorem textProblem_eq_none {s : List UInt8} {message : String} :
    (if utf8Validate s then none else some message) = none ↔ ValidUtf8 s := by
  rw [← utf8Validate_iff]
  by_cases hvalid : utf8Validate s = true
  · simp [hvalid]
  · simp [hvalid]

end Stored.Json

namespace Stored.Json.Linked

open Bytes Separation Heap Assertion

/-- A tree without problems is one whose texts are all UTF-8. -/
theorem problem_eq_none_iff (t : JsonNode) :
    problem t = none ↔ ∀ s ∈ texts t, Utf8.ValidUtf8 s := by
  induction t using jsonNode_induction with
  | null | bool | number => simp [problem, texts]
  | string s => simpa [problem, texts] using utf8Validate_iff s
  | array es ih =>
    rw [problem, texts]
    induction es with
    | nil => simp [problemElements, textsElements]
    | cons e es ihes =>
      have hrest := ihes fun e' he' ↦ ih e' (List.mem_cons_of_mem e he')
      rw [problemElements, textsElements, Option.or_eq_none_iff, ih e List.mem_cons_self, hrest,
        List.forall_mem_append]
  | object ms ih =>
    rw [problem, texts]
    induction ms with
    | nil => simp [problemMembers, textsMembers]
    | cons m ms ihms =>
      have hrest := ihms fun m' hm' ↦ ih m' (List.mem_cons_of_mem m hm')
      rw [problemMembers, textsMembers, Option.or_eq_none_iff, Option.or_eq_none_iff, keyProblem,
        textProblem_eq_none, ih m List.mem_cons_self, hrest, List.forall_mem_cons,
        List.forall_mem_append, and_assoc]

/-- `child->next->prev`, read only where there is a next child. -/
def prevOf : Ptr → Cmd Ptr
  | none => pure none
  | some next => do
    let n ← load (some next)
    pure n.prev

mutual

/-- `json_check`: the text that goes into `errmsg` where it returns false. A tag and a `bool` are
in range by their types. -/
def jsonCheck : ℕ → Ptr → Cmd (Option String)
  | 0, _ => hang
  | fuel + 1, node => do
    let n ← load node
    if keyProblem n.key ≠ none then pure (keyProblem n.key)
    else
      match n.value with
      | .string none => pure (some "string_ is NULL")
      | .string (some s) =>
        pure (if utf8Validate s then none else some "string_ contains invalid UTF-8")
      | .children object head tail =>
        if head = none ∨ tail = none then
          if head ≠ none then pure (some "tail is NULL, but head is not")
          else if tail ≠ none then pure (some "head is NULL, but tail is not")
          else pure none
        else do
          let h ← load head
          if h.prev ≠ none then pure (some "First child's prev pointer is not NULL")
          else checkChildren node object head tail fuel head none
      | _ => pure none

/-- The loop of `json_check` over the children. -/
def checkChildren (node : Ptr) (object : Bool) (head tail : Ptr) :
    ℕ → Ptr → Ptr → Cmd (Option String)
  | _, none, last =>
    pure (if last = tail then none else some ("tail does not match pointer found by starting at " ++
      "head and following next links"))
  | 0, some _, _ => hang
  | fuel + 1, some child, _ => do
    let c ← load (some child)
    if some child = node then pure (some "node is its own child")
    else if c.next = some child then pure (some "child->next == child (cycle)")
    else if c.next = head then pure (some "child->next == head (cycle)")
    else if c.parent ≠ node then pure (some "child does not point back to parent")
    else
      let back ← prevOf c.next
      if c.next ≠ none ∧ back ≠ some child then
        pure (some "child->next does not point back to child")
      else if object = false ∧ c.key ≠ none then pure (some "Array element's key is not NULL")
      else if object = true ∧ c.key = none then pure (some "Object member's key is NULL")
      else
        match ← jsonCheck fuel (some child) with
        | some message => pure (some message)
        | none =>
          let c ← load (some child)
          checkChildren node object head tail fuel c.next (some child)

end

/-- The first problem of some children. -/
def childrenProblem (cs : List Child) : Option String :=
  cs.foldr (fun c rest ↦ ((keyProblem c.1).or (problem c.2)).or rest) none

theorem childrenProblem_cons (c : Child) (cs : List Child) : childrenProblem (c :: cs) =
    ((keyProblem c.1).or (problem c.2)).or (childrenProblem cs) := rfl

theorem problemElements_eq (es : List JsonNode) :
    problemElements es = childrenProblem (es.map (none, ·)) := by
  induction es with
  | nil => rfl
  | cons e es ih => rw [problemElements, ih]; rfl

theorem problemMembers_eq (ms : List (List UInt8 × JsonNode)) :
    problemMembers ms = childrenProblem (ms.map fun m ↦ (some m.1, m.2)) := by
  induction ms with
  | nil => rfl
  | cons m ms ih => rw [problemMembers, ih]; rfl

/-- The check of a node that spans the tree names the first problem of the tree. -/
def Checks (t : JsonNode) (fuel : ℕ) : Prop :=
  ∀ (m : Memory ℕ Node) a n, m.cells a = some n → Spans (m.cells.erase a) t a n.value →
    jsonCheck fuel (some a) m = .ok ((keyProblem n.key).or (problem t), m)

/-- The loop names the first problem of the children, whatever the ones before them are. -/
def ChecksChildren (object : Bool) (cs : List Child) (fuel : ℕ) : Prop :=
  ∀ (m : Memory ℕ Node) p head tail prev first nodes, head ≠ none →
    Siblings (m.cells.erase p) p prev first tail nodes → (nodes.map Prod.fst).Nodup →
    (∀ e ∈ nodes.tail, head ≠ some e.1) →
    List.Forall₂ (fun e c ↦ e.2.key = c.1 ∧
      Spans ((m.cells.erase p).erase e.1) c.2 e.1 e.2.value) nodes cs →
    checkChildren (some p) object head tail fuel first prev m = .ok (childrenProblem cs, m)

theorem checksChildren_nil (object : Bool) (fuel : ℕ) : ChecksChildren object [] fuel := by
  intro m p head tail prev first nodes _ hnodes _ _ hcs
  cases hcs
  obtain ⟨rfl, rfl⟩ := hnodes
  cases fuel with
  | zero => rw [checkChildren, if_pos rfl]; rfl
  | succ fuel => rw [checkChildren, if_pos rfl]; rfl

theorem prevOf_siblings {m : Memory ℕ Node} {p : ℕ} {prev first last : Ptr}
    {nodes : List (ℕ × Node)} (h : Siblings m.cells p prev first last nodes) :
    ∃ back, prevOf first m = .ok (back, m) ∧ (first ≠ none → back = prev) := by
  cases nodes with
  | nil =>
    rw [h.1]
    exact ⟨none, rfl, fun hne ↦ absurd rfl hne⟩
  | cons e nodes =>
    obtain ⟨rfl, hcell, -, hprev, -⟩ := h
    refine ⟨e.2.prev, ?_, fun _ ↦ hprev⟩
    rw [prevOf, bind_of_ok (load_of_cell hcell)]
    rfl

theorem checksChildren_cons {object : Bool} {c : Child} {cs : List Child} {fuel : ℕ}
    (hkey : c.1.isSome = object) (hc : Checks c.2 fuel) (hcs : ChecksChildren object cs fuel) :
    ChecksChildren object (c :: cs) (fuel + 1) := by
  intro m p head tail prev first nodes hhead hnodes hnodup hbehind hall
  cases hall with
  | @cons e _ nodes _ he hrest =>
    obtain ⟨rfl, hcell, hparent, -, hlinks⟩ := hnodes
    obtain ⟨hfresh, hnodup⟩ := List.nodup_cons.mp hnodup
    have hsub : ∀ b n, m.cells.erase p b = some n → m.cells b = some n := Cells.erase_sub p
    have hcell' : m.cells e.1 = some e.2 := hsub _ _ hcell
    have hself : some e.1 ≠ some p := by
      rintro heq
      rw [Option.some.inj heq, Cells.erase_self] at hcell
      exact Option.some_ne_none _ hcell.symm
    have hnext : e.2.next = nodes.head?.map Prod.fst := hlinks.first_eq
    have hne : e.2.next ≠ some e.1 := by
      rw [hnext]
      intro heq
      obtain ⟨d, hd, hfst⟩ := Option.map_eq_some_iff.mp heq
      exact hfresh (hfst ▸ List.mem_map_of_mem (List.mem_of_head? hd))
    have hne' : e.2.next ≠ head := by
      rw [hnext]
      intro heq
      obtain ⟨h, hsome⟩ := Option.ne_none_iff_exists'.mp hhead
      obtain ⟨d, hd, hfst⟩ := Option.map_eq_some_iff.mp (heq.trans hsome)
      exact hbehind d (List.mem_of_head? hd) (hsome.trans (congrArg some hfst.symm))
    obtain ⟨back, hback, hprev⟩ := prevOf_siblings (hlinks.mono hsub)
    have hcheck : jsonCheck fuel (some e.1) m = .ok ((keyProblem c.1).or (problem c.2), m) := by
      rw [← he.1]
      exact hc m e.1 e.2 hcell' (mul_top_mono (Cells.erase_mono hsub e.1) he.2)
    have hloop := hcs m p head tail (some e.1) e.2.next nodes hhead hlinks hnodup
      (fun d hd ↦ hbehind d (List.mem_of_mem_tail hd)) hrest
    rw [checkChildren, bind_of_ok (load_of_cell hcell'), if_neg hself, if_neg hne, if_neg hne',
      if_neg (not_not.mpr hparent), bind_of_ok hback,
      if_neg fun h ↦ h.2 (hprev h.1), he.1, if_neg, if_neg, bind_of_ok hcheck]
    · cases hproblem : (keyProblem c.1).or (problem c.2) with
      | none =>
        change (load (some e.1) >>= _) m = _
        rw [bind_of_ok (load_of_cell hcell'), hloop, childrenProblem_cons, hproblem,
          Option.none_or]
      | some message =>
        rw [childrenProblem_cons, hproblem, Option.some_or]
        rfl
    · rintro ⟨rfl, hnone⟩
      rw [hnone] at hkey
      cases hkey
    · rintro ⟨rfl, hsome⟩
      rw [Option.isSome_eq_false_iff, Option.isNone_iff_eq_none] at hkey
      exact hsome hkey

theorem eventually_checksChildren {object : Bool} {cs : List Child}
    (hkeys : ∀ c ∈ cs, c.1.isSome = object)
    (h : ∀ c ∈ cs, ∀ᶠ fuel in Filter.atTop, Checks c.2 fuel) :
    ∀ᶠ fuel in Filter.atTop, ChecksChildren object cs fuel := by
  induction cs with
  | nil => exact .of_forall (checksChildren_nil object)
  | cons c cs ih =>
    have hcs := ih (fun d hd ↦ hkeys d (List.mem_cons_of_mem c hd))
      fun d hd ↦ h d (List.mem_cons_of_mem c hd)
    exact eventually_succ ((h c List.mem_cons_self).and hcs) fun fuel hboth ↦
      checksChildren_cons (hkeys c List.mem_cons_self) hboth.1 hboth.2

/-- A node whose key is refused is not looked at any further. -/
theorem jsonCheck_of_cell {m : Memory ℕ Node} {a fuel : ℕ} {n : Node} {rest : Option String}
    (hcell : m.cells a = some n)
    (hrest : keyProblem n.key = none → jsonCheck (fuel + 1) (some a) m = .ok (rest, m)) :
    jsonCheck (fuel + 1) (some a) m = .ok ((keyProblem n.key).or rest, m) := by
  cases hkey : keyProblem n.key with
  | none => exact hrest hkey
  | some message =>
    rw [jsonCheck, bind_of_ok (load_of_cell hcell), if_pos (by rw [hkey]; exact Option.some_ne_none _),
      hkey]
    rfl

theorem checks_children {t : JsonNode} {object : Bool} {cs : List Child} {fuel : ℕ}
    (ht : contentOf t = contentChildren object cs) (hproblem : problem t = childrenProblem cs)
    (h : ChecksChildren object cs fuel) : Checks t (fuel + 1) := by
  intro m a n hcell hspans
  apply jsonCheck_of_cell hcell
  intro hkey
  obtain ⟨head, tail, nodes, hn, hnodes, hnodup, hcs⟩ := hspans.siblings_apart ht
  rw [jsonCheck, bind_of_ok (load_of_cell hcell), if_neg (not_not.mpr hkey), hn, hproblem]
  cases nodes with
  | nil =>
    cases hcs
    obtain ⟨rfl, rfl⟩ := hnodes
    rfl
  | cons e nodes =>
    have htail : tail ≠ none := hnodes.last_ne_none (List.cons_ne_nil e nodes)
    obtain ⟨rfl, hcell', -, hprev, -⟩ := id hnodes
    have hfresh := (List.nodup_cons.mp hnodup).1
    change (if some e.1 = none ∨ tail = none then (_ : Cmd (Option String)) else _) m = _
    rw [if_neg (not_or.mpr ⟨Option.some_ne_none e.1, htail⟩),
      bind_of_ok (load_of_cell (Cells.erase_sub a e.1 e.2 hcell')), if_neg (not_not.mpr hprev)]
    apply h m a (some e.1) tail none (some e.1) (e :: nodes) (Option.some_ne_none e.1) hnodes hnodup
    · intro d hd heq
      exact hfresh (Option.some.inj heq ▸ List.mem_map_of_mem hd)
    · exact hcs

theorem checks_leaf {t : JsonNode} {v : Value} (ht : ∀ a w, contentOf t a w = fact (w = v))
    (hv : ∀ (m : Memory ℕ Node) a n fuel, m.cells a = some n → n.value = v →
      keyProblem n.key = none → jsonCheck (fuel + 1) (some a) m = .ok (problem t, m)) (fuel : ℕ) :
    Checks t (fuel + 1) := by
  intro m a n hcell hspans
  rw [Spans, ht, fact_mul_holds] at hspans
  exact jsonCheck_of_cell hcell (hv m a n fuel hcell hspans.1)

theorem eventually_checks (t : JsonNode) : ∀ᶠ fuel in Filter.atTop, Checks t fuel := by
  have htrue : ∀ᶠ fuel : ℕ in Filter.atTop, True := .of_forall fun _ ↦ trivial
  induction t using jsonNode_induction with
  | null | bool | string | number =>
    apply eventually_succ htrue
    intro fuel _
    apply checks_leaf (fun _ _ ↦ rfl)
    intro m a n fuel hcell hn hkey
    rw [jsonCheck, bind_of_ok (load_of_cell hcell), if_neg (not_not.mpr hkey), hn]
    rfl
  | array es ih =>
    have hchildren : ∀ᶠ fuel in Filter.atTop, ChecksChildren false (es.map (none, ·)) fuel :=
      eventually_checksChildren (List.forall_mem_map.mpr fun _ _ ↦ rfl) (List.forall_mem_map.mpr ih)
    exact eventually_succ hchildren fun fuel ↦
      checks_children (contentOf_array es) (problemElements_eq es)
  | object ms ih =>
    have hchildren : ∀ᶠ fuel in Filter.atTop,
        ChecksChildren true (ms.map fun m ↦ (some m.1, m.2)) fuel :=
      eventually_checksChildren (List.forall_mem_map.mpr fun _ _ ↦ rfl) (List.forall_mem_map.mpr ih)
    exact eventually_succ hchildren fun fuel ↦
      checks_children (contentOf_object ms) (problemMembers_eq ms)

/-- `json_check` finds nothing wrong with the pointers of a tree. It returns true exactly if every
key and every string is UTF-8, and leaves the memory as it is. -/
theorem eventually_jsonCheck (t : JsonNode) : ∀ᶠ fuel in Filter.atTop, ∀ (m : Memory ℕ Node) a,
    (detached t a * ⊤).Holds m.cells →
      ∃ r, jsonCheck fuel (some a) m = .ok (r, m) ∧ (r = none ↔ ∀ s ∈ texts t, Utf8.ValidUtf8 s) := by
  filter_upwards [eventually_checks t] with fuel hcheck m a hholds
  rw [detached, nodeAt, nodeLink, Quantale.iSup_mul_distrib, iSup_holds] at hholds
  obtain ⟨v, hholds⟩ := hholds
  rw [mul_assoc, pointsTo_mul_holds] at hholds
  exact ⟨problem t, hcheck m a _ hholds.1 hholds.2, problem_eq_none_iff t⟩

end Stored.Json.Linked
