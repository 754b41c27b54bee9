import Mathlib.Order.Filter.AtTopBot.Basic
import Stored.Json.Linked

/-!
# The tree that a node spans

`contentOf` owns every node below a node of a tree. The construction of a node, the appends and the
deletion are stated on what they own.
-/

namespace Stored.Json.Linked

open Bytes Separation Heap Assertion

/-- Induction on a tree, with the hypothesis for every child. -/
theorem jsonNode_induction {p : JsonNode → Prop} (null : p .null) (bool : ∀ b, p (.bool b))
    (string : ∀ s, p (.string s)) (number : ∀ n, p (.number n))
    (array : ∀ es, (∀ e ∈ es, p e) → p (.array es))
    (object : ∀ ms, (∀ m ∈ ms, p m.2) → p (.object ms)) (t : JsonNode) : p t := by
  cases t with
  | null => exact null
  | bool b => exact bool b
  | string s => exact string s
  | number n => exact number n
  | array es =>
    exact array es fun e he ↦ jsonNode_induction null bool string number array object e
  | object ms =>
    exact object ms fun m hm ↦ jsonNode_induction null bool string number array object m.2
termination_by sizeOf t
decreasing_by
  · have hlt := List.sizeOf_lt_of_mem he
    simp only [JsonNode.array.sizeOf_spec]
    omega
  · have hlt := List.sizeOf_lt_of_mem hm
    have hmember : sizeOf m = 1 + sizeOf m.1 + sizeOf m.2 := rfl
    simp only [JsonNode.object.sizeOf_spec]
    omega

def nodeLink (content : ℕ → Value → Assertion ℕ Node) (parent : Ptr) (key : Option (List UInt8)) :
    Link ℕ Node :=
  fun prev next a ↦ ⨆ v, pointsTo a ⟨parent, prev, next, key, v⟩ * content a v

mutual

/-- What is owned below the node at an address that holds a value: the nodes of its children, of
which every link is as their order says. -/
def contentOf : JsonNode → ℕ → Value → Assertion ℕ Node
  | .null, _, v => fact (v = .null)
  | .bool b, _, v => fact (v = .bool b)
  | .string s, _, v => fact (v = .string (some s))
  | .number n, _, v => fact (v = .number n)
  | .array es, a, v => ⨆ head, ⨆ tail, fact (v = .children false head tail) *
      chain none none head tail (elementLinks es a)
  | .object ms, a, v => ⨆ head, ⨆ tail, fact (v = .children true head tail) *
      chain none none head tail (memberLinks ms a)

def elementLinks : List JsonNode → ℕ → List (Link ℕ Node)
  | [], _ => []
  | e :: es, parent => nodeLink (contentOf e) (some parent) none :: elementLinks es parent

def memberLinks : List (List UInt8 × JsonNode) → ℕ → List (Link ℕ Node)
  | [], _ => []
  | (key, m) :: ms, parent =>
    nodeLink (contentOf m) (some parent) (some key) :: memberLinks ms parent

end

/-- The node of a tree, with what it owns. -/
def nodeAt (parent : Ptr) (key : Option (List UInt8)) (t : JsonNode) : Link ℕ Node :=
  nodeLink (contentOf t) parent key

theorem le_nodeAt (parent prev next : Ptr) (key : Option (List UInt8)) (t : JsonNode) (a : ℕ)
    (v : Value) :
    pointsTo a ⟨parent, prev, next, key, v⟩ * contentOf t a v ≤ nodeAt parent key t prev next a :=
  le_iSup_of_le v le_rfl

/-- A child with the key it goes by, none in an array. -/
abbrev Child := Option (List UInt8) × JsonNode

def childLinks (parent : ℕ) (cs : List Child) : List (Link ℕ Node) :=
  cs.map fun c ↦ nodeAt (some parent) c.1 c.2

theorem childLinks_snoc (parent : ℕ) (cs : List Child) (c : Child) :
    childLinks parent (cs ++ [c]) = childLinks parent cs ++ [nodeAt (some parent) c.1 c.2] :=
  List.map_append

theorem childLinks_append (parent : ℕ) (cs ds : List Child) :
    childLinks parent (cs ++ ds) = childLinks parent cs ++ childLinks parent ds :=
  List.map_append

theorem elementLinks_eq (es : List JsonNode) (parent : ℕ) :
    elementLinks es parent = childLinks parent (es.map (none, ·)) := by
  induction es with
  | nil => rfl
  | cons e es ih => rw [elementLinks, ih]; rfl

theorem memberLinks_eq (ms : List (List UInt8 × JsonNode)) (parent : ℕ) :
    memberLinks ms parent = childLinks parent (ms.map fun m ↦ (some m.1, m.2)) := by
  induction ms with
  | nil => rfl
  | cons m ms ih => rw [memberLinks, ih]; rfl

/-- The children of an array or an object at an address. -/
def contentChildren (object : Bool) (cs : List Child) (a : ℕ) (v : Value) : Assertion ℕ Node :=
  ⨆ head, ⨆ tail, fact (v = .children object head tail) *
    chain none none head tail (childLinks a cs)

theorem le_contentChildren (object : Bool) (cs : List Child) (a : ℕ) (head tail : Ptr) :
    chain none none head tail (childLinks a cs) ≤
      contentChildren object cs a (.children object head tail) := by
  apply le_iSup₂_of_le head tail
  rw [fact_of rfl, one_mul]

theorem contentOf_array (es : List JsonNode) :
    contentOf (.array es) = contentChildren false (es.map (none, ·)) := by
  funext a v
  rw [contentOf, elementLinks_eq]
  rfl

theorem contentOf_object (ms : List (List UInt8 × JsonNode)) :
    contentOf (.object ms) = contentChildren true (ms.map fun m ↦ (some m.1, m.2)) := by
  funext a v
  rw [contentOf, memberLinks_eq]
  rfl

section Rules

variable {γ δ : Type} {P : Assertion ℕ Node} {Q : γ → Assertion ℕ Node} {a : ℕ} {n : Node}

theorem readValue_bind {read : Value → Option δ} {x : δ} {k : δ → Cmd γ} (F : Assertion ℕ Node)
    (hP : P = pointsTo a n * F) (hread : read n.value = some x) (hk : Triple P (k x) Q) :
    Triple P (readValue (some a) read >>= k) Q := by
  rw [readValue, bind_assoc]
  apply Triple.load_bind F hP
  exact .member_bind hread hk

theorem writeValue_bind {write : Value → Option Value} {value : Value} {k : Unit → Cmd γ}
    (F : Assertion ℕ Node) (hP : P = pointsTo a n * F) (hwrite : write n.value = some value)
    (hk : Triple (pointsTo a { n with value := value } * F) (k ()) Q) :
    Triple P (writeValue (some a) write >>= k) Q := by
  rw [writeValue, bind_assoc]
  apply readValue_bind F hP hwrite
  exact .update_bind F hP hk

end Rules

section Construction

variable {γ : Type} {P : Assertion ℕ Node} {Q : γ → Assertion ℕ Node}

theorem jsonStrdup_bind {A : Alloc} {str : List UInt8} {k : List UInt8 → Cmd γ}
    (hk : Triple P (k str) Q) : Triple P (jsonStrdup A str >>= k) Q := by
  rw [jsonStrdup, bind_assoc]
  apply Triple.request_bind
  rwa [pure_bind]

/-- A node without a parent, as `mknode` makes it. -/
def detached (t : JsonNode) (a : ℕ) : Assertion ℕ Node := nodeAt none none t none none a

theorem le_detached {t : JsonNode} {a : ℕ} {v : Value} (hcontent : 1 ≤ contentOf t a v) :
    pointsTo a ⟨none, none, none, none, v⟩ ≤ ⨆ b, fact (some a = some b) * detached t b := by
  apply le_iSup_of_le a
  rw [fact_of rfl, one_mul]
  apply le_iSup_of_le v
  exact le_mul_of_one_le_right' hcontent

theorem triple_mknode (A : Alloc) {tag : JsonTag} {t : JsonNode}
    (hcontent : ∀ a, 1 ≤ contentOf t a (.zero tag)) :
    Triple 1 (mknode A tag) fun p ↦ ⨆ a, fact (p = some a) * detached t a := by
  apply Triple.of_bind_pure
  apply Triple.new_bind (triple_allocate A _)
  intro a
  apply Triple.pure
  rw [mul_one]
  exact le_detached (hcontent a)

/-- A node whose member of the union is written behind `mknode`. -/
theorem triple_mknode_writeValue (A : Alloc) {tag : JsonTag} {t : JsonNode} {v : Value}
    {write : Value → Option Value} (hwrite : write (.zero tag) = some v)
    (hcontent : ∀ a, 1 ≤ contentOf t a v) :
    Triple 1
      (do
        let ret ← mknode A tag
        writeValue ret write
        pure ret)
      fun p ↦ ⨆ a, fact (p = some a) * detached t a := by
  apply Triple.new_bind (triple_allocate A _)
  intro a
  apply writeValue_bind 1 rfl hwrite
  apply Triple.pure
  rw [mul_one]
  exact le_detached (hcontent a)

theorem triple_jsonMkstring (A : Alloc) (s : List UInt8) :
    Triple 1 (jsonMkstring A s) fun p ↦ ⨆ a, fact (p = some a) * detached (.string s) a := by
  apply jsonStrdup_bind
  apply triple_mknode_writeValue A (by rfl)
  intro a
  rw [contentOf, fact_of rfl]

theorem triple_jsonMknumber (A : Alloc) (n : ℚ) :
    Triple 1 (jsonMknumber A n) fun p ↦ ⨆ a, fact (p = some a) * detached (.number n) a := by
  apply triple_mknode_writeValue A (by rfl)
  intro a
  rw [contentOf, fact_of rfl]

theorem one_le_contentChildren (object : Bool) (a : ℕ) :
    1 ≤ contentChildren object [] a (.children object none none) := by
  apply le_trans _ (le_contentChildren object [] a none none)
  rw [childLinks, List.map_nil, chain, fact_of ⟨rfl, rfl⟩]

theorem triple_jsonMkarray (A : Alloc) :
    Triple 1 (jsonMkarray A) fun p ↦ ⨆ a, fact (p = some a) * detached (.array []) a := by
  apply triple_mknode
  intro a
  rw [contentOf_array]
  exact one_le_contentChildren false a

theorem triple_jsonMkobject (A : Alloc) :
    Triple 1 (jsonMkobject A) fun p ↦ ⨆ a, fact (p = some a) * detached (.object []) a := by
  apply triple_mknode
  intro a
  rw [contentOf_object]
  exact one_le_contentChildren true a

end Construction

theorem triple_of_node {γ : Type} {R : Assertion ℕ Node} {Q : γ → Assertion ℕ Node}
    {program : Cmd γ} {parent prev next : Ptr} {key : Option (List UInt8)} {p : ℕ} {t : JsonNode}
    (hc : ∀ v, Triple
      (pointsTo p ⟨parent, prev, next, key, v⟩ * contentOf t p v * R) program Q) :
    Triple (nodeAt parent key t prev next p * R) program Q := by
  rw [mul_comm]
  apply Triple.of_mul_iSup
  intro v
  rw [mul_comm]
  exact hc v

section Links

variable {p : ℕ} {n : Node} {object : Bool} {head tail prev next stop : Ptr} {cs : List Child}

/-- The link that leads behind a chain is written to its end, or to the parent's head if the chain
is empty. -/
theorem triple_relinkPrev (hn : n.value = .children object head tail) (next : Ptr) :
    Triple (pointsTo p n * chain stop none head prev (childLinks p cs))
      (unlinkPrev (some p) prev next)
      fun _ ↦ ⨆ head', pointsTo p { n with value := .children object head' tail } *
        chain next none head' prev (childLinks p cs) := by
  rcases List.eq_nil_or_concat' cs with rfl | ⟨ds, d, rfl⟩
  · rw [childLinks, List.map_nil, chain, mul_comm]
    apply Triple.of_fact
    rintro ⟨rfl, rfl⟩
    apply Triple.of_bind_pure
    apply writeValue_bind (a := p) (n := n) 1 (mul_one _).symm (by rw [hn]; rfl)
    apply Triple.pure
    apply le_iSup_of_le next
    rw [chain, fact_of ⟨rfl, rfl⟩]
  · rw [childLinks_snoc, chain_snoc]
    apply Triple.of_mul_iSup
    intro b
    apply Triple.of_mul_iSup
    intro prev'
    apply Triple.of_mul_fact
    rintro rfl
    rw [← mul_assoc]
    apply Triple.of_mul_iSup
    intro v
    have hn' : { n with value := .children object head tail } = n := by rw [← hn]
    apply Triple.of_bind_pure
    apply Triple.update_bind (a := b) (v := ⟨some p, prev', stop, d.1, v⟩) (pointsTo p n *
      chain (some b) none head prev' (childLinks p ds) * contentOf d.2 b v) (by ac_rfl)
    apply Triple.pure
    apply le_iSup_of_le head
    calc
      _ = pointsTo p n * (chain (some b) none head prev' (childLinks p ds) *
          (pointsTo b ⟨some p, prev', next, d.1, v⟩ * contentOf d.2 b v)) := by ac_rfl
      _ ≤ pointsTo p n * (chain (some b) none head prev' (childLinks p ds) *
          nodeAt (some p) d.1 d.2 prev' next b) := by
        gcongr
        exact le_nodeAt _ _ _ _ _ _ _
      _ ≤ _ := by
        rw [hn']
        gcongr
        exact le_chain_snoc _ _ _ _ _ _ _

/-- The link that leads before a chain is written to its start, or to the parent's tail if the chain
is empty. -/
theorem triple_relinkNext {before : Ptr} (hn : n.value = .children object head tail) (prev : Ptr) :
    Triple (pointsTo p n * chain none before next tail (childLinks p cs))
      (unlinkNext (some p) prev next)
      fun _ ↦ ⨆ tail', pointsTo p { n with value := .children object head tail' } *
        chain none prev next tail' (childLinks p cs) := by
  cases cs with
  | nil =>
    rw [childLinks, List.map_nil, chain, mul_comm]
    apply Triple.of_fact
    rintro ⟨rfl, rfl⟩
    apply Triple.of_bind_pure
    apply writeValue_bind (a := p) (n := n) 1 (mul_one _).symm (by rw [hn]; rfl)
    apply Triple.pure
    apply le_iSup_of_le prev
    rw [chain, fact_of ⟨rfl, rfl⟩]
  | cons c cs =>
    rw [childLinks, List.map_cons, chain]
    apply Triple.of_mul_iSup
    intro b
    apply Triple.of_mul_iSup
    intro next'
    apply Triple.of_mul_fact
    rintro rfl
    rw [mul_left_comm]
    apply triple_of_node
    intro v
    have hn' : { n with value := .children object head tail } = n := by rw [← hn]
    apply Triple.of_bind_pure
    apply Triple.update_bind (a := b) _ (mul_assoc _ _ _)
    apply Triple.pure
    apply le_iSup_of_le tail
    rw [hn', ← mul_assoc, mul_left_comm]
    gcongr
    exact le_trans (mul_le_mul_left (le_nodeAt _ _ _ _ _ _ _) _) (le_chain_cons _ _ _ _ _ _ _)

end Links

/-- The end of a chain that is linked to a new node, or the head if there is none. -/
theorem triple_linkAppended {p c : ℕ} {n : Node} {object : Bool} {head tail : Ptr}
    {cs : List Child} (hn : n.value = .children object head tail) :
    Triple (pointsTo p n * chain none none head tail (childLinks p cs))
      (linkAppended (some p) (some c) tail)
      fun _ ↦ ⨆ head', pointsTo p { n with value := .children object head' tail } *
        chain (some c) none head' tail (childLinks p cs) :=
  triple_relinkPrev hn (some c)

/-- The appended node is the end of the chain, and the rest of the chain leads to it. -/
theorem triple_appendNode {p c : ℕ} {n m : Node} {object : Bool} {head tail : Ptr}
    {cs : List Child} (hn : n.value = .children object head tail) :
    Triple (pointsTo p n * chain none none head tail (childLinks p cs) * pointsTo c m)
      (appendNode (some p) (some c))
      fun _ ↦ ⨆ head', pointsTo p { n with value := .children object head' (some c) } *
        chain (some c) none head' tail (childLinks p cs) *
        pointsTo c { m with parent := some p, prev := tail, next := none } := by
  unfold appendNode
  apply Triple.update_bind (a := c) (v := m)
    (pointsTo p n * chain none none head tail (childLinks p cs)) (mul_comm _ _)
  apply readValue_bind (a := p) (n := n) _ (mul_left_comm _ _ _) (by rw [hn]; rfl)
  apply Triple.update_bind _ rfl
  apply Triple.update_bind _ rfl
  apply readValue_bind (a := p) (n := n) _ (mul_left_comm _ _ _) (by rw [hn]; rfl)
  apply Triple.bind _ (triple_linkAppended (c := c) hn) (mul_comm _ _)
  intro x
  rw [Quantale.iSup_mul_distrib]
  apply Triple.of_iSup
  intro head'
  apply Triple.of_bind_pure
  apply writeValue_bind (a := p) _ (mul_assoc _ _ _) (by rfl)
  apply Triple.pure
  apply le_iSup_of_le head'
  rw [mul_assoc]

/-- A new child of an array or an object. -/
theorem triple_appendNode_children {p c : ℕ} {n m : Node} {object : Bool} {head tail : Ptr}
    {cs : List Child} {t : JsonNode} (hn : n.value = .children object head tail) :
    Triple (pointsTo p n * chain none none head tail (childLinks p cs) *
        (pointsTo c m * contentOf t c m.value))
      (appendNode (some p) (some c))
      fun _ ↦ ⨆ v, pointsTo p { n with value := v } *
        contentChildren object (cs ++ [(m.key, t)]) p v := by
  apply Triple.of_bind_pure
  apply Triple.bind (contentOf t c m.value) (triple_appendNode (c := c) hn) (mul_assoc _ _ _).symm
  intro x
  rw [Quantale.iSup_mul_distrib]
  apply Triple.of_iSup
  intro head'
  apply Triple.pure
  apply le_iSup_of_le (.children object head' (some c))
  calc
    _ = pointsTo p { n with value := .children object head' (some c) } *
        (chain (some c) none head' tail (childLinks p cs) *
        (pointsTo c ⟨some p, tail, none, m.key, m.value⟩ * contentOf t c m.value)) := by ac_rfl
    _ ≤ pointsTo p { n with value := .children object head' (some c) } *
        chain none none head' (some c) (childLinks p (cs ++ [(m.key, t)])) := by
      gcongr
      rw [childLinks_snoc]
      exact le_trans (mul_le_mul_right (le_nodeAt _ _ _ _ _ _ _) _) (le_chain_snoc _ _ _ _ _ _ _)
    _ ≤ _ := by
      gcongr
      exact le_contentChildren _ _ _ _ _

section Append

variable {γ : Type} {R : Assertion ℕ Node} {Q : γ → Assertion ℕ Node} {program : Cmd γ}
  {parent prev next : Ptr} {key : Option (List UInt8)} {p c : ℕ} {t : JsonNode}

theorem triple_of_children {object : Bool} {cs : List Child}
    (ht : contentOf t = contentChildren object cs) (hc : ∀ head tail, Triple
      (pointsTo p ⟨parent, prev, next, key, .children object head tail⟩ *
        chain none none head tail (childLinks p cs) * R) program Q) :
    Triple (nodeAt parent key t prev next p * R) program Q := by
  apply triple_of_node
  intro v
  rw [ht, mul_right_comm]
  apply Triple.of_mul_iSup
  intro head
  apply Triple.of_mul_iSup
  intro tail
  apply Triple.of_mul_fact
  rintro rfl
  rw [mul_right_comm]
  exact hc head tail

theorem triple_of_detached {owner : JsonNode} {object : Bool} {cs : List Child}
    (ht : contentOf owner = contentChildren object cs) (hc : ∀ head tail v, Triple
      (pointsTo p ⟨parent, prev, next, key, .children object head tail⟩ *
        chain none none head tail (childLinks p cs) *
        (pointsTo c ⟨none, none, none, none, v⟩ * contentOf t c v)) program Q) :
    Triple (nodeAt parent key owner prev next p * detached t c) program Q := by
  apply triple_of_children ht
  intro head tail
  rw [mul_comm]
  apply triple_of_node
  intro v
  rw [mul_comm]
  exact hc head tail v

/-- The assertions of `json_append_element` hold for an array and a node without a parent, and the
node becomes the last element. -/
theorem triple_jsonAppendElement {es : List JsonNode} :
    Triple (nodeAt parent key (.array es) prev next p * detached t c)
      (jsonAppendElement (some p) (some c))
      fun _ ↦ nodeAt parent key (.array (es ++ [t])) prev next p := by
  apply triple_of_detached (contentOf_array es)
  intro head tail v
  apply Triple.load_bind (a := p) _ (mul_assoc _ _ _)
  apply Triple.assert_bind rfl
  apply Triple.load_bind (a := c) _ (mul_left_comm _ _ _)
  apply Triple.assert_bind rfl
  apply (triple_appendNode_children (m := ⟨none, none, none, none, v⟩) rfl).mono le_rfl
  intro x
  rw [nodeAt, nodeLink, contentOf_array, List.map_append]
  rfl

/-- The assertions of `json_append_member` hold for an object and a node without a parent, and the
node becomes the last member. -/
theorem triple_jsonAppendMember (A : Alloc) {ms : List (List UInt8 × JsonNode)} {k : String} :
    Triple (nodeAt parent key (.object ms) prev next p * detached t c)
      (jsonAppendMember A (some p) k (some c))
      fun _ ↦ nodeAt parent key (.object (ms ++ [(ascii k, t)])) prev next p := by
  apply triple_of_detached (contentOf_object ms)
  intro head tail v
  apply Triple.load_bind (a := p) _ (mul_assoc _ _ _)
  apply Triple.assert_bind rfl
  apply Triple.load_bind (a := c) _ (mul_left_comm _ _ _)
  apply Triple.assert_bind rfl
  apply jsonStrdup_bind
  apply Triple.update_bind (a := c) _ (mul_left_comm _ _ _)
  rw [mul_left_comm]
  apply (triple_appendNode_children (m := ⟨none, none, none, some (ascii k), v⟩) rfl).mono le_rfl
  intro x
  rw [nodeAt, nodeLink, contentOf_object, List.map_append]
  rfl

end Append

/-! ## Deletion -/

/-- The branches for the link behind the first child, which has no link before it. -/
theorem triple_unlinkNext {p a : ℕ} {n : Node} {object : Bool} {head next tail : Ptr}
    {cs : List Child} (hn : n.value = .children object head tail) :
    Triple (pointsTo p n * chain none (some a) next tail (childLinks p cs))
      (unlinkNext (some p) none next)
      fun _ ↦ ⨆ tail', pointsTo p { n with value := .children object head tail' } *
        chain none none next tail' (childLinks p cs) :=
  triple_relinkNext hn none

/-- The first child leaves its parent. -/
theorem triple_jsonRemoveFromParent {p a : ℕ} {n m : Node} {object : Bool} {tail : Ptr}
    {cs : List Child} (hn : n.value = .children object (some a) tail) (hparent : m.parent = some p)
    (hprev : m.prev = none) :
    Triple (pointsTo p n * chain none (some a) m.next tail (childLinks p cs) * pointsTo a m)
      (jsonRemoveFromParent (some a))
      fun _ ↦ ⨆ tail', pointsTo p { n with value := .children object m.next tail' } *
        chain none none m.next tail' (childLinks p cs) *
        pointsTo a { m with parent := none, prev := none, next := none, key := none } := by
  unfold jsonRemoveFromParent
  apply Triple.load_bind (a := a) (v := m) _ (mul_comm _ _)
  rw [if_pos (by rw [hparent]; exact Option.some_ne_none p), hparent, hprev, unlinkPrev,
    if_neg (not_not.mpr rfl)]
  apply writeValue_bind (a := p) (n := n) (chain none (some a) m.next tail (childLinks p cs) *
    pointsTo a m) (mul_assoc _ _ _) (by rw [hn]; rfl)
  rw [← mul_assoc]
  apply Triple.load_bind (a := a) (v := m) _ (mul_comm _ _)
  rw [hprev]
  apply Triple.bind (pointsTo a m) (triple_unlinkNext (a := a) rfl) rfl
  intro x
  rw [Quantale.iSup_mul_distrib]
  apply Triple.of_iSup
  intro tail'
  rw [mul_comm]
  apply Triple.update_bind _ rfl
  apply Triple.update_bind _ rfl
  apply Triple.of_bind_pure
  apply Triple.update_bind _ rfl
  apply Triple.pure
  apply le_iSup_of_le tail'
  rw [mul_comm]

/-- A node without a parent is left as it is. -/
theorem triple_jsonRemoveFromParent_detached {a : ℕ} {n : Node} (hparent : n.parent = none) :
    Triple (pointsTo a n) (jsonRemoveFromParent (some a)) fun _ ↦ pointsTo a n := by
  apply Triple.load_bind 1 (mul_one _).symm
  rw [if_neg (not_not.mpr hparent)]
  exact Triple.pure le_rfl

/-- `json_delete` behind the call of `json_remove_from_parent`. -/
def deleteUnlinked (fuel node : ℕ) : Cmd Unit := do
  let n ← load (some node)
  deleteChildren fuel (n.value.head.getD none)
  free (some node)

theorem jsonDelete_succ (fuel node : ℕ) : jsonDelete (fuel + 1) (some node) = (do
    jsonRemoveFromParent (some node)
    deleteUnlinked fuel node) := by
  rw [jsonDelete]
  rfl

theorem deleteChildren_none (fuel : ℕ) : deleteChildren fuel none = pure () := by
  cases fuel <;> rw [deleteChildren]

theorem eventually_succ {p q : ℕ → Prop} (h : ∀ᶠ n in Filter.atTop, p n)
    (hstep : ∀ n, p n → q (n + 1)) : ∀ᶠ n in Filter.atTop, q n := by
  filter_upwards [(Filter.tendsto_sub_atTop_nat 1).eventually h, Filter.eventually_ge_atTop 1]
    with n hn hle
  obtain ⟨k, rfl⟩ := Nat.exists_eq_add_of_le' hle
  exact hstep k hn

/-- A node that has left its parent is freed with its children. -/
def Deletes (t : JsonNode) (fuel : ℕ) : Prop :=
  ∀ a n, Triple (pointsTo a n * contentOf t a n.value) (deleteUnlinked fuel a) fun _ ↦ 1

/-- The loop over the children frees them from the first on. -/
def DeletesChildren (cs : List Child) (fuel : ℕ) : Prop :=
  ∀ p n object head tail, n.value = .children object head tail →
    Triple (pointsTo p n * chain none none head tail (childLinks p cs)) (deleteChildren fuel head)
      fun _ ↦ ⨆ v, pointsTo p { n with value := v }

theorem deletesChildren_nil (fuel : ℕ) : DeletesChildren [] fuel := by
  intro p n object head tail hn
  rw [childLinks, List.map_nil, chain, mul_comm]
  apply Triple.of_fact
  rintro ⟨rfl, rfl⟩
  rw [deleteChildren_none]
  apply Triple.pure
  exact le_iSup_of_le n.value le_rfl

theorem deletesChildren_cons {c : Child} {cs : List Child} {fuel : ℕ} (hc : Deletes c.2 fuel)
    (hcs : DeletesChildren cs (fuel + 1)) : DeletesChildren (c :: cs) (fuel + 2) := by
  intro p n object head tail hn
  rw [childLinks, List.map_cons, chain]
  apply Triple.of_mul_iSup
  intro a
  apply Triple.of_mul_iSup
  intro next
  apply Triple.of_mul_fact
  rintro rfl
  rw [mul_left_comm]
  apply triple_of_node
  intro v
  rw [deleteChildren, jsonDelete_succ]
  apply Triple.load_bind (a := a) _ (mul_assoc _ _ _)
  rw [bind_assoc]
  apply Triple.bind (contentOf c.2 a v)
    (triple_jsonRemoveFromParent (m := ⟨some p, none, next, c.1, v⟩) hn rfl rfl) (by ac_rfl)
  intro x
  rw [Quantale.iSup_mul_distrib]
  apply Triple.of_iSup
  intro tail'
  rw [mul_assoc, mul_comm]
  apply Triple.bind _ (hc a ⟨none, none, none, none, v⟩) rfl
  intro x
  rw [one_mul]
  exact hcs p { n with value := .children object next tail' } object next tail' rfl

theorem eventually_deletesChildren {cs : List Child}
    (h : ∀ c ∈ cs, ∀ᶠ fuel in Filter.atTop, Deletes c.2 fuel) :
    ∀ᶠ fuel in Filter.atTop, DeletesChildren cs fuel := by
  induction cs with
  | nil => exact .of_forall deletesChildren_nil
  | cons c cs ih =>
    have hc := h c List.mem_cons_self
    have hcs := ih fun d hd ↦ h d (List.mem_cons_of_mem c hd)
    have hboth : ∀ᶠ fuel in Filter.atTop, Deletes c.2 fuel ∧ DeletesChildren cs (fuel + 1) :=
      hc.and ((Filter.tendsto_add_atTop_nat 1).eventually hcs)
    have hsucc : ∀ᶠ fuel in Filter.atTop, DeletesChildren (c :: cs) (fuel + 1) :=
      eventually_succ hboth fun fuel h ↦ deletesChildren_cons h.1 h.2
    exact eventually_succ hsucc fun _ ↦ id

theorem deletes_children {t : JsonNode} {object : Bool} {cs : List Child} {fuel : ℕ}
    (ht : contentOf t = contentChildren object cs) (h : DeletesChildren cs fuel) :
    Deletes t fuel := by
  intro a n
  rw [ht]
  apply Triple.of_mul_iSup
  intro head
  apply Triple.of_mul_iSup
  intro tail
  apply Triple.of_mul_fact
  intro hn
  apply Triple.load_bind _ rfl
  rw [hn]
  apply Triple.bind 1 (h a n object head tail hn) (mul_one _).symm
  intro x
  rw [mul_one]
  apply Triple.of_iSup
  intro v
  exact triple_free

theorem deletes_leaf {t : JsonNode} {v : Value} (ht : ∀ a w, contentOf t a w = fact (w = v))
    (hv : v.head = none) (fuel : ℕ) : Deletes t fuel := by
  intro a n
  rw [ht, mul_comm]
  apply Triple.of_fact
  intro hn
  apply Triple.load_bind 1 (mul_one _).symm
  rw [hn, hv, Option.getD_none, deleteChildren_none, pure_bind]
  exact triple_free

theorem eventually_deletes (t : JsonNode) : ∀ᶠ fuel in Filter.atTop, Deletes t fuel := by
  induction t using jsonNode_induction with
  | null | bool | string | number => exact .of_forall (deletes_leaf (fun _ _ ↦ rfl) rfl)
  | array es ih =>
    have hchildren : ∀ᶠ fuel in Filter.atTop, DeletesChildren (es.map (none, ·)) fuel :=
      eventually_deletesChildren (List.forall_mem_map.mpr ih)
    exact hchildren.mono fun fuel ↦ deletes_children (contentOf_array es)
  | object ms ih =>
    have hchildren : ∀ᶠ fuel in Filter.atTop,
        DeletesChildren (ms.map fun m ↦ (some m.1, m.2)) fuel :=
      eventually_deletesChildren (List.forall_mem_map.mpr ih)
    exact hchildren.mono fun fuel ↦ deletes_children (contentOf_object ms)

/-- `json_delete` frees every node of a tree, for all that its root has no parent. -/
theorem eventually_jsonDelete (t : JsonNode) : ∀ᶠ fuel in Filter.atTop, ∀ a,
    Triple (detached t a) (jsonDelete fuel (some a)) fun _ ↦ 1 := by
  apply eventually_succ (eventually_deletes t)
  intro fuel hdelete a
  apply Triple.of_iSup
  intro v
  rw [jsonDelete_succ]
  apply Triple.bind (contentOf t a v) (triple_jsonRemoveFromParent_detached rfl) rfl
  intro x
  exact hdelete a ⟨none, none, none, none, v⟩

end Stored.Json.Linked
