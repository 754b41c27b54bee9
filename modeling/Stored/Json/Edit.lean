import Stored.Json.Children
import Stored.Json.Stringify

/-!
# Editing a tree

A caller of json.h finds a node from the root on, by indices and names, and adds a child to it or
deletes it. The nodes in memory follow the same edits of the tree.
-/

namespace Stored.Json.Linked

open Bytes Separation Heap Assertion

/-- The way from a node to one of its children: `json_find_element` or `json_find_member`. -/
inductive Step where
  | element (index : Int32)
  | member (name : String)

/-- A place among the children of a node: whether they are members, those before and behind it, and
the key that a child goes by there. -/
structure Place where
  object : Bool
  before : List Child
  key : Option (List UInt8)
  after : List Child

/-- The children with a tree in the place, or with none. -/
def Place.children (s : Place) (t : Option JsonNode) : List Child :=
  s.before ++ ((t.map (s.key, ·)).toList ++ s.after)

/-- The child that a step leads to, and the tree with another one in its place, or with none. -/
def Step.child : Step → JsonNode → Option (JsonNode × (Option JsonNode → JsonNode))
  | .element index, .array es =>
    (splitFirst (fun i _ ↦ (i : ℤ) = index.toInt) 0 es).map fun s ↦
      (s.2.1, fun e ↦ .array (s.1 ++ (e.toList ++ s.2.2)))
  | .member name, .object ms =>
    (splitFirst (fun _ m ↦ m.1 = ascii name) 0 ms).map fun s ↦
      (s.2.1.2, fun v ↦ .object (s.1 ++ ((v.map (s.2.1.1, ·)).toList ++ s.2.2)))
  | _, _ => none

/-- A tree with the node at the end of a path replaced or deleted, if there is one. -/
def modify (f : JsonNode → Option JsonNode) : List Step → JsonNode → Option JsonNode
  | [], t => f t
  | step :: path, t =>
    match step.child t with
    | none => some t
    | some (c, plug) => some (plug (modify f path c))

/-- What is done with the node at the end of a path. A child is added at the front or at the back,
with a key to an object and without one to an array. -/
inductive Edit where
  | add (front : Bool) (key : Option String) (json : List UInt8)
  | delete

def addChild {γ : Type} (front : Bool) (cs : List γ) (c : γ) : List γ :=
  if front then c :: cs else cs ++ [c]

/-- A child is added to an array without a key and to an object with one. -/
def addTo (front : Bool) (key : Option String) (t c : JsonNode) : JsonNode :=
  match key, t with
  | none, .array es => .array (addChild front es c)
  | some k, .object ms => .object (addChild front ms (ascii k, c))
  | _, t => t

/-- Nothing is added if the text is refused. -/
def Edit.apply (libc : Libc) (edit : Edit) (t : JsonNode) : Option JsonNode :=
  match edit with
  | .add front key json =>
    match Json.jsonDecode libc json with
    | some c => some (addTo front key t c)
    | none => some t
  | .delete => none

/-- The tag of the nodes that a child can be added to. -/
def ownerTag (key : Option String) : JsonTag := if key = none then .array else .object

/-! ## Edits in memory -/

def Step.find (fuel : ℕ) (node : Ptr) : Step → Cmd Ptr
  | .element index => jsonFindElement fuel node index
  | .member name => jsonFindMember fuel node name

/-- The node at the end of a path, NULL if there is none. -/
def follow (fuel : ℕ) : Ptr → List Step → Cmd Ptr
  | node, [] => pure node
  | node, step :: path => do
    let child ← step.find fuel node
    follow fuel child path

/-- What is done with the node at the end of a path. -/
def atPath (path : List Step) (program : ℕ → Ptr → Cmd Unit) (fuel : ℕ) (node : Ptr) :
    Cmd Unit := do
  let target ← follow fuel node path
  program fuel target

/-- The function of json.h that adds a child. -/
def jsonAdd (A : Alloc) (front : Bool) (key : Option String) (node child : Ptr) : Cmd Unit :=
  match front, key with
  | false, none => jsonAppendElement node child
  | true, none => jsonPrependElement node child
  | false, some k => jsonAppendMember A node k child
  | true, some k => jsonPrependMember A node k child

/-- The caller looks at the type of the node, which the functions assert. -/
def Edit.run (A : Alloc) (libc : Libc) (fuel : ℕ) : Edit → Ptr → Cmd Unit
  | .delete, node => jsonDelete fuel node
  | .add _ _ _, none => pure ()
  | .add front key json, some node => do
    let n ← load (some node)
    if n.value.tag ≠ ownerTag key then pure ()
    else
      let child ← jsonDecode A libc fuel json
      if child = none then pure ()
      else jsonAdd A front key (some node) child

section Find

variable {p fuel : ℕ} {parent prev next : Ptr} {key : Option (List UInt8)} {t : JsonNode}

/-- The tag of a node that spans the tree. -/
def tagOf : JsonNode → JsonTag
  | .null => .null
  | .bool _ => .bool
  | .string _ => .string
  | .number _ => .number
  | .array _ => .array
  | .object _ => .object

theorem contentOf_eq_tag (t : JsonNode) (a : ℕ) (v : Value) :
    contentOf t a v = fact (v.tag = tagOf t) * contentOf t a v := by
  ext cells
  rw [fact_mul_holds, iff_and_self]
  intro hcontent
  have hspans : Spans cells t a v := by
    apply mul_top_mono fun _ _ ↦ id
    rw [← mul_one (contentOf t a v)] at hcontent
    exact le_iff.mp (mul_le_mul_right le_top _) _ hcontent
  cases t with
  | null | bool | string | number => rw [hcontent.1]; rfl
  | array es =>
    obtain ⟨head, tail, _, rfl, _⟩ := hspans.siblings (contentOf_array es)
    rfl
  | object ms =>
    obtain ⟨head, tail, _, rfl, _⟩ := hspans.siblings (contentOf_object ms)
    rfl

/-- The node of a tree is read, and what follows depends on its tag. -/
theorem triple_load_tag {γ : Type} {R : Assertion ℕ Node} {Q : γ → Assertion ℕ Node}
    {k : Node → Cmd γ} (hk : ∀ n, n.value.tag = tagOf t →
      Triple (nodeAt parent key t prev next p * R) (k n) Q) :
    Triple (nodeAt parent key t prev next p * R) (load (some p) >>= k) Q := by
  apply triple_of_node
  intro v
  rw [contentOf_eq_tag, mul_left_comm, mul_assoc]
  apply Triple.of_fact
  intro htag
  apply Triple.load_bind _ (mul_assoc _ _ _)
  apply (hk _ htag).mono _ fun _ ↦ le_rfl
  gcongr
  exact le_nodeAt _ _ _ _ _ _ _

/-- What is owned of a node and its children but the one in a place, which is at an address. -/
def around (parent prev next : Ptr) (key : Option (List UInt8)) (p : ℕ) (s : Place)
    (mid next' : Ptr) (a : ℕ) : Assertion ℕ Node :=
  ⨆ head, ⨆ tail, pointsTo p ⟨parent, prev, next, key, .children s.object head tail⟩ *
    (chain (some a) none head mid (childLinks p s.before) *
      chain none (some a) next' tail (childLinks p s.after))

/-- The node again, with a tree in the place. -/
theorem around_le {s : Place} {mid next' : Ptr} {a : ℕ} {c : JsonNode}
    (ht : contentOf t = contentChildren s.object (s.children (some c))) :
    nodeAt (some p) s.key c mid next' a * around parent prev next key p s mid next' a ≤
      nodeAt parent key t prev next p := by
  unfold around
  simp only [Quantale.mul_iSup_distrib]
  apply iSup₂_le
  intro head tail
  calc
    _ = pointsTo p ⟨parent, prev, next, key, .children s.object head tail⟩ *
        (chain (some a) none head mid (childLinks p s.before) *
          chain none (some a) next' tail (childLinks p s.after) *
          nodeAt (some p) s.key c mid next' a) := by ac_rfl
    _ ≤ pointsTo p ⟨parent, prev, next, key, .children s.object head tail⟩ *
        focus p none head tail s.before (s.key, c) s.after a := by
      gcongr
      exact le_iSup₂_of_le mid next' le_rfl
    _ ≤ pointsTo p ⟨parent, prev, next, key, .children s.object head tail⟩ *
        contentOf t p (.children s.object head tail) := by
      gcongr
      rw [ht]
      exact (focus_le _ _ _ _ _ _ _ _).trans (le_contentChildren _ _ _ _ _)
    _ ≤ _ := le_nodeAt _ _ _ _ _ _ _

/-- A child is deleted, and the node has the others. -/
theorem triple_jsonDelete_child {s : Place} {mid next' : Ptr} {a : ℕ} {c : JsonNode}
    (ht : contentOf t = contentChildren s.object (s.children none)) (hc : Deletes c fuel) :
    Triple (nodeAt (some p) s.key c mid next' a * around parent prev next key p s mid next' a)
      (jsonDelete (fuel + 1) (some a)) fun _ ↦ nodeAt parent key t prev next p := by
  apply triple_of_node
  intro v
  apply Triple.of_mul_iSup
  intro head
  apply Triple.of_mul_iSup
  intro tail
  rw [jsonDelete_succ]
  apply Triple.bind (contentOf c a v) (triple_jsonRemoveFromParent_child (p := p)
    (n := ⟨parent, prev, next, key, .children s.object head tail⟩) (m := ⟨some p, mid, next', s.key, v⟩)
    s.before s.after rfl rfl) (by ac_rfl)
  intro x
  rw [Quantale.iSup_mul_distrib]
  apply Triple.of_iSup
  intro head'
  rw [Quantale.iSup_mul_distrib]
  apply Triple.of_iSup
  intro tail'
  rw [mul_assoc, mul_comm]
  apply ((hc a ⟨none, none, none, none, v⟩).frame _).mono le_rfl
  intro x
  rw [one_mul]
  apply le_trans _ (le_nodeAt _ _ _ _ _ _ (.children s.object head' tail'))
  gcongr
  rw [ht]
  exact le_contentChildren _ _ _ _ _

/-- What is owned behind the search for the child that a step leads to. -/
def childFound (parent prev next : Ptr) (key : Option (List UInt8)) (p : ℕ) (t : JsonNode) :
    Option (JsonNode × (Option JsonNode → JsonNode)) → Ptr → Assertion ℕ Node
  | none, r => fact (r = none) * nodeAt parent key t prev next p
  | some (c, plug), r => ⨆ a, ⨆ s : Place, ⨆ mid, ⨆ next',
    fact (r = some a ∧ ∀ e, contentOf (plug e) = contentChildren s.object (s.children e)) *
      (nodeAt (some p) s.key c mid next' a * around parent prev next key p s mid next' a)

theorem foundBelow_some_le {cs : List Child} {s : Place} {c : JsonNode}
    {plug : Option JsonNode → JsonNode}
    (hplug : ∀ e, contentOf (plug e) = contentChildren s.object (s.children e)) (r : Ptr) :
    foundBelow parent prev next key p s.object cs (some (s.before, (s.key, c), s.after)) r ≤
      childFound parent prev next key p t (some (c, plug)) r := by
  unfold foundBelow found focus
  simp only [Quantale.mul_iSup_distrib]
  apply iSup₂_le
  intro head tail
  apply iSup_le
  intro a
  apply iSup₂_le
  intro mid next'
  apply le_iSup₂_of_le a s
  apply le_iSup₂_of_le mid next'
  rw [fact_and, fact_of hplug, mul_one, mul_left_comm]
  apply mul_le_mul_right
  calc
    _ = nodeAt (some p) s.key c mid next' a *
        (pointsTo p ⟨parent, prev, next, key, .children s.object head tail⟩ *
          (chain (some a) none head mid (childLinks p s.before) *
            chain none (some a) next' tail (childLinks p s.after))) := by ac_rfl
    _ ≤ _ := by
      gcongr
      exact le_iSup₂_of_le head tail le_rfl

/-- A search that looks at the tag first finds nothing below a node with another one. -/
theorem triple_wrong_tag {tag : JsonTag} {search : Cmd Ptr} (htag : tagOf t ≠ tag) :
    Triple (nodeAt parent key t prev next p)
      (do
        let n ← load (some p)
        if n.value.tag ≠ tag then pure none else search)
      (childFound parent prev next key p t none) := by
  rw [← mul_one (nodeAt parent key t prev next p)]
  apply triple_load_tag
  intro n hn
  rw [hn, if_pos htag, mul_one]
  apply Triple.pure
  rw [childFound, fact_of rfl, one_mul]

/-- A step finds the child that it leads to in the tree, and NULL where there is none. -/
theorem eventually_find (step : Step) (t : JsonNode) : ∀ᶠ fuel in Filter.atTop,
    ∀ (parent prev next : Ptr) (key : Option (List UInt8)) (p : ℕ),
      Triple (nodeAt parent key t prev next p) (step.find fuel (some p))
        (childFound parent prev next key p t (step.child t)) := by
  cases step with
  | element index =>
    cases t with
    | array es =>
      filter_upwards [Filter.eventually_ge_atTop es.length] with fuel hfuel parent prev next key p
      apply (triple_jsonFindElement hfuel).mono le_rfl
      intro r
      rw [splitFirst_map, Step.child]
      cases splitFirst (fun i _ ↦ (i : ℤ) = index.toInt) 0 es with
      | none => exact foundBelow_none_le (contentOf_array es) r
      | some s =>
        apply foundBelow_some_le (s := ⟨false, s.1.map (none, ·), none, s.2.2.map (none, ·)⟩)
        intro e
        rw [contentOf_array, List.map_append, List.map_append, Place.children]
        cases e <;> rfl
    | null | bool | string | number | object =>
      exact .of_forall fun _ _ _ _ _ _ ↦ triple_wrong_tag nofun
  | member name =>
    cases t with
    | object ms =>
      filter_upwards [Filter.eventually_ge_atTop ms.length] with fuel hfuel parent prev next key p
      apply (triple_jsonFindMember hfuel).mono le_rfl
      intro r
      rw [splitFirst_map, Step.child]
      simp only [Option.some.injEq]
      cases splitFirst (fun _ m ↦ m.1 = ascii name) 0 ms with
      | none => exact foundBelow_none_le (contentOf_object ms) r
      | some s =>
        apply foundBelow_some_le (s := ⟨true, s.1.map fun m ↦ (some m.1, m.2), some s.2.1.1,
          s.2.2.map fun m ↦ (some m.1, m.2)⟩)
        intro e
        rw [contentOf_object, List.map_append, List.map_append, Place.children]
        cases e <;> rfl
    | null | bool | string | number | array =>
      exact .of_forall fun _ _ _ _ _ _ ↦ triple_wrong_tag nofun

end Find

/-- What surrounds a node in a tree: another tree can be put in its place, or the node deleted. -/
structure Hole (tree : Option JsonNode → Assertion ℕ Node) (t : JsonNode) (fuel : ℕ)
    (parent : Ptr) (key : Option (List UInt8)) (prev next : Ptr) (a : ℕ)
    (rest : Assertion ℕ Node) : Prop where
  fill : ∀ t', nodeAt parent key t' prev next a * rest ≤ tree (some t')
  delete : Triple (nodeAt parent key t prev next a * rest) (jsonDelete fuel (some a)) fun _ ↦
    tree none

/-- A program that is given a node edits the tree that the node is part of. -/
def Modifies (f : JsonNode → Option JsonNode) (program : ℕ → Ptr → Cmd Unit) (t : JsonNode)
    (fuel : ℕ) : Prop :=
  ∀ tree parent key prev next a rest, Hole tree t fuel parent key prev next a rest →
    Triple (nodeAt parent key t prev next a * rest) (program fuel (some a)) fun _ ↦ tree (f t)

theorem atPath_cons (step : Step) (path : List Step) (program : ℕ → Ptr → Cmd Unit) (fuel : ℕ)
    (node : Ptr) : atPath (step :: path) program fuel node =
      step.find fuel node >>= atPath path program fuel := by
  rw [atPath, follow, bind_assoc]
  rfl

theorem follow_none (fuel : ℕ) (path : List Step) : follow fuel none path = pure none := by
  induction path with
  | nil => rfl
  | cons step path ih =>
    rw [follow]
    cases step with
    | element index => exact ih
    | member name => exact ih

/-- The node at the end of a path is edited as it is without its surroundings. -/
theorem eventually_modifies_follow {f : JsonNode → Option JsonNode} (program : ℕ → Ptr → Cmd Unit)
    (hnone : ∀ fuel, program fuel none = pure ())
    (hprogram : ∀ t, ∀ᶠ fuel in Filter.atTop, Modifies f program t fuel) (path : List Step)
    (t : JsonNode) :
    ∀ᶠ fuel in Filter.atTop, Modifies (modify f path) (atPath path program) t fuel := by
  induction path generalizing t with
  | nil => exact hprogram t
  | cons step path ih =>
    cases hchild : step.child t with
    | none =>
      filter_upwards [eventually_find step t] with fuel hfind
      intro tree parent key prev next a rest hole
      rw [atPath_cons, modify, hchild]
      rw [hchild] at hfind
      apply Triple.bind rest (hfind parent prev next key a) rfl
      intro r
      rw [childFound, mul_assoc]
      apply Triple.of_fact
      rintro rfl
      rw [atPath, follow_none, pure_bind, hnone]
      exact Triple.pure (hole.fill t)
    | some s =>
      obtain ⟨c, plug⟩ := s
      have hdeletes : ∀ᶠ fuel in Filter.atTop, ∃ n, fuel = n + 1 ∧ Deletes c n :=
        eventually_succ (eventually_deletes c) fun n h ↦ ⟨n, rfl, h⟩
      filter_upwards [eventually_find step t, hdeletes, ih c] with fuel hfind hdelete hpath
      intro tree parent key prev next a rest hole
      rw [atPath_cons, modify, hchild]
      rw [hchild] at hfind
      apply Triple.bind rest (hfind parent prev next key a) rfl
      intro r
      unfold childFound
      simp only [Quantale.iSup_mul_distrib]
      apply Triple.of_iSup
      intro b
      apply Triple.of_iSup
      intro s
      apply Triple.of_iSup
      intro mid
      apply Triple.of_iSup
      intro next'
      rw [mul_assoc]
      apply Triple.of_fact
      rintro ⟨rfl, hplug⟩
      rw [mul_assoc]
      apply hpath (fun e ↦ tree (some (plug e)))
      constructor
      · intro c'
        rw [← mul_assoc]
        exact (mul_le_mul_left (around_le (hplug (some c'))) rest).trans (hole.fill _)
      · obtain ⟨n, rfl, hdelete⟩ := hdelete
        rw [← mul_assoc]
        apply ((triple_jsonDelete_child (hplug none) hdelete).frame rest).mono le_rfl
        intro x
        exact hole.fill _

section Edits

variable {A : Alloc} {libc : Libc} {front : Bool} {key : Option String} {t c : JsonNode}

theorem addTo_eq_self (htag : tagOf t ≠ ownerTag key) : addTo front key t c = t := by
  cases key with
  | none =>
    cases t with
    | array es => exact absurd rfl htag
    | null | bool | string | number | object => rfl
  | some k =>
    cases t with
    | object ms => exact absurd rfl htag
    | null | bool | string | number | array => rfl

/-- What is added has no parent and its new owner is of the type that is asserted. -/
theorem triple_jsonAdd (htag : tagOf t = ownerTag key) {parent prev next : Ptr}
    {key' : Option (List UInt8)} {p b : ℕ} :
    Triple (nodeAt parent key' t prev next p * detached c b)
      (jsonAdd A front key (some p) (some b))
      fun _ ↦ nodeAt parent key' (addTo front key t c) prev next p := by
  cases key with
  | none =>
    cases t with
    | array es =>
      cases front with
      | false => exact triple_jsonAppendElement
      | true => exact triple_jsonPrependElement
    | null | bool | string | number | object => cases htag
  | some k =>
    cases t with
    | object ms =>
      cases front with
      | false => exact triple_jsonAppendMember A
      | true => exact triple_jsonPrependMember A
    | null | bool | string | number | array => cases htag

/-- One edit, wherever the node is. -/
theorem eventually_modifies_edit (A : Alloc) (libc : Libc) (edit : Edit) (t : JsonNode) :
    ∀ᶠ fuel in Filter.atTop, Modifies (edit.apply libc)
      (fun fuel ↦ edit.run A libc fuel) t fuel := by
  cases edit with
  | delete => exact .of_forall fun fuel tree parent key prev next a rest hole ↦ hole.delete
  | add front key json =>
    filter_upwards [eventually_jsonDecode A libc json] with fuel hdecode
    intro tree parent key' prev next a rest hole
    apply triple_load_tag
    intro n hn
    rw [hn, Edit.apply]
    by_cases htag : tagOf t = ownerTag key
    · rw [if_neg (not_not.mpr htag)]
      apply Triple.bind (nodeAt parent key' t prev next a * rest) hdecode (one_mul _).symm
      intro r
      cases Json.jsonDecode libc json with
      | none =>
        apply Triple.of_fact
        rintro rfl
        exact Triple.pure (hole.fill t)
      | some c =>
        rw [decoded, Quantale.iSup_mul_distrib]
        apply Triple.of_iSup
        intro b
        rw [mul_assoc]
        apply Triple.of_fact
        rintro rfl
        rw [if_neg (Option.some_ne_none b), ← mul_assoc, mul_comm (detached c b)]
        apply ((triple_jsonAdd htag).frame rest).mono le_rfl
        intro x
        exact hole.fill _
    · rw [if_pos htag]
      apply Triple.pure
      cases Json.jsonDecode libc json with
      | none => exact hole.fill t
      | some c =>
        change _ ≤ tree (some (addTo front key t c))
        rw [addTo_eq_self htag]
        exact hole.fill t

end Edits

/-- An edit of the node at the end of a path. -/
abbrev Command := List Step × Edit

def Command.apply (libc : Libc) (command : Command) : JsonNode → Option JsonNode :=
  modify (command.2.apply libc) command.1

/-- The caller's pointer to the root, which it drops with the root. -/
def Command.root (command : Command) (root : Ptr) : Ptr :=
  match command with
  | ([], .delete) => none
  | _ => root

def Command.run (A : Alloc) (libc : Libc) (fuel : ℕ) (command : Command) (root : Ptr) :
    Cmd Ptr := do
  atPath command.1 (fun fuel ↦ command.2.run A libc fuel) fuel root
  pure (command.root root)

def runCommands (A : Alloc) (libc : Libc) (fuel : ℕ) : List Command → Ptr → Cmd Ptr
  | [], root => pure root
  | command :: commands, root => do
    let root ← command.run A libc fuel root
    runCommands A libc fuel commands root

def applyCommands (libc : Libc) (commands : List Command) (t : Option JsonNode) :
    Option JsonNode :=
  commands.foldl (fun t command ↦ t.bind (command.apply libc)) t

/-- A text is decoded, edited and encoded again. -/
def session (A : Alloc) (libc : Libc) (fuel : ℕ) (json : List UInt8) (commands : List Command)
    (space : List UInt8) : Cmd (Option (List UInt8)) := do
  let root ← jsonDecode A libc fuel json
  let root ← runCommands A libc fuel commands root
  if root = none then pure none
  else
    let text ← jsonStringify A libc fuel root space
    jsonDelete fuel root
    pure (some text)

/-- The root at its address, or nothing once it has been deleted. -/
def rootAt (a : ℕ) : Option JsonNode → Assertion ℕ Node
  | none => 1
  | some t => detached t a

theorem Command.root_none (command : Command) : command.root none = none := by
  unfold Command.root
  split
  · rfl
  · rfl

theorem rootAt_le (libc : Libc) (command : Command) (t : JsonNode) (a : ℕ) :
    rootAt a (command.apply libc t) ≤ decoded (command.apply libc t) (command.root (some a)) := by
  have hsome (t' : JsonNode) : rootAt a (some t') ≤ decoded (some t') (some a) := by
    apply le_iSup_of_le a
    rw [fact_of rfl, one_mul]
    exact le_rfl
  obtain ⟨path, edit⟩ := command
  rw [Command.apply]
  cases path with
  | nil =>
    cases edit with
    | delete => exact (fact_of rfl).ge
    | add front key json =>
      rw [modify, Edit.apply]
      cases Json.jsonDecode libc json with
      | none => exact hsome t
      | some c => exact hsome _
  | cons step path =>
    rw [modify]
    cases step.child t with
    | none => exact hsome t
    | some s => exact hsome _

/-- One command. -/
theorem eventually_command (A : Alloc) (libc : Libc) (command : Command) (t : Option JsonNode) :
    ∀ᶠ fuel in Filter.atTop, ∀ root, Triple (decoded t root) (command.run A libc fuel root)
      (decoded (t.bind (command.apply libc))) := by
  cases t with
  | none =>
    apply Filter.Eventually.of_forall
    intro fuel root
    rw [decoded, ← mul_one (fact (root = none))]
    apply Triple.of_fact
    rintro rfl
    have hrun : command.2.run A libc fuel none = pure () := by
      cases command.2 with
      | add front key json => rfl
      | delete => cases fuel <;> rfl
    rw [Command.run, atPath, follow_none, pure_bind, hrun, pure_bind]
    apply Triple.pure
    exact (fact_of command.root_none).ge
  | some t =>
    have hmodifies := eventually_modifies_follow (fun fuel ↦ command.2.run A libc fuel)
      (by cases command.2 with
          | add front key json => exact fun _ ↦ rfl
          | delete => exact fun fuel ↦ by cases fuel <;> rfl)
      (eventually_modifies_edit A libc command.2) command.1 t
    filter_upwards [hmodifies, eventually_frees t] with fuel hmodify hfrees root
    rw [decoded]
    apply Triple.of_iSup
    intro a
    apply Triple.of_fact
    rintro rfl
    have hole : Hole (rootAt a) t fuel none none none none a 1 := by
      constructor
      · intro t'
        rw [mul_one]
        exact le_rfl
      · rw [mul_one]
        exact hfrees a
    apply Triple.bind 1 (hmodify (rootAt a) none none none none a 1 hole)
      ((mul_one _).trans (mul_one _)).symm
    intro x
    rw [mul_one]
    exact Triple.pure (rootAt_le libc command t a)

/-- The commands one after another. -/
theorem eventually_runCommands (A : Alloc) (libc : Libc) (commands : List Command)
    (t : Option JsonNode) : ∀ᶠ fuel in Filter.atTop, ∀ root, Triple (decoded t root)
      (runCommands A libc fuel commands root) (decoded (applyCommands libc commands t)) := by
  induction commands generalizing t with
  | nil => exact .of_forall fun _ root ↦ Triple.pure le_rfl
  | cons command commands ih =>
    filter_upwards [eventually_command A libc command t, ih (t.bind (command.apply libc))]
      with fuel hcommand hcommands root
    apply Triple.bind 1 (hcommand root) (mul_one _).symm
    intro root'
    rw [mul_one]
    exact hcommands root'

end Stored.Json.Linked
