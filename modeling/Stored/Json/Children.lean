import Stored.Json.Siblings
import Stored.Json.Parser

/-!
# Any child of an array or an object

A child is found by its index or its name, leaves its siblings wherever it stands, and new ones are
put in front of them. What is owned of the siblings is a chain that is split at the child.
-/

namespace Stored.Json.Linked

open Bytes Separation Heap Assertion

/-- The prepended node is the start of the chain. -/
theorem triple_prependNode {p c : ℕ} {n m : Node} {object : Bool} {head tail : Ptr}
    {cs : List Child} (hn : n.value = .children object head tail) :
    Triple (pointsTo p n * chain none none head tail (childLinks p cs) * pointsTo c m)
      (prependNode (some p) (some c))
      fun _ ↦ ⨆ tail', pointsTo p { n with value := .children object (some c) tail' } *
        chain none (some c) head tail' (childLinks p cs) *
        pointsTo c { m with parent := some p, prev := none, next := head } := by
  unfold prependNode
  apply Triple.update_bind (a := c) (v := m)
    (pointsTo p n * chain none none head tail (childLinks p cs)) (mul_comm _ _)
  apply Triple.update_bind _ rfl
  apply readValue_bind (a := p) (n := n) _ (mul_left_comm _ _ _) (by rw [hn]; rfl)
  apply Triple.update_bind _ rfl
  apply readValue_bind (a := p) (n := n) _ (mul_left_comm _ _ _) (by rw [hn]; rfl)
  apply Triple.bind _ (triple_relinkNext hn (some c)) (mul_comm _ _)
  intro x
  rw [Quantale.iSup_mul_distrib]
  apply Triple.of_iSup
  intro tail'
  apply Triple.of_bind_pure
  apply writeValue_bind (a := p) _ (mul_assoc _ _ _) (by rfl)
  apply Triple.pure
  apply le_iSup_of_le tail'
  rw [mul_assoc]

/-- A new first child of an array or an object. -/
theorem triple_prependNode_children {p c : ℕ} {n m : Node} {object : Bool} {head tail : Ptr}
    {cs : List Child} {t : JsonNode} (hn : n.value = .children object head tail) :
    Triple (pointsTo p n * chain none none head tail (childLinks p cs) *
        (pointsTo c m * contentOf t c m.value))
      (prependNode (some p) (some c))
      fun _ ↦ ⨆ v, pointsTo p { n with value := v } *
        contentChildren object ((m.key, t) :: cs) p v := by
  apply Triple.of_bind_pure
  apply Triple.bind (contentOf t c m.value) (triple_prependNode (c := c) hn) (mul_assoc _ _ _).symm
  intro x
  rw [Quantale.iSup_mul_distrib]
  apply Triple.of_iSup
  intro tail'
  apply Triple.pure
  apply le_iSup_of_le (.children object (some c) tail')
  calc
    _ = pointsTo p { n with value := .children object (some c) tail' } *
        (pointsTo c ⟨some p, none, head, m.key, m.value⟩ * contentOf t c m.value *
        chain none (some c) head tail' (childLinks p cs)) := by ac_rfl
    _ ≤ pointsTo p { n with value := .children object (some c) tail' } *
        chain none none (some c) tail' (childLinks p ((m.key, t) :: cs)) := by
      gcongr
      exact le_trans (mul_le_mul_left (le_nodeAt _ _ _ _ _ _ _) _) (le_chain_cons _ _ _ _ _ _ _)
    _ ≤ _ := by
      gcongr
      exact le_contentChildren _ _ _ _ _

section Prepend

variable {parent prev next : Ptr} {key : Option (List UInt8)} {p c : ℕ} {t : JsonNode}

/-- The assertions of `json_prepend_element` hold for an array and a node without a parent, and the
node becomes the first element. -/
theorem triple_jsonPrependElement {es : List JsonNode} :
    Triple (nodeAt parent key (.array es) prev next p * detached t c)
      (jsonPrependElement (some p) (some c))
      fun _ ↦ nodeAt parent key (.array (t :: es)) prev next p := by
  apply triple_of_detached (contentOf_array es)
  intro head tail v
  apply Triple.load_bind (a := p) _ (mul_assoc _ _ _)
  apply Triple.assert_bind rfl
  apply Triple.load_bind (a := c) _ (mul_left_comm _ _ _)
  apply Triple.assert_bind rfl
  apply (triple_prependNode_children (m := ⟨none, none, none, none, v⟩) rfl).mono le_rfl
  intro x
  rw [nodeAt, nodeLink, contentOf_array]
  rfl

/-- The assertions of `json_prepend_member` hold for an object and a node without a parent, and the
node becomes the first member. -/
theorem triple_jsonPrependMember (A : Alloc) {ms : List (List UInt8 × JsonNode)} {k : String} :
    Triple (nodeAt parent key (.object ms) prev next p * detached t c)
      (jsonPrependMember A (some p) k (some c))
      fun _ ↦ nodeAt parent key (.object ((ascii k, t) :: ms)) prev next p := by
  apply triple_of_detached (contentOf_object ms)
  intro head tail v
  apply Triple.load_bind (a := p) _ (mul_assoc _ _ _)
  apply Triple.assert_bind rfl
  apply Triple.load_bind (a := c) _ (mul_left_comm _ _ _)
  apply Triple.assert_bind rfl
  apply jsonStrdup_bind
  apply Triple.update_bind (a := c) _ (mul_left_comm _ _ _)
  rw [mul_left_comm]
  apply (triple_prependNode_children (m := ⟨none, none, none, some (ascii k), v⟩) rfl).mono le_rfl
  intro x
  rw [nodeAt, nodeLink, contentOf_object]
  rfl

end Prepend

/-- A child leaves its parent, and its siblings are linked to each other. -/
theorem triple_jsonRemoveFromParent_child {p a : ℕ} {n m : Node} {object : Bool} {head tail : Ptr}
    (before after : List Child) (hn : n.value = .children object head tail)
    (hparent : m.parent = some p) :
    Triple (pointsTo p n * chain (some a) none head m.prev (childLinks p before) *
        chain none (some a) m.next tail (childLinks p after) * pointsTo a m)
      (jsonRemoveFromParent (some a))
      fun _ ↦ ⨆ head', ⨆ tail', pointsTo p { n with value := .children object head' tail' } *
        chain none none head' tail' (childLinks p (before ++ after)) *
        pointsTo a { m with parent := none, prev := none, next := none, key := none } := by
  unfold jsonRemoveFromParent
  apply Triple.load_bind (a := a) (v := m) _ (mul_comm _ _)
  rw [if_pos (by rw [hparent]; exact Option.some_ne_none p), hparent]
  apply Triple.bind (chain none (some a) m.next tail (childLinks p after) * pointsTo a m)
    (triple_relinkPrev hn m.next) (mul_assoc _ _ _)
  intro x
  rw [Quantale.iSup_mul_distrib]
  apply Triple.of_iSup
  intro head'
  apply Triple.load_bind (a := a) (v := m)
    (pointsTo p { n with value := .children object head' tail } *
    chain m.next none head' m.prev (childLinks p before) *
      chain none (some a) m.next tail (childLinks p after)) (by ac_rfl)
  apply Triple.bind (chain m.next none head' m.prev (childLinks p before) * pointsTo a m)
    (triple_relinkNext (p := p) (n := { n with value := .children object head' tail }) rfl m.prev)
    (by ac_rfl)
  intro x
  rw [Quantale.iSup_mul_distrib]
  apply Triple.of_iSup
  intro tail'
  rw [← mul_assoc, mul_comm]
  apply Triple.update_bind _ rfl
  apply Triple.update_bind _ rfl
  apply Triple.of_bind_pure
  apply Triple.update_bind _ rfl
  apply Triple.pure
  apply le_iSup₂_of_le head' tail'
  calc
    _ = pointsTo p { n with value := .children object head' tail' } *
        (chain m.next none head' m.prev (childLinks p before) *
          chain none m.prev m.next tail' (childLinks p after)) *
        pointsTo a { m with parent := none, prev := none, next := none, key := none } := by
      ac_rfl
    _ ≤ _ := by
      gcongr
      rw [childLinks_append]
      exact le_chain_append _ _ _ _ _ _ _ _

/-- The elements before the first one that a search accepts, that one, and those behind it. -/
def splitFirst {γ : Type} (accepts : ℕ → γ → Bool) : ℕ → List γ → Option (List γ × γ × List γ)
  | _, [] => none
  | i, c :: cs =>
    if accepts i c then some ([], c, cs)
    else (splitFirst accepts (i + 1) cs).map fun s ↦ (c :: s.1, s.2)

theorem splitFirst_map {γ δ : Type} (accepts : ℕ → δ → Bool) (f : γ → δ) (i : ℕ) (cs : List γ) :
    splitFirst accepts i (cs.map f) = (splitFirst (fun i c ↦ accepts i (f c)) i cs).map
      fun s ↦ (s.1.map f, f s.2.1, s.2.2.map f) := by
  induction cs generalizing i with
  | nil => rfl
  | cons c cs ih =>
    rw [List.map_cons, splitFirst, splitFirst, ih]
    by_cases haccept : accepts i (f c) = true
    · rw [if_pos haccept, if_pos haccept]
      rfl
    · rw [if_neg haccept, if_neg haccept, Option.map_map, Option.map_map]
      rfl

/-- A child at an address, between the chains of those before and behind it. -/
def focus (p : ℕ) (prev first last : Ptr) (before : List Child) (c : Child) (after : List Child)
    (a : ℕ) : Assertion ℕ Node :=
  ⨆ mid, ⨆ next, chain (some a) prev first mid (childLinks p before) *
    chain none (some a) next last (childLinks p after) * nodeAt (some p) c.1 c.2 mid next a

theorem focus_le (p : ℕ) (prev first last : Ptr) (before : List Child) (c : Child)
    (after : List Child) (a : ℕ) : focus p prev first last before c after a ≤
      chain none prev first last (childLinks p (before ++ c :: after)) := by
  apply iSup₂_le
  intro mid next
  calc
    _ = chain (some a) prev first mid (childLinks p before) *
        (nodeAt (some p) c.1 c.2 mid next a *
          chain none (some a) next last (childLinks p after)) := by ac_rfl
    _ ≤ chain (some a) prev first mid (childLinks p before) *
        chain none mid (some a) last (childLinks p (c :: after)) := by
      gcongr
      exact le_chain_cons _ _ _ _ _ _ _
    _ ≤ _ := by
      rw [childLinks_append]
      exact le_chain_append _ _ _ _ _ _ _ _

/-- What a search leaves that returns a pointer: the chain as it was, split at the child if there
is one. -/
def found (p : ℕ) (prev first last : Ptr) (cs : List Child) :
    Option (List Child × Child × List Child) → Ptr → Assertion ℕ Node
  | none, r => fact (r = none) * chain none prev first last (childLinks p cs)
  | some s, r => ⨆ a, fact (r = some a) * focus p prev first last s.1 s.2.1 s.2.2 a

theorem found_cons (p b : ℕ) (prev next last : Ptr) (d : Child) (cs : List Child)
    (s : Option (List Child × Child × List Child)) (r : Ptr) :
    found p (some b) next last cs s r * nodeAt (some p) d.1 d.2 prev next b ≤
      found p prev (some b) last (d :: cs) (s.map fun s ↦ (d :: s.1, s.2)) r := by
  cases s with
  | none =>
    rw [found, Option.map_none, found, mul_assoc, mul_comm (chain _ _ _ _ _)]
    gcongr
    exact le_chain_cons _ _ _ _ _ _ _
  | some s =>
    rw [found, Option.map_some, found, Quantale.iSup_mul_distrib]
    apply iSup_mono
    intro a
    rw [mul_assoc]
    gcongr
    unfold focus
    simp only [Quantale.iSup_mul_distrib]
    apply iSup₂_mono
    intro mid next'
    calc
      _ = nodeAt (some p) d.1 d.2 prev next b *
          chain (some a) (some b) next mid (childLinks p s.1) *
          chain none (some a) next' last (childLinks p s.2.2) *
          nodeAt (some p) s.2.1.1 s.2.1.2 mid next' a := by ac_rfl
      _ ≤ _ := by
        gcongr
        exact le_chain_cons _ _ _ _ _ _ _

/-- A loop that looks at one child after another finds the first one that it accepts. -/
theorem triple_search {accepts : ℕ → Child → Bool} {p fuel : ℕ} {search : ℕ → ℕ → Ptr → Cmd Ptr}
    {cs : List Child} (prev first last : Ptr) (i : ℕ)
    (hnone : ∀ fuel i, search fuel i none = pure none)
    (hround : ∀ fuel i a, ∀ c ∈ cs, ∀ prev next, ∀ R Q,
      (accepts i c = true → Triple (nodeAt (some p) c.1 c.2 prev next a * R) (pure (some a)) Q) →
      (accepts i c = false →
        Triple (nodeAt (some p) c.1 c.2 prev next a * R) (search fuel (i + 1) next) Q) →
      Triple (nodeAt (some p) c.1 c.2 prev next a * R) (search (fuel + 1) i (some a)) Q)
    (hfuel : cs.length ≤ fuel) :
    Triple (chain none prev first last (childLinks p cs)) (search fuel i first)
      (found p prev first last cs (splitFirst accepts i cs)) := by
  induction cs generalizing prev first i fuel with
  | nil =>
    rw [childLinks, List.map_nil, chain]
    intro F m hm
    rw [fact_mul_holds] at hm
    obtain ⟨⟨rfl, rfl⟩, hF⟩ := hm
    rw [hnone]
    change (found p last none last [] none none * F).Holds m.cells
    rw [found, childLinks, List.map_nil, chain, fact_of rfl, fact_of ⟨rfl, rfl⟩, one_mul, one_mul]
    exact hF
  | cons c cs ih =>
    rw [childLinks, List.map_cons, chain]
    apply Triple.of_iSup
    intro a
    apply Triple.of_iSup
    intro next
    apply Triple.of_fact
    rintro rfl
    obtain ⟨fuel, rfl⟩ := Nat.exists_eq_add_of_le' (Nat.le_of_add_left_le hfuel)
    rw [splitFirst]
    apply hround fuel i a c List.mem_cons_self
    · intro haccept
      rw [if_pos haccept]
      apply Triple.pure
      apply le_iSup_of_le a
      rw [fact_of rfl, one_mul]
      apply le_iSup₂_of_le prev next
      rw [childLinks, List.map_nil, chain, fact_of ⟨rfl, rfl⟩, one_mul, mul_comm]
      rfl
    · intro hrefuse
      rw [if_neg (by rw [hrefuse]; exact Bool.false_ne_true), mul_comm]
      have hrest := ih (some a) next (i + 1)
        (fun fuel i a d hd ↦ hround fuel i a d (List.mem_cons_of_mem c hd))
        (Nat.le_of_succ_le_succ hfuel)
      exact (hrest.frame (nodeAt (some p) c.1 c.2 prev next a)).mono le_rfl
        fun r ↦ found_cons _ _ _ _ _ _ _ _ _

section Find

variable {p fuel : ℕ} {parent prev next : Ptr} {key : Option (List UInt8)} {object : Bool}
  {t : JsonNode} {cs : List Child}

/-- The pointers of a node to its children, and what a search among these leaves. -/
def foundBelow (parent prev next : Ptr) (key : Option (List UInt8)) (p : ℕ) (object : Bool)
    (cs : List Child) (s : Option (List Child × Child × List Child)) (r : Ptr) :
    Assertion ℕ Node :=
  ⨆ head, ⨆ tail, pointsTo p ⟨parent, prev, next, key, .children object head tail⟩ *
    found p none head tail cs s r

theorem foundBelow_none_le (ht : contentOf t = contentChildren object cs) (r : Ptr) :
    foundBelow parent prev next key p object cs none r ≤
      fact (r = none) * nodeAt parent key t prev next p := by
  apply iSup₂_le
  intro head tail
  rw [found, mul_left_comm]
  gcongr
  apply le_trans _ (le_nodeAt _ _ _ _ _ _ (.children object head tail))
  gcongr
  rw [ht]
  exact le_contentChildren _ _ _ _ _

/-- The search from the first child of a node on. -/
theorem triple_searchBelow {accepts : ℕ → Child → Bool} (search : ℕ → ℕ → Ptr → Cmd Ptr)
    (ht : contentOf t = contentChildren object cs) (hnone : ∀ fuel i, search fuel i none = pure none)
    (hround : ∀ fuel i a, ∀ c ∈ cs, ∀ prev next, ∀ R Q,
      (accepts i c = true → Triple (nodeAt (some p) c.1 c.2 prev next a * R) (pure (some a)) Q) →
      (accepts i c = false →
        Triple (nodeAt (some p) c.1 c.2 prev next a * R) (search fuel (i + 1) next) Q) →
      Triple (nodeAt (some p) c.1 c.2 prev next a * R) (search (fuel + 1) i (some a)) Q)
    (hfuel : cs.length ≤ fuel) :
    Triple (nodeAt parent key t prev next p)
      (do
        let n ← load (some p)
        if n.value.tag ≠ (Value.children object none none).tag then pure none
        else
          let first ← jsonFirstChild (some p)
          search fuel 0 first)
      (foundBelow parent prev next key p object cs (splitFirst accepts 0 cs)) := by
  rw [← mul_one (nodeAt parent key t prev next p)]
  apply triple_of_children ht
  intro head tail
  rw [mul_one]
  apply Triple.load_bind _ rfl
  rw [if_neg (by cases object <;> exact not_not.mpr rfl), jsonFirstChild, bind_assoc]
  apply Triple.load_bind _ rfl
  rw [pure_bind]
  have hsearch := triple_search (p := p) none head tail 0 hnone hround hfuel
  rw [mul_comm]
  apply (hsearch.frame _).mono le_rfl
  intro r
  apply le_iSup₂_of_le head tail
  rw [mul_comm]

theorem triple_jsonFindElement {es : List JsonNode} {index : Int32} (hfuel : es.length ≤ fuel) :
    Triple (nodeAt parent key (.array es) prev next p) (jsonFindElement fuel (some p) index)
      (foundBelow parent prev next key p false (es.map (none, ·))
        (splitFirst (fun i _ ↦ (i : ℤ) = index.toInt) 0 (es.map (none, ·)))) := by
  apply triple_searchBelow (fun fuel i first ↦ findAt index fuel i first) (contentOf_array es)
  · intro fuel i
    cases fuel <;> rw [findAt]
  · intro fuel i a c _ prev next R Q hfound hrest
    rw [findAt]
    by_cases hindex : (i : ℤ) = index.toInt
    · rw [if_pos hindex]
      exact hfound (decide_eq_true hindex)
    · rw [if_neg hindex]
      apply triple_of_node
      intro v
      apply Triple.load_bind (a := a) _ (mul_assoc _ _ _)
      apply (hrest (decide_eq_false hindex)).mono _ fun _ ↦ le_rfl
      gcongr
      exact le_nodeAt _ _ _ _ _ _ _
  · rwa [List.length_map]

theorem triple_jsonFindMember {ms : List (List UInt8 × JsonNode)} {name : String}
    (hfuel : ms.length ≤ fuel) :
    Triple (nodeAt parent key (.object ms) prev next p) (jsonFindMember fuel (some p) name)
      (foundBelow parent prev next key p true (ms.map fun m ↦ (some m.1, m.2))
        (splitFirst (fun _ c ↦ c.1 = some (ascii name)) 0 (ms.map fun m ↦ (some m.1, m.2)))) := by
  apply triple_searchBelow (fun fuel _ first ↦ findFrom name fuel first) (contentOf_object ms)
  · intro fuel i
    cases fuel <;> rw [findFrom]
  · intro fuel i a c hc prev next R Q hfound hrest
    obtain ⟨m, -, rfl⟩ := List.mem_map.mp hc
    rw [findFrom]
    apply triple_of_node
    intro v
    apply Triple.load_bind (a := a) _ (mul_assoc _ _ _)
    apply Triple.member_bind rfl
    have hnode : pointsTo a ⟨some p, prev, next, some m.1, v⟩ * contentOf m.2 a v * R ≤
        nodeAt (some p) (some m.1) m.2 prev next a * R := by
      gcongr
      exact le_nodeAt _ _ _ _ _ _ _
    by_cases hname : m.1 = ascii name
    · rw [if_pos hname]
      exact (hfound (decide_eq_true (congrArg some hname))).mono hnode fun _ ↦ le_rfl
    · rw [if_neg hname]
      exact (hrest (decide_eq_false (mt Option.some.inj hname))).mono hnode fun _ ↦ le_rfl
  · rwa [List.length_map]

end Find

end Stored.Json.Linked
