import Stored.Json.Ownership

/-!
# The text of the nodes in memory

The encoder reads the nodes of a tree along their pointers, writes the text of the tree and leaves
the nodes as they are.
-/

namespace Stored.Json.Linked

open Bytes Separation Heap Assertion

section Chains

variable {α β : Type*}

/-- A chain is empty if nothing points to a first link. -/
theorem chain_first {prev first last : Option α} {links : List (Link α β)} :
    chain none prev first last links =
      fact (first = none ↔ links = []) * chain none prev first last links := by
  cases links with
  | nil =>
    ext h
    rw [fact_mul_holds, iff_and_self, chain]
    rintro ⟨⟨hfirst, -⟩, -⟩
    exact iff_of_true hfirst rfl
  | cons link links =>
    ext h
    rw [fact_mul_holds, iff_and_self, chain, iSup_holds]
    rintro ⟨a, ha⟩
    rw [iSup_holds] at ha
    obtain ⟨next, hnext⟩ := ha
    rw [fact_mul_holds] at hnext
    rw [hnext.1]
    exact iff_of_false (Option.some_ne_none a) (List.cons_ne_nil link links)

end Chains

theorem triple_of_chain {γ : Type} {prev first last : Ptr} {links : List (Link ℕ Node)}
    {R : Assertion ℕ Node} {program : Cmd γ} {Q : γ → Assertion ℕ Node}
    (hc : (first = none ↔ links = []) →
      Triple (chain none prev first last links * R) program Q) :
    Triple (chain none prev first last links * R) program Q := by
  rw [chain_first, mul_assoc]
  exact .of_fact hc

variable (libc : Libc) (space : List UInt8)

/-- The encoder writes the text of a tree and keeps its nodes. -/
def Emits (t : JsonNode) (fuel : ℕ) : Prop :=
  ∀ level parent key prev next a, Triple (nodeAt parent key t prev next a)
    (emitValueIndented libc space fuel level (some a))
    fun text ↦ fact (text = Json.emitValueIndented libc space level t) *
      nodeAt parent key t prev next a

/-- A loop of the encoder writes a text for each level and keeps the nodes of the children. -/
def EmitsChildren (loop : ℕ → ℕ → Ptr → Cmd (List UInt8)) (text : ℕ → List UInt8)
    (cs : List Child) (fuel : ℕ) : Prop :=
  ∀ level p prev first last, Triple (chain none prev first last (childLinks p cs))
    (loop fuel level first)
    fun t ↦ fact (t = text level) * chain none prev first last (childLinks p cs)

variable {libc space}

theorem emitElements_none (fuel level : ℕ) :
    emitElements libc space fuel level none = pure [] := by
  cases fuel <;> rw [emitElements]

theorem emitMembers_none (fuel level : ℕ) :
    emitMembers libc space fuel level none = pure [] := by
  cases fuel <;> rw [emitMembers]

theorem emitsChildren_nil {loop : ℕ → ℕ → Ptr → Cmd (List UInt8)} {fuel : ℕ}
    (hnone : ∀ level, loop fuel level none = pure []) :
    EmitsChildren loop (fun _ ↦ []) [] fuel := by
  intro level p prev first last
  rw [← mul_one (chain none prev first last (childLinks p []))]
  apply triple_of_chain
  intro hfirst
  rw [hfirst.mpr rfl, hnone]
  apply Triple.pure
  rw [fact_of rfl, one_mul]

/-- A round that starts from a child and its chain is a round from the pointer to the child. -/
theorem emitsChildren_cons {loop : ℕ → ℕ → Ptr → Cmd (List UInt8)} {text : ℕ → List UInt8}
    {c : Child} {cs : List Child} {fuel : ℕ}
    (hround : ∀ level p prev a next last, Triple
      (nodeAt (some p) c.1 c.2 prev next a * chain none (some a) next last (childLinks p cs))
      (loop fuel level (some a))
      fun t ↦ fact (t = text level) * chain none prev (some a) last (childLinks p (c :: cs))) :
    EmitsChildren loop text (c :: cs) fuel := by
  intro level p prev first last
  rw [childLinks, List.map_cons, chain]
  apply Triple.of_iSup
  intro a
  apply Triple.of_iSup
  intro next
  apply Triple.of_fact
  rintro rfl
  exact hround level p prev a next last

/-- The end of a round: the text of the child, the pointer to the next one and the texts behind. -/
theorem triple_emitChild {t : JsonNode} {cs : List Child} {fuel level p a : ℕ}
    {prev next last : Ptr} {key : Option (List UInt8)} {loop : ℕ → ℕ → Ptr → Cmd (List UInt8)}
    {text : ℕ → List UInt8} {result : List UInt8}
    (build : List UInt8 → Ptr → List UInt8 → List UInt8) (ht : Emits libc space t fuel)
    (hcs : EmitsChildren loop text cs fuel)
    (hbuild : (next = none ↔ cs = []) →
      build (Json.emitValueIndented libc space (level + 1) t) next (text level) = result) :
    Triple (nodeAt (some p) key t prev next a * chain none (some a) next last (childLinks p cs))
      (do
        let x ← emitValueIndented libc space fuel (level + 1) (some a)
        let n ← load (some a)
        let rest ← loop fuel level n.next
        pure (build x n.next rest))
      fun r ↦ fact (r = result) *
        chain none prev (some a) last (childLinks p ((key, t) :: cs)) := by
  apply Triple.bind _ (ht (level + 1) (some p) key prev next a) rfl
  intro x
  rw [mul_assoc]
  apply Triple.of_fact
  rintro rfl
  apply triple_of_node
  intro v
  apply Triple.load_bind (a := a) _ (mul_assoc _ _ _)
  rw [mul_comm]
  apply triple_of_chain
  intro hnext
  apply Triple.bind _ (hcs level p (some a) next last) rfl
  intro rest
  rw [mul_assoc]
  apply Triple.of_fact
  rintro rfl
  apply Triple.pure
  rw [hbuild (hnext.trans List.map_eq_nil_iff), fact_of rfl, one_mul, mul_comm]
  exact le_trans (mul_le_mul_left (le_nodeAt _ _ _ _ _ _ _) _) (le_chain_cons _ _ _ _ _ _ _)

theorem separator_eq {γ δ : Type} {xs : List γ} {f : γ → δ} {next : Ptr}
    (hnext : next = none ↔ xs.map f = []) :
    (if next ≠ none then ascii ",\n" else ascii "\n") =
      if xs.isEmpty then ascii "\n" else ascii ",\n" := by
  rw [List.map_eq_nil_iff] at hnext
  by_cases hxs : xs = []
  · rw [if_neg (not_not.mpr (hnext.mpr hxs)), if_pos (List.isEmpty_iff.mpr hxs)]
  · rw [if_pos (mt hnext.mp hxs), if_neg (mt List.isEmpty_iff.mp hxs)]

theorem emitsElements_cons {e : JsonNode} {es : List JsonNode} {fuel : ℕ}
    (he : Emits libc space e fuel)
    (hes : EmitsChildren (emitElements libc space) (Json.emitElements libc space · es)
      (es.map (none, ·)) fuel) :
    EmitsChildren (emitElements libc space) (Json.emitElements libc space · (e :: es))
      ((e :: es).map (none, ·)) (fuel + 1) := by
  apply emitsChildren_cons
  intro level p prev a next last
  rw [emitElements]
  apply triple_emitChild (fun text next rest ↦ indent space (level + 1) ++ text ++
    (if next ≠ none then ascii ",\n" else ascii "\n") ++ rest) he hes
  intro hnext
  rw [separator_eq hnext]
  rfl

theorem emitsMembers_cons {m : List UInt8 × JsonNode} {ms : List (List UInt8 × JsonNode)} {fuel : ℕ}
    (hm : Emits libc space m.2 fuel)
    (hms : EmitsChildren (emitMembers libc space) (Json.emitMembers libc space · ms)
      (ms.map fun m ↦ (some m.1, m.2)) fuel) :
    EmitsChildren (emitMembers libc space) (Json.emitMembers libc space · (m :: ms))
      ((m :: ms).map fun m ↦ (some m.1, m.2)) (fuel + 1) := by
  apply emitsChildren_cons
  intro level p prev a next last
  rw [emitMembers]
  apply triple_of_node
  intro v
  apply Triple.load_bind (a := a) _ (mul_assoc _ _ _)
  apply Triple.member_bind rfl
  have hback := le_nodeAt (some p) prev next (some m.1) m.2 a v
  apply Triple.mono _ (mul_le_mul_left hback _) fun _ ↦ le_rfl
  apply triple_emitChild (fun text next rest ↦ indent space (level + 1) ++ emitString m.1 ++
    ascii ": " ++ text ++ (if next ≠ none then ascii ",\n" else ascii "\n") ++ rest) hm hms
  intro hnext
  rw [separator_eq hnext]
  rfl

/-- The brackets around the texts of the children. -/
theorem triple_emitBrackets {t : JsonNode} {object : Bool} {cs : List Child} {fuel level a : ℕ}
    {parent prev next head tail : Ptr} {key : Option (List UInt8)}
    {loop : ℕ → ℕ → Ptr → Cmd (List UInt8)} {text : ℕ → List UInt8}
    {empty opening closing : List UInt8} (ht : contentOf t = contentChildren object cs)
    (hcs : EmitsChildren loop text cs fuel)
    (hempty : cs = [] → Json.emitValueIndented libc space level t = empty)
    (hfull : cs ≠ [] → Json.emitValueIndented libc space level t =
      opening ++ text level ++ indent space level ++ closing) :
    Triple (chain none none head tail (childLinks a cs) *
        pointsTo a ⟨parent, prev, next, key, .children object head tail⟩)
      (if head = none then pure empty
        else do
          let x ← loop fuel level head
          pure (opening ++ x ++ indent space level ++ closing))
      fun r ↦ fact (r = Json.emitValueIndented libc space level t) *
        nodeAt parent key t prev next a := by
  have hback : chain none none head tail (childLinks a cs) *
      pointsTo a ⟨parent, prev, next, key, .children object head tail⟩ ≤
        nodeAt parent key t prev next a := by
    calc
      _ ≤ pointsTo a ⟨parent, prev, next, key, .children object head tail⟩ *
          contentOf t a (.children object head tail) := by
        rw [mul_comm, ht]
        gcongr
        exact le_contentChildren _ _ _ _ _
      _ ≤ _ := le_nodeAt _ _ _ _ _ _ _
  apply triple_of_chain
  intro hfirst
  have hfirst' : head = none ↔ cs = [] := hfirst.trans List.map_eq_nil_iff
  by_cases hhead : head = none
  · rw [if_pos hhead]
    apply Triple.pure
    rwa [hempty (hfirst'.mp hhead), fact_of rfl, one_mul]
  · rw [if_neg hhead]
    apply Triple.bind _ (hcs level a none head tail) rfl
    intro x
    rw [mul_assoc]
    apply Triple.of_fact
    rintro rfl
    apply Triple.pure
    rwa [hfull (mt hfirst'.mpr hhead), fact_of rfl, one_mul]

/-- An array or an object is written in brackets. -/
theorem emits_children {t : JsonNode} {object : Bool} {cs : List Child} {fuel : ℕ}
    {loop : ℕ → ℕ → Ptr → Cmd (List UInt8)} {text : ℕ → List UInt8}
    {empty opening closing : List UInt8} (ht : contentOf t = contentChildren object cs)
    (hcs : EmitsChildren loop text cs fuel)
    (hwrite : ∀ level a, ∃ k,
      emitValueIndented libc space (fuel + 1) level (some a) = load (some a) >>= k ∧
        ∀ parent prev next key head tail,
          k ⟨parent, prev, next, key, .children object head tail⟩ =
            if head = none then pure empty
            else do
              let x ← loop fuel level head
              pure (opening ++ x ++ indent space level ++ closing))
    (hempty : ∀ level, cs = [] → Json.emitValueIndented libc space level t = empty)
    (hfull : ∀ level, cs ≠ [] → Json.emitValueIndented libc space level t =
      opening ++ text level ++ indent space level ++ closing) :
    Emits libc space t (fuel + 1) := by
  intro level parent key prev next a
  rw [← mul_one (nodeAt parent key t prev next a)]
  apply triple_of_children ht
  intro head tail
  obtain ⟨k, hload, hk⟩ := hwrite level a
  rw [mul_one, mul_one, mul_comm, hload]
  apply Triple.load_bind _ (mul_comm _ _)
  rw [hk]
  exact triple_emitBrackets ht hcs (hempty level) (hfull level)

theorem emits_array {es : List JsonNode} {fuel : ℕ}
    (hes : EmitsChildren (emitElements libc space) (Json.emitElements libc space · es)
      (es.map (none, ·)) fuel) : Emits libc space (.array es) (fuel + 1) := by
  apply emits_children (contentOf_array es) hes
  · intro level a
    exact ⟨_, by rw [emitValueIndented], fun _ _ _ _ _ _ ↦ rfl⟩
  · intro level hnil
    rw [List.map_eq_nil_iff.mp hnil]
    rfl
  · intro level hne
    cases es with
    | nil => exact absurd rfl hne
    | cons e es => rfl

theorem emits_object {ms : List (List UInt8 × JsonNode)} {fuel : ℕ}
    (hms : EmitsChildren (emitMembers libc space) (Json.emitMembers libc space · ms)
      (ms.map fun m ↦ (some m.1, m.2)) fuel) : Emits libc space (.object ms) (fuel + 1) := by
  apply emits_children (contentOf_object ms) hms
  · intro level a
    exact ⟨_, by rw [emitValueIndented], fun _ _ _ _ _ _ ↦ rfl⟩
  · intro level hnil
    rw [List.map_eq_nil_iff.mp hnil]
    rfl
  · intro level hne
    cases ms with
    | nil => exact absurd rfl hne
    | cons m ms => rfl

/-- A value without children is written at once. -/
theorem eventually_emits_leaf {t : JsonNode} {w : Value}
    (ht : ∀ a v, contentOf t a v = fact (v = w))
    (hwrite : ∀ fuel level a (n : Node), n.value = w → ∃ k,
      emitValueIndented libc space (fuel + 1) level (some a) = load (some a) >>= k ∧
        k n = pure (Json.emitValueIndented libc space level t)) :
    ∀ᶠ fuel in Filter.atTop, Emits libc space t fuel := by
  apply eventually_succ (.of_forall fun _ ↦ trivial)
  intro fuel _ level parent key prev next a
  apply Triple.of_iSup
  intro v
  have hnode := le_nodeAt parent prev next key t a v
  rw [ht] at hnode ⊢
  rw [mul_comm]
  apply Triple.of_fact
  rintro rfl
  rw [fact_of rfl, mul_one] at hnode
  obtain ⟨k, hload, hk⟩ := hwrite fuel level a ⟨parent, prev, next, key, v⟩ rfl
  rw [hload]
  apply Triple.load_bind 1 (mul_one _).symm
  rw [hk]
  apply Triple.pure
  rwa [fact_of rfl, one_mul]

theorem eventually_emits (t : JsonNode) : ∀ᶠ fuel in Filter.atTop, Emits libc space t fuel := by
  induction t using jsonNode_induction with
  | null | bool | string | number =>
    apply eventually_emits_leaf fun _ _ ↦ rfl
    intro fuel level a n hn
    refine ⟨_, by rw [emitValueIndented], ?_⟩
    rw [hn]
    rfl
  | array es ih =>
    have hes : ∀ᶠ fuel in Filter.atTop, EmitsChildren (emitElements libc space)
        (Json.emitElements libc space · es) (es.map (none, ·)) fuel := by
      induction es with
      | nil => exact .of_forall fun fuel ↦ emitsChildren_nil (emitElements_none fuel)
      | cons e es ihes =>
        have he := ih e List.mem_cons_self
        have hes := ihes fun e' he' ↦ ih e' (List.mem_cons_of_mem e he')
        exact eventually_succ (he.and hes) fun fuel h ↦ emitsElements_cons h.1 h.2
    exact eventually_succ hes fun fuel ↦ emits_array
  | object ms ih =>
    have hms : ∀ᶠ fuel in Filter.atTop, EmitsChildren (emitMembers libc space)
        (Json.emitMembers libc space · ms) (ms.map fun m ↦ (some m.1, m.2)) fuel := by
      induction ms with
      | nil => exact .of_forall fun fuel ↦ emitsChildren_nil (emitMembers_none fuel)
      | cons m ms ihms =>
        have hm := ih m List.mem_cons_self
        have hms := ihms fun m' hm' ↦ ih m' (List.mem_cons_of_mem m hm')
        exact eventually_succ (hm.and hms) fun fuel h ↦ emitsMembers_cons h.1 h.2
    exact eventually_succ hms fun fuel ↦ emits_object

/-- `json_stringify` returns the text of the tree and leaves the tree as it is. -/
theorem eventually_jsonStringify (A : Alloc) (libc : Libc) (space : List UInt8) (t : JsonNode) :
    ∀ᶠ fuel in Filter.atTop, ∀ a, Triple (detached t a)
      (jsonStringify A libc fuel (some a) space)
      fun text ↦ fact (text = Json.jsonStringify libc t space) * detached t a := by
  have hemits : ∀ᶠ fuel in Filter.atTop, Emits libc space t fuel := eventually_emits t
  filter_upwards [hemits] with fuel hemit a
  apply Triple.request_bind
  exact hemit 0 none none none none a

end Stored.Json.Linked
