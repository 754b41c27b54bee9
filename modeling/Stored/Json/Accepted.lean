import Stored.Json.Check
import Stored.Lib.Forest

/-!
# What `json_check` accepts

`json_check` follows the pointers of an arbitrary memory. If it returns true, then the node spans a
tree: the links that it has compared leave no room for a cycle or for a node with two parents. It
returns true for exactly the trees whose keys and strings are UTF-8.
-/

namespace Stored.Json.Linked

open Bytes Separation Heap Assertion Forest

theorem prevOf_bind_eq_ok {p : Ptr} {k : Ptr → Cmd (Option String)} {m m' : Memory ℕ Node}
    {r : Option String} (h : (prevOf p >>= k) m = .ok (r, m')) :
    ∃ back, k back m = .ok (r, m') ∧ ∀ a, p = some a → ∃ n, m.cells a = some n ∧ n.prev = back := by
  cases p with
  | none => exact ⟨none, h, nofun⟩
  | some a =>
    rw [prevOf, bind_assoc] at h
    obtain ⟨b, n, hb, hcell, hk⟩ := load_bind_eq_ok h
    refine ⟨n.prev, hk, fun c hc ↦ ?_⟩
    rw [Option.some.inj (hc.symm.trans hb)]
    exact ⟨n, hcell, rfl⟩

theorem message_ne_none {message : String} {m m' : Memory ℕ Node} :
    (pure (some message) : Cmd (Option String)) m ≠ .ok (none, m') := by
  intro h
  exact absurd (Prod.mk.inj (Except.ok.inj h)).1 (Option.some_ne_none message)

/-- A test that returns a message if it fails. -/
theorem guard_eq_ok {c : Prop} [Decidable c] {message : String} {k : Cmd (Option String)}
    {m m' : Memory ℕ Node} (h : (if c then pure (some message) else k) m = .ok (none, m')) :
    ¬c ∧ k m = .ok (none, m') := by
  split_ifs at h with hc
  · exact absurd h message_ne_none
  · exact ⟨hc, h⟩

/-- What the loop has compared of the children from `first` on. -/
def LoopAccepts (fuel : ℕ) (p : ℕ) (object : Bool) (tail prev first : Ptr) (m m' : Memory ℕ Node) :
    Prop :=
  m' = m ∧ ((∀ a n, first = some a → m.cells a = some n → n.prev = prev) →
    ∃ nodes, Siblings m.cells p prev first tail nodes ∧ ∀ e ∈ nodes, e.2.key.isSome = object ∧
      ∃ k < fuel, jsonCheck k (some e.1) m = .ok (none, m))

/-- What the check has compared of a node. -/
def NodeAccepts (fuel a : ℕ) (m m' : Memory ℕ Node) : Prop :=
  m' = m ∧ ∃ n, m.cells a = some n ∧ keyProblem n.key = none ∧ match n.value with
    | .string s => ∃ str, s = some str ∧ utf8Validate str = true
    | .children object head tail => ∃ nodes, Siblings m.cells a none head tail nodes ∧
        ∀ e ∈ nodes, e.2.key.isSome = object ∧
          ∃ k < fuel, jsonCheck k (some e.1) m = .ok (none, m)
    | _ => True

theorem loopAccepts_nil {fuel p : ℕ} {object : Bool} {head tail prev : Ptr} {m m' : Memory ℕ Node}
    (h : checkChildren (some p) object head tail fuel none prev m = .ok (none, m')) :
    LoopAccepts fuel p object tail prev none m m' := by
  have hpure : (pure (if prev = tail then none else some ("tail does not match pointer found by " ++
      "starting at " ++ "head and following next links")) : Cmd (Option String)) m =
      .ok (none, m') := by
    cases fuel <;> exact h
  obtain ⟨hlast, rfl⟩ := Prod.mk.inj (Except.ok.inj hpure)
  split_ifs at hlast with heq
  exact ⟨rfl, fun _ ↦ ⟨[], ⟨rfl, heq.symm⟩, List.forall_mem_nil _⟩⟩

/-- A round of the loop has compared a child with the ones before and behind it. -/
theorem loopAccepts_cons {fuel p c : ℕ} {object : Bool} {head tail prev : Ptr}
    {m m' : Memory ℕ Node}
    (hcheck : ∀ {a m m'}, jsonCheck fuel (some a) m = .ok (none, m') → m' = m)
    (hloop : ∀ {first prev m m'}, checkChildren (some p) object head tail fuel first prev m =
      .ok (none, m') → LoopAccepts fuel p object tail prev first m m')
    (h : checkChildren (some p) object head tail (fuel + 1) (some c) prev m = .ok (none, m')) :
    LoopAccepts (fuel + 1) p object tail prev (some c) m m' := by
  rw [checkChildren] at h
  obtain ⟨a, n, ha, hcell, h⟩ := load_bind_eq_ok h
  obtain ⟨-, h⟩ := guard_eq_ok h
  obtain ⟨-, h⟩ := guard_eq_ok h
  obtain ⟨-, h⟩ := guard_eq_ok h
  obtain ⟨hparent, h⟩ := guard_eq_ok h
  obtain ⟨back, h, hprev⟩ := prevOf_bind_eq_ok h
  obtain ⟨hlinked, h⟩ := guard_eq_ok h
  obtain ⟨helement, h⟩ := guard_eq_ok h
  obtain ⟨hmember, h⟩ := guard_eq_ok h
  obtain ⟨r, m₁, hr, h⟩ := bind_eq_ok_iff.mp h
  cases r with
  | some message => exact absurd h message_ne_none
  | none =>
    have hsame := hcheck hr
    rw [hsame] at hr h
    obtain ⟨b, n', hb, hcell', h⟩ := load_bind_eq_ok h
    rw [← Option.some.inj ha] at hcell
    rw [← Option.some.inj hb, hcell] at hcell'
    rw [← Option.some.inj hcell'] at h
    obtain ⟨hm, hrest⟩ := hloop h
    refine ⟨hm, fun hfirst ↦ ?_⟩
    obtain ⟨nodes, hnodes, hall⟩ := hrest fun d nd hd hcelld ↦ by
      obtain ⟨nd', hcelld', hback⟩ := hprev d hd
      rw [Option.some.inj (hcelld.symm.trans hcelld'), hback]
      by_contra hne
      exact hlinked ⟨by rw [hd]; exact Option.some_ne_none d, hne⟩
    refine ⟨(c, n) :: nodes, ⟨rfl, hcell, not_not.mp hparent, hfirst c n rfl hcell, hnodes⟩, ?_⟩
    refine List.forall_mem_cons.mpr ⟨⟨?_, fuel, Nat.lt_succ_self fuel, hr⟩, fun e he ↦ ?_⟩
    · cases object with
      | false => simpa using helement
      | true => simpa [Option.isSome_iff_ne_none] using hmember
    · obtain ⟨hkey, k, hk, hek⟩ := hall e he
      exact ⟨hkey, k, Nat.lt_succ_of_lt hk, hek⟩

theorem nodeAccepts_of_run {fuel a : ℕ} {m m' : Memory ℕ Node}
    (hloop : ∀ {p object head tail first prev m m'},
      checkChildren (some p) object head tail fuel first prev m = .ok (none, m') →
        LoopAccepts fuel p object tail prev first m m')
    (h : jsonCheck (fuel + 1) (some a) m = .ok (none, m')) : NodeAccepts (fuel + 1) a m m' := by
  rw [jsonCheck] at h
  obtain ⟨b, n, hb, hcell, h⟩ := load_bind_eq_ok h
  rw [← Option.some.inj hb] at hcell
  by_cases hkey : keyProblem n.key = none
  · rw [if_neg (not_not.mpr hkey)] at h
    unfold NodeAccepts
    cases hn : n.value with
    | null | bool | number =>
      rw [hn] at h
      refine ⟨(Prod.mk.inj (Except.ok.inj h)).2.symm, n, hcell, hkey, ?_⟩
      rw [hn]
      trivial
    | string s =>
      rw [hn] at h
      cases s with
      | none => exact absurd h message_ne_none
      | some str =>
        obtain ⟨hvalid, hm⟩ := Prod.mk.inj (Except.ok.inj h)
        split_ifs at hvalid with hutf8
        refine ⟨hm.symm, n, hcell, hkey, ?_⟩
        rw [hn]
        exact ⟨str, rfl, hutf8⟩
    | children object head tail =>
      rw [hn] at h
      simp only at h
      split_ifs at h with hempty hhead htail
      · exact absurd h message_ne_none
      · exact absurd h message_ne_none
      · refine ⟨(Prod.mk.inj (Except.ok.inj h)).2.symm, n, hcell, hkey, ?_⟩
        rw [hn]
        exact ⟨[], ⟨not_not.mp hhead, not_not.mp htail⟩, List.forall_mem_nil _⟩
      · obtain ⟨c, nc, hc, hcellc, h⟩ := load_bind_eq_ok h
        obtain ⟨hprev, h⟩ := guard_eq_ok h
        obtain ⟨hm, hrest⟩ := hloop h
        obtain ⟨nodes, hnodes, hall⟩ := hrest fun d nd hd hcelld ↦ by
          rw [Option.some.inj (hc.symm.trans hd)] at hcellc
          rw [Option.some.inj (hcelld.symm.trans hcellc)]
          exact not_not.mp hprev
        refine ⟨hm, n, hcell, hkey, ?_⟩
        rw [hn]
        refine ⟨nodes, hnodes, fun e he ↦ ?_⟩
        obtain ⟨hchild, k, hk, hek⟩ := hall e he
        exact ⟨hchild, k, Nat.lt_succ_of_lt hk, hek⟩
  · rw [if_pos hkey] at h
    exact absurd (Prod.mk.inj (Except.ok.inj h)).1 hkey

theorem accepts_of_run (fuel : ℕ) :
    (∀ {a m m'}, jsonCheck fuel (some a) m = .ok (none, m') → NodeAccepts fuel a m m') ∧
    ∀ {p object head tail first prev m m'},
      checkChildren (some p) object head tail fuel first prev m = .ok (none, m') →
        LoopAccepts fuel p object tail prev first m m' := by
  induction fuel with
  | zero =>
    refine ⟨fun h ↦ (nomatch h), fun {p object head tail first prev m m'} h ↦ ?_⟩
    cases first with
    | none => exact loopAccepts_nil h
    | some c => exact nomatch h
  | succ fuel ih =>
    refine ⟨nodeAccepts_of_run ih.2, fun {p object head tail first prev m m'} h ↦ ?_⟩
    cases first with
    | none => exact loopAccepts_nil h
    | some c => exact loopAccepts_cons (fun h ↦ (ih.1 h).1) ih.2 h

section Forest

variable {cells : Cells ℕ Node} {p c : ℕ} {prev prev' first last last' : Ptr}
  {nodes nodes' : List (ℕ × Node)}

/-- The nodes behind a pointer are determined. -/
theorem Siblings.unique (h : Siblings cells p prev first last nodes)
    (h' : Siblings cells p prev' first last' nodes') : nodes = nodes' := by
  induction nodes generalizing prev prev' first nodes' with
  | nil =>
    cases nodes' with
    | nil => rfl
    | cons e' nodes' => exact nomatch h.1.symm.trans h'.1
  | cons e nodes ih =>
    cases nodes' with
    | nil => exact nomatch h.1.symm.trans h'.1
    | cons e' nodes' =>
      obtain ⟨hfirst, hcell, -, -, hrest⟩ := h
      obtain ⟨hfirst', hcell', -, -, hrest'⟩ := h'
      have haddr : e.1 = e'.1 := Option.some.inj (hfirst.symm.trans hfirst')
      rw [← haddr] at hcell'
      have hnode : e.2 = e'.2 := Option.some.inj (hcell.symm.trans hcell')
      rw [← hnode] at hrest'
      rw [Prod.ext haddr hnode, ih hrest hrest']

/-- From each of the nodes on they are siblings again. -/
theorem Siblings.suffix (h : Siblings cells p prev first last nodes) {a : ℕ}
    (ha : a ∈ nodes.map Prod.fst) : ∃ prev' nodes', Siblings cells p prev' (some a) last nodes' ∧
      nodes'.length ≤ nodes.length := by
  induction nodes generalizing prev first with
  | nil => exact absurd ha List.not_mem_nil
  | cons e nodes ih =>
    rw [List.map_cons, List.mem_cons] at ha
    rcases ha with rfl | ha
    · obtain rfl := h.1
      exact ⟨prev, e :: nodes, h, le_rfl⟩
    · obtain ⟨prev', nodes', hnodes', hlen⟩ := ih h.2.2.2.2 ha
      exact ⟨prev', nodes', hnodes', hlen.trans (Nat.le_succ _)⟩

/-- Nobody is a sibling twice: what is behind the second place would be as long as what is behind
the first. -/
theorem Siblings.nodup (h : Siblings cells p prev first last nodes) :
    (nodes.map Prod.fst).Nodup := by
  induction nodes generalizing prev first with
  | nil => exact List.nodup_nil
  | cons e nodes ih =>
    obtain rfl := h.1
    have hrest := h.2.2.2.2
    refine List.nodup_cons.mpr ⟨fun hmem ↦ ?_, ih hrest⟩
    obtain ⟨prev', nodes', hnodes', hlen⟩ := hrest.suffix hmem
    rw [← h.unique hnodes', List.length_cons] at hlen
    omega

theorem Siblings.parent (h : Siblings cells p prev first last nodes) :
    ∀ e ∈ nodes, e.2.parent = some p := by
  induction nodes generalizing prev first with
  | nil => exact List.forall_mem_nil _
  | cons e nodes ih => exact List.forall_mem_cons.mpr ⟨h.2.2.1, ih h.2.2.2.2⟩

/-- A node is linked as a child of another one. -/
def IsChild (cells : Cells ℕ Node) (p c : ℕ) : Prop :=
  ∃ n object head tail nodes, cells p = some n ∧ n.value = .children object head tail ∧
    Siblings cells p none head tail nodes ∧ c ∈ nodes.map Prod.fst

theorem isChild_unique : ∀ ⦃p q c⦄, IsChild cells p c → IsChild cells q c → p = q := by
  rintro p q c ⟨n, object, head, tail, nodes, -, -, hnodes, hc⟩
    ⟨n', object', head', tail', nodes', -, -, hnodes', hc'⟩
  obtain ⟨e, he, rfl⟩ := List.mem_map.mp hc
  obtain ⟨e', he', heq⟩ := List.mem_map.mp hc'
  have hcell := hnodes.cell e he
  have hcell' := hnodes'.cell e' he'
  rw [heq, hcell] at hcell'
  have hparent := hnodes'.parent e' he'
  rw [← Option.some.inj hcell', hnodes.parent e he] at hparent
  exact Option.some.inj hparent

theorem isChild_iff {n : Node} {object : Bool} {head tail : Ptr} (hcell : cells p = some n)
    (hn : n.value = .children object head tail) (hnodes : Siblings cells p none head tail nodes) :
    IsChild cells p c ↔ c ∈ nodes.map Prod.fst := by
  constructor
  · rintro ⟨n', object', head', tail', nodes', hcell', hn', hnodes', hc⟩
    rw [Option.some.inj (hcell'.symm.trans hcell), hn] at hn'
    obtain ⟨rfl, rfl, rfl⟩ := Value.children.inj hn'
    rwa [hnodes.unique hnodes']
  · intro hc
    exact ⟨n, object, head, tail, nodes, hcell, hn, hnodes, hc⟩

theorem not_isChild {n : Node} (hcell : cells p = some n)
    (hn : ∀ object head tail, n.value ≠ .children object head tail) : ¬IsChild cells p c := by
  rintro ⟨n', object, head, tail, nodes, hcell', hn', -⟩
  rw [Option.some.inj (hcell'.symm.trans hcell)] at hn'
  exact hn object head tail hn'

/-- A check that returns has seen the end of every path. -/
theorem grounded_of_jsonCheck {m m' : Memory ℕ Node} {fuel a : ℕ}
    (h : jsonCheck fuel (some a) m = .ok (none, m')) : Grounded (IsChild m.cells) a := by
  induction fuel using Nat.strong_induction_on generalizing a m' with
  | _ fuel ih =>
    obtain ⟨-, n, hcell, -, hvalue⟩ := (accepts_of_run fuel).1 h
    constructor
    intro c hc
    cases hn : n.value with
    | children object head tail =>
      rw [hn] at hvalue
      obtain ⟨nodes, hnodes, hall⟩ := hvalue
      obtain ⟨e, he, rfl⟩ := List.mem_map.mp ((isChild_iff hcell hn hnodes).mp hc)
      obtain ⟨-, k, hk, hek⟩ := hall e he
      exact ih k hk hek
    | _ => exact absurd hc (not_isChild hcell (by rw [hn]; nofun))

end Forest

/-- The nodes below a node. -/
def below (cells : Cells ℕ Node) (a : ℕ) : Set ℕ :=
  {x | ∃ c, IsChild cells a c ∧ x ∈ descendants (IsChild cells) c}

variable {cells : Cells ℕ Node}

theorem descendants_eq (a : ℕ) : descendants (IsChild cells) a = {a} ∪ below cells a := by
  ext x
  exact mem_descendants_iff

theorem notMem_below {a : ℕ} (h : Grounded (IsChild cells) a) : a ∉ below cells a := by
  rintro ⟨c, hc, ha⟩
  exact h.notMem_descendants hc ha

/-- Children whose subtrees are disjoint are owned as a chain. -/
theorem within_chain {p : ℕ} {prev first last : Ptr} {nodes : List (ℕ × Node)} {cs : List Child}
    (hnodes : Siblings cells p prev first last nodes)
    (hdisjoint : nodes.Pairwise fun d e ↦
      ∀ x ∈ descendants (IsChild cells) d.1, x ∉ descendants (IsChild cells) e.1)
    (hcs : List.Forall₂ (fun e c ↦ e.2.key = c.1 ∧ e.1 ∉ below cells e.1 ∧
      Within (contentOf c.2 e.1 e.2.value) cells (below cells e.1)) nodes cs) :
    Within (chain none prev first last (childLinks p cs)) cells
      {x | ∃ e ∈ nodes, x ∈ descendants (IsChild cells) e.1} := by
  induction hcs generalizing prev first with
  | nil =>
    have hempty : first = none ∧ last = prev := hnodes
    rw [childLinks, List.map_nil, chain, fact_of hempty]
    exact .one
  | @cons e c nodes cs he hrest ih =>
    obtain ⟨rfl, hcell, hparent, hprev, hlinks⟩ := hnodes
    obtain ⟨hfirst, hdisjoint⟩ := List.pairwise_cons.mp hdisjoint
    obtain ⟨hkey, hfresh, hcontent⟩ := he
    have hnode : Within (nodeAt (some p) c.1 c.2 prev e.2.next e.1) cells
        (descendants (IsChild cells) e.1) := by
      rw [descendants_eq]
      have hapart : ∀ x ∈ ({e.1} : Set ℕ), x ∉ below cells e.1 := by
        rintro x rfl
        exact hfresh
      refine ((within_pointsTo hcell).mul hcontent hapart).imp ?_
      rw [← hparent, ← hkey, ← hprev]
      exact le_nodeAt _ _ _ _ _ _ _
    have hapart : ∀ x ∈ descendants (IsChild cells) e.1,
        x ∉ {x | ∃ d ∈ nodes, x ∈ descendants (IsChild cells) d.1} := by
      rintro x hx ⟨d, hd, hxd⟩
      exact hfirst d hd x hx hxd
    refine ((hnode.mul (ih hlinks hdisjoint) hapart).imp (le_chain_cons _ _ _ _ _ _ _)).mono ?_
    rintro x (hx | ⟨d, hd, hx⟩)
    · exact ⟨e, List.mem_cons_self, hx⟩
    · exact ⟨d, List.mem_cons_of_mem e hd, hx⟩

/-- A counterpart for each of some points. -/
theorem exists_forall₂ {α β : Type*} {R : α → β → Prop} {q : β → Prop} (xs : List α)
    (h : ∀ x ∈ xs, ∃ y, R x y ∧ q y) : ∃ ys, List.Forall₂ R xs ys ∧ ∀ y ∈ ys, q y := by
  induction xs with
  | nil => exact ⟨[], .nil, List.forall_mem_nil _⟩
  | cons x xs ih =>
    obtain ⟨y, hy, hq⟩ := h x List.mem_cons_self
    obtain ⟨ys, hys, hall⟩ := ih fun z hz ↦ h z (List.mem_cons_of_mem x hz)
    exact ⟨y :: ys, .cons hy hys, List.forall_mem_cons.mpr ⟨hq, hall⟩⟩

theorem childrenProblem_eq_none {cs : List Child}
    (h : ∀ c ∈ cs, keyProblem c.1 = none ∧ problem c.2 = none) : childrenProblem cs = none := by
  induction cs with
  | nil => rfl
  | cons c cs ih =>
    obtain ⟨⟨hkey, hproblem⟩, hrest⟩ := List.forall_mem_cons.mp h
    rw [childrenProblem_cons, hkey, hproblem, ih hrest]
    rfl

/-- Children without keys are the elements of an array, children with keys the members of an
object. -/
theorem exists_tree {object : Bool} {cs : List Child} (h : ∀ c ∈ cs, c.1.isSome = object) :
    ∃ t, contentOf t = contentChildren object cs ∧ problem t = childrenProblem cs := by
  cases object with
  | false =>
    have hcs : (cs.map Prod.snd).map (fun e ↦ ((none, e) : Child)) = cs := by
      rw [List.map_map]
      refine (List.map_congr_left fun c hc ↦ ?_).trans (List.map_id cs)
      exact Prod.ext (Option.isNone_iff_eq_none.mp (Option.isSome_eq_false_iff.mp (h c hc))).symm rfl
    refine ⟨.array (cs.map Prod.snd), ?_, ?_⟩
    · rw [contentOf_array, hcs]
    · rw [problem, problemElements_eq, hcs]
  | true =>
    have hcs :
        (cs.map fun c ↦ (c.1.getD [], c.2)).map (fun m ↦ ((some m.1, m.2) : Child)) = cs := by
      rw [List.map_map]
      refine (List.map_congr_left fun c hc ↦ ?_).trans (List.map_id cs)
      obtain ⟨key, hkey⟩ := Option.isSome_iff_exists.mp (h c hc)
      refine Prod.ext ?_ rfl
      change some (c.1.getD []) = c.1
      rw [hkey]
      rfl
    refine ⟨.object (cs.map fun c ↦ (c.1.getD [], c.2)), ?_, ?_⟩
    · rw [contentOf_object, hcs]
    · rw [problem, problemMembers_eq, hcs]

theorem within_of_jsonCheck {m m' : Memory ℕ Node} {fuel a : ℕ}
    (h : jsonCheck fuel (some a) m = .ok (none, m')) :
    ∃ n t, m.cells a = some n ∧ keyProblem n.key = none ∧ problem t = none ∧
      Within (contentOf t a n.value) m.cells (below m.cells a) := by
  induction fuel using Nat.strong_induction_on generalizing a m' with
  | _ fuel ih =>
    have hgrounded := grounded_of_jsonCheck h
    obtain ⟨-, n, hcell, hkey, hvalue⟩ := (accepts_of_run fuel).1 h
    have hleaf {t : JsonNode} (ht : problem t = none) (hv : contentOf t a n.value = 1) :
        ∃ n t, m.cells a = some n ∧ keyProblem n.key = none ∧ problem t = none ∧
          Within (contentOf t a n.value) m.cells (below m.cells a) := by
      refine ⟨n, t, hcell, hkey, ht, ?_⟩
      rw [hv]
      exact .one
    cases hn : n.value with
    | null => exact hleaf (t := .null) rfl (by rw [hn]; exact fact_of rfl)
    | bool b => exact hleaf (t := .bool b) rfl (by rw [hn]; exact fact_of rfl)
    | number x => exact hleaf (t := .number x) rfl (by rw [hn]; exact fact_of rfl)
    | string s =>
      rw [hn] at hvalue
      obtain ⟨str, rfl, hvalid⟩ := hvalue
      exact hleaf (t := .string str) (if_pos hvalid) (by rw [hn]; exact fact_of rfl)
    | children object head tail =>
      rw [hn] at hvalue
      obtain ⟨nodes, hnodes, hall⟩ := hvalue
      have hchild : ∀ e ∈ nodes, IsChild m.cells a e.1 := by
        intro e he
        exact (isChild_iff hcell hn hnodes).mpr (List.mem_map_of_mem he)
      obtain ⟨cs, hcs, hgood⟩ := exists_forall₂ nodes
        (R := fun e c ↦ e.2.key = c.1 ∧ e.1 ∉ below m.cells e.1 ∧
          Within (contentOf c.2 e.1 e.2.value) m.cells (below m.cells e.1))
        (q := fun c : Child ↦ c.1.isSome = object ∧ keyProblem c.1 = none ∧ problem c.2 = none) (by
          intro e he
          obtain ⟨hobject, k, hk, hek⟩ := hall e he
          obtain ⟨n', t, hcell', hkey', hproblem, hwithin⟩ := ih k hk hek
          rw [Option.some.inj (hcell'.symm.trans (hnodes.cell e he))] at hkey' hwithin
          exact ⟨(e.2.key, t), ⟨rfl, notMem_below (grounded_of_jsonCheck hek), hwithin⟩, hobject,
            hkey', hproblem⟩)
      have hdisjoint : nodes.Pairwise fun d e ↦ ∀ x ∈ descendants (IsChild m.cells) d.1,
          x ∉ descendants (IsChild m.cells) e.1 := by
        have hpair := List.pairwise_map.mp hnodes.nodup
        refine hpair.imp_of_mem fun hd he hne ↦ ?_
        exact hgrounded.disjoint_descendants isChild_unique (hchild _ hd) (hchild _ he) hne
      obtain ⟨t, ht, hproblem⟩ := exists_tree fun c hc ↦ (hgood c hc).1
      refine ⟨n, t, hcell, hkey, ?_, ?_⟩
      · rw [hproblem]
        exact childrenProblem_eq_none fun c hc ↦ (hgood c hc).2
      · rw [ht, hn]
        refine ((within_chain hnodes hdisjoint hcs).imp (le_contentChildren _ _ _ _ _)).mono ?_
        rintro x ⟨e, he, hx⟩
        exact ⟨e.1, hchild e he, hx⟩

theorem keyProblem_eq_none_iff (key : Option (List UInt8)) :
    keyProblem key = none ↔ ∀ k ∈ key, Utf8.ValidUtf8 k := by
  cases key with
  | none => exact iff_of_true rfl nofun
  | some k =>
    rw [keyProblem, textProblem_eq_none]
    simp

/-- `json_check` returns true in some memory exactly if the node spans a tree there, apart from the
node itself, and its key and all keys and strings of the tree are UTF-8. -/
theorem jsonCheck_accepts_iff (m : Memory ℕ Node) (a : ℕ) :
    (∃ fuel, jsonCheck fuel (some a) m = .ok (none, m)) ↔
      ∃ n t, m.cells a = some n ∧ Spans (m.cells.erase a) t a n.value ∧
        (∀ k ∈ n.key, Utf8.ValidUtf8 k) ∧ ∀ s ∈ texts t, Utf8.ValidUtf8 s := by
  constructor
  · rintro ⟨fuel, h⟩
    obtain ⟨n, t, hcell, hkey, hproblem, hwithin⟩ := within_of_jsonCheck h
    refine ⟨n, t, hcell, hwithin.mul_top fun x hx v hv ↦ ?_, (keyProblem_eq_none_iff _).mp hkey,
      (problem_eq_none_iff t).mp hproblem⟩
    have hne : x ≠ a := by
      rintro rfl
      exact notMem_below (grounded_of_jsonCheck h) hx
    rwa [Cells.erase, if_neg hne]
  · rintro ⟨n, t, hcell, hspans, hkey, htexts⟩
    obtain ⟨fuel, hfuel⟩ := (eventually_checks t).exists
    refine ⟨fuel, ?_⟩
    rw [hfuel m a n hcell hspans, (keyProblem_eq_none_iff _).mpr hkey,
      (problem_eq_none_iff t).mpr htexts]
    rfl

end Stored.Json.Linked
