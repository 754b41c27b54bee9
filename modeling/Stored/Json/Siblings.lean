import Stored.Json.Ownership

/-!
# Following the pointers

What the owner of a tree knows about the single cells of the memory: the children of a node are a
doubly linked list of distinct nodes. The loops that only read visit exactly this list.
-/

namespace Stored.Json.Linked

open Bytes Separation Heap Assertion

/-- The nodes from `first` on are the children of a node: each is linked to the ones before and
behind it and to its parent, the last is `last` and nothing is behind it. -/
def Siblings (cells : Cells ℕ Node) (parent : ℕ) : Ptr → Ptr → Ptr → List (ℕ × Node) → Prop
  | prev, first, last, [] => first = none ∧ last = prev
  | prev, first, last, (a, n) :: nodes =>
    first = some a ∧ cells a = some n ∧ n.parent = some parent ∧ n.prev = prev ∧
      Siblings cells parent (some a) n.next last nodes

/-- The node at an address spans a tree. -/
def Spans (cells : Cells ℕ Node) (t : JsonNode) (a : ℕ) (v : Value) : Prop :=
  (contentOf t a v * ⊤).Holds cells

variable {cells cells' : Cells ℕ Node} {p : ℕ} {prev first last : Ptr} {nodes : List (ℕ × Node)}

theorem Siblings.mono (hsub : ∀ a n, cells a = some n → cells' a = some n)
    (h : Siblings cells p prev first last nodes) : Siblings cells' p prev first last nodes := by
  induction nodes generalizing prev first with
  | nil => exact h
  | cons node nodes ih =>
    obtain ⟨hfirst, hcell, hparent, hprev, hrest⟩ := h
    exact ⟨hfirst, hsub _ _ hcell, hparent, hprev, ih hrest⟩

theorem Siblings.first_eq (h : Siblings cells p prev first last nodes) :
    first = nodes.head?.map Prod.fst := by
  cases nodes with
  | nil => exact h.1
  | cons node nodes => exact h.1

theorem Siblings.last_ne_none (h : Siblings cells p prev first last nodes) (hne : nodes ≠ []) :
    last ≠ none := by
  induction nodes generalizing prev first with
  | nil => exact absurd rfl hne
  | cons node nodes ih =>
    obtain ⟨-, -, -, -, hrest⟩ := h
    cases nodes with
    | nil =>
      rw [hrest.2]
      exact Option.some_ne_none node.1
    | cons node' nodes => exact ih hrest (List.cons_ne_nil node' nodes)

theorem Siblings.cell (h : Siblings cells p prev first last nodes) :
    ∀ e ∈ nodes, cells e.1 = some e.2 := by
  induction nodes generalizing prev first with
  | nil => simp
  | cons node nodes ih =>
    obtain ⟨-, hcell, -, -, hrest⟩ := h
    exact List.forall_mem_cons.mpr ⟨hcell, ih hrest⟩

/-- The owner of a chain of children can name them, and each of them owns what is below it apart
from its own cell. -/
theorem siblings_apart_of_chain {cs : List Child} {R : Assertion ℕ Node}
    (h : (chain none prev first last (childLinks p cs) * R).Holds cells) :
    ∃ nodes, Siblings cells p prev first last nodes ∧ (nodes.map Prod.fst).Nodup ∧
      List.Forall₂ (fun e c ↦ e.2.key = c.1 ∧ Spans (cells.erase e.1) c.2 e.1 e.2.value)
        nodes cs := by
  induction cs generalizing cells prev first R with
  | nil =>
    rw [childLinks, List.map_nil, chain, fact_mul_holds] at h
    exact ⟨[], h.1, List.nodup_nil, .nil⟩
  | cons c cs ih =>
    rw [childLinks, List.map_cons, chain, Quantale.iSup_mul_distrib, iSup_holds] at h
    obtain ⟨a, h⟩ := h
    rw [Quantale.iSup_mul_distrib, iSup_holds] at h
    obtain ⟨next, h⟩ := h
    rw [mul_assoc, fact_mul_holds, mul_assoc, nodeAt, nodeLink, Quantale.iSup_mul_distrib,
      iSup_holds] at h
    obtain ⟨hfirst, v, h⟩ := h
    rw [mul_assoc, pointsTo_mul_holds] at h
    obtain ⟨hcell, h⟩ := h
    have hsub : ∀ b n, cells.erase a b = some n → cells b = some n := Cells.erase_sub a
    have hspans : Spans (cells.erase a) c.2 a v := le_iff.mp (mul_le_mul_right le_top _) _ h
    rw [mul_left_comm] at h
    obtain ⟨nodes, hnodes, hnodup, hcontents⟩ := ih h
    have hfresh : a ∉ nodes.map Prod.fst := by
      intro hmem
      obtain ⟨e, he, rfl⟩ := List.mem_map.mp hmem
      have hcell' := hnodes.cell e he
      rw [Cells.erase_self] at hcell'
      exact Option.some_ne_none e.2 hcell'.symm
    refine ⟨(a, ⟨some p, prev, next, c.1, v⟩) :: nodes, ?_, ?_, ?_⟩
    · exact ⟨hfirst, hcell, rfl, rfl, hnodes.mono hsub⟩
    · exact List.nodup_cons.mpr ⟨hfresh, hnodup⟩
    · refine .cons ⟨rfl, hspans⟩ (hcontents.imp fun e c h ↦ ⟨h.1, ?_⟩)
      exact mul_top_mono (Cells.erase_mono hsub e.1) h.2

/-- The owner of an array or an object can name its children, and each of them owns what is below it
apart from its own cell. -/
theorem Spans.siblings_apart {t : JsonNode} {object : Bool} {cs : List Child} {a : ℕ} {v : Value}
    (ht : contentOf t = contentChildren object cs) (h : Spans cells t a v) :
    ∃ head tail nodes, v = .children object head tail ∧
      Siblings cells a none head tail nodes ∧ (nodes.map Prod.fst).Nodup ∧
      List.Forall₂ (fun e c ↦ e.2.key = c.1 ∧ Spans (cells.erase e.1) c.2 e.1 e.2.value)
        nodes cs := by
  rw [Spans, ht, contentChildren, Quantale.iSup_mul_distrib, iSup_holds] at h
  obtain ⟨head, h⟩ := h
  rw [Quantale.iSup_mul_distrib, iSup_holds] at h
  obtain ⟨tail, h⟩ := h
  rw [mul_assoc, fact_mul_holds] at h
  obtain ⟨nodes, hnodes⟩ := siblings_apart_of_chain h.2
  exact ⟨head, tail, nodes, h.1, hnodes⟩

/-- The owner of an array or an object can name its children. -/
theorem Spans.siblings {t : JsonNode} {object : Bool} {cs : List Child} {a : ℕ} {v : Value}
    (ht : contentOf t = contentChildren object cs) (h : Spans cells t a v) :
    ∃ head tail nodes, v = .children object head tail ∧
      Siblings cells a none head tail nodes ∧ (nodes.map Prod.fst).Nodup ∧
      List.Forall₂ (fun e c ↦ e.2.key = c.1 ∧ Spans cells c.2 e.1 e.2.value) nodes cs := by
  obtain ⟨head, tail, nodes, hv, hnodes, hnodup, hcontents⟩ := h.siblings_apart ht
  refine ⟨head, tail, nodes, hv, hnodes, hnodup, hcontents.imp fun e c h ↦ ⟨h.1, ?_⟩⟩
  exact mul_top_mono (Cells.erase_sub e.1) h.2

theorem Spans.string {s : List UInt8} {a : ℕ} {v : Value} (h : Spans cells (.string s) a v) :
    v = .string (some s) := by
  rw [Spans, contentOf, fact_mul_holds] at h
  exact h.1

theorem Spans.number {x : ℚ} {a : ℕ} {v : Value} (h : Spans cells (.number x) a v) :
    v = .number x := by
  rw [Spans, contentOf, fact_mul_holds] at h
  exact h.1

section Loops

variable {m : Memory ℕ Node} {fuel : ℕ}

theorem readValue_of_cell {γ : Type} {a : ℕ} {n : Node} {read : Value → Option γ} {x : γ}
    (hcell : m.cells a = some n) (hread : read n.value = some x) :
    readValue (some a) read m = .ok (x, m) := by
  rw [readValue, bind_of_ok (load_of_cell hcell), hread]
  rfl

theorem jsonFirstChild_of_cell {a : ℕ} {n : Node} {object : Bool} {head tail : Ptr}
    (hcell : m.cells a = some n) (hn : n.value = .children object head tail) :
    jsonFirstChild (some a) m = .ok (head, m) := by
  rw [jsonFirstChild, bind_of_ok (load_of_cell hcell), hn]
  rfl

/-- The walk ends, with the first node of the name or none. -/
theorem findFrom_siblings {name : String} (h : Siblings m.cells p prev first last nodes)
    (hkeys : ∀ e ∈ nodes, e.2.key ≠ none) (hfuel : nodes.length ≤ fuel) :
    findFrom name fuel first m =
      .ok ((nodes.find? fun e ↦ e.2.key = some (ascii name)).map Prod.fst, m) := by
  induction nodes generalizing prev first fuel with
  | nil =>
    rw [h.1]
    cases fuel <;> rfl
  | cons e nodes ih =>
    obtain ⟨rfl, hcell, -, -, hrest⟩ := h
    obtain ⟨fuel, rfl⟩ := Nat.exists_eq_add_of_le' (Nat.le_of_add_left_le hfuel)
    obtain ⟨key, hkey⟩ := Option.ne_none_iff_exists'.mp (hkeys e List.mem_cons_self)
    have hmember : member e.2.key m = .ok (key, m) := by rw [hkey]; rfl
    rw [findFrom, bind_of_ok (load_of_cell hcell), bind_of_ok hmember, List.find?_cons, hkey]
    by_cases hname : key = ascii name
    · rw [if_pos hname, hname, decide_eq_true rfl]
      rfl
    · rw [if_neg hname, decide_eq_false (mt Option.some.inj hname)]
      exact ih hrest (fun d hd ↦ hkeys d (List.mem_cons_of_mem e hd)) (Nat.le_of_succ_le_succ hfuel)

theorem jsonFindMember_siblings {name : String} {o : ℕ} {n : Node} {head tail : Ptr}
    (hcell : m.cells o = some n) (hn : n.value = .children true head tail)
    (h : Siblings m.cells o none head tail nodes) (hkeys : ∀ e ∈ nodes, e.2.key ≠ none)
    (hfuel : nodes.length ≤ fuel) : jsonFindMember fuel (some o) name m =
      .ok ((nodes.find? fun e ↦ e.2.key = some (ascii name)).map Prod.fst, m) := by
  have htag : n.value.tag = .object := by rw [hn]; rfl
  rw [jsonFindMember, bind_of_ok (load_of_cell hcell), if_neg (not_not.mpr htag),
    bind_of_ok (jsonFirstChild_of_cell hcell hn)]
  exact findFrom_siblings h hkeys hfuel

/-- The loop ends after it has run its body on each of the nodes, in their order. -/
theorem foreachFrom_siblings {γ : Type} {body : Ptr → Cmd γ} {xs : List γ}
    (h : Siblings m.cells p prev first last nodes)
    (hbody : List.Forall₂ (fun e x ↦ body (some e.1) m = .ok (x, m)) nodes xs)
    (hfuel : nodes.length ≤ fuel) : foreachFrom body fuel first m = .ok (xs, m) := by
  induction hbody generalizing prev first fuel with
  | nil =>
    rw [h.1]
    cases fuel <;> rfl
  | cons hx hbody ih =>
    obtain ⟨rfl, hcell, -, -, hrest⟩ := h
    obtain ⟨fuel, rfl⟩ := Nat.exists_eq_add_of_le' (Nat.le_of_add_left_le hfuel)
    rw [foreachFrom, bind_of_ok hx, bind_of_ok (load_of_cell hcell),
      bind_of_ok (ih hrest (Nat.le_of_succ_le_succ hfuel))]
    rfl

theorem jsonForeach_siblings {γ : Type} {body : Ptr → Cmd γ} {xs : List γ} {a : ℕ} {n : Node}
    {object : Bool} {head tail : Ptr} (hcell : m.cells a = some n)
    (hn : n.value = .children object head tail) (h : Siblings m.cells a none head tail nodes)
    (hbody : List.Forall₂ (fun e x ↦ body (some e.1) m = .ok (x, m)) nodes xs)
    (hfuel : nodes.length ≤ fuel) : jsonForeach body fuel (some a) m = .ok (xs, m) := by
  rw [jsonForeach, bind_of_ok (jsonFirstChild_of_cell hcell hn)]
  exact foreachFrom_siblings h hbody hfuel

end Loops

end Stored.Json.Linked
