import Stored.Lib.Separation

/-!
# Programs on a heap

A program reads and writes single cells through pointers, of which one is null. It returns, or it
ends with a fault. A triple says that a program that owns what its precondition describes returns
with what its postcondition describes and leaves the rest of the memory alone, unless the
allocator refuses a request, which ends the process.
-/

namespace Stored.Heap

open Separation

/-- How a call ends that does not return. -/
inductive Fault where
  /-- A null pointer or a freed cell is accessed, or a member that the cell does not have. -/
  | undefined
  | assertion
  | outOfMemory
  /-- The fuel of a loop is spent. -/
  | hang
  deriving DecidableEq

structure Memory (α β : Type) where
  cells : Cells α β
  /-- How many requests the allocator has seen. -/
  requests : ℕ

/-- Where the allocator places a cell, if anywhere: any address that is not in use. -/
structure Allocator (α β : Type) where
  place : ℕ → Cells α β → Option α
  place_free : ∀ {n cells a}, place n cells = some a → cells a = none

abbrev Prog (α β γ : Type) := StateT (Memory α β) (Except Fault) γ

variable {α β γ δ : Type}

/-- A call returns with `post`, unless the process has run out of memory. -/
def Ends (post : γ → Memory α β → Prop) : Except Fault (γ × Memory α β) → Prop
  | .ok (x, m) => post x m
  | .error fault => fault = .outOfMemory

theorem Ends.mono {post post' : γ → Memory α β → Prop} {r : Except Fault (γ × Memory α β)}
    (h : Ends post r) (himp : ∀ x m, post x m → post' x m) : Ends post' r := by
  cases r with
  | ok r => exact himp r.1 r.2 h
  | error fault => exact h

theorem Ends.bind {post : γ → Memory α β → Prop} {post' : δ → Memory α β → Prop}
    {c : Prog α β γ} {k : γ → Prog α β δ} {m : Memory α β} (h : Ends post (c m))
    (hk : ∀ x m', post x m' → Ends post' (k x m')) : Ends post' ((c >>= k) m) := by
  change Ends post' (c m >>= fun r ↦ k r.1 r.2)
  cases hc : c m with
  | ok r =>
    rw [hc] at h
    exact hk r.1 r.2 h
  | error fault =>
    rw [hc] at h
    exact h

def Triple (P : Assertion α β) (c : Prog α β γ) (Q : γ → Assertion α β) : Prop :=
  ∀ (F : Assertion α β) (m : Memory α β), (P * F).Holds m.cells →
    Ends (fun x m' ↦ (Q x * F).Holds m'.cells) (c m)

namespace Triple

variable {P P' F R : Assertion α β} {Q Q' : γ → Assertion α β} {c : Prog α β γ}

theorem mono (hc : Triple P c Q) (hP : P' ≤ P) (hQ : ∀ x, Q x ≤ Q' x) : Triple P' c Q' := by
  intro F m hm
  have hm' : (P * F).Holds m.cells := mul_le_mul_left hP F _ hm
  exact (hc F m hm').mono fun x m' hpost ↦ mul_le_mul_left (hQ x) F _ hpost

theorem frame (F : Assertion α β) (hc : Triple P c Q) :
    Triple (P * F) c fun x ↦ Q x * F := by
  intro F' m hm
  rw [mul_assoc] at hm
  refine (hc (F * F') m hm).mono fun x m' hpost ↦ ?_
  rwa [mul_assoc]

theorem of_iSup {ι : Type} {P : ι → Assertion α β} (hc : ∀ i, Triple (P i) c Q) :
    Triple (⨆ i, P i) c Q := by
  intro F m hm
  rw [Quantale.iSup_mul_distrib, Assertion.iSup_holds] at hm
  obtain ⟨i, hi⟩ := hm
  exact hc i F m hi

theorem of_fact {p : Prop} (hc : p → Triple P c Q) : Triple (Assertion.fact p * P) c Q := by
  intro F m hm
  rw [mul_assoc, Assertion.fact_mul_holds] at hm
  exact hc hm.1 F m hm.2

theorem of_mul_iSup {ι : Type} {P : ι → Assertion α β} (hc : ∀ i, Triple (R * P i) c Q) :
    Triple (R * ⨆ i, P i) c Q := by
  rw [Quantale.mul_iSup_distrib]
  exact of_iSup hc

theorem of_mul_fact {p : Prop} (hc : p → Triple (R * P) c Q) :
    Triple (R * (Assertion.fact p * P)) c Q := by
  rw [mul_left_comm]
  exact of_fact hc

theorem pure {x : γ} (hP : P ≤ Q x) : Triple P (Pure.pure x) Q :=
  fun F _ hm ↦ mul_le_mul_left hP F _ hm

/-- The first program works on a part of what is owned. -/
theorem bind {k : γ → Prog α β δ} {S : δ → Assertion α β} (F : Assertion α β) (hc : Triple P c Q)
    (hP : P' = P * F) (hk : ∀ x, Triple (Q x * F) (k x) S) : Triple P' (c >>= k) S := by
  subst hP
  intro F' m hm
  exact (hc.frame F F' m hm).bind fun x m' hpost ↦ hk x F' m' hpost

/-- A program that makes something new and returns a pointer to it. -/
theorem new_bind {c : Prog α β (Option α)} {S : α → Assertion α β} {k : Option α → Prog α β γ}
    (hc : Triple 1 c fun p ↦ ⨆ a, Assertion.fact (p = some a) * S a)
    (hk : ∀ a, Triple (S a * P) (k (some a)) Q) : Triple P (c >>= k) Q := by
  apply Triple.bind P hc (one_mul P).symm
  intro p
  rw [Quantale.iSup_mul_distrib]
  apply of_iSup
  intro a
  rw [mul_assoc]
  apply of_fact
  rintro rfl
  exact hk a

theorem of_bind_pure (hc : Triple P (c >>= Pure.pure) Q) : Triple P c Q := by
  rwa [bind_pure] at hc

end Triple

/-- The cell behind a pointer. -/
def load (p : Option α) : Prog α β β := fun m ↦
  match p.bind m.cells with
  | some v => .ok (v, m)
  | none => .error .undefined

/-- A request for memory that no pointer of the program leads to. -/
def request (A : Allocator α β) : Prog α β Unit := fun m ↦
  match A.place m.requests m.cells with
  | some _ => .ok ((), { m with requests := m.requests + 1 })
  | none => .error .outOfMemory

def assert (p : Prop) [Decidable p] : Prog α β Unit := fun m ↦
  if p then .ok ((), m) else .error .assertion

/-- A member that is there, or else an access that is undefined. -/
def member (x : Option γ) : Prog α β γ := fun m ↦
  match x with
  | some x => .ok (x, m)
  | none => .error .undefined

def hang : Prog α β γ := fun _ ↦ .error .hang

theorem load_of_cell {a : α} {v : β} {m : Memory α β} (hcell : m.cells a = some v) :
    load (some a) m = .ok (v, m) := by
  rw [load, Option.bind_some, hcell]

theorem bind_of_ok {c : Prog α β γ} {k : γ → Prog α β δ} {m m' : Memory α β} {x : γ}
    (hc : c m = .ok (x, m')) : (c >>= k) m = k x m' := by
  change c m >>= (fun r ↦ k r.1 r.2) = _
  rw [hc]
  rfl

theorem bind_eq_ok_iff {c : Prog α β γ} {k : γ → Prog α β δ} {m m' : Memory α β} {y : δ} :
    (c >>= k) m = .ok (y, m') ↔ ∃ x m₁, c m = .ok (x, m₁) ∧ k x m₁ = .ok (y, m') := by
  change (c m >>= fun r ↦ k r.1 r.2) = _ ↔ _
  cases c m with
  | ok r =>
    constructor
    · intro h
      exact ⟨r.1, r.2, rfl, h⟩
    · rintro ⟨x, m₁, hr, h⟩
      obtain rfl := Except.ok.inj hr
      exact h
  | error fault => exact ⟨nofun, fun ⟨_, _, h, _⟩ ↦ nomatch h⟩

theorem load_bind_eq_ok {p : Option α} {k : β → Prog α β γ} {m m' : Memory α β} {y : γ}
    (h : (load p >>= k) m = .ok (y, m')) :
    ∃ a v, p = some a ∧ m.cells a = some v ∧ k v m = .ok (y, m') := by
  obtain ⟨v, m₁, hload, hk⟩ := bind_eq_ok_iff.mp h
  unfold load at hload
  split at hload
  · rename_i v' hcell
    obtain ⟨a, ha, hcell⟩ := Option.bind_eq_some_iff.mp hcell
    obtain ⟨rfl, rfl⟩ := Prod.mk.inj (Except.ok.inj hload)
    exact ⟨a, v', ha, hcell, hk⟩
  · exact nomatch hload

section Cells

variable [DecidableEq α]

/-- Writes the cell behind a pointer. -/
def update (p : Option α) (f : β → β) : Prog α β Unit := fun m ↦
  match p with
  | some a =>
    match m.cells a with
    | some v => .ok ((), { m with cells := m.cells.set a (f v) })
    | none => .error .undefined
  | none => .error .undefined

def allocate (A : Allocator α β) (v : β) : Prog α β (Option α) := fun m ↦
  match A.place m.requests m.cells with
  | some a => .ok (some a, ⟨m.cells.set a v, m.requests + 1⟩)
  | none => .error .outOfMemory

def free (p : Option α) : Prog α β Unit := fun m ↦
  match p with
  | some a =>
    match m.cells a with
    | some _ => .ok ((), { m with cells := m.cells.erase a })
    | none => .error .undefined
  | none => .ok ((), m)

end Cells

section Rules

open Assertion

variable {P F : Assertion α β} {Q : γ → Assertion α β} {a : α} {v : β}

theorem triple_request (A : Allocator α β) : Triple 1 (request A) fun _ ↦ 1 := by
  intro F m hm
  unfold request
  cases A.place m.requests m.cells with
  | some a => exact hm
  | none => rfl

theorem triple_assert {p : Prop} [Decidable p] (hp : p) :
    Triple 1 (assert p) fun _ ↦ (1 : Assertion α β) := by
  intro F m hm
  rw [assert, if_pos hp]
  exact hm

theorem Triple.member_bind {x : Option δ} {y : δ} {k : δ → Prog α β γ} (hx : x = some y)
    (hk : Triple P (k y) Q) : Triple P (member x >>= k) Q := by
  subst hx
  exact hk

theorem Triple.assert_bind {p : Prop} [Decidable p] {k : Unit → Prog α β γ} (hp : p)
    (hk : Triple P (k ()) Q) : Triple P (assert p >>= k) Q := by
  refine .bind P (triple_assert hp) (one_mul P).symm fun _ ↦ ?_
  rwa [one_mul]

theorem Triple.request_bind (A : Allocator α β) {k : Unit → Prog α β γ}
    (hk : Triple P (k ()) Q) : Triple P (request A >>= k) Q := by
  refine .bind P (triple_request A) (one_mul P).symm fun _ ↦ ?_
  rwa [one_mul]

section Cells

variable [DecidableEq α]

theorem triple_load :
    Triple (pointsTo a v) (load (some a)) fun x ↦ fact (x = v) * pointsTo a v := by
  intro F m hm
  have hcell := (pointsTo_mul_holds.mp hm).1
  rw [load, Option.bind_some, hcell]
  change (fact (v = v) * pointsTo a v * F).Holds m.cells
  rwa [fact_of rfl, one_mul]

theorem triple_update (f : β → β) :
    Triple (pointsTo a v) (update (some a) f) fun _ ↦ pointsTo a (f v) := by
  intro F m hm
  obtain ⟨hcell, hrest⟩ := pointsTo_mul_holds.mp hm
  simp only [update, hcell]
  refine pointsTo_mul_holds.mpr ⟨Cells.set_self .., ?_⟩
  rwa [Cells.erase_set]

theorem triple_allocate (A : Allocator α β) (v : β) :
    Triple 1 (allocate A v) fun p ↦ ⨆ a, fact (p = some a) * pointsTo a v := by
  intro F m hm
  unfold allocate
  rw [one_mul] at hm
  cases hplace : A.place m.requests m.cells with
  | none => rfl
  | some a =>
    have hfree := A.place_free hplace
    change ((⨆ b, fact (some a = some b) * pointsTo b v) * F).Holds (m.cells.set a v)
    rw [Quantale.iSup_mul_distrib, iSup_holds]
    refine ⟨a, ?_⟩
    rw [mul_assoc, fact_mul_holds, pointsTo_mul_holds, Cells.erase_set, Cells.erase_of_none hfree]
    exact ⟨rfl, Cells.set_self .., hm⟩

theorem triple_free : Triple (pointsTo a v) (free (some a)) fun _ ↦ 1 := by
  intro F m hm
  obtain ⟨hcell, hrest⟩ := pointsTo_mul_holds.mp hm
  simp only [free, hcell]
  change (1 * F).Holds (m.cells.erase a)
  rwa [one_mul]

theorem Triple.load_bind {k : β → Prog α β γ} (F : Assertion α β) (hP : P = pointsTo a v * F)
    (hk : Triple P (k v) Q) : Triple P (load (some a) >>= k) Q := by
  refine .bind F triple_load hP fun x ↦ ?_
  rw [mul_assoc]
  refine .of_fact fun hx ↦ ?_
  rwa [hx, ← hP]

theorem Triple.update_bind {f : β → β} {k : Unit → Prog α β γ} (F : Assertion α β)
    (hP : P = pointsTo a v * F) (hk : Triple (pointsTo a (f v) * F) (k ()) Q) :
    Triple P (update (some a) f >>= k) Q := .bind F (triple_update f) hP fun _ ↦ hk

end Cells

end Rules

end Stored.Heap
