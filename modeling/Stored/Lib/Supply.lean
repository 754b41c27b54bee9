import Mathlib.Data.Set.Finite.Basic
import Stored.Lib.Heap

/-!
# Programs that are given memory

A triple leaves it open whether the allocator refuses a request. Here the allocator refuses none
while finitely many cells are in use, and a program that is built from the operations on single
cells does not run out of memory.
-/

namespace Stored.Heap

open Separation

variable {α β γ δ : Type}

/-- Finitely many cells are in use. -/
def Memory.Finite (m : Memory α β) : Prop := {a | m.cells a ≠ none}.Finite

/-- The allocator refuses no request while finitely many cells are in use. -/
def Allocator.Supplies (A : Allocator α β) : Prop :=
  ∀ n cells, {a | cells a ≠ none}.Finite → A.place n cells ≠ none

/-- Where there are infinitely many addresses there is such an allocator. -/
theorem exists_supplies [Infinite α] : ∃ A : Allocator α β, A.Supplies := by
  classical
  refine ⟨⟨fun _ cells ↦ if h : ∃ a, cells a = none then some h.choose else none, ?_⟩, ?_⟩
  · intro _ cells a hplace
    split_ifs at hplace with hfree
    rw [← Option.some.inj hplace]
    exact hfree.choose_spec
  · intro _ cells hfinite
    obtain ⟨a, ha⟩ := hfinite.exists_notMem
    have hfree : ∃ a, cells a = none := ⟨a, not_not.mp ha⟩
    change (if h : ∃ a, cells a = none then some h.choose else none) ≠ none
    rw [dif_pos hfree]
    exact Option.some_ne_none _

/-- From a finite memory the program does not run out of memory, and a finite memory is left. -/
def Supplied (c : Prog α β γ) : Prop := ∀ m, m.Finite →
  c m ≠ .error .outOfMemory ∧ ∀ x m', c m = .ok (x, m') → m'.Finite

/-- A call that does not run out of memory returns. -/
theorem Ends.returns {post : γ → Memory α β → Prop} {r : Except Fault (γ × Memory α β)}
    (h : Ends post r) (hr : r ≠ .error .outOfMemory) : ∃ x m, r = .ok (x, m) ∧ post x m := by
  cases r with
  | ok r => exact ⟨r.1, r.2, rfl, h⟩
  | error fault => exact absurd (congrArg Except.error h) hr

namespace Supplied

theorem pure (x : γ) : Supplied (Pure.pure x : Prog α β γ) := by
  intro m hm
  refine ⟨nofun, ?_⟩
  rintro _ _ ⟨⟩
  exact hm

theorem bind {c : Prog α β γ} {k : γ → Prog α β δ} (hc : Supplied c) (hk : ∀ x, Supplied (k x)) :
    Supplied (c >>= k) := by
  intro m hm
  obtain ⟨hfault, hfinite⟩ := hc m hm
  change (c m >>= fun r ↦ k r.1 r.2) ≠ _ ∧ ∀ x m', (c m >>= fun r ↦ k r.1 r.2) = _ → _
  cases hcm : c m with
  | ok r => exact hk r.1 r.2 (hfinite r.1 r.2 hcm)
  | error fault =>
    refine ⟨fun h ↦ hfault ?_, nofun⟩
    rw [hcm, Except.error.inj h]

theorem ite {p : Prop} [Decidable p] {c d : Prog α β γ} (hc : Supplied c) (hd : Supplied d) :
    Supplied (if p then c else d) := by
  split_ifs
  · exact hc
  · exact hd

/-- A program that returns with the memory as it was, or ends with a fault of its own. -/
theorem of_eq {c : Prog α β γ} (hc : ∀ m, (∃ x, c m = .ok (x, m)) ∨
    ∃ fault, fault ≠ .outOfMemory ∧ c m = .error fault) : Supplied c := by
  intro m hm
  rcases hc m with ⟨x, hx⟩ | ⟨fault, hfault, hx⟩
  · rw [hx]
    refine ⟨nofun, ?_⟩
    rintro _ _ ⟨⟩
    exact hm
  · rw [hx]
    exact ⟨fun h ↦ hfault (Except.error.inj h), nofun⟩

theorem load (p : Option α) : Supplied (Heap.load p : Prog α β β) := by
  refine of_eq fun m ↦ ?_
  unfold Heap.load
  cases p.bind m.cells with
  | some v => exact .inl ⟨v, rfl⟩
  | none => exact .inr ⟨.undefined, nofun, rfl⟩

theorem member (x : Option γ) : Supplied (Heap.member x : Prog α β γ) := by
  refine of_eq fun m ↦ ?_
  cases x with
  | some x => exact .inl ⟨x, rfl⟩
  | none => exact .inr ⟨.undefined, nofun, rfl⟩

theorem assert (p : Prop) [Decidable p] : Supplied (Heap.assert p : Prog α β Unit) := by
  refine of_eq fun m ↦ ?_
  unfold Heap.assert
  split_ifs
  · exact .inl ⟨(), rfl⟩
  · exact .inr ⟨.assertion, nofun, rfl⟩

theorem hang : Supplied (Heap.hang : Prog α β γ) :=
  of_eq fun _ ↦ .inr ⟨.hang, nofun, rfl⟩

section Cells

variable [DecidableEq α]

/-- One more cell in use is still finitely many. -/
theorem finite_set {m : Memory α β} (h : m.Finite) (a : α) (v : β) (n : ℕ) :
    Memory.Finite ⟨m.cells.set a v, n⟩ := by
  refine (h.insert a).subset fun b hb ↦ ?_
  by_cases hba : b = a
  · exact .inl hba
  · refine .inr ?_
    change Cells.set m.cells a v b ≠ none at hb
    rwa [Cells.set, if_neg hba] at hb

theorem update (p : Option α) (f : β → β) : Supplied (Heap.update p f) := by
  intro m hm
  unfold Heap.update
  cases p with
  | none => exact ⟨nofun, nofun⟩
  | some a =>
    dsimp only
    cases m.cells a with
    | none => exact ⟨nofun, nofun⟩
    | some v =>
      refine ⟨nofun, ?_⟩
      rintro _ _ ⟨⟩
      exact finite_set hm a (f v) m.requests

theorem free (p : Option α) : Supplied (Heap.free p : Prog α β Unit) := by
  intro m hm
  unfold Heap.free
  cases p with
  | none =>
    refine ⟨nofun, ?_⟩
    rintro _ _ ⟨⟩
    exact hm
  | some a =>
    dsimp only
    cases m.cells a with
    | none => exact ⟨nofun, nofun⟩
    | some v =>
      refine ⟨nofun, ?_⟩
      rintro _ _ ⟨⟩
      refine hm.subset fun b hb ↦ ?_
      change Cells.erase m.cells a b ≠ none at hb
      unfold Cells.erase at hb
      split_ifs at hb
      · exact absurd rfl hb
      · exact hb

variable {A : Allocator α β}

theorem allocate (hA : A.Supplies) (v : β) : Supplied (Heap.allocate A v) := by
  intro m hm
  unfold Heap.allocate
  cases hplace : A.place m.requests m.cells with
  | none => exact absurd hplace (hA _ _ hm)
  | some a =>
    refine ⟨nofun, ?_⟩
    rintro _ _ ⟨⟩
    exact finite_set hm a v _

end Cells

theorem request {A : Allocator α β} (hA : A.Supplies) : Supplied (Heap.request A) := by
  intro m hm
  unfold Heap.request
  cases hplace : A.place m.requests m.cells with
  | none => exact absurd hplace (hA _ _ hm)
  | some a =>
    refine ⟨nofun, ?_⟩
    rintro _ _ ⟨⟩
    exact hm

end Supplied

end Stored.Heap
