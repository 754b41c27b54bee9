import Mathlib.Logic.Function.Basic

/-!
# A ledger of allocated cells

Each owner has at most one cell of a heap, no two owners have the same one, and the rest of the
heap is as it was at first. A system whose owners give back what they have leaves no cell behind.
-/

namespace Stored.Ledger

variable {α ν ω : Type*} {initial heap heap' : α → Option ν} {owns owns' : ω → Option α}

/-- The cells that have been allocated and not been freed are those of the owners. -/
structure Balanced (initial heap : α → Option ν) (owns : ω → Option α) : Prop where
  fresh : ∀ o a, owns o = some a → initial a = none
  live : ∀ o a, owns o = some a → ∃ v, heap a = some v
  apart : ∀ o o' a, owns o = some a → owns o' = some a → o = o'
  rest : ∀ a, (∀ o, owns o ≠ some a) → heap a = initial a

theorem balanced_initial (h : ∀ o, owns o = none) : Balanced initial initial owns where
  fresh o a ho := absurd ((h o).symm.trans ho) (Option.some_ne_none a).symm
  live o a ho := absurd ((h o).symm.trans ho) (Option.some_ne_none a).symm
  apart o _ a ho := absurd ((h o).symm.trans ho) (Option.some_ne_none a).symm
  rest _ _ := rfl

theorem Balanced.congr (h : Balanced initial heap owns) (howns : ∀ o, owns' o = owns o) :
    Balanced initial heap owns' := by
  have heq : owns' = owns := funext howns
  rwa [heq]

/-- When nobody has a cell, the heap is as it was. -/
theorem Balanced.eq_initial (h : Balanced initial heap owns) (hnone : ∀ o, owns o = none) :
    heap = initial := by
  funext a
  exact h.rest a fun o ho ↦ absurd ((hnone o).symm.trans ho) (Option.some_ne_none a).symm

variable [DecidableEq α]

/-- A step of one owner, by what it had and has. -/
inductive CellStep (heap heap' : α → Option ν) (before after : Option α) : Prop
  | alloc (a : α) (v : ν) (hbefore : before = none) (hafter : after = some a)
    (hfresh : heap a = none) (hheap : heap' = Function.update heap a (some v))
  | release (a : α) (hbefore : before = some a) (hafter : after = none)
    (hheap : heap' = Function.update heap a none)
  | keep (hafter : after = before) (hheap : heap' = heap)

theorem Balanced.update_some {o : ω} {a : α} {v : ν}
    (h : Balanced initial heap owns) (hfresh : heap a = none) (ho : owns o = none)
    (ho' : owns' o = some a) (hothers : ∀ o', o' ≠ o → owns' o' = owns o') :
    Balanced initial (Function.update heap a (some v)) owns' := by
  -- a cell that is free belongs to nobody
  have hfree (o' : ω) : owns o' ≠ some a := by
    intro howns
    obtain ⟨w, hlive⟩ := h.live o' a howns
    exact absurd (hfresh.symm.trans hlive) (Option.some_ne_none w).symm
  have hcase (o' : ω) (b : α) (howns : owns' o' = some b) :
      (o' = o ∧ b = a) ∨ (o' ≠ o ∧ b ≠ a ∧ owns o' = some b) := by
    by_cases heq : o' = o
    · rw [heq, ho'] at howns
      exact .inl ⟨heq, (Option.some.inj howns).symm⟩
    · have hold := (hothers o' heq).symm.trans howns
      exact .inr ⟨heq, fun hab ↦ hfree o' (hab ▸ hold), hold⟩
  refine ⟨fun o' b howns ↦ ?_, fun o' b howns ↦ ?_, fun o₁ o₂ b h₁ h₂ ↦ ?_, fun b hnone ↦ ?_⟩
  · rcases hcase o' b howns with ⟨-, rfl⟩ | ⟨-, -, hold⟩
    · exact (h.rest b hfree).symm.trans hfresh
    · exact h.fresh o' b hold
  · rcases hcase o' b howns with ⟨-, rfl⟩ | ⟨-, hne, hold⟩
    · exact ⟨v, Function.update_self ..⟩
    · rw [Function.update_of_ne hne]
      exact h.live o' b hold
  · rcases hcase o₁ b h₁ with ⟨rfl, hb⟩ | ⟨-, hne, hold₁⟩
    · rcases hcase o₂ b h₂ with ⟨rfl, -⟩ | ⟨-, hne, -⟩
      · rfl
      · exact absurd hb hne
    · rcases hcase o₂ b h₂ with ⟨-, hb⟩ | ⟨-, -, hold₂⟩
      · exact absurd hb hne
      · exact h.apart o₁ o₂ b hold₁ hold₂
  · have hne : b ≠ a := fun heq ↦ hnone o (heq ▸ ho')
    rw [Function.update_of_ne hne]
    refine h.rest b fun o' hold ↦ ?_
    by_cases heq : o' = o
    · exact absurd ((heq ▸ ho).symm.trans hold) (Option.some_ne_none b).symm
    · exact hnone o' ((hothers o' heq).trans hold)

theorem Balanced.update_none {o : ω} {a : α} (h : Balanced initial heap owns)
    (ho : owns o = some a) (ho' : owns' o = none) (hothers : ∀ o', o' ≠ o → owns' o' = owns o') :
    Balanced initial (Function.update heap a none) owns' := by
  have hcase (o' : ω) (b : α) (howns : owns' o' = some b) : b ≠ a ∧ owns o' = some b := by
    have hne : o' ≠ o := by
      intro heq
      exact absurd ((heq ▸ ho').symm.trans howns) (Option.some_ne_none b).symm
    have hold := (hothers o' hne).symm.trans howns
    exact ⟨fun hab ↦ hne (h.apart o' o a (hab ▸ hold) ho), hold⟩
  refine ⟨fun o' b howns ↦ h.fresh o' b (hcase o' b howns).2, fun o' b howns ↦ ?_,
    fun o₁ o₂ b h₁ h₂ ↦ h.apart o₁ o₂ b (hcase o₁ b h₁).2 (hcase o₂ b h₂).2, fun b hnone ↦ ?_⟩
  · obtain ⟨hne, hold⟩ := hcase o' b howns
    rw [Function.update_of_ne hne]
    exact h.live o' b hold
  · by_cases heq : b = a
    · rw [heq, Function.update_self]
      exact (h.fresh o a ho).symm
    · rw [Function.update_of_ne heq]
      refine h.rest b fun o' hold ↦ ?_
      by_cases hoo : o' = o
      · exact heq (Option.some.inj ((hoo ▸ hold).symm.trans ho))
      · exact hnone o' ((hothers o' hoo).trans hold)

/-- The ledger stays balanced through a step of one owner, the others left alone. -/
theorem Balanced.step {o : ω} (h : Balanced initial heap owns)
    (hstep : CellStep heap heap' (owns o) (owns' o))
    (hothers : ∀ o', o' ≠ o → owns' o' = owns o') : Balanced initial heap' owns' := by
  cases hstep with
  | alloc a v hbefore hafter hfresh hheap =>
    rw [hheap]
    exact h.update_some hfresh hbefore hafter hothers
  | release a hbefore hafter hheap =>
    rw [hheap]
    exact h.update_none hbefore hafter hothers
  | keep hafter hheap =>
    rw [hheap]
    refine h.congr fun o' ↦ ?_
    by_cases heq : o' = o
    · rw [heq, hafter]
    · exact hothers o' heq

end Stored.Ledger
