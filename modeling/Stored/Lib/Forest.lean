import Mathlib.Data.Set.Operations
import Mathlib.Logic.Relation

/-!
# Forests

A relation from parents to children in which nobody has two parents. Below a point from which no
path goes on forever the children span disjoint sets.
-/

namespace Stored.Forest

open Relation

variable {α : Type*} (child : α → α → Prop)

/-- A point and all below it. -/
def descendants (a : α) : Set α := {x | ReflTransGen child a x}

/-- No path from the point goes on forever. -/
def Grounded (a : α) : Prop := Acc (fun c p ↦ child p c) a

variable {child} {a b c p x : α}

theorem mem_descendants_iff :
    x ∈ descendants child a ↔ x = a ∨ ∃ c, child a c ∧ x ∈ descendants child c := by
  constructor
  · intro h
    rcases ReflTransGen.cases_head h with rfl | ⟨c, hc, hx⟩
    · exact .inl rfl
    · exact .inr ⟨c, hc, hx⟩
  · rintro (rfl | ⟨c, hc, hx⟩)
    · exact .refl
    · exact hx.head hc

/-- A grounded point is not below any of its children. -/
theorem Grounded.notMem_descendants (h : Grounded child p) (hc : child p c) :
    p ∉ descendants child c := by
  intro hp
  induction h generalizing c with
  | intro p _ ih =>
    rcases ReflTransGen.cases_head hp with rfl | ⟨d, hd, hp'⟩
    · exact ih _ hc hc .refl
    · exact ih c hc hd (hp'.tail hc)

/-- Two points with a common descendant are one above the other. -/
theorem total_of_mem_descendants (hunique : ∀ ⦃p q c⦄, child p c → child q c → p = q)
    (ha : x ∈ descendants child a) (hb : x ∈ descendants child b) :
    b ∈ descendants child a ∨ a ∈ descendants child b := by
  have hright : Relator.RightUnique (Function.swap child) := fun _ _ _ hp hq ↦ hunique hp hq
  rcases ReflTransGen.total_of_right_unique hright (reflTransGen_swap.mpr ha)
    (reflTransGen_swap.mpr hb) with h | h
  · exact .inr (reflTransGen_swap.mp h)
  · exact .inl (reflTransGen_swap.mp h)

/-- Two children of a grounded point have nothing below them in common. -/
theorem Grounded.disjoint_descendants (hunique : ∀ ⦃p q c⦄, child p c → child q c → p = q)
    (h : Grounded child p) (ha : child p a) (hb : child p b) (hne : a ≠ b) :
    ∀ x ∈ descendants child a, x ∉ descendants child b := by
  -- a proper descendant that is a sibling has the parent above it
  have hbelow {a b : α} (ha : child p a) (hb : child p b) (hne : a ≠ b) :
      b ∉ descendants child a := by
    intro hab
    rcases ReflTransGen.cases_tail hab with heq | ⟨q, hq, hqb⟩
    · exact hne heq.symm
    · rw [hunique hqb hb] at hq
      exact h.notMem_descendants ha hq
  intro x hxa hxb
  rcases total_of_mem_descendants hunique hxa hxb with hab | hba
  · exact hbelow ha hb hne hab
  · exact hbelow hb ha hne.symm hba

end Stored.Forest
