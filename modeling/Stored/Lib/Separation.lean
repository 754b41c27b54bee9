import Mathlib.Algebra.Order.Quantale
import Mathlib.Algebra.Group.Basic
import Mathlib.Data.Option.Basic
import Mathlib.Data.Set.Operations
import Mathlib.Order.CompletePartialOrder
import Mathlib.Tactic.SplitIfs

/-!
# Assertions about parts of a memory

A memory maps addresses to the cells that are allocated. An assertion is about a part of it. The
separating conjunction is written as a product: it holds of a part that splits into two disjoint
ones, and it distributes over suprema, so that assertions are a commutative quantale with a unit.
-/

namespace Stored.Separation

variable {α β : Type*}

abbrev Cells (α β : Type*) := α → Option β

namespace Cells

def empty : Cells α β := fun _ ↦ none

def union (h₁ h₂ : Cells α β) : Cells α β := fun a ↦ (h₁ a).or (h₂ a)

def Apart (h₁ h₂ : Cells α β) : Prop := ∀ a, h₁ a = none ∨ h₂ a = none

variable {h h₁ h₂ h₃ : Cells α β}

theorem Apart.symm (h : Apart h₁ h₂) : Apart h₂ h₁ := fun a ↦ (h a).symm

theorem empty_apart (h : Cells α β) : Apart empty h := fun _ ↦ .inl rfl

theorem union_comm (h : Apart h₁ h₂) : h₁.union h₂ = h₂.union h₁ := by
  funext a
  cases h a with
  | inl hnone => simp [union, hnone]
  | inr hnone => simp [union, hnone]

theorem union_assoc (h₁ h₂ h₃ : Cells α β) :
    (h₁.union h₂).union h₃ = h₁.union (h₂.union h₃) := by
  funext a
  exact Option.or_assoc

theorem empty_union (h : Cells α β) : empty.union h = h := by
  funext a
  exact Option.none_or

theorem union_apart : Apart (h₁.union h₂) h₃ ↔ Apart h₁ h₃ ∧ Apart h₂ h₃ := by
  simp only [Apart, union, Option.or_eq_none_iff]
  constructor
  · intro h
    exact ⟨fun a ↦ (h a).imp_left And.left, fun a ↦ (h a).imp_left And.right⟩
  · rintro ⟨h₁, h₂⟩ a
    cases h₁ a with
    | inl hnone => exact (h₂ a).imp_left fun hnone' ↦ ⟨hnone, hnone'⟩
    | inr hnone => exact .inr hnone

theorem apart_union : Apart h₁ (h₂.union h₃) ↔ Apart h₁ h₂ ∧ Apart h₁ h₃ := by
  constructor
  · intro h
    exact (union_apart.mp h.symm).imp Apart.symm Apart.symm
  · rintro ⟨h₂, h₃⟩
    exact (union_apart.mpr ⟨h₂.symm, h₃.symm⟩).symm

variable [DecidableEq α]

def single (a : α) (v : β) : Cells α β := fun b ↦ if b = a then some v else none

/-- Writes or allocates one cell. -/
def set (h : Cells α β) (a : α) (v : β) : Cells α β := fun b ↦ if b = a then some v else h b

/-- Frees one cell. -/
def erase (h : Cells α β) (a : α) : Cells α β := fun b ↦ if b = a then none else h b

@[simp] theorem set_self (h : Cells α β) (a : α) (v : β) : h.set a v a = some v := if_pos rfl

@[simp] theorem erase_self (h : Cells α β) (a : α) : h.erase a a = none := if_pos rfl

@[simp] theorem erase_set (h : Cells α β) (a : α) (v : β) : (h.set a v).erase a = h.erase a := by
  funext b
  by_cases hb : b = a <;> simp [erase, set, hb]

theorem erase_sub (a b : α) (v : β) (hb : h.erase a b = some v) : h b = some v := by
  by_cases hba : b = a
  · simp [erase, hba] at hb
  · rwa [erase, if_neg hba] at hb

theorem erase_mono (hsub : ∀ b v, h₁ b = some v → h₂ b = some v) (a b : α) (v : β)
    (hb : h₁.erase a b = some v) : h₂.erase a b = some v := by
  by_cases hba : b = a
  · simp [erase, hba] at hb
  · rw [erase, if_neg hba] at hb ⊢
    exact hsub b v hb

theorem erase_of_none {a : α} (hnone : h a = none) : h.erase a = h := by
  funext b
  by_cases hb : b = a <;> simp [erase, hb, hnone]

end Cells

/-- What an operation relies on of the part of the memory that it owns. -/
def Assertion (α β : Type*) := Cells α β → Prop

namespace Assertion

open Cells

/-- The assertion that states `p`. -/
def mk (p : Cells α β → Prop) : Assertion α β := p

def Holds (P : Assertion α β) (h : Cells α β) : Prop := P h

instance : CompleteLattice (Assertion α β) :=
  inferInstanceAs (CompleteLattice (Cells α β → Prop))

variable {P Q R : Assertion α β} {h : Cells α β} {ι : Sort*}

@[ext] theorem ext (hiff : ∀ h, P.Holds h ↔ Q.Holds h) : P = Q :=
  funext fun h ↦ propext (hiff h)

theorem le_iff : P ≤ Q ↔ ∀ h, P.Holds h → Q.Holds h := Iff.rfl

theorem sSup_holds {s : Set (Assertion α β)} : (sSup s).Holds h ↔ ∃ P ∈ s, P.Holds h := by
  constructor
  · have hle : sSup s ≤ mk fun h ↦ ∃ P ∈ s, P.Holds h :=
      sSup_le fun P hmem h hP ↦ ⟨P, hmem, hP⟩
    exact le_iff.mp hle h
  · rintro ⟨P, hmem, hP⟩
    exact le_iff.mp (le_sSup hmem) h hP

theorem iSup_holds {P : ι → Assertion α β} : (⨆ i, P i).Holds h ↔ ∃ i, (P i).Holds h := by
  rw [iSup, sSup_holds, Set.exists_range_iff]

instance : One (Assertion α β) := ⟨mk fun h ↦ h = empty⟩

instance : Mul (Assertion α β) :=
  ⟨fun P Q ↦ mk fun h ↦ ∃ h₁ h₂, Apart h₁ h₂ ∧ h = h₁.union h₂ ∧ P.Holds h₁ ∧ Q.Holds h₂⟩

theorem mul_holds : (P * Q).Holds h ↔
    ∃ h₁ h₂, Apart h₁ h₂ ∧ h = h₁.union h₂ ∧ P.Holds h₁ ∧ Q.Holds h₂ := Iff.rfl

theorem sep_comm (P Q : Assertion α β) : P * Q = Q * P := by
  ext h
  constructor <;>
  · rintro ⟨h₁, h₂, hapart, rfl, hP, hQ⟩
    exact ⟨h₂, h₁, hapart.symm, union_comm hapart, hQ, hP⟩

theorem sep_assoc (P Q R : Assertion α β) : P * Q * R = P * (Q * R) := by
  ext h
  constructor
  · rintro ⟨_, h₃, hapart, rfl, ⟨h₁, h₂, hapart', rfl, hP, hQ⟩, hR⟩
    obtain ⟨h₁₃, h₂₃⟩ := union_apart.mp hapart
    exact ⟨h₁, h₂.union h₃, apart_union.mpr ⟨hapart', h₁₃⟩, union_assoc .., hP, h₂, h₃, h₂₃, rfl,
      hQ, hR⟩
  · rintro ⟨h₁, _, hapart, rfl, hP, h₂, h₃, hapart', rfl, hQ, hR⟩
    obtain ⟨h₁₂, h₁₃⟩ := apart_union.mp hapart
    exact ⟨h₁.union h₂, h₃, union_apart.mpr ⟨h₁₃, hapart'⟩, (union_assoc ..).symm,
      ⟨h₁, h₂, h₁₂, rfl, hP, hQ⟩, hR⟩

theorem one_sep (P : Assertion α β) : 1 * P = P := by
  ext h
  constructor
  · rintro ⟨h₁, h₂, -, rfl, rfl, hP⟩
    rwa [empty_union]
  · intro hP
    exact ⟨empty, h, empty_apart h, (empty_union h).symm, rfl, hP⟩

instance : CommMonoid (Assertion α β) where
  mul_assoc := sep_assoc
  one_mul := one_sep
  mul_one P := (sep_comm P 1).trans (one_sep P)
  mul_comm := sep_comm

theorem sSup_sep (s : Set (Assertion α β)) (Q : Assertion α β) : sSup s * Q = ⨆ P ∈ s, P * Q := by
  ext h
  simp only [iSup_holds, mul_holds, sSup_holds, exists_prop]
  constructor
  · rintro ⟨h₁, h₂, hapart, rfl, ⟨P, hmem, hP⟩, hQ⟩
    exact ⟨P, hmem, h₁, h₂, hapart, rfl, hP, hQ⟩
  · rintro ⟨P, hmem, h₁, h₂, hapart, rfl, hP, hQ⟩
    exact ⟨h₁, h₂, hapart, rfl, ⟨P, hmem, hP⟩, hQ⟩

instance : IsQuantale (Assertion α β) where
  mul_sSup_distrib P s := by
    rw [sep_comm, sSup_sep]
    simp only [sep_comm]
  sSup_mul_distrib := sSup_sep

theorem top_holds (h : Cells α β) : (⊤ : Assertion α β).Holds h :=
  le_iff.mp (le_top (a := mk fun _ ↦ True)) h trivial

theorem one_mul_top_holds (h : Cells α β) : (1 * ⊤ : Assertion α β).Holds h := by
  rw [one_mul]
  exact top_holds h

/-- What is owned somewhere in a memory is owned somewhere in a larger one. -/
theorem mul_top_mono {h' : Cells α β} (hsub : ∀ a v, h a = some v → h' a = some v)
    (hP : (P * ⊤).Holds h) : (P * ⊤).Holds h' := by
  obtain ⟨h₁, h₂, hapart, rfl, hP, -⟩ := hP
  have hrest : h' = h₁.union fun a ↦ if h₁ a = none then h' a else none := by
    funext a
    cases ha : h₁ a with
    | none => simp [union, ha]
    | some v =>
      simp only [union, ha, Option.some_or]
      exact hsub a v (by simp [union, ha])
  refine mul_holds.mpr ⟨h₁, _, fun a ↦ ?_, hrest, hP, top_holds _⟩
  by_cases ha : h₁ a = none
  · exact .inl ha
  · exact .inr (if_neg ha)

/-- A fact that owns no cell. -/
def fact (p : Prop) : Assertion α β := mk fun h ↦ p ∧ h = empty

theorem fact_of {p : Prop} (hp : p) : (fact p : Assertion α β) = 1 := by
  ext h
  exact and_iff_right hp

theorem fact_and (p q : Prop) : (fact (p ∧ q) : Assertion α β) = fact p * fact q := by
  ext h
  constructor
  · rintro ⟨⟨hp, hq⟩, hempty⟩
    rw [fact_of hp, one_mul]
    exact ⟨hq, hempty⟩
  · rintro ⟨h₁, h₂, -, rfl, ⟨hp, rfl⟩, hq, rfl⟩
    exact ⟨⟨hp, hq⟩, empty_union _⟩

theorem fact_mul_holds {p : Prop} : (fact p * P).Holds h ↔ p ∧ P.Holds h := by
  constructor
  · rintro ⟨h₁, h₂, -, rfl, ⟨hp, rfl⟩, hP⟩
    rw [empty_union]
    exact ⟨hp, hP⟩
  · rintro ⟨hp, hP⟩
    rwa [fact_of hp, one_mul]

/-- What is owned of one link, given the links before and behind it and its own address. -/
abbrev Link (α β : Type*) := Option α → Option α → α → Assertion α β

/-- A chain of links from `first` on: `prev` is before it, its end is `last` and `stop` is what the
end points to. -/
def chain (stop : Option α) :
    Option α → Option α → Option α → List (Link α β) → Assertion α β
  | prev, first, last, [] => fact (first = stop ∧ last = prev)
  | prev, first, last, link :: links =>
    ⨆ a, ⨆ next, fact (first = some a) * (link prev next a * chain stop (some a) next last links)

/-- The end of a chain split off. -/
theorem chain_snoc (stop prev first last : Option α) (links : List (Link α β)) (link : Link α β) :
    chain stop prev first last (links ++ [link]) =
      ⨆ b, ⨆ prev', fact (last = some b) *
        (chain (some b) prev first prev' links * link prev' stop b) := by
  induction links generalizing prev first with
  | nil =>
    ext h
    simp only [List.nil_append, chain, iSup_holds, mul_comm (link _ _ _), fact_mul_holds]
    constructor
    · rintro ⟨a, next, hfirst, ⟨rfl, hlast⟩, hlink⟩
      exact ⟨a, prev, hlast, ⟨hfirst, rfl⟩, hlink⟩
    · rintro ⟨a, prev', hlast, ⟨hfirst, rfl⟩, hlink⟩
      exact ⟨a, stop, hfirst, ⟨rfl, hlast⟩, hlink⟩
  | cons link' links ih =>
    have hswap (p q : Prop) (P Q R : Assertion α β) :
        fact p * (P * (fact q * (Q * R))) = fact q * (fact p * (P * Q) * R) := by
      ac_rfl
    ext h
    simp only [List.cons_append, chain, ih, Quantale.mul_iSup_distrib, Quantale.iSup_mul_distrib,
      iSup_holds, hswap]
    constructor
    · rintro ⟨a, next, b, prev', hholds⟩
      exact ⟨b, prev', a, next, hholds⟩
    · rintro ⟨b, prev', a, next, hholds⟩
      exact ⟨a, next, b, prev', hholds⟩

/-- A chain split between two links. -/
theorem chain_append (stop prev first last : Option α) (links links' : List (Link α β)) :
    chain stop prev first last (links ++ links') =
      ⨆ mid, ⨆ next, chain next prev first mid links * chain stop mid next last links' := by
  induction links generalizing prev first with
  | nil =>
    ext h
    simp only [List.nil_append, chain, iSup_holds, fact_mul_holds]
    constructor
    · intro hchain
      exact ⟨prev, first, ⟨rfl, rfl⟩, hchain⟩
    · rintro ⟨mid, next, ⟨rfl, rfl⟩, hchain⟩
      exact hchain
  | cons link links ih =>
    have hassoc (p : Prop) (P Q R : Assertion α β) :
        fact p * (P * Q) * R = fact p * (P * (Q * R)) := by
      ac_rfl
    ext h
    simp only [List.cons_append, chain, ih, Quantale.mul_iSup_distrib, Quantale.iSup_mul_distrib,
      iSup_holds, hassoc]
    constructor
    · rintro ⟨a, next, mid, next', hholds⟩
      exact ⟨mid, next', a, next, hholds⟩
    · rintro ⟨mid, next', a, next, hholds⟩
      exact ⟨a, next, mid, next', hholds⟩

theorem le_chain_append (stop prev first mid next last : Option α) (links links' : List (Link α β)) :
    chain next prev first mid links * chain stop mid next last links' ≤
      chain stop prev first last (links ++ links') := by
  rw [chain_append]
  exact le_iSup₂_of_le mid next le_rfl

/-- A link in front of a chain. -/
theorem le_chain_cons (stop prev next last : Option α) (a : α) (link : Link α β)
    (links : List (Link α β)) :
    link prev next a * chain stop (some a) next last links ≤
      chain stop prev (some a) last (link :: links) := by
  rw [chain]
  apply le_iSup₂_of_le a next
  rw [fact_of rfl, one_mul]

/-- A link behind a chain. -/
theorem le_chain_snoc (stop prev first prev' : Option α) (b : α) (link : Link α β)
    (links : List (Link α β)) :
    chain (some b) prev first prev' links * link prev' stop b ≤
      chain stop prev first (some b) (links ++ [link]) := by
  rw [chain_snoc]
  apply le_iSup₂_of_le b prev'
  rw [fact_of rfl, one_mul]

/-- The assertion is about a part of a memory inside a set of addresses. -/
def Within (P : Assertion α β) (h : Cells α β) (s : Set α) : Prop :=
  ∃ h₁, P.Holds h₁ ∧ ∀ a v, h₁ a = some v → h a = some v ∧ a ∈ s

namespace Within

variable {s t : Set α}

theorem one : Within (1 : Assertion α β) h s :=
  ⟨empty, rfl, fun _ _ ha ↦ absurd ha (Option.some_ne_none _).symm⟩

theorem mono (hP : Within P h s) (hst : s ⊆ t) : Within P h t := by
  obtain ⟨h₁, hh₁, hsub⟩ := hP
  exact ⟨h₁, hh₁, fun a v ha ↦ ⟨(hsub a v ha).1, hst (hsub a v ha).2⟩⟩

theorem imp (hP : Within P h s) (hPQ : P ≤ Q) : Within Q h s := by
  obtain ⟨h₁, hh₁, hsub⟩ := hP
  exact ⟨h₁, hPQ h₁ hh₁, hsub⟩

/-- What is owned within disjoint sets is owned apart. -/
theorem mul (hP : Within P h s) (hQ : Within Q h t) (hst : ∀ a ∈ s, a ∉ t) :
    Within (P * Q) h (s ∪ t) := by
  obtain ⟨h₁, hh₁, hsub₁⟩ := hP
  obtain ⟨h₂, hh₂, hsub₂⟩ := hQ
  refine ⟨h₁.union h₂, ⟨h₁, h₂, fun a ↦ ?_, rfl, hh₁, hh₂⟩, fun a v ha ↦ ?_⟩
  · cases ha₁ : h₁ a with
    | none => exact .inl rfl
    | some v =>
      right
      cases ha₂ : h₂ a with
      | none => rfl
      | some w => exact absurd (hsub₂ a w ha₂).2 (hst a (hsub₁ a v ha₁).2)
  · rcases Option.or_eq_some_iff.mp ha with ha₁ | ⟨-, ha₂⟩
    · exact ⟨(hsub₁ a v ha₁).1, .inl (hsub₁ a v ha₁).2⟩
    · exact ⟨(hsub₂ a v ha₂).1, .inr (hsub₂ a v ha₂).2⟩

/-- What is owned within a set is owned in a memory that has the cells of the set. -/
theorem mul_top (hP : Within P h s) {h' : Cells α β}
    (hsub : ∀ a ∈ s, ∀ v, h a = some v → h' a = some v) : (P * ⊤).Holds h' := by
  obtain ⟨h₁, hh₁, hwithin⟩ := hP
  have hle : P ≤ P * ⊤ := by
    calc
      P = P * 1 := (mul_one P).symm
      _ ≤ P * ⊤ := mul_le_mul_right le_top P
  apply mul_top_mono (h := h₁) _ (hle h₁ hh₁)
  intro a v ha
  exact hsub a (hwithin a v ha).2 v (hwithin a v ha).1

end Within

variable [DecidableEq α]

def pointsTo (a : α) (v : β) : Assertion α β := mk fun h ↦ h = single a v

/-- A memory of which one cell and a rest are owned holds that cell, and the rest without it. -/
theorem pointsTo_mul_holds {a : α} {v : β} :
    (pointsTo a v * P).Holds h ↔ h a = some v ∧ P.Holds (h.erase a) := by
  constructor
  · rintro ⟨_, h₂, hapart, rfl, rfl, hP⟩
    have hnone : h₂ a = none := (hapart a).resolve_left (by simp [single])
    have herase : ((single a v).union h₂).erase a = h₂ := by
      funext b
      by_cases hb : b = a <;> simp [erase, union, single, hb, hnone]
    rw [herase]
    exact ⟨by simp [union, single], hP⟩
  · rintro ⟨hcell, hP⟩
    refine ⟨single a v, h.erase a, fun b ↦ ?_, ?_, rfl, hP⟩
    · by_cases hb : b = a <;> simp [erase, single, hb]
    · funext b
      by_cases hb : b = a <;> simp [erase, union, single, hb, hcell]

theorem within_pointsTo {a : α} {v : β} (ha : h a = some v) : Within (pointsTo a v) h {a} := by
  refine ⟨single a v, rfl, fun b w hb ↦ ?_⟩
  by_cases hba : b = a
  · rw [single, if_pos hba] at hb
    rw [hba, ← hb]
    exact ⟨ha, rfl⟩
  · rw [single, if_neg hba] at hb
    exact nomatch hb

end Assertion

end Stored.Separation
