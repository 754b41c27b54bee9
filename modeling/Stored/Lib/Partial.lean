import Mathlib.Data.Nat.Notation
import Mathlib.Data.Option.Basic
import Mathlib.Order.Filter.AtTopBot.Basic
import Mathlib.Tactic.SplitIfs

/-!
# Comparing partial results

`Below x y` says that `y` has an answer wherever `x` has one, and the same. A recursive function
on a fuel is monotone in this order; the rules below follow the shape of its body. `Settles f ok r` says
what such a function comes to: the answer `r` where `ok` holds, and never an answer elsewhere.
-/

namespace Stored.Partial

variable {α β : Type*}

def Below (x y : Option α) : Prop := ∀ r, x = some r → y = some r

theorem Below.refl (x : Option α) : Below x x := fun _ h ↦ h

theorem Below.trans {x y z : Option α} (hxy : Below x y) (hyz : Below y z) : Below x z :=
  fun r h ↦ hyz r (hxy r h)

theorem Below.antisymm {x y : Option α} (hxy : Below x y) (hyx : Below y x) : x = y := by
  cases x with
  | none =>
    cases y with
    | none => rfl
    | some r => exact nomatch hyx r rfl
  | some r => exact (hxy r rfl).symm

theorem below_none (y : Option α) : Below none y := fun _ h ↦ nomatch h

/-- The continuations need to compare only at an answer of the first computation. -/
theorem Below.bind {x y : Option α} {f g : α → Option β} (h : Below x y)
    (hfg : ∀ a, x = some a → Below (f a) (g a)) : Below (x.bind f) (y.bind g) := by
  intro r hr
  obtain ⟨a, ha, hfa⟩ := Option.bind_eq_some_iff.mp hr
  exact Option.bind_eq_some_iff.mpr ⟨a, h a ha, hfg a ha r hfa⟩

theorem Below.map {x y : Option α} (f : α → β) (h : Below x y) : Below (x.map f) (y.map f) := by
  intro r hr
  obtain ⟨a, ha, rfl⟩ := Option.map_eq_some_iff.mp hr
  exact Option.map_eq_some_iff.mpr ⟨a, h a ha, rfl⟩

theorem Below.ite {p : Prop} [Decidable p] {x y x' y' : Option α} (h : p → Below x y)
    (h' : ¬p → Below x' y') : Below (if p then x else x') (if p then y else y') := by
  split_ifs with hp
  · exact h hp
  · exact h' hp

/-- A chain that is monotone at every step is monotone. -/
theorem Below.of_le {f : ℕ → Option α} (h : ∀ n, Below (f n) (f (n + 1))) {m n : ℕ} (hmn : m ≤ n) :
    Below (f m) (f n) := by
  induction hmn with
  | refl => exact .refl _
  | step _ ih => exact ih.trans (h _)

/-- A chain that no longer grows from `bound` on is bounded by its member there. -/
theorem Below.of_stable {f : ℕ → Option α} {bound : ℕ} (hmono : ∀ n, Below (f n) (f (n + 1)))
    (hstable : ∀ n, bound ≤ n → Below (f (n + 1)) (f n)) (n : ℕ) : Below (f n) (f bound) := by
  rcases Nat.le_total n bound with hle | hle
  · exact .of_le hmono hle
  · induction hle with
    | refl => exact .refl _
    | step hle ih => exact (hstable _ hle).trans ih

/-- Such a chain is constant in the end. -/
theorem eventually_eq_of_stable {f : ℕ → Option α} {bound : ℕ}
    (hmono : ∀ n, Below (f n) (f (n + 1))) (hstable : ∀ n, bound ≤ n → Below (f (n + 1)) (f n)) :
    ∀ᶠ n in Filter.atTop, f n = f bound := by
  filter_upwards [Filter.eventually_ge_atTop bound] with n hn
  exact (Below.of_stable hmono hstable n).antisymm (.of_le hmono hn)

/-- A monotone chain that reaches the answer `r` if `ok` holds and has no answer otherwise. -/
structure Settles (f : ℕ → Option α) (ok : Prop) (r : α) : Prop where
  mono : ∀ n, Below (f n) (f (n + 1))
  answers : ok → ∃ n, f n = some r
  refuses : ¬ok → ∀ n, f n = none

/-- An answer on any fuel is the settled one. -/
theorem Settles.eq_of_some {f : ℕ → Option α} {ok : Prop} {r : α} (h : Settles f ok r) {n : ℕ}
    {a : α} (ha : f n = some a) : ok ∧ a = r := by
  by_cases hok : ok
  · obtain ⟨m, hm⟩ := h.answers hok
    have hleft := Below.of_le h.mono (Nat.le_max_left m n) _ hm
    have hright := Below.of_le h.mono (Nat.le_max_right m n) _ ha
    exact ⟨hok, Option.some.inj (hright.symm.trans hleft)⟩
  · rw [h.refuses hok n] at ha
    exact nomatch ha

theorem Settles.some (r : α) : Settles (fun _ ↦ Option.some r) True r :=
  ⟨fun _ ↦ .refl _, fun _ ↦ ⟨0, rfl⟩, fun h ↦ absurd trivial h⟩

/-- Unfolding one level of fuel. -/
theorem Settles.succ {f F : ℕ → Option α} {ok : Prop} {r : α} (h : Settles f ok r)
    (hzero : F 0 = Option.none) (hsucc : ∀ n, F (n + 1) = f n) : Settles F ok r where
  mono n := by
    cases n with
    | zero => rw [hzero]; exact below_none _
    | succ n => rw [hsucc, hsucc]; exact h.mono n
  answers hok := by
    obtain ⟨n, hn⟩ := h.answers hok
    exact ⟨n + 1, (hsucc n).trans hn⟩
  refuses hok n := by
    cases n with
    | zero => exact hzero
    | succ n => rw [hsucc, h.refuses hok]

theorem Settles.bind {f : ℕ → Option α} {g : α → ℕ → Option β} {ok ok' : Prop} {r : α} {r' : β}
    (h : Settles f ok r) (h' : Settles (g r) ok' r') :
    Settles (fun n ↦ (f n).bind fun a ↦ g a n) (ok ∧ ok') r' where
  mono n := .bind (h.mono n) fun a ha ↦ by
    rw [(h.eq_of_some ha).2]
    exact h'.mono n
  answers := by
    rintro ⟨hok, hok'⟩
    obtain ⟨m, hm⟩ := h.answers hok
    obtain ⟨n, hn⟩ := h'.answers hok'
    refine ⟨max m n, Option.bind_eq_some_iff.mpr ⟨r, ?_, ?_⟩⟩
    · exact Below.of_le h.mono (Nat.le_max_left m n) _ hm
    · exact Below.of_le h'.mono (Nat.le_max_right m n) _ hn
  refuses hnot n := by
    cases ha : f n with
    | none => rfl
    | some a =>
      obtain ⟨hok, rfl⟩ := h.eq_of_some ha
      exact h'.refuses (fun hok' ↦ hnot ⟨hok, hok'⟩) n

theorem Settles.map {f : ℕ → Option α} {ok : Prop} {r : α} (h : Settles f ok r) (g : α → β) :
    Settles (fun n ↦ (f n).map g) ok (g r) where
  mono n := (h.mono n).map g
  answers hok := by
    obtain ⟨n, hn⟩ := h.answers hok
    exact ⟨n, by rw [hn]; rfl⟩
  refuses hok n := by rw [h.refuses hok n]; rfl

theorem Settles.congr {f : ℕ → Option α} {ok ok' : Prop} {r r' : α} (h : Settles f ok r)
    (hok : ok ↔ ok') (hr : r = r') : Settles f ok' r' := by
  rw [← propext hok, ← hr]
  exact h

/-- A monotone chain with an answer. -/
theorem Settles.of_some {f : ℕ → Option α} {r : α} {n : ℕ}
    (hmono : ∀ n, Below (f n) (f (n + 1))) (hn : f n = Option.some r) : Settles f True r :=
  ⟨hmono, fun _ ↦ ⟨n, hn⟩, fun h ↦ absurd trivial h⟩

theorem Settles.bind_true {f : ℕ → Option α} {g : α → ℕ → Option β} {r : α} {r' : β}
    (h : Settles f True r) (h' : Settles (g r) True r') :
    Settles (fun n ↦ (f n).bind fun a ↦ g a n) True r' :=
  (h.bind h').congr (and_self_iff) rfl

end Stored.Partial
