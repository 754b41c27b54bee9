import Mathlib.Order.Basic
import Mathlib.Tactic.SplitIfs

/-!
# Growable buffers

Elements are written one after another behind a cursor. Where the room behind it runs short, the
allocation is doubled until it is enough. `Writes g m n p s x` says what a program does from every
buffer that has room for `m` more elements: it writes `s`, returns `x` and leaves room for `n`, and
the allocation stays within what the growth allows.
-/

namespace Stored.Growable

/-- How a program ends that does not return. -/
inductive Fault where
  /-- A write behind the end of the allocation. -/
  | overflow
  | assertion
  /-- The fuel of a loop is spent. -/
  | hang
  deriving DecidableEq

variable {α γ δ : Type}

/-- The elements before the cursor, and how many the allocation has place for. -/
structure Buffer (α : Type) where
  written : List α
  alloc : ℕ
  fits : written.length ≤ alloc
  pos : 0 < alloc

/-- A program that writes to a buffer. -/
abbrev Out (α γ : Type) := StateT (Buffer α) (Except Fault) γ

def Buffer.empty (α : Type) (alloc : ℕ) (pos : 0 < alloc) : Buffer α :=
  ⟨[], alloc, Nat.zero_le _, pos⟩

/-- `do alloc *= 2; while (alloc < target);` ends as a positive size grows with every round. -/
def double (target alloc : ℕ) (pos : 0 < alloc) : ℕ :=
  if alloc * 2 < target then double target (alloc * 2) (Nat.mul_pos pos Nat.two_pos) else alloc * 2
termination_by target - alloc

theorem le_double (target alloc : ℕ) (pos : 0 < alloc) : target ≤ double target alloc pos := by
  fun_induction double target alloc pos with
  | case1 alloc pos h ih => exact ih
  | case2 alloc pos h => exact Nat.le_of_not_lt h

theorem alloc_le_double (target alloc : ℕ) (pos : 0 < alloc) :
    alloc ≤ double target alloc pos := by
  fun_induction double target alloc pos with
  | case1 alloc pos h ih => omega
  | case2 alloc pos h => omega

/-- The last size before the end of the loop was too small. -/
theorem double_le {target alloc : ℕ} (pos : 0 < alloc) (h : alloc < target) :
    double target alloc pos ≤ 2 * target := by
  fun_induction double target alloc pos with
  | case1 alloc pos hlt ih => exact ih hlt
  | case2 alloc pos hlt => omega

/-- Makes place for more elements than there is room for. -/
def grow (need : ℕ) : Out α Unit := fun b ↦
  let alloc := double (b.written.length + need) b.alloc b.pos
  .ok ((), ⟨b.written, alloc, Nat.le_trans b.fits (alloc_le_double _ _ b.pos),
    Nat.lt_of_lt_of_le b.pos (alloc_le_double _ _ b.pos)⟩)

/-- Makes place if there is not enough. -/
def reserve (need : ℕ) : Out α Unit := fun b ↦
  if b.alloc - b.written.length < need then grow need b else .ok ((), b)

/-- Writes at the cursor and moves it on. -/
def push (c : α) : Out α Unit := fun b ↦
  if h : b.written.length < b.alloc then
    .ok ((), ⟨b.written ++ [c], b.alloc, by rwa [List.length_append], b.pos⟩)
  else .error .overflow

def pushAll : List α → Out α Unit
  | [] => pure ()
  | c :: s => do
    push c
    pushAll s

def fail (fault : Fault) : Out α γ := fun _ ↦ .error fault

/-- The size that an allocation starts with, and the room up to which it may be unused. -/
structure Growth where
  init : ℕ
  slack : ℕ

structure Ready (g : Growth) (n : ℕ) (b : Buffer α) : Prop where
  room : b.written.length + n ≤ b.alloc
  tight : b.alloc ≤ max g.init (2 * (b.written.length + max n g.slack))

def Writes (g : Growth) (m n : ℕ) (p : Out α γ) (s : List α) (x : γ) : Prop :=
  ∀ b, Ready g m b → ∃ b', p b = .ok (x, b') ∧ b'.written = b.written ++ s ∧ Ready g n b'

variable {g : Growth} {k m n : ℕ}

theorem ready_empty (g : Growth) (pos : 0 < g.init) : Ready g 0 (Buffer.empty α g.init pos) :=
  ⟨Nat.zero_le _, Nat.le_max_left _ _⟩

theorem Ready.mono {b : Buffer α} (h : Ready g n b) (hmn : m ≤ n) (hn : n ≤ g.slack) :
    Ready g m b where
  room := Nat.le_trans (Nat.add_le_add_left hmn _) h.room
  tight := by
    have htight := h.tight
    omega

namespace Writes

variable {p : Out α γ} {f : γ → Out α δ} {s t : List α} {x : γ} {y : δ}

theorem pure (x : γ) : Writes g n n (pure x : Out α γ) [] x := by
  intro b hb
  exact ⟨b, rfl, (List.append_nil _).symm, hb⟩

theorem bind (hp : Writes g m k p s x) (hf : Writes g k n (f x) t y) :
    Writes g m n (p >>= f) (s ++ t) y := by
  intro b hb
  obtain ⟨b', hok, hs, hb'⟩ := hp b hb
  obtain ⟨b'', hok', ht, hb''⟩ := hf b' hb'
  refine ⟨b'', ?_, ?_, hb''⟩
  · change (p b >>= fun r ↦ f r.1 r.2) = _
    rw [hok]
    exact hok'
  · rw [ht, hs, List.append_assoc]

/-- Less room is left, as long as it is within the slack. -/
theorem weaken (hp : Writes g m n p s x) (hkn : k ≤ n) (hn : n ≤ g.slack) :
    Writes g m k p s x := by
  intro b hb
  obtain ⟨b', hok, hs, hb'⟩ := hp b hb
  exact ⟨b', hok, hs, hb'.mono hkn hn⟩

/-- More room is there, as long as it is within the slack. -/
theorem widen (hp : Writes g m n p s x) (hmk : m ≤ k) (hk : k ≤ g.slack) :
    Writes g k n p s x := by
  intro b hb
  exact hp b (hb.mono hmk hk)

theorem congr (hp : Writes g m n p s x) (hs : s = t) : Writes g m n p t x := hs ▸ hp

theorem push (c : α) : Writes g (n + 1) n (push c) [c] () := by
  intro b hb
  have hroom := hb.room
  have htight := hb.tight
  have hlt : b.written.length < b.alloc := by omega
  have hlen : (b.written ++ [c]).length = b.written.length + 1 := List.length_append
  refine ⟨⟨b.written ++ [c], b.alloc, by rwa [List.length_append], b.pos⟩, dif_pos hlt, rfl, ?_, ?_⟩
  · change (b.written ++ [c]).length + n ≤ b.alloc
    omega
  · change b.alloc ≤ max g.init (2 * ((b.written ++ [c]).length + max n g.slack))
    omega

theorem pushAll (s : List α) : Writes g (n + s.length) n (pushAll s) s () := by
  induction s with
  | nil => exact .pure ()
  | cons c s ih => exact (push c).bind ih

theorem reserve (hm : m ≤ g.slack) : Writes (α := α) g m n (reserve n) [] () := by
  intro b hb
  have hfits := b.fits
  have htight := hb.tight
  unfold Growable.reserve
  by_cases hroom : b.alloc - b.written.length < n
  · rw [if_pos hroom]
    refine ⟨_, rfl, (List.append_nil _).symm, le_double _ _ b.pos, ?_⟩
    have hdouble := double_le b.pos (by omega : b.alloc < b.written.length + n)
    change double (b.written.length + n) b.alloc b.pos ≤
      max g.init (2 * (b.written.length + max n g.slack))
    omega
  · rw [if_neg hroom]
    refine ⟨b, rfl, (List.append_nil _).symm, ?_, ?_⟩ <;> omega

end Writes

end Stored.Growable
