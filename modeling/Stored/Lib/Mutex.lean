import Mathlib.Data.Option.Basic

/-!
# Default mutexes

A mutex that is not recursive: its owner waits for itself when it locks again.
-/

namespace Stored

/-- A mutex with the thread that holds it. -/
structure Mutex (τ : Type*) where
  owner : Option τ
  deriving DecidableEq

namespace Mutex

variable {τ : Type*}

/-- The mutex that `pthread_mutex_init` makes. -/
def free : Mutex τ := ⟨none⟩

/-- `pthread_mutex_lock`; no value while some thread holds the mutex. -/
def lock (m : Mutex τ) (t : τ) : Option (Mutex τ) :=
  match m.owner with
  | none => some ⟨some t⟩
  | some _ => none

/-- `pthread_mutex_unlock` -/
def unlock (_ : Mutex τ) : Mutex τ := ⟨none⟩

@[simp]
theorem owner_free : (free : Mutex τ).owner = none := rfl

@[simp]
theorem owner_unlock (m : Mutex τ) : m.unlock.owner = none := rfl

theorem lock_eq_some_iff {m m' : Mutex τ} {t : τ} :
    m.lock t = some m' ↔ m.owner = none ∧ m' = ⟨some t⟩ := by
  unfold lock
  cases m.owner <;> simp [eq_comm]

variable {κ : Type*} {tid : κ → τ} {inside inside' : κ → Prop} {m m' : Mutex τ} {t : τ} {c : κ}

/-- The places `c` of the threads `tid c` are guarded: what is inside its section holds the mutex,
and nothing else is inside. A thread may have several places, such as that of a signal handler. -/
structure Sections (m : Mutex τ) (tid : κ → τ) (inside : κ → Prop) : Prop where
  held : ∀ c, inside c → m.owner = some (tid c)
  unique : ∀ c c', inside c → inside c' → c = c'

/-- A step of thread `t` that locks, unlocks or leaves the mutex, by what it was and is inside. -/
inductive LockStep (m m' : Mutex τ) (t : τ) (before after : Prop) : Prop
  | lock (hlock : m.lock t = some m')
  | unlock (hbefore : before) (hafter : ¬after) (hunlock : m' = m.unlock)
  | keep (heq : m' = m) (hinside : after → before)

theorem LockStep.congr {before after before' after' : Prop} (h : LockStep m m' t before after)
    (hbefore : before' ↔ before) (hafter : after' ↔ after) : LockStep m m' t before' after' := by
  cases h with
  | lock hlock => exact .lock hlock
  | unlock hb ha hunlock => exact .unlock (hbefore.mpr hb) (fun h ↦ ha (hafter.mp h)) hunlock
  | keep heq hinside => exact .keep heq fun h ↦ hbefore.mpr (hinside (hafter.mp h))

theorem Sections.not_inside (h : m.Sections tid inside) (hfree : m.owner = none) (c : κ) :
    ¬inside c := fun hin ↦ nomatch hfree.symm.trans (h.held c hin)

theorem Sections.mono (h : m.Sections tid inside) (hle : ∀ c, inside' c → inside c) :
    m.Sections tid inside' where
  held c hin := h.held c (hle c hin)
  unique c c' hin hin' := h.unique c c' (hle c hin) (hle c' hin')

/-- Sections stay guarded through a step at one place, the other places left alone. -/
theorem Sections.step (h : m.Sections tid inside)
    (hstep : LockStep m m' (tid c) (inside c) (inside' c))
    (hothers : ∀ c', c' ≠ c → inside' c' → inside c') : m'.Sections tid inside' := by
  cases hstep with
  | lock hlock =>
    obtain ⟨hfree, rfl⟩ := lock_eq_some_iff.mp hlock
    have honly (c' : κ) (hin : inside' c') : c' = c := by
      by_contra hne
      exact h.not_inside hfree c' (hothers c' hne hin)
    exact ⟨fun c' hin ↦ by rw [honly c' hin], fun c₁ c₂ h₁ h₂ ↦ (honly c₁ h₁).trans (honly c₂ h₂).symm⟩
  | unlock hbefore hafter hunlock =>
    have hnone (c' : κ) : ¬inside' c' := by
      intro hin
      by_cases heq : c' = c
      · exact hafter (heq ▸ hin)
      · exact heq (h.unique c' c (hothers c' heq hin) hbefore)
    exact ⟨fun c' hin ↦ absurd hin (hnone c'), fun c' _ hin ↦ absurd hin (hnone c')⟩
  | keep heq hinside =>
    subst heq
    refine h.mono fun c' hin ↦ ?_
    by_cases heq : c' = c
    · exact heq ▸ hinside (heq ▸ hin)
    · exact hothers c' heq hin

/-- A mutex that is held is held for a place that is inside its section. -/
def Guarded (m : Mutex τ) (tid : κ → τ) (inside : κ → Prop) : Prop :=
  ∀ t, m.owner = some t → ∃ c, tid c = t ∧ inside c

/-- A step of thread `t` that enters its section with the lock, and leaves it without. -/
inductive OwnerStep (m m' : Mutex τ) (t : τ) (before after : Prop) : Prop
  | lock (hafter : after) (hlock : m' = ⟨some t⟩)
  | unlock (hunlock : m' = m.unlock)
  | keep (heq : m' = m) (hinside : before → after)

theorem OwnerStep.imp {before after before' after' : Prop} (h : OwnerStep m m' t before after)
    (hbefore : before' → before) (hafter : after → after') : OwnerStep m m' t before' after' := by
  cases h with
  | lock ha hlock => exact .lock (hafter ha) hlock
  | unlock hunlock => exact .unlock hunlock
  | keep heq hinside => exact .keep heq fun h ↦ hafter (hinside (hbefore h))

theorem Guarded.mono (h : m.Guarded tid inside) (hle : ∀ c, inside c → inside' c) :
    m.Guarded tid inside' := by
  intro t howner
  obtain ⟨c, hc, hin⟩ := h t howner
  exact ⟨c, hc, hle c hin⟩

/-- A mutex stays guarded through a step at one place, the other places left inside. -/
theorem Guarded.step (h : m.Guarded tid inside)
    (hstep : OwnerStep m m' (tid c) (inside c) (inside' c))
    (hothers : ∀ c', c' ≠ c → inside c' → inside' c') : m'.Guarded tid inside' := by
  cases hstep with
  | lock hafter hlock =>
    subst hlock
    rintro t ⟨⟩
    exact ⟨c, rfl, hafter⟩
  | unlock hunlock =>
    subst hunlock
    exact fun t howner ↦ nomatch howner
  | keep heq hinside =>
    subst heq
    refine h.mono fun c' hin ↦ ?_
    by_cases heq : c' = c
    · exact heq ▸ hinside (heq ▸ hin)
    · exact hothers c' heq hin

end Mutex

end Stored
