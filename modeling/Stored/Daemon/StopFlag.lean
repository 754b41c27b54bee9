import Stored.Daemon.Main

/-!
# The stop request and the flag of the loop

`active` is set once, by `ST_init_check_loop`, and cleared by the stop hook and on the error path of
the loop. A SIGINT that is taken after the one assignment is never lost; one that is taken before
it is.
-/

namespace Stored.Daemon

open Run

variable {P : Platform}

/-- `ST_init_check_loop` has assigned `active = true`. -/
def MainPc.activated : MainPc → Bool
  | .demonize | .newConfig | .load _ | .assignConfig | .initMtabChecker | .initSrv
  | .assignSrvBuff | .setData | .start _ | .initCheckLoop | .setActive => false
  | _ => true

/-- A main thread past the assignment stays past it and does not set the flag. -/
theorem main_activated {poll : Poll} {e : Env} {w w' : World} {p p' : MainPc}
    (h : main P poll e w p = some (w', p')) (hp : p.activated = true) :
    p'.activated = true ∧ (w'.active = true → w.active = true) := by
  cases main_cases h with
  | loop _ _ _ hloop | left _ _ hloop =>
    obtain ⟨_, _, _, _, _, _, _, _, rfl, hactive⟩ := checkLoop_frame hloop
    exact ⟨rfl, hactive⟩
  | stop _ _ _ hstop | stopped _ _ hstop | destroySrv _ _ _ hstop | stoppedAgain _ _ hstop =>
    obtain ⟨_, _, _, rfl⟩ := stopSrv_frame hstop
    exact ⟨rfl, id⟩
  | bindNetlink | bindFails | destroyMxq | destroyBuffer | freeBuffer | endmntent | endmntentFails
  | freeEntries | destroyCfg | destroyConfig | terminated | exit => exact ⟨rfl, id⟩
  | _ => exact nomatch hp

/-- One step of a daemon that is past the assignment. -/
theorem step_activated {d d' : State} {a : Action} (h : step P d a = some d')
    (hd : d.main.activated = true) :
    d'.main.activated = true ∧ (d'.world.active = true → d.world.active = true) := by
  cases a with
  | main poll e =>
    obtain ⟨-, -, w, p, hmain, rfl⟩ := step_main h
    exact main_activated hmain hd
  | mainHook e =>
    obtain ⟨-, p, w, q, -, hreload, rfl⟩ := step_mainHook h
    obtain ⟨_, _, _, _, _, _, _, _, rfl, -⟩ := reload_frame hreload
    exact ⟨hd, id⟩
  | server n e =>
    obtain ⟨-, -, -, w, s, hserve, rfl⟩ := step_server h
    obtain ⟨_, _, _, _, _, _, _, _, _, _, rfl⟩ := serve_frame hserve
    cases s <;> exact ⟨hd, id⟩
  | serverHook n e =>
    obtain ⟨-, p, w, q, -, hreload, rfl⟩ := step_serverHook h
    obtain ⟨_, _, _, _, _, _, _, _, rfl, -⟩ := reload_frame hreload
    exact ⟨hd, id⟩
  | hup t =>
    obtain ⟨-, -, rfl⟩ := step_hup h
    cases t <;> exact ⟨hd, id⟩
  | int t =>
    obtain ⟨-, -, rfl⟩ := step_int h
    exact ⟨hd, nofun⟩

/-- The daemon with a record of whether some stop hook has returned. -/
def stepStop (P : Platform) (s : State × Bool) (a : Action) : Option (State × Bool) :=
  (step P s.1 a).map (·, s.2 || match a with
    | .int _ => true
    | _ => false)

/-- A SIGINT is taken after the assignment. -/
def StopsAfterInit (s : State × Bool) : Action → Prop
  | .int _ => s.1.main.activated = true
  | _ => True

/-- The flag is false and the loop begins no further pass. -/
def Stopping (P : Platform) (d : State) : Prop :=
  d.world.active = false ∧ ∀ poll e d', d.main = .loop .test →
    step P d (.main poll e) = some d' → d'.main = .loop .close

theorem stopping_of_inactive {d : State} (h : d.world.active = false) : Stopping P d := by
  refine ⟨h, fun poll e d' htest hstep ↦ ?_⟩
  obtain ⟨-, -, w, p, hmain, rfl⟩ := step_main hstep
  rw [htest] at hmain
  simp only [main, checkLoop, h, Option.map_some, Option.some.injEq, Prod.mk.injEq] at hmain
  exact hmain.2.symm

/-- A stop hook that has returned found the assignment made, and the flag is false since. -/
def StopKept (s : State × Bool) : Prop :=
  s.2 = true → s.1.main.activated = true ∧ s.1.world.active = false

theorem stopKept_step {s s' : State × Bool} {a : Action} (hkept : StopKept s)
    (hok : StopsAfterInit s a) (h : stepStop P s a = some s') : StopKept s' := by
  obtain ⟨d, hstep, rfl⟩ := Option.map_eq_some_iff.mp h
  intro hreturned
  cases a with
  | int t =>
    have hafter := (step_activated hstep hok).1
    obtain ⟨-, -, rfl⟩ := step_int hstep
    exact ⟨hafter, rfl⟩
  | _ =>
    obtain ⟨hactivated, hactive⟩ := hkept (by simpa using hreturned)
    obtain ⟨hafter, hset⟩ := step_activated hstep hactivated
    exact ⟨hafter, by simpa [hactive] using hset⟩

/-- In a run in which every SIGINT is taken after the assignment no stop request is lost: from the
return of a stop hook on, the flag is never true again and no pass begins. -/
theorem stopping_of_stopsAfterInit {heap : Addr → Option Text} {sockets : ℤ → Option Socket}
    {arrays : ℕ → Http.Buffers} {d : State}
    (h : Reach (stepStop P) StopsAfterInit (.initial heap sockets arrays, false) (d, true)) :
    Stopping P d := by
  have hkept := h.invariant StopKept nofun fun _ _ _ ↦ stopKept_step
  exact stopping_of_inactive (hkept rfl).2

instance (s : State × Bool) : (a : Action) → Decidable (StopsAfterInit s a)
  | .int _ => inferInstanceAs (Decidable (_ = true))
  | .main _ _ | .mainHook _ | .server _ _ | .serverHook _ _ | .hup _ =>
    inferInstanceAs (Decidable True)

/-- A SIGINT in the first pass of the loop, which goes on to its end and is the last one. -/
theorem stopping_after_init : ∃ d : State,
    Reach (stepStop samplePlatform) StopsAfterInit (sampleState, false) (d, true) ∧
      d.main = .loop .close ∧ Stopping samplePlatform d := by
  have hrun : ∃ s, Reach (stepStop samplePlatform) StopsAfterInit (sampleState, false) s ∧
      (s.2 = true ∧ s.1.main = .loop .close) :=
    exists_reach_of_runAll (mainSteps 35 ++ .int .main :: mainSteps 21) (by decide +kernel)
  obtain ⟨⟨d, returned⟩, hreach, rfl, hclose⟩ := hrun
  exact ⟨d, hreach, hclose, stopping_of_stopsAfterInit hreach⟩

/-- A SIGINT that is taken before the configuration is read is lost: the flag is true later. -/
theorem not_stopping_before_init :
    ¬∀ d : State, Reachable (stepStop samplePlatform) (sampleState, false) (d, true) →
      Stopping samplePlatform d := by
  intro hclaim
  have hrun : ∃ s, Reachable (stepStop samplePlatform) (sampleState, false) s ∧
      (s.2 = true ∧ s.1.world.active = true) :=
    exists_reach_of_runAll (.int .main :: mainSteps 31) (by decide +kernel)
  obtain ⟨⟨d, returned⟩, hreach, rfl, hactive⟩ := hrun
  exact absurd ((hclaim d hreach).1.symm.trans hactive) (by decide)

end Stored.Daemon
