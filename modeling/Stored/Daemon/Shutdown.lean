import Stored.Daemon.StopFlag

/-!
# The way out

A stop request clears the flag of the loop. From then on the main thread goes no place twice: it
ends the pass it is in, which reads at most the whole mount table once more, and goes on to `exit`,
unless it aborts. The number of its steps is bounded by the length of the table, and by a constant
for each SIGHUP that it takes on the way.
-/

namespace Stored.Daemon

open Run

variable {P : Platform}

/-- The steps of a start from a place on, at most. -/
def StartPc.rank : StartPc → ℕ
  | .abort => 1
  | .setStopped => 1
  | .create => 2
  | .lockMxq => 3
  | .testAddress => 4
  | .unlockAddress => 5
  | .readAddress => 6
  | .lockAddress => 7
  | .initMxq => 8
  | .test _ => 9
  | .unlockConfig _ => 10
  | .readEnabled => 11
  | .lockConfig => 12
  | .checkBuffer => 13

/-- The steps of a stop from a place on. -/
def StopPc.rank : StopPc → ℕ
  | .setStopped => 1
  | .joining _ => 2
  | .join => 3
  | .unlockMxq => 4
  | .shutdownParent => 5
  | .shutdownChild => 6
  | .test => 7

/-- The steps of the hook from a place of its load on, with the restart that follows. -/
def LoadPc.rank : LoadPc → ℕ
  | .abort => 1
  | .lookup .bindAddr => 22
  | .lookup .port => 23
  | .lookup .enabled => 24
  | .lookup .freePercentCrit => 25
  | .lookup .freePercentWarn => 26
  | .lookup .freePercentNotice => 27
  | .lookup .checkIntervalMs => 28
  | .read => 29
  | .destroy => 30

/-- The steps of the hook from a place on. -/
def HookPc.rank : HookPc → ℕ
  | .start p => p.rank
  | .stop p => p.rank + 13
  | .unlockConfig => 21
  | .load p => p.rank
  | .lockConfig => 31

/-- The steps of a scan from a place on, with `rest` entries of the table to read. -/
def MtabPc.rank (size rest : ℕ) : MtabPc → ℕ
  | .unlockEntries => 1
  | .stringify => 2
  | .free => 3
  | .getmntent _ => rest + 4
  | .mkarray _ => rest + 5
  | .delete _ => rest + 6
  | .lockEntries _ => rest + 7
  | .unlockConfig _ => rest + 8
  | .readNotice => rest + 9
  | .lockConfig => rest + 10
  | .rewind => size + 11

/-- The steps of the loop from a place on, when the flag is cleared. -/
def LoopPc.rank (size rest : ℕ) : LoopPc → ℕ
  | .close => 1
  | .test => 2
  | .recv => 3
  | .unlockBuffer => 4
  | .assignData => 5
  | .check p => p.rank size rest + 5
  | .trylock => size + 17
  | .unlockEntries => size + 18
  | .foreach _ => size + 19
  | .lockEntries _ => size + 20
  | .pollError => size + 21
  | .poll _ => size + 22
  | .unlockConfig _ => size + 23
  | .readConfig => size + 24
  | .lockConfig => size + 25

/-- The steps of the main thread from a place on, when the flag has been set and cleared. -/
def MainPc.rank (size rest : ℕ) : MainPc → ℕ
  | .exit => 1
  | .terminated => 2
  | .destroyConfig => 3
  | .destroyCfg => 4
  | .freeEntries => 5
  | .endmntent => 6
  | .freeBuffer => 7
  | .destroyBuffer => 8
  | .destroyMxq => 9
  | .destroySrv p => p.rank + 9
  | .stop p => p.rank + 16
  | .loop p => p.rank size rest + 23
  | .bindNetlink => 26
  | _ => 0

/-- The steps that the main thread and the hook on it still take in a process that has not ended,
when no table is longer than `size`. -/
def State.rank (size : ℕ) (d : State) : ℕ :=
  if d.world.ended then 0
  else d.main.rank size (size - d.world.mtabf) + d.mainHook.elim 0 HookPc.rank

/-- A process that ends takes no more steps. -/
theorem ite_ended_le {ended : Bool} {m n : ℕ} (h : m + 1 ≤ n) :
    (if ended then 0 else m) + 1 ≤ n := by
  split_ifs <;> omega

theorem startSrv_rank {t : Tid} {b : Bool} {e : Env} {w w' : World} {p : StartPc}
    {q : Option StartPc} (h : startSrv P t b e w p = some (w', q)) :
    (if w'.ended then 0 else q.elim 0 StartPc.rank) + 1 ≤ p.rank := by
  cases startSrv_cases h with
  | noBuffer | abort => simp [World.abort, StartPc.rank]
  | disabled | badAddress => exact ite_ended_le (by simp [StartPc.rank])
  | _ => exact ite_ended_le le_rfl

theorem stopSrv_rank {t : Tid} {w w' : World} {p : StopPc} {q : Option StopPc}
    (h : stopSrv t w p = some (w', q)) : q.elim 0 StopPc.rank + 1 ≤ p.rank := by
  cases stopSrv_cases h with
  | stopped | noThread | self => simp [StopPc.rank]
  | _ => exact le_rfl

theorem loadFromFile_rank {e : Env} {w w' : World} {p : LoadPc} {q : Option LoadPc}
    (h : loadFromFile e w p = some (w', q)) :
    (if w'.ended then 0 else q.elim HookPc.unlockConfig.rank LoadPc.rank) + 1 ≤ p.rank := by
  cases loadFromFile_cases h with
  | readFails => exact ite_ended_le (by simp [LoadPc.rank])
  | lookupFails s => cases s <;> exact ite_ended_le (by simp [LoadPc.rank])
  | abort => simp [World.abort, LoadPc.rank]
  | lookup s => cases s <;> exact ite_ended_le le_rfl
  | _ => exact ite_ended_le le_rfl

theorem reload_rank {t : Tid} {e : Env} {w w' : World} {p : HookPc} {q : Option HookPc}
    (h : reload P t e w p = some (w', q)) :
    (if w'.ended then 0 else q.elim 0 HookPc.rank) + 1 ≤ p.rank := by
  cases reload_cases h with
  | load _ _ _ hload | loaded _ _ hload => exact loadFromFile_rank hload
  | stop _ _ _ hstop | stopped _ _ hstop =>
    have hrank := stopSrv_rank hstop
    simp only [Option.elim, HookPc.rank, StartPc.rank] at hrank ⊢
    split_ifs <;> omega
  | start _ _ _ hstart | started _ _ hstart => exact startSrv_rank hstart
  | _ => exact ite_ended_le le_rfl

theorem checkMtab_rank {t : Tid} {e : Env} {w w' : World} {p : MtabPc} {q : Option MtabPc}
    {size : ℕ} (h : checkMtab P t e w p = some (w', q)) (hsize : e.table.length ≤ size) :
    q.elim 0 (MtabPc.rank size (size - w'.mtabf)) + 1 ≤ p.rank size (size - w.mtabf) := by
  cases checkMtab_cases h with
  | rewind => exact le_rfl
  | endOfTable => exact Nat.le_add_left 4 _
  | entry noticeLevel mt answer log hentry =>
    -- one entry less to read
    have hlt : w.mtabf < e.table.length := (List.getElem?_eq_some_iff.mp hentry).1
    simp only [Option.elim, MtabPc.rank]
    omega
  | _ => exact le_rfl

theorem checkLoop_rank {t : Tid} {poll : Poll} {e : Env} {w w' : World} {p : LoopPc}
    {q : Option LoopPc} {size : ℕ} (h : checkLoop P t poll e w p = some (w', q))
    (hsize : e.table.length ≤ size) (hactive : w.active = false) :
    (if w'.ended then 0 else q.elim 0 (LoopPc.rank size (size - w'.mtabf))) + 1 ≤
      p.rank size (size - w.mtabf) := by
  cases checkLoop_cases h with
  | test =>
    rw [hactive]
    exact ite_ended_le le_rfl
  | pollInterrupted | busy => exact ite_ended_le (by simp [LoopPc.rank])
  | pollError => simp [World.abort, LoopPc.rank]
  | check p w' q hcheck =>
    have hrank := checkMtab_rank hcheck hsize
    refine ite_ended_le ?_
    cases q <;> simp only [Option.elim, LoopPc.rank] at hrank ⊢ <;> omega
  | trylock =>
    refine ite_ended_le ?_
    simp only [Option.elim, LoopPc.rank, MtabPc.rank]
    omega
  | pollReady => exact ite_ended_le (by simp [LoopPc.rank])
  | _ => exact ite_ended_le le_rfl

/-- A step of a main thread whose flag has been set and cleared. -/
theorem main_rank {poll : Poll} {e : Env} {w w' : World} {p p' : MainPc} {size : ℕ}
    (h : main P poll e w p = some (w', p')) (hsize : e.table.length ≤ size)
    (hp : p.activated = true) (hactive : w.active = false) :
    (if w'.ended then 0 else p'.rank size (size - w'.mtabf)) + 1 ≤
      p.rank size (size - w.mtabf) := by
  cases main_cases h with
  | loop _ _ _ hloop | left _ _ hloop =>
    have hrank := checkLoop_rank hloop hsize hactive
    simp only [Option.elim, MainPc.rank, StopPc.rank] at hrank ⊢
    split_ifs at hrank ⊢ <;> omega
  | stop _ _ _ hstop | stopped _ _ hstop | destroySrv _ _ _ hstop | stoppedAgain _ _ hstop =>
    have hrank := stopSrv_rank hstop
    refine ite_ended_le ?_
    simp only [Option.elim, MainPc.rank, StopPc.rank] at hrank ⊢
    omega
  | bindFails | endmntentFails | exit => simp [World.abort, MainPc.rank]
  | bindNetlink | destroyMxq | destroyBuffer | freeBuffer | endmntent | freeEntries | destroyCfg
  | destroyConfig | terminated => exact ite_ended_le le_rfl
  | _ => exact nomatch hp

/-- A step of the main thread, by its program or by the hook on it. -/
def Action.ofMain : Action → Bool
  | .main _ _ | .mainHook _ => true
  | _ => false

/-- A SIGHUP that the main thread takes. -/
def Action.mainHup : Action → Bool
  | .hup .main => true
  | _ => false

/-- No mount table that is read is longer than `size`. -/
def TablesWithin (size : ℕ) (_ : State) : Action → Prop
  | .main _ e => e.table.length ≤ size
  | _ => True

instance (size : ℕ) (d : State) : (a : Action) → Decidable (TablesWithin size d a)
  | .main _ e => inferInstanceAs (Decidable (e.table.length ≤ size))
  | .mainHook _ | .server _ _ | .serverHook _ _ | .hup _ | .int _ =>
    inferInstanceAs (Decidable True)

/-- The flag has been set and cleared. -/
def State.Stopped (d : State) : Prop := d.main.activated = true ∧ d.world.active = false

theorem stopped_step {d d' : State} {a : Action} (hd : d.Stopped) (h : step P d a = some d') :
    d'.Stopped := by
  obtain ⟨hactivated, hactive⟩ := step_activated h hd.1
  exact ⟨hactivated, by simpa [hd.2] using hactive⟩

/-- Steps of other threads leave the rank, or end the process. -/
theorem rank_le_of_frame {size : ℕ} {d d' : State} (hmain : d'.main = d.main)
    (hhook : d'.mainHook = d.mainHook) (hmtabf : d'.world.mtabf = d.world.mtabf)
    (hended : d.world.ended = false) : d'.rank size ≤ d.rank size := by
  have hrank : d.rank size = d.main.rank size (size - d.world.mtabf) +
      d.mainHook.elim 0 HookPc.rank := if_neg (by simp [hended])
  rw [hrank, State.rank, hmain, hhook, hmtabf]
  split_ifs
  · exact Nat.zero_le _
  · exact le_rfl

theorem step_rank {size : ℕ} {d d' : State} {a : Action} (hd : d.Stopped)
    (hok : TablesWithin size d a) (h : step P d a = some d') :
    d'.rank size + a.ofMain.toNat ≤ d.rank size + a.mainHup.toNat * HookPc.lockConfig.rank := by
  cases a with
  | main poll e =>
    obtain ⟨hended, hhook, w, p, hmain, rfl⟩ := step_main h
    have hrank := main_rank hmain hok hd.1 hd.2
    simp only [State.rank, hended, hhook] at hrank ⊢
    simpa [Action.ofMain, Action.mainHup] using hrank
  | mainHook e =>
    obtain ⟨hended, p, w, q, hp, hreload, rfl⟩ := step_mainHook h
    have hrank := reload_rank hreload
    obtain ⟨_, _, _, _, _, _, _, _, rfl, -, -⟩ := reload_frame hreload
    simp only [State.rank, hended, hp, Option.elim_some, Bool.false_eq_true, if_false,
      Action.ofMain, Action.mainHup, Bool.toNat_true, Bool.toNat_false, Nat.zero_mul] at hrank ⊢
    split_ifs at hrank ⊢ <;> omega
  | server n e =>
    obtain ⟨hended, -, -, w, s, hserve, rfl⟩ := step_server h
    obtain ⟨_, _, _, _, _, _, _, _, _, _, rfl⟩ := serve_frame hserve
    cases s <;> exact rank_le_of_frame rfl rfl rfl hended
  | serverHook n e =>
    obtain ⟨hended, p, w, q, -, hreload, rfl⟩ := step_serverHook h
    obtain ⟨_, _, _, _, _, _, _, _, rfl, -, -⟩ := reload_frame hreload
    exact rank_le_of_frame rfl rfl rfl hended
  | hup t =>
    obtain ⟨hended, htakes, rfl⟩ := step_hup h
    cases t with
    | main =>
      have hhook : d.mainHook = none := htakes
      simp only [State.rank, State.deliver, hended, hhook, Action.ofMain, Action.mainHup]
      simp
    | thread n => exact rank_le_of_frame rfl rfl rfl hended
  | int t =>
    obtain ⟨hended, -, rfl⟩ := step_int h
    exact rank_le_of_frame rfl rfl rfl hended

/-- No place of the main thread has a rank above that of the lock at the beginning of a pass. -/
theorem main_rank_le (size mtabf : ℕ) (p : MainPc) : p.rank size (size - mtabf) ≤ size + 48 := by
  have hstop (p : StopPc) : p.rank ≤ 7 := by cases p <;> simp [StopPc.rank]
  cases p with
  | loop p =>
    cases p with
    | check p =>
      cases p <;>
        (simp only [MainPc.rank, LoopPc.rank, MtabPc.rank]
         omega)
    | _ =>
      simp only [MainPc.rank, LoopPc.rank]
      omega
  | stop p | destroySrv p =>
    have hrank := hstop p
    simp only [MainPc.rank]
    omega
  | _ => simp [MainPc.rank]

theorem hook_rank_le (p : HookPc) : p.rank ≤ 31 := by
  cases p with
  | load p =>
    cases p with
    | lookup s => cases s <;> decide
    | _ => decide
  | stop p | start p => cases p <;> simp [HookPc.rank, StopPc.rank, StartPc.rank]
  | _ => decide

theorem rank_le (size : ℕ) (d : State) : d.rank size ≤ size + 79 := by
  have hmain := main_rank_le size d.world.mtabf d.main
  have hhook : d.mainHook.elim 0 HookPc.rank ≤ 31 := by
    cases d.mainHook with
    | none => exact Nat.zero_le _
    | some p => exact hook_rank_le p
  rw [State.rank]
  split_ifs <;> omega

/-- The steps that the main thread takes after a stop hook has returned are bounded by the length
of the table and the SIGHUPs that it takes. -/
theorem shutdown_of_stopsAfterInit {heap : Addr → Option Text} {sockets : ℤ → Option Socket}
    {arrays : ℕ → Http.Buffers} {size : ℕ} {d d' : State} {as : List Action}
    (h : Reach (stepStop P) StopsAfterInit (.initial heap sockets arrays, false) (d, true))
    (hrun : runAll (step P) (TablesWithin size) d as = some d') :
    as.countP Action.ofMain ≤ size + 79 + 31 * as.countP Action.mainHup := by
  have hkept := h.invariant StopKept nofun fun _ _ _ ↦ stopKept_step
  have hstopped : d.Stopped := hkept rfl
  have hcost := sum_cost_le State.Stopped (State.rank size) (fun a ↦ a.ofMain.toNat)
    (fun a ↦ a.mainHup.toNat * HookPc.lockConfig.rank)
    (fun _ _ _ hd _ hstep ↦ stopped_step hd hstep) (fun _ _ _ ↦ step_rank) hstopped hrun
  have hrank := rank_le size d
  rw [sum_map_toNat, List.sum_map_mul_right, sum_map_toNat] at hcost
  have hhook : HookPc.lockConfig.rank = 31 := rfl
  rw [hhook] at hcost
  omega

/-- A SIGINT in the first pass, the steps of the main thread up to the join, those of the server
thread, which has not begun, and the end of the program. -/
theorem shutdown_after_int : ∃ d d' : State, ∃ as : List Action,
    Reach (stepStop samplePlatform) StopsAfterInit (sampleState, false) (d, true) ∧
      runAll (step samplePlatform) (TablesWithin 0) d as = some d' ∧ d'.world.ended = true ∧
      as.countP Action.ofMain = 39 ∧
      as.countP Action.ofMain ≤ 0 + 79 + 31 * as.countP Action.mainHup := by
  have hrun : ∃ s, Reach (stepStop samplePlatform) StopsAfterInit (sampleState, false) s ∧
      (s.2 = true ∧ (runAll (step samplePlatform) (TablesWithin 0) s.1
        (mainSteps 27 ++ serverSteps 0 9 ++ mainSteps 12)).any (·.world.ended) = true) :=
    exists_reach_of_runAll (mainSteps 35 ++ [.int .main]) (by decide +kernel)
  obtain ⟨⟨d, returned⟩, hreach, rfl, hend⟩ := hrun
  obtain ⟨d', hd', hended⟩ := (Option.any_eq_true ..).mp hend
  exact ⟨d, d', _, hreach, hd', hended, by decide, shutdown_of_stopsAfterInit hreach hd'⟩

end Stored.Daemon
