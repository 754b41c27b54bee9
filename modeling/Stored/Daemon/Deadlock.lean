import Stored.Daemon.Main

/-!
# The reload hook on top of the main thread

The hook runs on whatever the main thread was doing. It never waits for itself if the main thread
was interrupted while it held neither the lock of the configuration nor, with a server thread
alive, the lock of the buffer.
-/

namespace Stored.Daemon

open Run

variable {P : Platform}

/-- The mutexes that the hook and the server threads lock. -/
inductive Lock where
  | config
  | buffer
  | mxq
  deriving DecidableEq

def World.owner (w : World) : Lock → Option Tid
  | .config => w.config.mutex.owner
  | .buffer => w.buffer.mutex.owner
  | .mxq => w.srv.mxq.owner

/-- The mutex that the hook is about to lock. -/
def HookPc.waits : HookPc → Option Lock
  | .lockConfig | .start .lockConfig | .start .lockAddress => some .config
  | .start .lockMxq => some .mxq
  | _ => none

/-- The mutex that a server thread is about to lock. -/
def ServePc.waits : ServePc → Option Lock
  | .lockConfig => some .config
  | .lockBuffer => some .buffer
  | _ => none

/-- The hook on the main thread waits for a mutex that the main thread holds, or for the end of a
server thread that does. -/
def Deadlocked (d : State) : Prop :=
  ∃ p, d.mainHook = some p ∧
    ((∃ l, p.waits = some l ∧ d.world.owner l = some .main) ∨
      ∃ n l, p = .stop (.joining n) ∧ d.world.Alive n ∧ (d.servers n).pc.waits = some l ∧
        d.world.owner l = some .main)

/-- No server thread is alive. -/
def World.NoServer (w : World) : Prop := ∀ n < w.threads.created, w.threads.exited n = true

instance (w : World) : Decidable w.NoServer := inferInstanceAs (Decidable (∀ n < _, _))

def MainPc.inLoop : MainPc → Bool
  | .loop _ => true
  | _ => false

/-- SIGHUPs are taken by the main thread while it runs the loop. -/
def HupsInLoop (d : State) : Action → Prop
  | .hup t => t = .main ∧ d.main.inLoop = true
  | _ => True

/-- They are taken while it holds neither the lock of the configuration nor, with a server thread
alive, the lock of the buffer. -/
def HupsUnlocked (d : State) : Action → Prop
  | .hup t => HupsInLoop d (.hup t) ∧ d.world.config.mutex.owner ≠ some .main ∧
    (d.world.buffer.mutex.owner = some .main → d.world.NoServer)
  | _ => True

instance (d : State) : (a : Action) → Decidable (HupsInLoop d a)
  | .hup _ => inferInstanceAs (Decidable (_ ∧ _))
  | .main _ _ | .mainHook _ | .server _ _ | .serverHook _ _ | .int _ =>
    inferInstanceAs (Decidable True)

instance (d : State) : (a : Action) → Decidable (HupsUnlocked d a)
  | .hup _ => inferInstanceAs (Decidable (_ ∧ _ ∧ _))
  | .main _ _ | .mainHook _ | .server _ _ | .serverHook _ _ | .int _ =>
    inferInstanceAs (Decidable True)

/-- The hook is not past `ST_stop_srv`. -/
def HookPc.stopping : HookPc → Bool
  | .start _ => false
  | _ => true

/-- The hook has made `mxq` anew and has not locked it. -/
def HookPc.freshMxq : HookPc → Bool
  | .start p => match p with
    | .lockAddress | .readAddress | .unlockAddress | .testAddress | .lockMxq => true
    | _ => false
  | _ => false

/-- What the hook on the main thread may count on. -/
structure HookFree (w : World) (p : HookPc) : Prop where
  config : w.config.mutex.owner = some .main → p.holdsConfig = true
  buffer : p.stopping = true → w.buffer.mutex.owner = some .main → w.NoServer
  mxq : p.freshMxq = true → w.srv.mxq.owner ≠ some .main

theorem stopSrv_hookFree {w w' : World} {p : StopPc} {q : Option StopPc}
    (h : stopSrv .main w p = some (w', q)) (hw : HookFree w (.stop p)) :
    HookFree w' (match q with
      | some q => .stop q
      | none => .start .checkBuffer) := by
  obtain ⟨_, _, _, rfl⟩ := stopSrv_frame h
  cases q with
  | some q => exact ⟨hw.config, hw.buffer, nofun⟩
  | none => exact ⟨fun ho ↦ absurd (hw.config ho) nofun, nofun, nofun⟩

theorem startSrv_hookFree {b : Bool} {e : Env} {w w' : World} {p q : StartPc}
    (h : startSrv P .main b e w p = some (w', some q)) (hw : HookFree w (.start p)) :
    HookFree w' (.start q) := by
  have hout (ho : HookPc.holdsConfig (.start p) = false)
      (howner : w.config.mutex.owner = some .main) : False :=
    absurd (hw.config howner) (by simp [ho])
  cases startSrv_cases h with
  | lockConfig | readEnabled => exact ⟨fun _ ↦ rfl, nofun, nofun⟩
  | lockAddress | readAddress => exact ⟨fun _ ↦ rfl, nofun, hw.mxq⟩
  | unlockConfig => exact ⟨nofun, nofun, nofun⟩
  | unlockAddress => exact ⟨nofun, nofun, hw.mxq⟩
  | initMxq => exact ⟨fun ho ↦ (hout rfl ho).elim, nofun, fun _ ↦ nofun⟩
  | testAddress => exact ⟨fun ho ↦ (hout rfl ho).elim, nofun, hw.mxq⟩
  | _ => exact ⟨fun ho ↦ (hout rfl ho).elim, nofun, nofun⟩

theorem reload_hookFree {e : Env} {w w' : World} {p q : HookPc}
    (h : reload P .main e w p = some (w', some q)) (hw : HookFree w p) : HookFree w' q := by
  cases reload_cases h with
  | lockConfig => exact ⟨fun _ ↦ rfl, hw.buffer, nofun⟩
  | load _ _ _ hload | loaded _ _ hload =>
    obtain ⟨_, _, _, rfl, -⟩ := loadFromFile_frame hload
    exact ⟨fun _ ↦ rfl, hw.buffer, nofun⟩
  | unlockConfig => exact ⟨nofun, hw.buffer, nofun⟩
  | stop _ _ _ hstop | stopped _ _ hstop => exact stopSrv_hookFree hstop hw
  | start _ _ _ hstart => exact startSrv_hookFree hstart hw

/-- The hook on the main thread is free, and it is the only one. -/
structure ReloadsFree (d : State) : Prop where
  main : ∀ p, d.mainHook = some p → HookFree d.world p
  server : ∀ n, d.serverHook n = none

theorem serve_hookFree {n : ℕ} {e : Env} {w w' : World} {s : Server} {s' : Option Server}
    (h : serve n e w s = some (w', s')) {p : HookPc} (hw : HookFree w p) : HookFree w' p := by
  obtain ⟨hconfig, hbuffer, hmxq⟩ := serve_owner h (t := .main) nofun
  obtain ⟨_, _, _, _, _, _, _, _, _, _, rfl⟩ := serve_frame h
  exact ⟨fun ho ↦ hw.config (hconfig ho), fun hp ho ↦ hw.buffer hp (hbuffer ho),
    fun hp ho ↦ hw.mxq hp (hmxq ho)⟩

theorem HookFree.exitThread {w : World} {p : HookPc} (hw : HookFree w p) (n : ℕ) :
    HookFree (w.exitThread n) p where
  config := hw.config
  buffer hp ho m hm := by
    by_cases hmn : m = n
    · exact hmn ▸ Function.update_self _ _ _
    · exact (Function.update_of_ne hmn _ _).trans (hw.buffer hp ho m hm)
  mxq := hw.mxq

theorem reloadsFree_step {d d' : State} {a : Action} (hd : ReloadsFree d) (hok : HupsUnlocked d a)
    (h : step P d a = some d') : ReloadsFree d' := by
  cases a with
  | main poll e =>
    obtain ⟨-, hhook, w, p, -, rfl⟩ := step_main h
    exact ⟨fun q hq ↦ (nomatch hhook.symm.trans hq), hd.server⟩
  | mainHook e =>
    obtain ⟨-, p, w, q, hp, hreload, rfl⟩ := step_mainHook h
    refine ⟨fun q' hq ↦ ?_, hd.server⟩
    obtain rfl : q = some q' := hq
    exact reload_hookFree hreload (hd.main p hp)
  | server n e =>
    obtain ⟨-, -, -, w, s, hserve, rfl⟩ := step_server h
    cases s with
    | some s => exact ⟨fun p hp ↦ serve_hookFree hserve (hd.main p hp), hd.server⟩
    | none => exact ⟨fun p hp ↦ (serve_hookFree hserve (hd.main p hp)).exitThread n, hd.server⟩
  | serverHook n e =>
    obtain ⟨-, p, w, q, hp, -, -⟩ := step_serverHook h
    exact nomatch (hd.server n).symm.trans hp
  | hup t =>
    obtain ⟨-, -, rfl⟩ := step_hup h
    obtain ⟨⟨rfl, -⟩, hconfig, hbuffer⟩ := hok
    refine ⟨fun p hp ↦ ?_, hd.server⟩
    obtain rfl : HookPc.lockConfig = p := Option.some.inj hp
    exact ⟨fun ho ↦ absurd ho hconfig, fun _ ↦ hbuffer, nofun⟩
  | int t =>
    obtain ⟨-, -, rfl⟩ := step_int h
    exact ⟨fun p hp ↦ ⟨(hd.main p hp).config, (hd.main p hp).buffer, (hd.main p hp).mxq⟩,
      hd.server⟩

/-- A free hook does not wait for its own thread. -/
theorem not_deadlocked_of_reloadsFree {d : State} (hd : ReloadsFree d) : ¬Deadlocked d := by
  rintro ⟨p, hp, ⟨l, hwaits, howner⟩ | ⟨n, l, rfl, halive, hwaits, howner⟩⟩
  · have hfree := hd.main p hp
    cases p with
    | lockConfig =>
      obtain rfl := Option.some.inj hwaits
      exact absurd (hfree.config howner) (by decide)
    | start p =>
      cases p with
      | lockConfig | lockAddress =>
        obtain rfl := Option.some.inj hwaits
        exact absurd (hfree.config howner) (by decide)
      | lockMxq =>
        obtain rfl := Option.some.inj hwaits
        exact hfree.mxq rfl howner
      | _ => exact nomatch hwaits
    | _ => exact nomatch hwaits
  · have hfree := hd.main _ hp
    cases l with
    | config => exact absurd (hfree.config howner) nofun
    | buffer =>
      have hexited := hfree.buffer rfl howner n halive.1
      exact absurd (hexited.symm.trans halive.2) (by decide)
    | mxq => cases hpc : (d.servers n).pc <;> rw [hpc] at hwaits <;> exact nomatch hwaits

/-- In a run in which each SIGHUP finds the main thread without the lock of the configuration and,
with a server thread alive, without the lock of the buffer, the reload hook never waits for its
own thread. -/
theorem not_deadlocked_of_hupsUnlocked {heap : Addr → Option Text} {sockets : ℤ → Option Socket}
    {arrays : ℕ → Http.Buffers} {d : State}
    (h : Reach (step P) HupsUnlocked (.initial heap sockets arrays) d) : ¬Deadlocked d :=
  not_deadlocked_of_reloadsFree (h.invariant ReloadsFree ⟨nofun, fun _ ↦ rfl⟩
    fun _ _ _ ↦ reloadsFree_step)

/-- A SIGHUP between two sections of the loop, whose hook waits for the server thread. -/
theorem not_deadlocked_between_sections : ∃ d : State,
    Reach (step samplePlatform) HupsUnlocked sampleState d ∧
      d.mainHook = some (.stop (.joining 0)) ∧ ¬Deadlocked d := by
  have hrun : ∃ d, Reach (step samplePlatform) HupsUnlocked sampleState d ∧
      d.mainHook = some (.stop (.joining 0)) :=
    exists_reach_of_runAll (mainSteps 33 ++ .hup .main :: hookSteps 16) (by decide +kernel)
  obtain ⟨d, hreach, hhook⟩ := hrun
  exact ⟨d, hreach, hhook, not_deadlocked_of_hupsUnlocked hreach⟩

/-- A SIGHUP while the loop reads its thresholds: the hook waits for the lock that the loop
holds. -/
theorem deadlocked_in_section :
    ¬∀ d : State, Reach (step samplePlatform) HupsInLoop sampleState d → ¬Deadlocked d := by
  intro hclaim
  have hrun : ∃ d, Reach (step samplePlatform) HupsInLoop sampleState d ∧
      (d.mainHook = some .lockConfig ∧ d.world.owner .config = some .main) :=
    exists_reach_of_runAll (mainSteps 34 ++ [.hup .main]) (by decide +kernel)
  obtain ⟨d, hreach, hhook, howner⟩ := hrun
  exact hclaim d hreach ⟨_, hhook, .inl ⟨_, rfl, howner⟩⟩

end Stored.Daemon
