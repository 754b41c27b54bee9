import Stored.Daemon.Main

/-!
# One server thread at a time

`ST_stop_srv` and `ST_start_srv` meet in the static `stopped` alone. There is one server thread at
a time if each SIGHUP is taken by the main thread, neither between its test of `stopped` and the
assignment in `ST_start_srv`, nor between the call of `pthread_join` and the assignment in
`ST_stop_srv`.
-/

namespace Stored.Daemon

open Run

variable {P : Platform}

/-- Thread `n` is in the accept loop. -/
def State.InAcceptLoop (d : State) (n : ℕ) : Prop :=
  d.world.Alive n ∧ (d.servers n).pc.inLoop = true

instance (d : State) (n : ℕ) : Decidable (d.InAcceptLoop n) := inferInstanceAs (Decidable (_ ∧ _))

/-- At most one thread is in the accept loop. -/
def OneInAcceptLoop (d : State) : Prop :=
  ∀ m n, d.InAcceptLoop m → d.InAcceptLoop n → m = n

/-- The start is past its test of `stopped`. -/
def StartPc.committed : StartPc → Bool
  | .checkBuffer | .lockConfig | .readEnabled | .unlockConfig _ | .test _ => false
  | _ => true

/-- The stop waits for its thread or has waited for it. -/
def StopPc.committed : StopPc → Bool
  | .joining _ | .setStopped => true
  | _ => false

def MainPc.committed : MainPc → Bool
  | .start p => p.committed
  | .stop p | .destroySrv p => p.committed
  | _ => false

/-- SIGHUPs are taken by the main thread, outside of the two windows. -/
def HupsUncommitted (d : State) : Action → Prop
  | .hup t => t = .main ∧ d.main.committed = false
  | _ => True

instance (d : State) : (a : Action) → Decidable (HupsUncommitted d a)
  | .hup _ => inferInstanceAs (Decidable (_ ∧ _))
  | .main _ _ | .mainHook _ | .server _ _ | .serverHook _ _ | .int _ =>
    inferInstanceAs (Decidable True)

/-- No server thread is alive while `stopped` is set. -/
def Idle (w : World) : Prop := w.srv.stopped = true → ∀ n, ¬w.Alive n

/-- A thread that is alive is the one that `srv_thread` names. -/
def Named (w : World) : Prop := ∀ n, w.Alive n → w.srv.srvThread = some n

def StartOk (w : World) (p : StartPc) : Prop :=
  match p with
  | .setStopped => True
  | .initMxq | .lockAddress | .readAddress | .unlockAddress | .testAddress | .abort | .lockMxq
  | .create => ∀ n, ¬w.Alive n
  | _ => Idle w

def StopOk (w : World) (p : StopPc) : Prop :=
  match p with
  | .joining m => ∀ n, w.Alive n → n = m
  | .setStopped => ∀ n, ¬w.Alive n
  | _ => Idle w

def HookOk (w : World) : HookPc → Prop
  | .stop p => StopOk w p
  | .start p => StartOk w p
  | _ => Idle w

def MainOk (w : World) : MainPc → Prop
  | .start p => StartOk w p
  | .stop p | .destroySrv p => StopOk w p
  | _ => Idle w

/-- A step that neither makes threads nor writes `stopped` and `srv_thread`. -/
structure Keeps (w w' : World) : Prop where
  alive : ∀ n, w'.Alive n → w.Alive n
  stopped : w'.srv.stopped = w.srv.stopped
  srvThread : w'.srv.srvThread = w.srv.srvThread

theorem Keeps.idle {w w' : World} (h : Keeps w w') (hw : Idle w) : Idle w' :=
  fun hstopped n hn ↦ hw (h.stopped ▸ hstopped) n (h.alive n hn)

theorem Keeps.named {w w' : World} (h : Keeps w w') (hw : Named w) : Named w' :=
  fun n hn ↦ h.srvThread.trans (hw n (h.alive n hn))

theorem Keeps.none {w w' : World} (h : Keeps w w') (hw : ∀ n, ¬w.Alive n) : ∀ n, ¬w'.Alive n :=
  fun n hn ↦ hw n (h.alive n hn)

theorem Keeps.startOk {w w' : World} (h : Keeps w w') {p : StartPc} (hw : StartOk w p) :
    StartOk w' p := by
  cases p <;> first | exact trivial | exact h.none hw | exact h.idle hw

theorem Keeps.stopOk {w w' : World} (h : Keeps w w') {p : StopPc} (hw : StopOk w p) :
    StopOk w' p := by
  cases p <;> first
    | exact h.none hw
    | exact h.idle hw
    | exact fun n hn ↦ hw n (h.alive n hn)

theorem Keeps.hookOk {w w' : World} (h : Keeps w w') {p : HookPc} (hw : HookOk w p) :
    HookOk w' p := by
  cases p <;> first | exact h.startOk hw | exact h.stopOk hw | exact h.idle hw

theorem Keeps.mainOk {w w' : World} (h : Keeps w w') {p : MainPc} (hw : MainOk w p) :
    MainOk w' p := by
  cases p <;> first | exact h.startOk hw | exact h.stopOk hw | exact h.idle hw

/-- Outside of the windows it matters alone that no thread is alive while `stopped` is set. -/
theorem mainOk_iff_idle {w : World} {p : MainPc} (hp : p.committed = false) :
    MainOk w p ↔ Idle w := by
  cases p with
  | start p => cases p <;> first | exact Iff.rfl | exact nomatch hp
  | stop p | destroySrv p => cases p <;> first | exact Iff.rfl | exact nomatch hp
  | _ => exact Iff.rfl

theorem startSrv_ok {t : Tid} {b : Bool} {e : Env} {w w' : World} {p : StartPc}
    {q : Option StartPc} (h : startSrv P t b e w p = some (w', q)) (hp : StartOk w p)
    (hnamed : Named w) :
    Named w' ∧ q.elim (Idle w') (StartOk w') := by
  rcases startSrv_create_cases h with ⟨rfl, rfl, rfl⟩ | ⟨rfl, rfl, rfl⟩ |
    ⟨hcreate, hset, hq, hthreads, hthread, hstopped, -⟩
  · refine ⟨fun n hn ↦ ?_, trivial⟩
    split_ifs at hn ⊢
    · by_cases hlt : n < w.threads.created
      · exact absurd ⟨hlt, hn.2⟩ (hp n)
      · have hle : n < w.threads.created + 1 := hn.1
        have heq : w.threads.created = n := by omega
        exact congrArg some heq
    · exact hnamed n hn
  · exact ⟨hnamed, nofun⟩
  · have hkeeps : Keeps w w' := ⟨fun n hn ↦ by
      rw [World.Alive, hthreads] at hn
      exact hn, hstopped, hthread⟩
    refine ⟨hkeeps.named hnamed, ?_⟩
    cases startSrv_cases h with
    | create | createFails => exact absurd rfl hcreate
    | setStopped => exact absurd rfl hset
    | enabled _ hrunnable => exact hp hrunnable
    | noBuffer | checkBuffer | lockConfig | readEnabled | unlockConfig | disabled =>
      exact hkeeps.idle hp
    | _ => exact hkeeps.none hp

/-- A stop that has joined its thread leaves none alive. -/
theorem stopSrv_ok {w w' : World} {p : StopPc} {q : Option StopPc}
    (h : stopSrv .main w p = some (w', q)) (hp : StopOk w p) (hnamed : Named w) :
    Named w' ∧ q.elim (Idle w') (StopOk w') := by
  have hshutdown (fd : ℤ) : Keeps w (w.shutdown fd) := by
    obtain ⟨sockets, heq⟩ := w.shutdown_frame fd
    rw [heq]
    exact ⟨fun _ ↦ id, rfl, rfl⟩
  cases stopSrv_cases h with
  | stopped | running | unlockMxq => exact ⟨hnamed, hp⟩
  | shutdownChild | shutdownParent => exact ⟨(hshutdown _).named hnamed, (hshutdown _).idle hp⟩
  | noThread hnone => exact ⟨hnamed, fun n hn ↦ nomatch hnone.symm.trans (hnamed n hn)⟩
  | self _ _ hself => exact nomatch hself
  | join m hthread =>
    exact ⟨hnamed, fun n hn ↦ Option.some.inj ((hnamed n hn).symm.trans hthread)⟩
  | joined m hexited =>
    refine ⟨hnamed, fun n hn ↦ ?_⟩
    obtain rfl := hp n hn
    exact absurd (hexited.symm.trans hn.2) (by decide)
  | setStopped => exact ⟨hnamed, fun _ ↦ hp⟩

theorem reload_ok {e : Env} {w w' : World} {p : HookPc} {q : Option HookPc}
    (h : reload P .main e w p = some (w', q)) (hp : HookOk w p) (hnamed : Named w) :
    Named w' ∧ q.elim (Idle w') (HookOk w') := by
  cases reload_cases h with
  | lockConfig | unlockConfig => exact ⟨hnamed, hp⟩
  | load _ _ _ hload | loaded _ _ hload =>
    obtain ⟨_, _, _, rfl, -⟩ := loadFromFile_frame hload
    exact ⟨hnamed, hp⟩
  | stop _ _ _ hstop | stopped _ _ hstop => exact stopSrv_ok hstop hp hnamed
  | start _ _ _ hstart | started _ _ hstart => exact startSrv_ok hstart hp hnamed

theorem main_ok {poll : Poll} {e : Env} {w w' : World} {p p' : MainPc}
    (h : main P poll e w p = some (w', p')) (hp : MainOk w p) (hnamed : Named w) :
    Named w' ∧ MainOk w' p' := by
  cases main_cases h with
  | load _ _ _ hload | loaded _ _ hload =>
    obtain ⟨_, _, _, rfl, -⟩ := loadFromFile_frame hload
    exact ⟨hnamed, hp⟩
  | start _ _ _ hstart | started _ _ hstart => exact startSrv_ok hstart hp hnamed
  | stop _ _ _ hstop | stopped _ _ hstop | destroySrv _ _ _ hstop | stoppedAgain _ _ hstop =>
    exact stopSrv_ok hstop hp hnamed
  | loop _ _ _ hloop | left _ _ hloop =>
    obtain ⟨_, _, _, _, _, _, _, _, rfl, -⟩ := checkLoop_frame hloop
    exact ⟨hnamed, hp⟩
  | _ => exact ⟨hnamed, hp⟩

theorem serve_keeps {n : ℕ} {e : Env} {w w' : World} {s : Server} {s' : Option Server}
    (h : serve n e w s = some (w', s')) : Keeps w w' := by
  obtain ⟨_, _, _, _, _, _, _, _, _, _, rfl⟩ := serve_frame h
  exact ⟨fun _ ↦ id, rfl, rfl⟩

theorem keeps_exitThread (w : World) (n : ℕ) : Keeps w (w.exitThread n) := by
  refine ⟨fun m hm ↦ ⟨hm.1, ?_⟩, rfl, rfl⟩
  by_cases hmn : m = n
  · subst hmn
    have hexited : (w.exitThread m).threads.exited m = true := Function.update_self _ _ _
    exact absurd (hexited.symm.trans hm.2) (by decide)
  · exact (Function.update_of_ne hmn _ _).symm.trans hm.2

/-- The invariant of the daemon: whichever of the two runs, the main program and the hook on top
of it find what they count on. -/
structure OneAlive (d : State) : Prop where
  serverHook : ∀ n, d.serverHook n = none
  named : Named d.world
  main : d.mainHook = none → MainOk d.world d.main
  hook : ∀ p, d.mainHook = some p → HookOk d.world p ∧ d.main.committed = false

theorem Keeps.oneAlive {d : State} {w : World} (h : Keeps d.world w) (hd : OneAlive d)
    {servers : ℕ → Server} : OneAlive { d with world := w, servers := servers } where
  serverHook := hd.serverHook
  named := h.named hd.named
  main hhook := h.mainOk (hd.main hhook)
  hook p hp := ⟨h.hookOk (hd.hook p hp).1, (hd.hook p hp).2⟩

theorem oneAlive_step {d d' : State} {a : Action} (hd : OneAlive d) (hok : HupsUncommitted d a)
    (h : step P d a = some d') : OneAlive d' := by
  cases a with
  | main poll e =>
    obtain ⟨-, hhook, w, p, hmain, rfl⟩ := step_main h
    obtain ⟨hnamed, hp⟩ := main_ok hmain (hd.main hhook) hd.named
    exact ⟨hd.serverHook, hnamed, fun _ ↦ hp, fun q hq ↦ nomatch hhook.symm.trans hq⟩
  | mainHook e =>
    obtain ⟨-, p, w, q, hp, hreload, rfl⟩ := step_mainHook h
    obtain ⟨hhook, hmain⟩ := hd.hook p hp
    obtain ⟨hnamed, hq⟩ := reload_ok hreload hhook hd.named
    cases q with
    | some q =>
      refine ⟨hd.serverHook, hnamed, nofun, fun r hr ↦ ?_⟩
      obtain rfl := Option.some.inj hr
      exact ⟨hq, hmain⟩
    | none => exact ⟨hd.serverHook, hnamed, fun _ ↦ (mainOk_iff_idle hmain).mpr hq, nofun⟩
  | server n e =>
    obtain ⟨-, -, -, w, s, hserve, rfl⟩ := step_server h
    have hkeeps := serve_keeps hserve
    cases s with
    | some s => exact hkeeps.oneAlive hd
    | none =>
      have hexit := keeps_exitThread w n
      have hboth : Keeps d.world (w.exitThread n) := ⟨fun m hm ↦ hkeeps.alive m (hexit.alive m hm),
        hexit.stopped.trans hkeeps.stopped, hexit.srvThread.trans hkeeps.srvThread⟩
      exact hboth.oneAlive hd
  | serverHook n e =>
    obtain ⟨-, p, w, q, hp, -, -⟩ := step_serverHook h
    exact nomatch (hd.serverHook n).symm.trans hp
  | hup t =>
    obtain ⟨-, htakes, rfl⟩ := step_hup h
    obtain ⟨rfl, hmain⟩ := hok
    have hidle := (mainOk_iff_idle hmain).mp (hd.main htakes)
    refine ⟨hd.serverHook, hd.named, nofun, fun p hp ↦ ?_⟩
    obtain rfl : HookPc.lockConfig = p := Option.some.inj hp
    exact ⟨hidle, hmain⟩
  | int t =>
    obtain ⟨-, -, rfl⟩ := step_int h
    have hkeeps : Keeps d.world { d.world with active := false } := ⟨fun _ ↦ id, rfl, rfl⟩
    exact hkeeps.oneAlive hd

/-- In a run in which each SIGHUP is taken by the main thread outside of the two windows, at most
one server thread is alive, and so at most one is in the accept loop. -/
theorem oneInAcceptLoop_of_hupsUncommitted {heap : Addr → Option Text}
    {sockets : ℤ → Option Socket} {arrays : ℕ → Http.Buffers} {d : State}
    (h : Reach (step P) HupsUncommitted (.initial heap sockets arrays) d) :
    OneInAcceptLoop d ∧ ∀ m n, d.world.Alive m → d.world.Alive n → m = n := by
  have hd := h.invariant OneAlive ⟨fun _ ↦ rfl, fun n hn ↦ absurd hn.1 (Nat.not_lt_zero n),
    fun _ _ n hn ↦ absurd hn.1 (Nat.not_lt_zero n), nofun⟩ fun _ _ _ ↦ oneAlive_step
  have hone (m n : ℕ) (hm : d.world.Alive m) (hn : d.world.Alive n) : m = n :=
    Option.some.inj ((hd.named m hm).symm.trans (hd.named n hn))
  exact ⟨fun m n hm hn ↦ hone m n hm.1 hn.1, hone⟩

/-- A SIGHUP in the first pass of the loop, after which a second thread has been made. -/
theorem oneInAcceptLoop_after_restart : ∃ d : State,
    Reach (step samplePlatform) HupsUncommitted sampleState d ∧ d.world.threads.created = 2 ∧
      OneInAcceptLoop d := by
  have hrun : ∃ d, Reach (step samplePlatform) HupsUncommitted sampleState d ∧
      d.world.threads.created = 2 :=
    exists_reach_of_runAll (mainSteps 33 ++ .hup .main :: (hookSteps 16 ++ serverSteps 0 9 ++
      hookSteps 15)) (by decide +kernel)
  obtain ⟨d, hreach, hcreated⟩ := hrun
  exact ⟨d, hreach, hcreated, (oneInAcceptLoop_of_hupsUncommitted hreach).1⟩

/-- A SIGHUP on the server thread while it has a connection: it cannot join itself, makes a second
thread and goes on with its own loop. -/
theorem two_in_accept_loop :
    ¬∀ d : State, Reachable (step samplePlatform) sampleState d → OneInAcceptLoop d := by
  intro hclaim
  have hrun : ∃ d, Reachable (step samplePlatform) sampleState d ∧
      (d.InAcceptLoop 0 ∧ d.InAcceptLoop 1) :=
    exists_reach_of_runAll (mainSteps 32 ++ serverSteps 0 9 ++
      .server 0 { sampleEnv with fd := 6 } :: .hup (.thread 0) ::
      (List.replicate 30 (.serverHook 0 sampleEnv) ++
        List.replicate 7 (.server 1 { sampleEnv with fd := 7 }))) (by decide +kernel)
  obtain ⟨d, hreach, hzero, hone⟩ := hrun
  exact absurd (hclaim d hreach 0 1 hzero hone) (by decide)

end Stored.Daemon
