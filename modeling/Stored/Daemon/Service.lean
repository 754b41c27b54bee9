import Stored.Lib.Run
import Stored.Daemon.Serve
import Stored.Daemon.Restart
import Stored.Daemon.Main

/-!
# The server and the thread that starts and stops it

One thread calls `ST_start_srv`, `ST_stop_srv` and `ST_restart_srv` in any order, the server threads
run, and the rest of the process opens and closes descriptors of its own and changes the
configuration and the buffer. The state records for which servers a stop has begun and which thread
has opened each descriptor of `srv.c`; no step reads these records.
-/

namespace Stored.Daemon

open Bytes Json Mtab Http Run

inductive ServiceCall where
  | start
  | stop
  | restart
  deriving DecidableEq

/-- Where the calling thread stands in its call, and whether a stop is the first part of a
restart. -/
inductive CallPc where
  | start (p : StartPc)
  | stop (p : StopPc) (restart : Bool)
  deriving DecidableEq

def ServiceCall.first : ServiceCall → CallPc
  | .start => .start .checkBuffer
  | .stop => .stop .test false
  | .restart => .stop .test true

structure Service where
  world : World
  caller : Option CallPc
  servers : ℕ → Server
  /-- the servers for which `ST_stop_srv` has begun -/
  stopBegun : ℕ → Bool
  /-- the servers for which `ST_stop_srv` has unlocked `mxq` -/
  released : ℕ → Bool
  /-- the server thread that has opened a descriptor which is not closed since -/
  openedBy : ℤ → Option ℕ

inductive ServiceAction where
  | begin (c : ServiceCall)
  | caller (e : Env)
  | server (n : ℕ) (e : Env)
  /-- another part of the process opens or closes a descriptor -/
  | foreignOpen (fd : ℤ)
  | foreignClose (fd : ℤ)
  | others (config : Config) (buffer : Buffer) (heap : Addr → Option Text)

/-- The record of servers with the one that `srv_thread` names. -/
def mark (srvThread : Option ℕ) (record : ℕ → Bool) : ℕ → Bool :=
  match srvThread with
  | none => record
  | some n => Function.update record n true

/-- Where the caller stands after a step of a stop. -/
def afterStop (restart : Bool) : Option StopPc → Option CallPc
  | some p => some (.stop p restart)
  | none => if restart then some (.start .checkBuffer) else none

/-- The record of descriptors after a step of server thread `n` to `w'`. -/
def openedAfter (n : ℕ) (e : Env) (w w' : World) (s : Server) (openedBy : ℤ → Option ℕ) :
    ℤ → Option ℕ :=
  match s.pc with
  | .socket => if w'.ended then openedBy else Function.update openedBy e.fd (some n)
  | .accepting _ => if e.ok then Function.update openedBy e.fd (some n) else openedBy
  | .fclose _ => Function.update openedBy s.stream none
  | .close _ => Function.update openedBy w.srv.childfd none
  | _ => openedBy

def stepService (P : Platform) (s : Service) (a : ServiceAction) : Option Service :=
  if s.world.ended then none
  else match a with
    | .begin c => if s.caller = none then some { s with caller := some c.first } else none
    | .caller e =>
      match s.caller with
      | none => none
      | some (.start p) => (startSrv P .main false e s.world p).map fun r ↦
        { s with world := r.1, caller := r.2.map .start }
      | some (.stop p restart) => (stopSrv .main s.world p).map fun r ↦
        { s with
          world := r.1
          caller := afterStop restart r.2
          stopBegun := if r.2 = some .shutdownChild then
            mark s.world.srv.srvThread s.stopBegun else s.stopBegun
          released := if p = .unlockMxq then
            mark s.world.srv.srvThread s.released else s.released }
    | .server n e =>
      if s.world.Alive n then
        (serve n e s.world (s.servers n)).map fun r ↦
          let openedBy := openedAfter n e s.world r.1 (s.servers n) s.openedBy
          match r.2 with
          | some server => { s with
            world := r.1, servers := Function.update s.servers n server, openedBy := openedBy }
          | none => { s with world := r.1.exitThread n, openedBy := openedBy }
      else none
    | .foreignOpen fd =>
      if s.world.sockets fd = none then
        some { s with world := s.world.setSocket fd (some .foreign) }
      else none
    | .foreignClose fd =>
      if s.world.sockets fd = some .foreign then
        some { s with world := s.world.setSocket fd none }
      else none
    | .others config buffer heap =>
      some { s with world := { s.world with config := config, buffer := buffer, heap := heap } }

/-- The process when `ST_init_srv` has returned, with the descriptors that it has open. -/
def Service.initial (heap : Addr → Option Text) (open' : ℤ → Bool) (arrays : ℕ → Buffers) :
    Service where
  world := { World.initial heap fun fd ↦ if open' fd then some .foreign else none with
    srvBuff := .live }
  caller := none
  servers n := .initial (arrays n)
  stopBegun _ := false
  released _ := false
  openedBy _ := none

/-- What one step of the system can do. -/
inductive ServiceStep (P : Platform) (s : Service) : ServiceAction → Service → Prop
  | begin (c : ServiceCall) (hnone : s.caller = none) :
    ServiceStep P s (.begin c) { s with caller := some c.first }
  | start (e : Env) (p : StartPc) (w : World) (q : Option StartPc)
    (hcaller : s.caller = some (.start p))
    (hstart : startSrv P .main false e s.world p = some (w, q)) :
    ServiceStep P s (.caller e) { s with world := w, caller := q.map .start }
  | stop (e : Env) (p : StopPc) (restart : Bool) (w : World) (q : Option StopPc)
    (hcaller : s.caller = some (.stop p restart))
    (hstop : stopSrv .main s.world p = some (w, q)) :
    ServiceStep P s (.caller e)
      { s with
        world := w
        caller := afterStop restart q
        stopBegun := if q = some .shutdownChild then
          mark s.world.srv.srvThread s.stopBegun else s.stopBegun
        released := if p = .unlockMxq then
          mark s.world.srv.srvThread s.released else s.released }
  | server (n : ℕ) (e : Env) (w : World) (server : Server) (halive : s.world.Alive n)
    (hserve : serve n e s.world (s.servers n) = some (w, some server)) :
    ServiceStep P s (.server n e)
      { s with
        world := w
        servers := Function.update s.servers n server
        openedBy := openedAfter n e s.world w (s.servers n) s.openedBy }
  | exit (n : ℕ) (e : Env) (w : World) (halive : s.world.Alive n)
    (hserve : serve n e s.world (s.servers n) = some (w, none)) :
    ServiceStep P s (.server n e)
      { s with
        world := w.exitThread n
        openedBy := openedAfter n e s.world w (s.servers n) s.openedBy }
  | foreignOpen (fd : ℤ) (hfree : s.world.sockets fd = none) :
    ServiceStep P s (.foreignOpen fd) { s with world := s.world.setSocket fd (some .foreign) }
  | foreignClose (fd : ℤ) (hforeign : s.world.sockets fd = some .foreign) :
    ServiceStep P s (.foreignClose fd) { s with world := s.world.setSocket fd none }
  | others (config : Config) (buffer : Buffer) (heap : Addr → Option Text) :
    ServiceStep P s (.others config buffer heap)
      { s with world := { s.world with config := config, buffer := buffer, heap := heap } }

theorem running_of_stepService {P : Platform} {s s' : Service} {a : ServiceAction}
    (h : stepService P s a = some s') : s.world.ended = false := by
  by_contra hended
  unfold stepService at h
  rw [if_pos (by simpa using hended)] at h
  exact nomatch h

theorem stepService_cases {P : Platform} {s s' : Service} {a : ServiceAction}
    (h : stepService P s a = some s') : ServiceStep P s a s' := by
  unfold stepService at h
  split at h
  · exact nomatch h
  cases a with
  | begin c =>
    simp only at h
    split_ifs at h with hnone
    obtain rfl := Option.some.inj h
    exact .begin c hnone
  | caller e =>
    simp only at h
    split at h
    · exact nomatch h
    · rename_i p hcaller
      obtain ⟨⟨w, q⟩, hstart, rfl⟩ := Option.map_eq_some_iff.mp h
      exact .start e p w q hcaller hstart
    · rename_i p restart hcaller
      obtain ⟨⟨w, q⟩, hstop, rfl⟩ := Option.map_eq_some_iff.mp h
      exact .stop e p restart w q hcaller hstop
  | server n e =>
    simp only at h
    split_ifs at h with halive
    obtain ⟨⟨w, server⟩, hserve, rfl⟩ := Option.map_eq_some_iff.mp h
    cases server with
    | some server => exact .server n e w server halive hserve
    | none => exact .exit n e w halive hserve
  | foreignOpen fd =>
    simp only at h
    split_ifs at h with hfree
    obtain rfl := Option.some.inj h
    exact .foreignOpen fd hfree
  | foreignClose fd =>
    simp only at h
    split_ifs at h with hforeign
    obtain rfl := Option.some.inj h
    exact .foreignClose fd hforeign
  | others config buffer heap =>
    obtain rfl := Option.some.inj h
    exact .others config buffer heap

/-- A start past its test. -/
def StartPc.enabled : StartPc → Bool
  | .checkBuffer | .lockConfig | .readEnabled | .unlockConfig _ | .test _ => false
  | _ => true

theorem startSrv_enabled {P : Platform} {t : Tid} {hupBlocked : Bool} {e : Env} {w w' : World}
    {p q : StartPc} (h : startSrv P t hupBlocked e w p = some (w', some q))
    (hq : q.enabled = true) : p.enabled = true ∨ w.srv.stopped = true := by
  cases startSrv_cases h with
  | checkBuffer | noBuffer | lockConfig | readEnabled | unlockConfig =>
    exact nomatch hq
  | enabled enabled hstopped => exact .inr hstopped
  | _ => exact .inl rfl

/-- The threads as the caller has to find them: `srv_thread` names the one that runs, and none runs
while `stopped` says so. -/
structure Handled (w : World) (caller : Option CallPc) : Prop where
  fresh : ∀ n, w.threads.created ≤ n → w.threads.exited n = false
  known : ∀ n, w.srv.srvThread = some n → n < w.threads.created
  current : ∀ n, w.Alive n → w.srv.srvThread = some n
  stopped : w.srv.stopped = true → caller ≠ some (.start .setStopped) → ∀ n, ¬w.Alive n
  starting : ∀ p, caller = some (.start p) → p.enabled = true → w.srv.stopped = true
  stopping : ∀ p restart, caller = some (.stop p restart) → p ≠ .test → w.srv.stopped = false
  joining : ∀ n restart, caller = some (.stop (.joining n) restart) → w.srv.srvThread = some n
  joined : ∀ restart, caller = some (.stop .setStopped restart) → ∀ n, ¬w.Alive n

theorem handled_initial (heap : Addr → Option Text) (open' : ℤ → Bool) (arrays : ℕ → Buffers) :
    Handled (Service.initial heap open' arrays).world none where
  fresh _ _ := rfl
  known := nofun
  current n halive := absurd halive.1 n.not_lt_zero
  stopped _ _ n halive := absurd halive.1 n.not_lt_zero
  starting := nofun
  stopping := nofun
  joining := nofun
  joined := nofun

section

variable {P : Platform} {e : Env} {w w' : World} {caller : Option CallPc} {restart : Bool}

theorem Handled.congr (hw : Handled w caller) (hthreads : w'.threads = w.threads)
    (hthread : w'.srv.srvThread = w.srv.srvThread) (hstopped : w'.srv.stopped = w.srv.stopped) :
    Handled w' caller := by
  have halive (n : ℕ) : w'.Alive n ↔ w.Alive n := by
    unfold World.Alive
    rw [hthreads]
  obtain ⟨hfresh, hknown, hcurrent, hnone, hstarting, hstopping, hjoining, hjoined⟩ := hw
  constructor <;> simp only [halive, hthreads, hthread, hstopped] <;> assumption

/-- Outside a stop and of the part of a start past its test, the place of the caller says nothing
about the threads. -/
theorem Handled.outside (hw : Handled w caller) (hne : caller ≠ some (.start .setStopped))
    {c : Option CallPc} (hc : ∀ p, c = some (.start p) → p.enabled = false)
    (hc' : ∀ p restart, c = some (.stop p restart) → p = .test) : Handled w c where
  fresh := hw.fresh
  known := hw.known
  current := hw.current
  stopped hstopped _ := hw.stopped hstopped hne
  starting p hp hen := nomatch (hc p hp).symm.trans hen
  stopping p restart hp hne := absurd (hc' p restart hp) hne
  joining _ restart hp := nomatch hc' _ restart hp
  joined restart hp := nomatch hc' _ restart hp

/-- Inside a stop, which has found a server running. -/
theorem Handled.inside (hw : Handled w caller) (hrunning : w.srv.stopped = false) {p : StopPc}
    (hjoining : ∀ n, p = .joining n → w.srv.srvThread = some n)
    (hjoined : p = .setStopped → ∀ n, ¬w.Alive n) : Handled w (some (.stop p restart)) where
  fresh := hw.fresh
  known := hw.known
  current := hw.current
  stopped hstopped := nomatch hrunning.symm.trans hstopped
  starting := nofun
  stopping _ _ _ _ := hrunning
  joining n _ hp := hjoining n (CallPc.stop.inj (Option.some.inj hp)).1
  joined _ hp := hjoined (CallPc.stop.inj (Option.some.inj hp)).1

theorem handled_start {p : StartPc} {q : Option StartPc} (hw : Handled w (some (.start p)))
    (h : startSrv P .main false e w p = some (w', q)) : Handled w' (q.map .start) := by
  rcases startSrv_create_cases h with ⟨rfl, rfl, rfl⟩ | ⟨rfl, rfl, rfl⟩ |
    ⟨-, hset, hq, hthreads, hthread, hstopped, -⟩
  · have hset := hw.starting _ rfl rfl
    have hnone := hw.stopped hset nofun
    split_ifs
    · refine ⟨fun n hn ↦ hw.fresh n (Nat.le_of_succ_le hn), fun n hn ↦ ?_, fun n halive ↦ ?_,
        fun _ hne ↦ absurd rfl hne, fun _ _ _ ↦ hset, nofun, nofun, nofun⟩
      · obtain rfl := Option.some.inj hn
        exact Nat.lt_succ_self _
      · rcases Nat.lt_succ_iff_lt_or_eq.mp halive.1 with hlt | rfl
        · exact absurd ⟨hlt, halive.2⟩ (hnone n)
        · rfl
    · exact ⟨hw.fresh, hw.known, hw.current, fun _ hne ↦ absurd rfl hne, fun _ _ _ ↦ hset, nofun,
        nofun, nofun⟩
  · exact ⟨hw.fresh, hw.known, hw.current, nofun, nofun, nofun, nofun, nofun⟩
  · refine Handled.congr ⟨hw.fresh, hw.known, hw.current, fun hstop _ ↦ ?_, fun r hr hen ↦ ?_,
      ?_, ?_, ?_⟩ hthreads hthread hstopped
    · exact hw.stopped hstop (by simpa using hset)
    · obtain ⟨r', rfl, hr'⟩ := Option.map_eq_some_iff.mp hr
      obtain rfl := CallPc.start.inj hr'
      exact (startSrv_enabled h hen).elim (hw.starting p rfl) id
    · cases q <;> nofun
    · cases q <;> nofun
    · cases q <;> nofun

theorem afterStop_none_start {p : StartPc} (h : afterStop restart none = some (.start p)) :
    p.enabled = false := by
  cases restart <;> cases h
  rfl

theorem afterStop_none_stop {p : StopPc} {r : Bool} : afterStop restart none ≠ some (.stop p r) := by
  cases restart <;> nofun

theorem handled_stop {p : StopPc} {q : Option StopPc} (hw : Handled w (some (.stop p restart)))
    (h : stopSrv .main w p = some (w', q)) : Handled w' (afterStop restart q) := by
  have hrunning := hw.stopping p restart rfl
  cases stopSrv_cases h with
  | stopped =>
    exact hw.outside nofun (fun _ ↦ afterStop_none_start) fun _ _ h ↦ absurd h afterStop_none_stop
  | running hrun => exact hw.inside hrun nofun nofun
  | shutdownChild =>
    obtain ⟨sockets, heq⟩ := w.shutdown_frame w.srv.childfd
    rw [heq]
    exact (hw.inside (p := .shutdownParent) (hrunning nofun) nofun nofun).congr rfl rfl rfl
  | shutdownParent =>
    obtain ⟨sockets, heq⟩ := w.shutdown_frame w.srv.parentfd
    rw [heq]
    exact (hw.inside (p := .unlockMxq) (hrunning nofun) nofun nofun).congr rfl rfl rfl
  | unlockMxq => exact (hw.inside (p := .join) (hrunning nofun) nofun nofun).congr rfl rfl rfl
  | noThread hnone =>
    refine hw.inside (hrunning nofun) nofun fun _ n halive ↦ ?_
    exact nomatch hnone.symm.trans (hw.current n halive)
  | self n hthread hself => exact nomatch hself
  | join n hthread =>
    refine hw.inside (hrunning nofun) (fun m hm ↦ ?_) nofun
    rw [hthread, StopPc.joining.inj hm]
  | joined n hexited =>
    refine hw.inside (hrunning nofun) nofun fun _ m halive ↦ ?_
    obtain rfl := Option.some.inj ((hw.joining n restart rfl).symm.trans (hw.current m halive))
    exact nomatch hexited.symm.trans halive.2
  | setStopped =>
    have hdone : Handled { w with srv := { w.srv with stopped := true } } none :=
      ⟨hw.fresh, hw.known, hw.current, fun _ _ ↦ hw.joined restart rfl, nofun, nofun, nofun, nofun⟩
    exact hdone.outside nofun (fun _ ↦ afterStop_none_start) fun _ _ h ↦ absurd h afterStop_none_stop

theorem handled_exitThread {n : ℕ} (hw : Handled w caller) (halive : w.Alive n) :
    Handled (w.exitThread n) caller where
  fresh m hm := by
    have hne : m ≠ n := fun heq ↦ absurd halive.1 (not_lt.mpr (heq ▸ hm))
    exact (Function.update_of_ne hne _ _).trans (hw.fresh m hm)
  known := hw.known
  current m hm := hw.current m (World.alive_exitThread_iff.mp hm).1
  stopped hstopped hne m hm := hw.stopped hstopped hne m (World.alive_exitThread_iff.mp hm).1
  starting := hw.starting
  stopping := hw.stopping
  joining := hw.joining
  joined restart hp m hm := hw.joined restart hp m (World.alive_exitThread_iff.mp hm).1

theorem handled_step {s s' : Service} {a : ServiceAction} (hs : Handled s.world s.caller)
    (h : stepService P s a = some s') : Handled s'.world s'.caller := by
  cases stepService_cases h with
  | begin c hnone =>
    refine hs.outside (by rw [hnone]; nofun) (fun p hp ↦ ?_) fun p restart hp ↦ ?_
    · cases c <;> cases hp
      rfl
    · cases c <;> cases hp <;> rfl
  | start e p w q hcaller hstart =>
    rw [hcaller] at hs
    exact handled_start hs hstart
  | stop e p restart w q hcaller hstop =>
    rw [hcaller] at hs
    exact handled_stop hs hstop
  | server n e w server halive hserve =>
    obtain ⟨_, _, _, _, _, _, _, _, _, _, rfl⟩ := serve_frame hserve
    exact hs.congr rfl rfl rfl
  | exit n e w halive hserve =>
    obtain ⟨_, _, _, _, _, _, _, _, _, _, rfl⟩ := serve_frame hserve
    exact handled_exitThread (hs.congr rfl rfl rfl) halive
  | foreignOpen | foreignClose | others => exact hs.congr rfl rfl rfl

/-- The threads are handled in every run. -/
theorem handled_of_reach {ok : Service → ServiceAction → Prop} {heap : Addr → Option Text}
    {open' : ℤ → Bool} {arrays : ℕ → Buffers} {s : Service}
    (h : Reach (stepService P) ok (.initial heap open' arrays) s) : Handled s.world s.caller :=
  h.invariant (fun s ↦ Handled s.world s.caller) (handled_initial heap open' arrays)
    fun _ _ _ hs _ hstep ↦ handled_step hs hstep

end

def sampleService : Service := .initial (fun _ ↦ none) (fun _ ↦ false) fun _ ↦ ⟨[], [], [], []⟩

/-- The configuration after `sampleFile 1 8080 loopback` has been read. -/
def sampleConfig : Config where
  mutex := .free
  interval := ⟨1000, 1⟩
  noticePercent := ⟨20, 1⟩
  warnPercent := ⟨10, 1⟩
  critPercent := ⟨5, 1⟩
  httpEnabled := ⟨1, 1⟩
  httpPort := ⟨8080, 1⟩
  httpBindAddress := ⟨loopback, 1⟩
  cfg := some (sampleFile 1 8080 loopback)
  version := 1

/-- A call of `ST_start_srv` with the configuration read, and the steps of the server thread up to
its wait in `accept`. -/
def serviceSteps (k : ℕ) : List ServiceAction := List.replicate k (.caller sampleEnv)
def serviceServerSteps (k : ℕ) : List ServiceAction := List.replicate k (.server 0 sampleEnv)
def serviceStarted : List ServiceAction :=
  .others sampleConfig ⟨.free, .literal⟩ (fun _ ↦ none) :: .begin .start :: serviceSteps 13 ++
    serviceServerSteps 9

end Stored.Daemon
