import Stored.Daemon.Main

/-!
# Start and stop of one server thread

A thread calls `ST_start_srv` and later `ST_stop_srv`. The stop asks twice, by the shutdown of
`parentfd` and by the release of `mxq`. The server thread is left in `accept` for good if the
shutdown comes before `listen` and the quit check before the release.
-/

namespace Stored.Daemon

open Run

variable {P : Platform}

/-- Where the calling thread stands. -/
inductive CallerPc where
  | start (p : StartPc)
  | between
  | stop (p : StopPc)
  | done
  deriving DecidableEq

structure Pair where
  world : World
  caller : CallerPc
  server : Server

inductive PairAction where
  | caller (e : Env)
  | server (e : Env)

/-- One step of the calling thread or of server thread `n`. -/
def stepPair (P : Platform) (n : ℕ) (s : Pair) (a : PairAction) : Option Pair :=
  if s.world.ended then none
  else match a with
    | .caller e =>
      match s.caller with
      | .start p => (startSrv P .main false e s.world p).map fun r ↦
        { s with world := r.1, caller := r.2.elim .between .start }
      | .between => some { s with caller := .stop .test }
      | .stop p => (stopSrv .main s.world p).map fun r ↦
        { s with world := r.1, caller := r.2.elim .done .stop }
      | .done => none
    | .server e =>
      if s.world.Alive n then
        (serve n e s.world s.server).map fun r ↦
          match r.2 with
          | some server => { s with world := r.1, server := server }
          | none => { s with world := r.1.exitThread n }
      else none

/-- The stop has shut down both descriptors and released `mxq`, and waits for a thread, while the
server thread waits in `accept` on a socket that was not shut down. -/
def Stuck (n : ℕ) (s : Pair) : Prop :=
  (∃ m, s.caller = .stop (.joining m)) ∧ s.world.Alive n ∧
    ∃ fd, s.server.pc = .accepting fd ∧ s.world.sockets fd = some .listening

/-- The shutdown of `parentfd` has been done, the release of `mxq` has not, and the socket of the
server listens. -/
def MissedShutdown (s : Pair) : Prop :=
  s.caller = .stop .unlockMxq ∧ s.world.srv.mxq.owner ≠ none ∧
    s.world.sockets s.world.srv.parentfd = some .listening

instance (s : Pair) : Decidable (MissedShutdown s) := inferInstanceAs (Decidable (_ ∧ _ ∧ _))

/-- The server thread makes no quit check with `mxq` still locked after a shutdown that missed
its socket. -/
def NoCheckAfterMiss (s : Pair) : PairAction → Prop
  | .server _ => s.server.pc = .trylockMxq → ¬MissedShutdown s
  | .caller _ => True

instance (s : Pair) : (a : PairAction) → Decidable (NoCheckAfterMiss s a)
  | .server _ => inferInstanceAs (Decidable (_ → ¬_))
  | .caller _ => inferInstanceAs (Decidable True)

/-- The listening socket is `parentfd`, and the connection is another one. -/
structure Listening (w : World) (s : Server) : Prop where
  parent : s.pc.inLoop = true → w.sockets w.srv.parentfd = some .listening ∨
    w.sockets w.srv.parentfd = some .shut
  accepting : ∀ fd, s.pc = .accepting fd → fd = w.srv.parentfd
  child : s.pc.hasChild = true → w.srv.childfd ≠ w.srv.parentfd
  stream : s.pc.hasStream = true → s.stream ≠ w.srv.parentfd

theorem listening_shutdown {w : World} {s : Server} (h : Listening w s) (fd : ℤ) :
    Listening (w.shutdown fd) s := by
  have hkeep {k : Option Socket} (hne : w.srv.parentfd ≠ fd) (hloop : s.pc.inLoop = true) :
      (w.setSocket fd k).sockets w.srv.parentfd = some .listening ∨
        (w.setSocket fd k).sockets w.srv.parentfd = some .shut := by
    rw [World.sockets_setSocket, Function.update_of_ne hne]
    exact h.parent hloop
  rcases w.shutdown_cases fd with ⟨-, heq⟩ | ⟨hclient, heq⟩ | ⟨-, -, heq⟩ <;> rw [heq]
  · refine ⟨fun hloop ↦ ?_, h.accepting, h.child, h.stream⟩
    by_cases hparent : w.srv.parentfd = fd
    · exact .inr (hparent ▸ Function.update_self _ _ _)
    · exact hkeep hparent hloop
  · refine ⟨fun hloop ↦ hkeep (fun hparent ↦ ?_) hloop, h.accepting, h.child, h.stream⟩
    -- the listening socket is no connection
    have hlistening := h.parent hloop
    rw [hparent, hclient] at hlistening
    exact hlistening.elim nofun nofun
  · exact h

theorem serve_listening {n : ℕ} {e : Env} {w w' : World} {s s' : Server}
    (h : serve n e w s = some (w', some s')) (hs : Listening w s) : Listening w' s' := by
  have hparent (hloop : s.pc.inLoop = true) {fd : ℤ} {v : Option Socket}
      (hne : w.srv.parentfd ≠ fd) : Function.update w.sockets fd v w.srv.parentfd =
        some .listening ∨ Function.update w.sockets fd v w.srv.parentfd = some .shut := by
    rw [Function.update_of_ne hne]
    exact hs.parent hloop
  cases serve_cases h with
  | sigmask | lockConfig | readPort | unlockConfig | socket | bind =>
    exact ⟨nofun, nofun, nofun, nofun⟩
  | abort | headers =>
    exact ⟨hs.parent, hs.accepting, hs.child, hs.stream⟩
  | listen =>
    exact ⟨fun _ ↦ .inl (Function.update_self _ _ _), nofun, nofun, nofun⟩
  | quit hpc | goOn hpc | freeNull hpc | free _ hpc =>
    exact ⟨fun _ ↦ hs.parent (by rw [hpc]; rfl), nofun, nofun, nofun⟩
  | accept hpc =>
    refine ⟨fun _ ↦ hs.parent (by rw [hpc]; rfl), fun fd hfd ↦ ?_, nofun, nofun⟩
    exact (ServePc.accepting.inj hfd).symm
  | accepted fd hpc hlistening hfree =>
    have hloop := hs.parent (by rw [hpc]; rfl)
    have hne : w.srv.parentfd ≠ e.fd := by
      intro heq
      rw [heq, hfree] at hloop
      exact hloop.elim nofun nofun
    exact ⟨fun _ ↦ hparent (by rw [hpc]; rfl) hne, nofun, fun _ ↦ hne.symm, nofun⟩
  | fdopen hpc =>
    have hchild := hs.child (by rw [hpc]; rfl)
    exact ⟨fun _ ↦ hs.parent (by rw [hpc]; rfl), nofun, fun _ ↦ hchild, fun _ ↦ hchild⟩
  | request p b held hpc hp =>
    have hchild := hs.child (by rw [hpc]; rfl)
    have hstream := hs.stream (by rw [hpc]; rfl)
    rcases hp with rfl | rfl | rfl <;>
      exact ⟨fun _ ↦ hs.parent (by rw [hpc]; rfl), nofun, fun _ ↦ hchild, fun _ ↦ hstream⟩
  | lockBuffer hpc | strdup _ hpc | unlockBuffer hpc | respond _ _ _ hpc | fflush _ _ _ hpc =>
    have hchild := hs.child (by rw [hpc]; rfl)
    have hstream := hs.stream (by rw [hpc]; rfl)
    exact ⟨fun _ ↦ hs.parent (by rw [hpc]; rfl), nofun, fun _ ↦ hchild, fun _ ↦ hstream⟩
  | fclose ok hpc =>
    have hchild := hs.child (by rw [hpc]; rfl)
    have hstream := hs.stream (by rw [hpc]; rfl)
    exact ⟨fun _ ↦ hparent (by rw [hpc]; rfl) hstream.symm, nofun, fun _ ↦ hchild, nofun⟩
  | close ok hpc =>
    have hchild := hs.child (by rw [hpc]; rfl)
    cases ok <;> exact ⟨fun _ ↦ hparent (by rw [hpc]; rfl) hchild.symm, nofun, nofun, nofun⟩

/-- The calling thread has not created a server thread yet. -/
def CallerPc.starting : CallerPc → Bool
  | .start p => p ≠ .setStopped
  | _ => false

/-- From the creation of the server thread to the release of `mxq`. -/
def CallerPc.locked : CallerPc → Bool
  | .start p => p = .setStopped
  | .between => true
  | .stop p => match p with
    | .test | .shutdownChild | .shutdownParent | .unlockMxq => true
    | _ => false
  | .done => false

/-- From the release of `mxq` to the end of the stop. -/
def CallerPc.released : CallerPc → Bool
  | .stop p => match p with
    | .join | .joining _ | .setStopped => true
    | _ => false
  | _ => false

/-- What holds while the server thread is alive. -/
structure Attended (n : ℕ) (s : Pair) : Prop where
  listening : Listening s.world s.server
  holds : s.server.pc = .unlockMxq → s.world.srv.mxq.owner = some (.thread n)
  locked : s.caller.locked = true → s.world.srv.mxq.owner = some .main
  released : s.caller.released = true → s.server.pc ≠ .unlockMxq → s.world.srv.mxq.owner = none
  shut : s.caller = .stop .unlockMxq ∨ s.caller.released = true → s.server.pc.inAccept = true →
    s.world.sockets s.world.srv.parentfd = some .shut

structure PairInv (n : ℕ) (s : Pair) : Prop where
  starting : s.caller.starting = true → s.world.threads.created = n ∧ s.server.pc = .sigmask
  creating : s.caller = .start .create → s.world.srv.mxq.owner = some .main
  alive : s.world.Alive n → Attended n s

theorem ServePc.inLoop_of_inAccept {p : ServePc} (h : p.inAccept = true) : p.inLoop = true := by
  cases p <;> first | rfl | exact nomatch h

theorem listening_sigmask {w : World} {s : Server} (h : s.pc = .sigmask) : Listening w s :=
  ⟨by rw [h]; exact nofun, by rw [h]; exact nofun, by rw [h]; exact nofun, by rw [h]; exact nofun⟩

theorem pairInv_start {n : ℕ} {e : Env} {s : Pair} {p : StartPc} {w : World} {q : Option StartPc}
    (hs : PairInv n s) (hcaller : s.caller = .start p)
    (h : startSrv P .main false e s.world p = some (w, q)) :
    PairInv n { s with world := w, caller := q.elim .between .start } := by
  rcases startSrv_create_cases h with ⟨rfl, rfl, rfl⟩ | ⟨rfl, rfl, rfl⟩ |
    ⟨hcreate, hset, hq, hthreads, -, -, hmxq⟩
  · obtain ⟨hcreated, hpc⟩ := hs.starting (by rw [hcaller]; rfl)
    have howner := hs.creating hcaller
    refine ⟨nofun, nofun, fun _ ↦ ⟨listening_sigmask hpc, ?_, fun _ ↦ ?_, nofun, ?_⟩⟩
    · exact fun hunlock ↦ nomatch hpc.symm.trans hunlock
    · split_ifs
      · exact howner
      · exact howner
    · exact fun _ haccept ↦ absurd haccept (by simp [hpc, ServePc.inAccept])
  · refine ⟨nofun, nofun, fun halive ↦ ?_⟩
    obtain ⟨hlistening, hholds, hlocked, -, -⟩ := hs.alive halive
    exact ⟨⟨hlistening.parent, hlistening.accepting, hlistening.child, hlistening.stream⟩, hholds,
      fun _ ↦ hlocked (by rw [hcaller]; rfl), nofun, nofun⟩
  · obtain ⟨hcreated, hpc⟩ := hs.starting (by rw [hcaller]; simpa [CallerPc.starting] using hset)
    refine ⟨fun _ ↦ ⟨by simpa only [hthreads] using hcreated, hpc⟩, fun hc ↦ ?_, fun halive ↦ ?_⟩
    · cases q with
      | none => exact nomatch hc
      | some q => exact hmxq (by rw [CallerPc.start.inj hc])
    · have hlt : n < s.world.threads.created := by simpa only [hthreads] using halive.1
      exact absurd hlt (by rw [hcreated]; exact lt_irrefl n)

theorem pairInv_stop {n : ℕ} {s : Pair} {p : StopPc} {w : World} {q : Option StopPc}
    (hs : PairInv n s) (hcaller : s.caller = .stop p)
    (h : stopSrv .main s.world p = some (w, q)) :
    PairInv n { s with world := w, caller := q.elim .done .stop } := by
  refine ⟨by cases q <;> exact nofun, by cases q <;> exact nofun, fun halive ↦ ?_⟩
  have halive' : s.world.Alive n := by
    obtain ⟨_, _, _, rfl⟩ := stopSrv_frame h
    exact halive
  have ha := hs.alive halive'
  have hshutdown (fd : ℤ) : (s.world.shutdown fd).srv = s.world.srv := by
    obtain ⟨sockets, heq⟩ := s.world.shutdown_frame fd
    rw [heq]
  cases stopSrv_cases h with
  | stopped => exact ⟨ha.listening, ha.holds, nofun, nofun, nofun⟩
  | running =>
    exact ⟨ha.listening, ha.holds, fun _ ↦ ha.locked (by rw [hcaller]; rfl), nofun, nofun⟩
  | shutdownChild =>
    exact ⟨listening_shutdown ha.listening _, fun hpc ↦ by rw [hshutdown]; exact ha.holds hpc,
      fun _ ↦ by rw [hshutdown]; exact ha.locked (by rw [hcaller]; rfl), nofun, nofun⟩
  | shutdownParent =>
    refine ⟨listening_shutdown ha.listening _, fun hpc ↦ by rw [hshutdown]; exact ha.holds hpc,
      fun _ ↦ by rw [hshutdown]; exact ha.locked (by rw [hcaller]; rfl), nofun,
      fun _ haccept ↦ ?_⟩
    rw [hshutdown]
    rcases ha.listening.parent (ServePc.inLoop_of_inAccept haccept) with hparent | hparent
    · simp [World.shutdown, hparent]
    · simp [World.shutdown, hparent]
  | unlockMxq =>
    have howner := ha.locked (by rw [hcaller]; rfl)
    refine ⟨⟨ha.listening.parent, ha.listening.accepting, ha.listening.child,
      ha.listening.stream⟩, fun hpc ↦ ?_, nofun, fun _ _ ↦ rfl, fun _ haccept ↦ ?_⟩
    · exact nomatch howner.symm.trans (ha.holds hpc)
    · exact ha.shut (.inl hcaller) haccept
  | noThread | self | join | joined =>
    have hreleased : s.caller.released = true := by rw [hcaller]; rfl
    exact ⟨ha.listening, ha.holds, nofun, fun _ ↦ ha.released hreleased,
      fun _ ↦ ha.shut (.inr hreleased)⟩
  | setStopped =>
    exact ⟨⟨ha.listening.parent, ha.listening.accepting, ha.listening.child,
      ha.listening.stream⟩, ha.holds, nofun, nofun, nofun⟩

theorem pairInv_server {n : ℕ} {e : Env} {s : Pair} {w : World} {server : Server}
    (hs : PairInv n s) (hok : s.server.pc = .trylockMxq → ¬MissedShutdown s)
    (halive : s.world.Alive n) (h : serve n e s.world s.server = some (w, some server)) :
    PairInv n { s with world := w, server := server } := by
  have hthreads : w.threads = s.world.threads := by
    obtain ⟨_, _, _, _, _, _, _, _, _, _, rfl⟩ := serve_frame h
    rfl
  have hstarted : s.caller.starting = false := by
    by_contra hstarting
    have hcreated := (hs.starting (by simpa using hstarting)).1
    exact absurd halive.1 (by rw [hcreated]; exact lt_irrefl n)
  have ha := hs.alive halive
  refine ⟨fun hstarting ↦ absurd hstarting (by simp [hstarted]), fun hcreate ↦ ?_, fun _ ↦ ?_⟩
  · exact absurd hstarted (by rw [show s.caller = .start .create from hcreate]; decide)
  have hpc := serve_ne_unlockMxq h
  have hlistening := serve_listening h ha.listening
  rcases serve_quit_cases h with ⟨-, hfree, hunlock, howner⟩ | ⟨htry, hheld, haccept, rfl⟩ |
    ⟨haccept, hin, rfl⟩ | ⟨hout, hunlock, hmxq⟩
  · refine ⟨hlistening, fun _ ↦ howner, fun hlocked ↦ ?_, fun _ hne ↦ absurd hunlock hne, ?_⟩
    · exact nomatch hfree.symm.trans (ha.locked hlocked)
    · exact fun _ hin ↦ absurd hin (by simp [hunlock, ServePc.inAccept])
  · have hnot : s.caller.released ≠ true := fun hr ↦ hheld (ha.released hr hpc)
    refine ⟨hlistening, fun hunlock ↦ (nomatch haccept.symm.trans hunlock), ha.locked,
      fun hr ↦ absurd hr hnot, fun hcaller _ ↦ ?_⟩
    have hunlock : s.caller = .stop .unlockMxq := hcaller.resolve_right hnot
    have hloop : s.server.pc.inLoop = true := by rw [htry]; rfl
    exact (ha.listening.parent hloop).resolve_left fun hlisten ↦
      hok htry ⟨hunlock, hheld, hlisten⟩
  · refine ⟨hlistening, fun hunlock ↦ ?_, ha.locked, fun hr _ ↦ ha.released hr hpc,
      fun hcaller _ ↦ ha.shut hcaller (by rw [haccept]; rfl)⟩
    exact absurd hin (by simp [show server.pc = .unlockMxq from hunlock, ServePc.inAccept])
  · refine ⟨hlistening, fun h' ↦ absurd h' hunlock, fun hl ↦ ?_, fun hr _ ↦ ?_,
      fun _ hin ↦ absurd hin (by simp [hout])⟩
    · exact (congrArg Mutex.owner hmxq).trans (ha.locked hl)
    · exact (congrArg Mutex.owner hmxq).trans (ha.released hr hpc)

theorem pairInv_step {n : ℕ} {s s' : Pair} {a : PairAction} (hs : PairInv n s)
    (hok : NoCheckAfterMiss s a) (h : stepPair P n s a = some s') : PairInv n s' := by
  unfold stepPair at h
  split at h
  · exact nomatch h
  cases a with
  | caller e =>
    cases hcaller : s.caller with
    | start p =>
      simp only [hcaller, Option.map_eq_some_iff] at h
      obtain ⟨r, hstart, rfl⟩ := h
      exact pairInv_start hs hcaller hstart
    | between =>
      simp only [hcaller, Option.some.injEq] at h
      subst h
      refine ⟨nofun, nofun, fun halive ↦ ?_⟩
      have ha := hs.alive halive
      exact ⟨ha.listening, ha.holds, fun _ ↦ ha.locked (by rw [hcaller]; rfl), nofun, nofun⟩
    | stop p =>
      simp only [hcaller, Option.map_eq_some_iff] at h
      obtain ⟨r, hstop, rfl⟩ := h
      exact pairInv_stop hs hcaller hstop
    | done => simp [hcaller] at h
  | server e =>
    simp only at h
    split_ifs at h with halive
    obtain ⟨⟨w, server⟩, hserve, rfl⟩ := Option.map_eq_some_iff.mp h
    cases server with
    | some server => exact pairInv_server hs hok halive hserve
    | none =>
      have hthreads : w.threads = s.world.threads := by
        obtain ⟨_, _, _, _, _, _, _, _, _, _, rfl⟩ := serve_frame hserve
        rfl
      refine ⟨fun hstarting ↦ ?_, fun hcreate ↦ ?_, fun halive' ↦ ?_⟩
      · have hcreated := (hs.starting hstarting).1
        exact absurd halive.1 (by rw [hcreated]; exact lt_irrefl n)
      · have hcreated := (hs.starting (by rw [show s.caller = .start .create from hcreate]; rfl)).1
        exact absurd halive.1 (by rw [hcreated]; exact lt_irrefl n)
      · have hexited : (w.exitThread n).threads.exited n = true := Function.update_self _ _ _
        exact absurd (hexited.symm.trans halive'.2) (by decide)

/-- In a run in which the server thread makes no quit check with `mxq` still locked after a
shutdown that missed its socket, the stop never waits for a server thread that waits in `accept`.
The statics and the descriptors are at first what earlier starts and stops left. -/
theorem not_stuck_of_noCheckAfterMiss {w : World} {arrays : Http.Buffers} {s : Pair}
    (h : Reach (stepPair P w.threads.created) NoCheckAfterMiss
      ⟨w, .start .checkBuffer, .initial arrays⟩ s) : ¬Stuck w.threads.created s := by
  have hinv := h.invariant (PairInv w.threads.created) ⟨fun _ ↦ ⟨rfl, rfl⟩, nofun,
    fun halive ↦ absurd halive.1 (lt_irrefl _)⟩ fun _ _ _ ↦ pairInv_step
  rintro ⟨⟨m, hcaller⟩, halive, fd, hpc, hlisten⟩
  have ha := hinv.alive halive
  have hshut := ha.shut (.inr (by rw [hcaller]; rfl)) (by rw [hpc]; rfl)
  rw [ha.listening.accepting fd hpc, hshut] at hlisten
  exact nomatch hlisten

/-- The calling thread alone, the server thread alone, for a number of steps. -/
def callerSteps (k : ℕ) : List PairAction := List.replicate k (.caller sampleEnv)
def pairServerSteps (k : ℕ) : List PairAction := List.replicate k (.server sampleEnv)

/-- A started server with nothing left over, and `http_enabled` set. -/
def samplePair : Pair where
  world := { World.initial (fun _ ↦ none) (fun _ ↦ none) with
    config := { (World.initial (fun _ ↦ none) fun _ ↦ none).config with httpEnabled := ⟨1, 0⟩ }
    srvBuff := .live }
  caller := .start .checkBuffer
  server := .initial ⟨[], [], [], []⟩

/-- A stop of a server thread that waits in `accept`. -/
theorem not_stuck_in_accept : ∃ s : Pair,
    Reach (stepPair samplePlatform 0) NoCheckAfterMiss samplePair s ∧
      s.caller = .stop (.joining 0) ∧ ¬Stuck 0 s := by
  have hrun : ∃ s, Reach (stepPair samplePlatform 0) NoCheckAfterMiss samplePair s ∧
      s.caller = .stop (.joining 0) :=
    exists_reach_of_runAll (callerSteps 13 ++ pairServerSteps 9 ++ callerSteps 6)
      (by decide +kernel)
  obtain ⟨s, hreach, hcaller⟩ := hrun
  exact ⟨s, hreach, hcaller, not_stuck_of_noCheckAfterMiss (w := samplePair.world) hreach⟩

/-- A stop while the server starts: the shutdown comes before `listen` and the quit check before
the release of `mxq`. -/
theorem stuck_while_starting :
    ¬∀ s : Pair, Reachable (stepPair samplePlatform 0) samplePair s → ¬Stuck 0 s := by
  intro hclaim
  have hrun : ∃ s, Reachable (stepPair samplePlatform 0) samplePair s ∧
      (s.caller = .stop (.joining 0) ∧ s.world.Alive 0 ∧ s.server.pc = .accepting 5 ∧
        s.world.sockets 5 = some .listening) :=
    exists_reach_of_runAll (callerSteps 13 ++ pairServerSteps 4 ++ callerSteps 4 ++
      pairServerSteps 5 ++ callerSteps 2) (by decide +kernel)
  obtain ⟨s, hreach, hcaller, halive, hpc, hlisten⟩ := hrun
  exact hclaim s hreach ⟨⟨0, hcaller⟩, halive, 5, hpc, hlisten⟩

end Stored.Daemon
