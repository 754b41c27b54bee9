import Stored.Daemon.Service

/-!
# The accept loop and its quit check

`ST_start_srv` locks `mxq` before it creates the server thread, and `ST_stop_srv` unlocks it: a
quit check reports true from the unlock on and not before. The loop has another exit, an `accept`
that fails, and no stop is needed for that one.
-/

namespace Stored.Daemon

open Http Run

variable {P : Platform}

/-- A server thread that is past its accept loop: a quit check has reported true or `accept` has
failed. -/
def Service.LeftLoop (s : Service) (n : ℕ) : Prop :=
  (s.servers n).pc = .unlockMxq ∨ s.world.threads.exited n = true

/-- A server leaves its loop after its stop has begun, and its quit check reports true exactly
after the stop has unlocked `mxq`. -/
structure LoopKept (P : Platform) (s : Service) : Prop where
  left : ∀ n, s.LeftLoop n → s.stopBegun n = true
  reports : ∀ n, (s.servers n).pc = .unlockMxq → s.released n = true
  asked : ∀ n e s', s.released n = true → (s.servers n).pc = .trylockMxq →
    stepService P s (.server n e) = some s' → (s'.servers n).pc = .unlockMxq

/-- A server thread waits in `accept`. -/
def ServePc.accepts : ServePc → Bool
  | .accepting _ => true
  | _ => false

/-- An `accept` that fails does so after the stop of its server has begun. -/
def FailsAfterStop (s : Service) : ServiceAction → Prop
  | .server n e => (s.servers n).pc.accepts = true → e.ok = true ∨ s.stopBegun n = true
  | _ => True

instance (s : Service) : (a : ServiceAction) → Decidable (FailsAfterStop s a)
  | .server _ _ => inferInstanceAs (Decidable (_ → _ ∨ _))
  | .begin _ | .caller _ | .foreignOpen _ | .foreignClose _ | .others _ _ _ =>
    inferInstanceAs (Decidable True)

/-- A stop that has unlocked `mxq`. -/
def StopPc.unlocked : StopPc → Bool
  | .join | .joining _ | .setStopped => true
  | _ => false

theorem mark_eq_true_iff {srvThread : Option ℕ} {record : ℕ → Bool} {n : ℕ} :
    mark srvThread record n = true ↔ srvThread = some n ∨ record n = true := by
  cases srvThread with
  | none => simp [mark]
  | some m =>
    by_cases hnm : n = m
    · simp [mark, hnm]
    · simp [mark, hnm, Ne.symm hnm]

/-- While a server runs, `mxq` is locked by the caller until the stop releases it, and free from
then on but for the server's own check. -/
structure MxqKept (s : Service) : Prop where
  unborn : ∀ n, s.world.threads.created ≤ n → (s.servers n).pc = .sigmask
  unmarked : ∀ n, s.world.threads.created ≤ n → s.stopBegun n ≠ true ∧ s.released n ≠ true
  creating : s.caller = some (.start .create) → s.world.srv.mxq.owner = some .main
  locked : ∀ n, s.world.Alive n → s.released n ≠ true → s.world.srv.mxq.owner = some .main
  free : ∀ n, s.world.Alive n → s.released n = true → (s.servers n).pc ≠ .unlockMxq →
    s.world.srv.mxq.owner = none
  reports : ∀ n, (s.servers n).pc = .unlockMxq → s.released n = true
  begun : ∀ n, s.released n = true → s.stopBegun n = true
  releasing : ∀ n, s.world.Alive n → s.released n = true →
    ∃ p restart, s.caller = some (.stop p restart) ∧ p.unlocked = true
  marked : ∀ p restart n, s.caller = some (.stop p restart) → p ≠ .test →
    s.world.srv.srvThread = some n → s.stopBegun n = true

theorem mxqKept_initial (heap : Addr → Option Text) (open' : ℤ → Bool) (arrays : ℕ → Buffers) :
    MxqKept (.initial heap open' arrays) where
  unborn _ _ := rfl
  unmarked _ _ := ⟨nofun, nofun⟩
  creating := nofun
  locked n halive := absurd halive.1 n.not_lt_zero
  free n halive := absurd halive.1 n.not_lt_zero
  reports := nofun
  begun := nofun
  releasing := nofun
  marked := nofun

/-- A start writes `mxq` past its test alone. -/
theorem startSrv_mxq {t : Tid} {hupBlocked : Bool} {e : Env} {w w' : World} {p : StartPc}
    {q : Option StartPc} (h : startSrv P t hupBlocked e w p = some (w', q)) :
    p.enabled = true ∨ w'.srv.mxq = w.srv.mxq := by
  cases startSrv_cases h <;> first | exact .inl rfl | exact .inr rfl

theorem mxqKept_start {e : Env} {s : Service} {p : StartPc} {w : World} {q : Option StartPc}
    (hhandled : Handled s.world s.caller) (hs : MxqKept s) (hcaller : s.caller = some (.start p))
    (h : startSrv P .main false e s.world p = some (w, q)) :
    MxqKept { s with world := w, caller := q.map .start } := by
  have hunreleased (n : ℕ) (halive : s.world.Alive n) : s.released n ≠ true := by
    intro hreleased
    obtain ⟨_, _, hstop, -⟩ := hs.releasing n halive hreleased
    exact nomatch hcaller.symm.trans hstop
  have hnone (hp : p.enabled = true) (hset : p ≠ .setStopped) (n : ℕ) : ¬s.world.Alive n := by
    refine hhandled.stopped (hhandled.starting p hcaller hp) ?_ n
    rw [hcaller]
    simpa using hset
  -- The threads that run after the step, of which a new one is not marked yet.
  have hthreads : s.world.threads.created ≤ w.threads.created ∧ ∀ n, w.Alive n →
      s.released n ≠ true ∧ w.srv.mxq.owner = some .main := by
    rcases startSrv_create_cases h with ⟨rfl, rfl, rfl⟩ | ⟨rfl, rfl, rfl⟩ |
      ⟨-, hset, -, hthreads, -, -, -⟩
    · split_ifs
      · refine ⟨Nat.le_succ _, fun n halive ↦ ?_⟩
        rcases Nat.lt_succ_iff_lt_or_eq.mp halive.1 with hlt | rfl
        · exact absurd ⟨hlt, halive.2⟩ (hnone rfl nofun n)
        · exact ⟨(hs.unmarked _ le_rfl).2, hs.creating hcaller⟩
      · exact ⟨le_rfl, fun n halive ↦ absurd halive (hnone rfl nofun n)⟩
    · refine ⟨le_rfl, fun n halive ↦ ?_⟩
      exact ⟨hunreleased n halive, hs.locked n halive (hunreleased n halive)⟩
    · refine ⟨hthreads ▸ le_rfl, fun n halive ↦ ?_⟩
      unfold World.Alive at halive
      rw [hthreads] at halive
      refine ⟨hunreleased n halive, ?_⟩
      rcases startSrv_mxq h with hp | hmxq
      · exact absurd halive (hnone hp hset n)
      · rw [hmxq]
        exact hs.locked n halive (hunreleased n halive)
  obtain ⟨hle, halive⟩ := hthreads
  refine ⟨fun n hn ↦ hs.unborn n (hle.trans hn), fun n hn ↦ hs.unmarked n (hle.trans hn),
    fun hc ↦ ?_, fun n hn _ ↦ (halive n hn).2, fun n hn hr ↦ absurd hr (halive n hn).1, hs.reports,
    hs.begun, fun n hn hr ↦ absurd hr (halive n hn).1, ?_⟩
  · obtain ⟨q', rfl, hq'⟩ := Option.map_eq_some_iff.mp hc
    obtain rfl := CallPc.start.inj hq'
    rcases startSrv_create_cases h with ⟨-, hq, -⟩ | ⟨-, hq, -⟩ | ⟨-, -, -, -, -, -, hmxq⟩
    · exact nomatch hq
    · exact nomatch hq
    · exact hmxq rfl
  · cases q <;> nofun

theorem mxqKept_stop {s : Service} {p : StopPc} {restart : Bool} {w : World} {q : Option StopPc}
    (hhandled : Handled s.world s.caller) (hs : MxqKept s)
    (hcaller : s.caller = some (.stop p restart)) (h : stopSrv .main s.world p = some (w, q)) :
    MxqKept { s with
      world := w
      caller := afterStop restart q
      stopBegun := if q = some .shutdownChild then
        mark s.world.srv.srvThread s.stopBegun else s.stopBegun
      released := if p = .unlockMxq then
        mark s.world.srv.srvThread s.released else s.released } := by
  have hunmarked (n : ℕ) (hn : s.world.threads.created ≤ n) : s.world.srv.srvThread ≠ some n :=
    fun hthread ↦ absurd (hhandled.known n hthread) (not_lt.mpr hn)
  have hreleasing (n : ℕ) (halive : s.world.Alive n) (hr : s.released n = true) :
      p.unlocked = true := by
    obtain ⟨p', r, hstop, hp'⟩ := hs.releasing n halive hr
    obtain ⟨rfl, -⟩ := CallPc.stop.inj (Option.some.inj (hcaller.symm.trans hstop))
    exact hp'
  have hmarked := hs.marked p restart
  -- A step that is not the test or the unlock, by what it leaves alone.
  have hkeep {w : World} {q : StopPc} (hp : p ≠ .test) (hsame : w.threads = s.world.threads ∧
      w.srv.srvThread = s.world.srv.srvThread ∧ w.srv.mxq = s.world.srv.mxq)
      (hq : p.unlocked = true → q.unlocked = true) :
      MxqKept { s with world := w, caller := some (.stop q restart) } := by
    obtain ⟨hthreads, hthread, hmxq⟩ := hsame
    have halive (n : ℕ) : w.Alive n ↔ s.world.Alive n := by
      unfold World.Alive
      rw [hthreads]
    refine ⟨?_, ?_, nofun, ?_, ?_, hs.reports, hs.begun, fun n hn hr ↦ ?_, fun _ _ n _ _ hn ↦ ?_⟩
    · simpa only [hthreads] using hs.unborn
    · simpa only [hthreads] using hs.unmarked
    · simpa only [halive, hmxq] using hs.locked
    · simpa only [halive, hmxq] using hs.free
    · exact ⟨q, restart, rfl, hq (hreleasing n ((halive n).mp hn) hr)⟩
    · exact hmarked n hcaller hp (hthread.symm.trans hn)
  -- Nothing runs at the end of a stop.
  have hend {w : World} (hsame : w.threads = s.world.threads ∧ ∀ n, ¬s.world.Alive n) :
      MxqKept { s with world := w, caller := afterStop restart none } := by
    obtain ⟨hthreads, hnone⟩ := hsame
    have hdead (n : ℕ) : ¬w.Alive n := by
      unfold World.Alive
      rw [hthreads]
      exact hnone n
    refine ⟨?_, ?_, fun hc ↦ ?_, fun n hn ↦ absurd hn (hdead n), fun n hn ↦ absurd hn (hdead n),
      hs.reports, hs.begun, fun n hn ↦ absurd hn (hdead n), fun _ _ _ hc ↦ ?_⟩
    · simpa only [hthreads] using hs.unborn
    · simpa only [hthreads] using hs.unmarked
    · exact nomatch afterStop_none_start hc
    · exact absurd hc afterStop_none_stop
  cases stopSrv_cases h with
  | stopped hstopped =>
    exact hend ⟨rfl, hhandled.stopped hstopped (by rw [hcaller]; nofun)⟩
  | running =>
    refine ⟨hs.unborn, fun n hn ↦ ⟨?_, (hs.unmarked n hn).2⟩, nofun, hs.locked, hs.free,
      hs.reports, fun n hr ↦ ?_, fun n hn hr ↦ absurd (hreleasing n hn hr) nofun,
      fun _ _ n _ _ hn ↦ ?_⟩
    · exact fun hb ↦ (mark_eq_true_iff.mp hb).elim (hunmarked n hn) (hs.unmarked n hn).1
    · exact mark_eq_true_iff.mpr (.inr (hs.begun n hr))
    · exact mark_eq_true_iff.mpr (.inl hn)
  | shutdownChild =>
    obtain ⟨sockets, heq⟩ := s.world.shutdown_frame s.world.srv.childfd
    exact hkeep nofun (by rw [heq]; exact ⟨rfl, rfl, rfl⟩) nofun
  | shutdownParent =>
    obtain ⟨sockets, heq⟩ := s.world.shutdown_frame s.world.srv.parentfd
    exact hkeep nofun (by rw [heq]; exact ⟨rfl, rfl, rfl⟩) nofun
  | unlockMxq =>
    refine ⟨hs.unborn, fun n hn ↦ ⟨(hs.unmarked n hn).1, ?_⟩, nofun, fun n hn hr ↦ ?_,
      fun _ _ _ _ ↦ rfl, fun n hpc ↦ ?_, fun n hr ↦ ?_, fun _ _ _ ↦ ⟨_, _, rfl, rfl⟩,
      fun _ _ n _ _ hn ↦ hmarked n hcaller nofun hn⟩
    · exact fun hr ↦ (mark_eq_true_iff.mp hr).elim (hunmarked n hn) (hs.unmarked n hn).2
    · exact absurd (mark_eq_true_iff.mpr (.inl (hhandled.current n hn))) hr
    · exact mark_eq_true_iff.mpr (.inr (hs.reports n hpc))
    · exact (mark_eq_true_iff.mp hr).elim (hmarked n hcaller nofun) (hs.begun n)
  | noThread | join | joined => exact hkeep nofun ⟨rfl, rfl, rfl⟩ fun _ ↦ rfl
  | self n hthread hself => exact nomatch hself
  | setStopped =>
    exact hend ⟨rfl, hhandled.joined restart hcaller⟩

theorem mxqKept_server {n : ℕ} {e : Env} {s : Service} {w : World} {server : Server}
    {openedBy : ℤ → Option ℕ} (hhandled : Handled s.world s.caller) (hs : MxqKept s)
    (halive : s.world.Alive n) (h : serve n e s.world (s.servers n) = some (w, some server)) :
    MxqKept { s with
      world := w, servers := Function.update s.servers n server, openedBy := openedBy } := by
  have honly (m : ℕ) (hm : s.world.Alive m) : m = n :=
    Option.some.inj ((hhandled.current m hm).symm.trans (hhandled.current n halive))
  have hunborn (m : ℕ) (hm : s.world.threads.created ≤ m) : m ≠ n :=
    fun heq ↦ absurd halive.1 (not_lt.mpr (heq ▸ hm))
  have hpc := serve_ne_unlockMxq h
  have hmxq := serve_quit_cases h
  obtain ⟨_, _, _, mxq, _, _, _, _, _, _, rfl⟩ := serve_frame h
  have hcheck : (server.pc = .unlockMxq → s.released n = true) ∧
      (s.released n ≠ true → mxq.owner = some .main) ∧
      (s.released n = true → server.pc ≠ .unlockMxq → mxq.owner = none) := by
    rcases hmxq with ⟨-, hfree, hnew, -⟩ | ⟨-, -, hnew, heq⟩ | ⟨-, hnew, heq⟩ | ⟨-, hnew, heq⟩
    · have hreleased : s.released n = true := by
        by_contra hr
        exact nomatch hfree.symm.trans (hs.locked n halive hr)
      exact ⟨fun _ ↦ hreleased, fun hr ↦ absurd hreleased hr, fun _ hne ↦ absurd hnew hne⟩
    · obtain rfl : mxq = s.world.srv.mxq := congrArg (·.srv.mxq) heq
      refine ⟨fun hunlock ↦ ?_, hs.locked n halive, fun hr _ ↦ hs.free n halive hr hpc⟩
      exact nomatch hnew.symm.trans hunlock
    · obtain rfl : mxq = s.world.srv.mxq := congrArg (·.srv.mxq) heq
      refine ⟨fun hunlock ↦ ?_, hs.locked n halive, fun hr _ ↦ hs.free n halive hr hpc⟩
      rw [hunlock] at hnew
      exact nomatch hnew
    · obtain rfl : mxq = s.world.srv.mxq := heq
      exact ⟨fun hunlock ↦ absurd hunlock hnew, hs.locked n halive,
        fun hr _ ↦ hs.free n halive hr hpc⟩
  obtain ⟨hreports, hlocked, hfree⟩ := hcheck
  refine ⟨fun m hm ↦ ?_, hs.unmarked, fun hc ↦ ?_, fun m hm hr ↦ ?_, fun m hm hr hne ↦ ?_,
    fun m hm ↦ ?_, hs.begun, hs.releasing, hs.marked⟩
  · exact (congrArg Server.pc (Function.update_of_ne (hunborn m hm) _ _)).trans (hs.unborn m hm)
  · -- The caller creates a thread while none runs.
    refine absurd halive (hhandled.stopped (hhandled.starting _ hc rfl) ?_ n)
    rw [show s.caller = _ from hc]
    nofun
  · obtain rfl := honly m hm
    exact hlocked hr
  · obtain rfl := honly m hm
    refine hfree hr fun heq ↦ hne ?_
    exact (congrArg Server.pc (Function.update_self _ _ _)).trans heq
  · by_cases heq : m = n
    · subst heq
      exact hreports ((congrArg Server.pc (Function.update_self _ _ _)).symm.trans hm)
    · exact hs.reports m ((congrArg Server.pc (Function.update_of_ne heq _ _)).symm.trans hm)

theorem mxqKept_exit {n : ℕ} {e : Env} {s : Service} {w : World} {openedBy : ℤ → Option ℕ}
    (hhandled : Handled s.world s.caller) (hs : MxqKept s) (halive : s.world.Alive n)
    (h : serve n e s.world (s.servers n) = some (w, none)) :
    MxqKept { s with world := w.exitThread n, openedBy := openedBy } := by
  obtain ⟨_, _, _, _, _, _, _, _, _, _, rfl⟩ := serve_frame h
  have hdead (m : ℕ) (hm : s.world.Alive m ∧ m ≠ n) : False :=
    hm.2 (Option.some.inj ((hhandled.current m hm.1).symm.trans (hhandled.current n halive)))
  refine ⟨hs.unborn, hs.unmarked, fun hc ↦ ?_,
    fun m hm ↦ (hdead m (World.alive_exitThread_iff.mp hm)).elim,
    fun m hm ↦ (hdead m (World.alive_exitThread_iff.mp hm)).elim, hs.reports, hs.begun,
    fun m hm ↦ (hdead m (World.alive_exitThread_iff.mp hm)).elim, hs.marked⟩
  refine absurd halive (hhandled.stopped (hhandled.starting _ hc rfl) ?_ n)
  rw [show s.caller = _ from hc]
  nofun

theorem mxqKept_step {s s' : Service} {a : ServiceAction} (hhandled : Handled s.world s.caller)
    (hs : MxqKept s) (h : stepService P s a = some s') : MxqKept s' := by
  cases stepService_cases h with
  | begin c hnone =>
    refine ⟨hs.unborn, hs.unmarked, ?_, hs.locked, hs.free, hs.reports, hs.begun,
      fun n hn hr ↦ ?_, fun p restart n hp hne ↦ ?_⟩
    · cases c <;> nofun
    · obtain ⟨_, _, hstop, -⟩ := hs.releasing n hn hr
      exact nomatch hnone.symm.trans hstop
    · cases c <;> cases hp <;> exact absurd rfl hne
  | start e p w q hcaller hstart => exact mxqKept_start hhandled hs hcaller hstart
  | stop e p restart w q hcaller hstop => exact mxqKept_stop hhandled hs hcaller hstop
  | server n e w server halive hserve => exact mxqKept_server hhandled hs halive hserve
  | exit n e w halive hserve => exact mxqKept_exit hhandled hs halive hserve
  | foreignOpen | foreignClose | others =>
    exact ⟨hs.unborn, hs.unmarked, hs.creating, hs.locked, hs.free, hs.reports, hs.begun,
      hs.releasing, hs.marked⟩

theorem stopBegun_step {s s' : Service} {a : ServiceAction} (h : stepService P s a = some s')
    {n : ℕ} (hn : s.stopBegun n = true) : s'.stopBegun n = true := by
  cases stepService_cases h with
  | stop e p restart w q hcaller hstop =>
    dsimp only
    split_ifs
    · exact mark_eq_true_iff.mpr (.inr hn)
    · exact hn
  | _ => exact hn

/-- A thread ends by a quit check that has reported true or by an `accept` that fails. -/
theorem exited_step {s s' : Service} {a : ServiceAction} (h : stepService P s a = some s')
    {n : ℕ} (hn : s'.world.threads.exited n = true) : s.world.threads.exited n = true ∨
      ∃ e, a = .server n e ∧ ((s.servers n).pc = .unlockMxq ∨
        (s.servers n).pc.accepts = true ∧ e.ok = false) := by
  cases stepService_cases h with
  | begin | foreignOpen | foreignClose | others => exact .inl hn
  | start e p w q hcaller hstart =>
    obtain ⟨_, _, _, _, _, _, _, _, _, rfl, -⟩ := startSrv_frame hstart
    exact .inl hn
  | stop e p restart w q hcaller hstop =>
    obtain ⟨_, _, _, rfl⟩ := stopSrv_frame hstop
    exact .inl hn
  | server m e w server halive hserve =>
    obtain ⟨_, _, _, _, _, _, _, _, _, _, rfl⟩ := serve_frame hserve
    exact .inl hn
  | exit m e w halive hserve =>
    have hleaves : (s.servers m).pc = .unlockMxq ∨
        (s.servers m).pc.accepts = true ∧ e.ok = false := by
      cases serve_cases hserve with
      | unlockMxq hpc => exact .inl hpc
      | refused fd hpc hfails => exact .inr ⟨by rw [hpc]; rfl, hfails⟩
    obtain ⟨_, _, _, _, _, _, _, _, _, _, rfl⟩ := serve_frame hserve
    by_cases hnm : n = m
    · subst hnm
      exact .inr ⟨e, rfl, hleaves⟩
    · exact .inl ((Function.update_of_ne hnm _ _).symm.trans hn)

/-- An `accept` that fails ends its thread, whether a stop has begun or not. -/
theorem exited_of_refused {s s' : Service} {n : ℕ} {e : Env}
    (h : stepService P s (.server n e) = some s') (haccepts : (s.servers n).pc.accepts = true)
    (hfails : e.ok = false) : s'.world.threads.exited n = true ∧ s'.stopBegun = s.stopBegun := by
  obtain ⟨fd, hpc⟩ : ∃ fd, (s.servers n).pc = .accepting fd := by
    generalize (s.servers n).pc = p at haccepts
    cases p with
    | accepting fd => exact ⟨fd, rfl⟩
    | _ => exact nomatch haccepts
  cases stepService_cases h with
  | server _ _ w server halive hserve => simp [serve, hpc, hfails] at hserve
  | exit _ _ w halive hserve => exact ⟨Function.update_self _ _ _, rfl⟩

theorem loopKept_of_mxqKept {s : Service} (hs : MxqKept s)
    (hexited : ∀ n, s.world.threads.exited n = true → s.stopBegun n = true) : LoopKept P s where
  left n hleft := hleft.elim (fun hpc ↦ hs.begun n (hs.reports n hpc)) (hexited n)
  reports := hs.reports
  asked n e s' hreleased hpc h := by
    have hquit (halive : s.world.Alive n) : ∃ w, serve n e s.world (s.servers n) =
        some (w, some { s.servers n with pc := .unlockMxq }) := by
      exact serve_quit hpc (hs.free n halive hreleased (by rw [hpc]; nofun))
    cases stepService_cases h with
    | server _ _ w server halive hserve =>
      obtain ⟨w', hquit⟩ := hquit halive
      obtain rfl := Option.some.inj (Prod.mk.inj (Option.some.inj (hquit.symm.trans hserve))).2
      change (Function.update s.servers n _ n).pc = .unlockMxq
      rw [Function.update_self]
    | exit _ _ w halive hserve =>
      obtain ⟨w', hquit⟩ := hquit halive
      exact nomatch (Prod.mk.inj (Option.some.inj (hquit.symm.trans hserve))).2

/-- In a run in which every `accept` that fails does so after the stop of its server has begun, no
server leaves its loop before that and each quit check reports whether `mxq` has been unlocked. The
first step that does not meet the condition ends a loop with no stop. -/
theorem loopKept_of_failsAfterStop {heap : Addr → Option Text} {open' : ℤ → Bool}
    {arrays : ℕ → Buffers} {s : Service}
    (h : Reach (stepService P) FailsAfterStop (.initial heap open' arrays) s) :
    LoopKept P s ∧ ∀ a s', stepService P s a = some s' → (LoopKept P s' ↔ FailsAfterStop s a) := by
  have hkept (s : Service) (h : Reach (stepService P) FailsAfterStop
      (.initial heap open' arrays) s) : MxqKept s :=
    h.invariant_of (fun s ↦ Handled s.world s.caller) MxqKept (fun _ ↦ handled_of_reach)
      (mxqKept_initial heap open' arrays) fun _ _ _ hhandled hs _ ↦ mxqKept_step hhandled hs
  have hexited (s s' : Service) (a : ServiceAction) (hs : MxqKept s)
      (hleft : ∀ n, s.world.threads.exited n = true → s.stopBegun n = true)
      (hok : FailsAfterStop s a) (hstep : stepService P s a = some s') (n : ℕ)
      (hn : s'.world.threads.exited n = true) : s'.stopBegun n = true := by
    apply stopBegun_step hstep
    rcases exited_step hstep hn with hn | ⟨e, rfl, hpc | ⟨haccepts, hfails⟩⟩
    · exact hleft n hn
    · exact hs.begun n (hs.reports n hpc)
    · exact (hok haccepts).resolve_left (by rw [hfails]; nofun)
  have hleft := h.invariant_of MxqKept
    (fun s ↦ ∀ n, s.world.threads.exited n = true → s.stopBegun n = true) hkept nofun
    fun s a s' hs hleft hok hstep ↦ hexited s s' a hs hleft hok hstep
  refine ⟨loopKept_of_mxqKept (hkept s h) hleft, fun a s' hstep ↦ ⟨fun hs' ↦ ?_, fun hok ↦ ?_⟩⟩
  · cases a with
    | server n e =>
      intro haccepts
      refine or_iff_not_imp_left.mpr fun hok ↦ ?_
      obtain ⟨hends, heq⟩ := exited_of_refused hstep haccepts (Bool.eq_false_iff.mpr hok)
      exact heq ▸ hs'.left n (.inr hends)
    | _ => trivial
  · exact loopKept_of_mxqKept (hkept s' (h.tail hok hstep))
      (hexited s s' a (hkept s h) hleft hok hstep)

/-- The `accept` of a server fails after the shutdown of a stop. -/
theorem loopKept_stopped : ∃ s : Service,
    Reach (stepService samplePlatform) FailsAfterStop sampleService s ∧
      s.world.threads.exited 0 = true ∧ LoopKept samplePlatform s := by
  have hrun : ∃ s, Reach (stepService samplePlatform) FailsAfterStop sampleService s ∧
      s.world.threads.exited 0 = true :=
    exists_reach_of_runAll (serviceStarted ++ .begin .stop :: serviceSteps 3 ++
      [.server 0 { sampleEnv with ok := false }]) (by decide +kernel)
  obtain ⟨s, hreach, hexited⟩ := hrun
  exact ⟨s, hreach, hexited, (loopKept_of_failsAfterStop hreach).1⟩

/-- The `accept` of a server fails for want of descriptors, and no stop has been called. -/
theorem not_loopKept_refused : ¬∀ s : Service,
    Reachable (stepService samplePlatform) sampleService s → LoopKept samplePlatform s := by
  intro hclaim
  have hrun : ∃ s, Reachable (stepService samplePlatform) sampleService s ∧
      (s.world.threads.exited 0 = true ∧ s.stopBegun 0 = false) :=
    exists_reach_of_runAll (serviceStarted ++ [.server 0 { sampleEnv with ok := false }])
      (by decide +kernel)
  obtain ⟨s, hreach, hexited, hbegun⟩ := hrun
  exact nomatch hbegun.symm.trans ((hclaim s hreach).left 0 (.inr hexited))

end Stored.Daemon
