import Stored.Daemon.Progress

/-!
# The daemon never stands still

If each SIGHUP finds the main thread in the loop, without the lock of the configuration and, with a
server thread alive, without the lock of the buffer, there is no state in which all threads wait:
whoever holds a mutex can go on, and so can the thread whose end is waited for.
-/

namespace Stored.Daemon

open Http Run

variable {P : Platform} {ok : Text → Prop}

/-- What a step from a place that holds the lock, or not, to another one does with the owner. -/
abbrev ConfigOwnerStep (w w' : World) (t : Tid) (before after : Bool) : Prop :=
  Mutex.OwnerStep w.config.mutex w'.config.mutex t (before = true) (after = true)

theorem startSrv_configOwner {t : Tid} {b : Bool} {e : Env} {w w' : World} {p : StartPc}
    {q : Option StartPc} (h : startSrv P t b e w p = some (w', q)) :
    ConfigOwnerStep w w' t p.holdsConfig (q.any StartPc.holdsConfig) := by
  cases startSrv_cases h with
  | lockConfig | lockAddress => exact .lock rfl rfl
  | unlockConfig | unlockAddress => exact .unlock rfl
  | readEnabled | readAddress => exact .keep rfl fun _ ↦ rfl
  | _ => exact .keep rfl nofun

theorem checkMtab_configOwner {t : Tid} {e : Env} {w w' : World} {p : MtabPc} {q : Option MtabPc}
    (h : checkMtab P t e w p = some (w', q)) :
    ConfigOwnerStep w w' t p.holdsConfig (q.any MtabPc.holdsConfig) := by
  cases checkMtab_cases h with
  | lockConfig => exact .lock rfl rfl
  | unlockConfig => exact .unlock rfl
  | readNotice => exact .keep rfl fun _ ↦ rfl
  | _ => exact .keep rfl nofun

theorem checkLoop_configOwner {t : Tid} {poll : Poll} {e : Env} {w w' : World} {p : LoopPc}
    {q : Option LoopPc} (h : checkLoop P t poll e w p = some (w', q)) :
    ConfigOwnerStep w w' t p.holdsConfig (q.any LoopPc.holdsConfig) := by
  cases checkLoop_cases h with
  | lockConfig => exact .lock rfl rfl
  | unlockConfig => exact .unlock rfl
  | readConfig => exact .keep rfl fun _ ↦ rfl
  | check p w' q hcheck =>
    have howner := checkMtab_configOwner hcheck
    cases q <;> exact howner
  | _ => exact .keep rfl nofun

theorem main_configOwner {poll : Poll} {e : Env} {w w' : World} {p p' : MainPc}
    (h : main P poll e w p = some (w', p')) :
    ConfigOwnerStep w w' .main p.holdsConfig p'.holdsConfig := by
  cases main_cases h with
  | newConfig => exact .unlock rfl
  | load _ _ _ hload | loaded _ _ hload =>
    obtain ⟨_, _, _, rfl, -⟩ := loadFromFile_frame hload
    exact .keep rfl nofun
  | start _ _ _ hstart | started _ _ hstart => exact startSrv_configOwner hstart
  | loop _ _ _ hloop | left _ _ hloop => exact checkLoop_configOwner hloop
  | stop _ _ _ hstop | stopped _ _ hstop | destroySrv _ _ _ hstop | stoppedAgain _ _ hstop =>
    obtain ⟨_, _, _, rfl⟩ := stopSrv_frame hstop
    exact .keep rfl nofun
  | _ => exact .keep rfl nofun

theorem reload_configOwner {t : Tid} {e : Env} {w w' : World} {p : HookPc} {q : Option HookPc}
    (h : reload P t e w p = some (w', q)) :
    ConfigOwnerStep w w' t p.holdsConfig (q.any HookPc.holdsConfig) := by
  cases reload_cases h with
  | lockConfig => exact .lock rfl rfl
  | load _ _ _ hload | loaded _ _ hload =>
    obtain ⟨_, _, _, rfl, -⟩ := loadFromFile_frame hload
    exact .keep rfl fun _ ↦ rfl
  | unlockConfig => exact .unlock rfl
  | stop _ _ _ hstop | stopped _ _ hstop =>
    obtain ⟨_, _, _, rfl⟩ := stopSrv_frame hstop
    exact .keep rfl nofun
  | start _ _ _ hstart | started _ _ hstart => exact startSrv_configOwner hstart

theorem serve_configOwner {n : ℕ} {e : Env} {w w' : World} {s : Server} {s' : Option Server}
    (h : serve n e w s = some (w', s')) :
    ConfigOwnerStep w w' (.thread n) s.pc.holdsConfig (s'.any (·.pc.holdsConfig)) := by
  have hout (p : ServePc) (hpc : s.pc = p) (hp : p.holdsConfig = false) {q : Prop} :
      s.pc.holdsConfig = true → q := fun h ↦ absurd h (by simp [hpc, hp])
  cases serve_cases h with
  | lockConfig => exact .lock rfl rfl
  | readPort => exact .keep rfl fun _ ↦ rfl
  | unlockConfig => exact .unlock rfl
  | abort | headers => exact .keep rfl id
  | sigmask hpc | socket hpc | bind hpc | listen hpc | quit hpc | goOn hpc | unlockMxq hpc
  | accept hpc | accepted _ hpc | refused _ hpc | fdopen hpc | request _ _ _ hpc | lockBuffer hpc
  | strdup _ hpc | unlockBuffer hpc | respond _ _ _ hpc | fflush _ _ _ hpc | fclose _ hpc
  | close _ hpc | freeNull hpc
  | free _ hpc => exact .keep rfl (hout _ hpc rfl)

abbrev BufferOwnerStep (w w' : World) (t : Tid) (before after : Bool) : Prop :=
  Mutex.OwnerStep w.buffer.mutex w'.buffer.mutex t (before = true) (after = true)

theorem checkLoop_bufferOwner {t : Tid} {poll : Poll} {e : Env} {w w' : World} {p : LoopPc}
    {q : Option LoopPc} (h : checkLoop P t poll e w p = some (w', q)) :
    BufferOwnerStep w w' t p.holdsBuffer (q.any LoopPc.holdsBuffer) := by
  cases checkLoop_cases h with
  | trylock => exact .lock rfl rfl
  | check p w' q hcheck =>
    obtain ⟨_, _, _, _, _, rfl⟩ := checkMtab_frame hcheck
    cases q <;> exact .keep rfl fun _ ↦ rfl
  | assignData => exact .keep rfl fun _ ↦ rfl
  | unlockBuffer => exact .unlock rfl
  | _ => exact .keep rfl nofun

theorem main_bufferOwner {poll : Poll} {e : Env} {w w' : World} {p p' : MainPc}
    (h : main P poll e w p = some (w', p')) :
    BufferOwnerStep w w' .main p.holdsBuffer p'.holdsBuffer := by
  cases main_cases h with
  | initSrv => exact .unlock rfl
  | load _ _ _ hload | loaded _ _ hload =>
    obtain ⟨_, _, _, rfl, -⟩ := loadFromFile_frame hload
    exact .keep rfl nofun
  | start _ _ _ hstart | started _ _ hstart =>
    obtain ⟨_, _, _, _, _, _, _, _, _, rfl, -, -⟩ := startSrv_frame hstart
    exact .keep rfl nofun
  | stop _ _ _ hstop | stopped _ _ hstop | destroySrv _ _ _ hstop | stoppedAgain _ _ hstop =>
    obtain ⟨_, _, _, rfl⟩ := stopSrv_frame hstop
    exact .keep rfl nofun
  | loop _ _ _ hloop | left _ _ hloop => exact checkLoop_bufferOwner hloop
  | _ => exact .keep rfl nofun

theorem serve_bufferOwner {n : ℕ} {e : Env} {w w' : World} {s : Server} {s' : Option Server}
    (h : serve n e w s = some (w', s')) :
    BufferOwnerStep w w' (.thread n) s.pc.holdsBuffer (s'.any (·.pc.holdsBuffer)) := by
  have hout (p : ServePc) (hpc : s.pc = p) (hp : p.holdsBuffer = false) {q : Prop} :
      s.pc.holdsBuffer = true → q := fun h ↦ absurd h (by simp [hpc, hp])
  cases serve_cases h with
  | lockBuffer => exact .lock rfl rfl
  | strdup => exact .keep rfl fun _ ↦ rfl
  | unlockBuffer => exact .unlock rfl
  | abort | headers => exact .keep rfl id
  | sigmask hpc | lockConfig hpc | readPort hpc | unlockConfig hpc | socket hpc | bind hpc
  | listen hpc | quit hpc | goOn hpc | unlockMxq hpc | accept hpc | accepted _ hpc | refused _ hpc
  | fdopen hpc | request _ _ _ hpc | respond _ _ _ hpc | fflush _ _ _ hpc | fclose _ hpc
  | close _ hpc | freeNull hpc
  | free _ hpc => exact .keep rfl (hout _ hpc rfl)

/-- The call of the main program, as a place of the hook. -/
def MainPc.call : MainPc → Option HookPc
  | .start p => some (.start p)
  | .stop p | .destroySrv p => some (.stop p)
  | _ => none

/-- A call finds the mutex that it has made anew free, and waits for a thread that was made. -/
structure Callable (w : World) (p : HookPc) : Prop where
  mxq : p.freshMxq = true → w.srv.mxq.owner = none
  joins : ∀ n, p.joins = some n → n < w.threads.created

theorem callable_lockConfig {w : World} : Callable w .lockConfig := ⟨nofun, nofun⟩

/-- The thread that `srv_thread` names was made. -/
def NamesMade (w : World) : Prop := ∀ n, w.srv.srvThread = some n → n < w.threads.created

theorem startSrv_callable {t : Tid} {b : Bool} {e : Env} {w w' : World} {p : StartPc}
    {q : Option StartPc} (h : startSrv P t b e w p = some (w', q)) (hp : Callable w (.start p))
    (hnames : NamesMade w) :
    NamesMade w' ∧ ∀ r, q = some r → Callable w' (.start r) := by
  have hfresh := hp.mxq
  cases startSrv_cases h with
  | create =>
    refine ⟨fun n hn ↦ ?_, ?_⟩
    · obtain rfl := Option.some.inj hn
      exact Nat.lt_succ_self _
    · rintro r ⟨⟩
      exact ⟨nofun, nofun⟩
  | initMxq =>
    refine ⟨hnames, ?_⟩
    rintro r ⟨⟩
    exact ⟨fun _ ↦ rfl, nofun⟩
  | lockAddress | readAddress | unlockAddress | badAddress | testAddress =>
    refine ⟨hnames, ?_⟩
    rintro r ⟨⟩
    exact ⟨fun _ ↦ hfresh rfl, nofun⟩
  | disabled | setStopped => exact ⟨hnames, nofun⟩
  | _ =>
    refine ⟨hnames, ?_⟩
    rintro r ⟨⟩
    exact ⟨nofun, nofun⟩

theorem stopSrv_callable {t : Tid} {w w' : World} {p : StopPc} {q : Option StopPc}
    (h : stopSrv t w p = some (w', q)) (hnames : NamesMade w) :
    NamesMade w' ∧ ∀ r, q = some r → Callable w' (.stop r) := by
  have hnames' : NamesMade w' := by
    obtain ⟨_, _, _, rfl⟩ := stopSrv_frame h
    exact hnames
  refine ⟨hnames', fun r hr ↦ ⟨nofun, fun n hn ↦ ?_⟩⟩
  have hcases := stopSrv_cases h
  rw [hr] at hcases
  cases hcases with
  | join m hthread =>
    obtain rfl : m = n := Option.some.inj hn
    exact hnames m hthread
  | _ => exact nomatch hn

theorem main_callable {poll : Poll} {e : Env} {w w' : World} {p p' : MainPc}
    (h : main P poll e w p = some (w', p')) (hp : ∀ r, p.call = some r → Callable w r)
    (hnames : NamesMade w) :
    NamesMade w' ∧ ∀ r, p'.call = some r → Callable w' r := by
  cases main_cases h with
  | load _ _ _ hload | loaded _ _ hload =>
    obtain ⟨_, _, _, rfl, -⟩ := loadFromFile_frame hload
    exact ⟨hnames, nofun⟩
  | setData =>
    refine ⟨hnames, ?_⟩
    rintro r ⟨⟩
    exact ⟨nofun, nofun⟩
  | start _ _ q hstart =>
    obtain ⟨hnames', hcall⟩ := startSrv_callable hstart (hp _ rfl) hnames
    refine ⟨hnames', ?_⟩
    rintro r ⟨⟩
    exact hcall q rfl
  | started _ _ hstart => exact ⟨(startSrv_callable hstart (hp _ rfl) hnames).1, nofun⟩
  | loop _ _ _ hloop =>
    obtain ⟨_, _, _, _, _, _, _, _, rfl, -⟩ := checkLoop_frame hloop
    exact ⟨hnames, nofun⟩
  | left _ _ hloop =>
    obtain ⟨_, _, _, _, _, _, _, _, rfl, -⟩ := checkLoop_frame hloop
    refine ⟨hnames, ?_⟩
    rintro r ⟨⟩
    exact ⟨nofun, nofun⟩
  | stop _ _ q hstop | destroySrv _ _ q hstop =>
    obtain ⟨hnames', hcall⟩ := stopSrv_callable hstop hnames
    refine ⟨hnames', ?_⟩
    rintro r ⟨⟩
    exact hcall q rfl
  | stopped _ _ hstop =>
    refine ⟨(stopSrv_callable hstop hnames).1, ?_⟩
    rintro r ⟨⟩
    exact ⟨nofun, nofun⟩
  | stoppedAgain _ _ hstop => exact ⟨(stopSrv_callable hstop hnames).1, nofun⟩
  | _ => exact ⟨hnames, nofun⟩

theorem reload_callable {t : Tid} {e : Env} {w w' : World} {p : HookPc} {q : Option HookPc}
    (h : reload P t e w p = some (w', q)) (hp : Callable w p) (hnames : NamesMade w) :
    NamesMade w' ∧ ∀ r, q = some r → Callable w' r := by
  cases reload_cases h with
  | lockConfig | unlockConfig =>
    refine ⟨hnames, ?_⟩
    rintro r ⟨⟩
    exact ⟨nofun, nofun⟩
  | load _ _ _ hload | loaded _ _ hload =>
    obtain ⟨_, _, _, rfl, -⟩ := loadFromFile_frame hload
    refine ⟨hnames, ?_⟩
    rintro r ⟨⟩
    exact ⟨nofun, nofun⟩
  | stop _ _ q hstop =>
    obtain ⟨hnames', hcall⟩ := stopSrv_callable hstop hnames
    refine ⟨hnames', ?_⟩
    rintro r ⟨⟩
    exact hcall q rfl
  | stopped _ _ hstop =>
    refine ⟨(stopSrv_callable hstop hnames).1, ?_⟩
    rintro r ⟨⟩
    exact ⟨nofun, nofun⟩
  | start _ _ q hstart =>
    obtain ⟨hnames', hcall⟩ := startSrv_callable hstart hp hnames
    refine ⟨hnames', ?_⟩
    rintro r ⟨⟩
    exact hcall q rfl
  | started _ _ hstart => exact ⟨(startSrv_callable hstart hp hnames).1, nofun⟩

/-- No server thread is alive between the making of `mxq` and its lock. -/
theorem not_alive_of_freshMxq {w : World} {p : HookPc} (hp : HookOk w p)
    (hfresh : p.freshMxq = true) (n : ℕ) : ¬w.Alive n := by
  cases p with
  | start p =>
    cases p with
    | lockAddress | readAddress | unlockAddress | testAddress | lockMxq => exact hp n
    | _ => exact nomatch hfresh
  | _ => exact nomatch hfresh

/-- Whoever holds the lock of the configuration or that of the buffer is inside its section, and
the calls of the main thread and of the hook on it are good. -/
structure Awake (d : State) : Prop where
  config : d.world.config.mutex.Guarded Place.tid d.holdsConfig
  buffer : d.world.buffer.mutex.Guarded id d.holdsBuffer
  names : NamesMade d.world
  main : ∀ p, d.main.call = some p → Callable d.world p
  hook : ∀ p, d.mainHook = some p → Callable d.world p

/-- A step that makes threads at most keeps a call good. -/
theorem Callable.congr {w w' : World} {p : HookPc} (h : Callable w p)
    (hmxq : p.freshMxq = true → w'.srv.mxq = w.srv.mxq)
    (hle : w.threads.created ≤ w'.threads.created) : Callable w' p where
  mxq hfresh := (congrArg Mutex.owner (hmxq hfresh)).trans (h.mxq hfresh)
  joins n hn := (h.joins n hn).trans_le hle

/-- The call of a main program with the hook on it does not use `mxq`. -/
theorem not_freshMxq_of_uncommitted {p : MainPc} {r : HookPc} (hp : p.committed = false)
    (hr : p.call = some r) : r.freshMxq ≠ true := by
  cases p with
  | start p =>
    obtain rfl := Option.some.inj hr
    cases p with
    | checkBuffer | lockConfig | readEnabled | unlockConfig | test => exact nofun
    | _ => exact nomatch hp
  | stop p | destroySrv p =>
    obtain rfl := Option.some.inj hr
    exact nofun
  | _ => exact nomatch hr

theorem MainOk.call {w : World} {p : MainPc} {r : HookPc} (h : MainOk w p) (hr : p.call = some r) :
    HookOk w r := by
  cases p with
  | start p | stop p | destroySrv p =>
    obtain rfl := Option.some.inj hr
    exact h
  | _ => exact nomatch hr

theorem awake_main {d : State} {poll : Poll} {e : Env} {w : World} {p : MainPc} (hd : Awake d)
    (hhook : d.mainHook = none) (hmain : main P poll e d.world d.main = some (w, p)) :
    Awake { d with world := w, main := p } := by
  obtain ⟨hexited, hcreated, -⟩ := main_threads hmain
  have halive {n : ℕ} (h : d.world.Alive n) : w.Alive n := ⟨h.1.trans_le hcreated, hexited ▸ h.2⟩
  obtain ⟨hnames, hcall⟩ := main_callable hmain hd.main hd.names
  refine ⟨?_, ?_, hnames, hcall,
    fun r hr ↦ absurd (hhook.symm.trans hr) (Option.some_ne_none r).symm⟩
  · refine hd.config.step (c := .main) (main_configOwner hmain) fun c hc hin ↦ ?_
    cases c with
    | main => exact absurd rfl hc
    | server n => exact ⟨halive hin.1, hin.2⟩
    | mainHook | serverHook => exact hin
  · refine hd.buffer.step (c := .main) (main_bufferOwner hmain) fun t ht hin ↦ ?_
    cases t with
    | main => exact absurd rfl ht
    | thread n => exact ⟨halive hin.1, hin.2⟩

theorem awake_mainHook {d : State} {e : Env} {w : World} {p : HookPc} {q : Option HookPc}
    (hone : OneAlive d) (hd : Awake d) (hp : d.mainHook = some p)
    (hreload : reload P .main e d.world p = some (w, q)) :
    Awake { d with world := w, mainHook := q } := by
  have hexited := reload_exited hreload
  have hframe : w.buffer = d.world.buffer ∧ d.world.threads.created ≤ w.threads.created := by
    obtain ⟨_, _, _, _, _, _, _, _, rfl, -, hcreated⟩ := reload_frame hreload
    exact ⟨rfl, hcreated⟩
  obtain ⟨hbuffer, hcreated⟩ := hframe
  have halive {n : ℕ} (h : d.world.Alive n) : w.Alive n := ⟨h.1.trans_le hcreated, hexited ▸ h.2⟩
  obtain ⟨hnames, hcall⟩ := reload_callable hreload (hd.hook p hp) hd.names
  refine ⟨?_, ?_, hnames, fun r hr ↦ ?_, hcall⟩
  · have howner := reload_configOwner hreload
    refine hd.config.step (c := .mainHook) (howner.imp (fun hin ↦ ?_) id) fun c hc hin ↦ ?_
    · simpa [State.holdsConfig, hp] using hin
    · cases c with
      | mainHook => exact absurd rfl hc
      | server n => exact ⟨halive hin.1, hin.2⟩
      | main | serverHook => exact hin
  · rw [hbuffer]
    refine hd.buffer.mono fun t hin ↦ ?_
    cases t with
    | main => exact hin
    | thread n => exact ⟨halive hin.1, hin.2⟩
  · have huncommitted := (hone.hook p hp).2
    exact (hd.main r hr).congr
      (fun hfresh ↦ absurd hfresh (not_freshMxq_of_uncommitted huncommitted hr)) hcreated

theorem awake_server {d d' : State} {n : ℕ} {e : Env} (hone : OneAlive d) (hd : Awake d)
    (h : step P d (.server n e) = some d') : Awake d' := by
  obtain ⟨-, halive, -, w, s, hserve, rfl⟩ := step_server h
  have hconfig := serve_configOwner hserve
  have hbuffer := serve_bufferOwner hserve
  have hthreads : w.threads = d.world.threads ∧ w.srv.srvThread = d.world.srv.srvThread := by
    obtain ⟨_, _, _, _, _, _, _, _, _, _, rfl⟩ := serve_frame hserve
    exact ⟨rfl, rfl⟩
  obtain ⟨hthreads, hthread⟩ := hthreads
  have hmain (r : HookPc) (hr : d.main.call = some r) : r.freshMxq ≠ true := by
    cases hhook : d.mainHook with
    | none => exact fun hfresh ↦ not_alive_of_freshMxq ((hone.main hhook).call hr) hfresh n halive
    | some p => exact not_freshMxq_of_uncommitted (hone.hook p hhook).2 hr
  have hhook (r : HookPc) (hr : d.mainHook = some r) : r.freshMxq ≠ true := fun hfresh ↦
    not_alive_of_freshMxq (hone.hook r hr).1 hfresh n halive
  have hnames : NamesMade w := by
    rw [NamesMade, hthreads, hthread]
    exact hd.names
  have hcall {r : HookPc} (hr : Callable d.world r) (hfresh : r.freshMxq ≠ true) : Callable w r :=
    hr.congr (fun h ↦ absurd h hfresh) (by rw [hthreads])
  have hstays {m : ℕ} (hm : m ≠ n) (h : d.world.Alive m) : (w.exitThread n).Alive m :=
    World.alive_exitThread_iff.mpr ⟨by rwa [World.Alive, hthreads], hm⟩
  cases s with
  | some s =>
    have hafter {m : ℕ} (hm : d.world.Alive m) : w.Alive m := by rwa [World.Alive, hthreads]
    refine ⟨?_, ?_, hnames, fun r hr ↦ hcall (hd.main r hr) (hmain r hr),
      fun r hr ↦ hcall (hd.hook r hr) (hhook r hr)⟩
    · refine hd.config.step (c := .server n) (hconfig.imp And.right fun hin ↦ ⟨hafter halive, ?_⟩)
        fun c hc hin ↦ ?_
      · simpa only [Function.update_self, Option.any_some] using hin
      · cases c with
        | server m =>
          have hm : m ≠ n := fun heq ↦ hc (congrArg Place.server heq)
          refine ⟨hafter hin.1, ?_⟩
          simpa only [Function.update_of_ne hm] using hin.2
        | main | mainHook | serverHook => exact hin
    · refine hd.buffer.step (c := .thread n) (hbuffer.imp And.right fun hin ↦ ⟨hafter halive, ?_⟩)
        fun t ht hin ↦ ?_
      · simpa only [Function.update_self, Option.any_some] using hin
      · cases t with
        | main => exact hin
        | thread m =>
          have hm : m ≠ n := fun heq ↦ ht (congrArg Tid.thread heq)
          refine ⟨hafter hin.1, ?_⟩
          simpa only [Function.update_of_ne hm] using hin.2
  | none =>
    refine ⟨?_, ?_, hnames,
      fun r hr ↦ (hcall (hd.main r hr) (hmain r hr)).congr (fun _ ↦ rfl) le_rfl,
      fun r hr ↦ (hcall (hd.hook r hr) (hhook r hr)).congr (fun _ ↦ rfl) le_rfl⟩
    · refine hd.config.step (c := .server n) (hconfig.imp And.right fun hin ↦ absurd hin
        Bool.false_ne_true) fun c hc hin ↦ ?_
      cases c with
      | server m => exact ⟨hstays (fun heq ↦ hc (congrArg Place.server heq)) hin.1, hin.2⟩
      | main | mainHook | serverHook => exact hin
    · refine hd.buffer.step (c := .thread n) (hbuffer.imp And.right fun hin ↦ absurd hin
        Bool.false_ne_true) fun t ht hin ↦ ?_
      cases t with
      | main => exact hin
      | thread m => exact ⟨hstays (fun heq ↦ ht (congrArg Tid.thread heq)) hin.1, hin.2⟩

theorem awake_step {d d' : State} {a : Action} (hone : OneAlive d) (hd : Awake d)
    (hok : HupsServing d a) (h : step P d a = some d') : Awake d' := by
  cases a with
  | main poll e =>
    obtain ⟨-, hhook, w, p, hmain, rfl⟩ := step_main h
    exact awake_main hd hhook hmain
  | mainHook e =>
    obtain ⟨-, p, w, q, hp, hreload, rfl⟩ := step_mainHook h
    exact awake_mainHook hone hd hp hreload
  | server n e => exact awake_server hone hd h
  | serverHook n e =>
    obtain ⟨-, p, w, q, hp, -, -⟩ := step_serverHook h
    exact absurd ((hone.serverHook n).symm.trans hp) (Option.some_ne_none p).symm
  | hup t =>
    obtain ⟨-, htakes, rfl⟩ := step_hup h
    obtain ⟨rfl, -, -⟩ := hok
    have hhook : d.mainHook = none := htakes
    refine ⟨hd.config.mono fun c hin ↦ ?_, hd.buffer.mono fun t hin ↦ ?_, hd.names, hd.main, ?_⟩
    · cases c with
      | mainHook => simp [State.holdsConfig, hhook] at hin
      | main | server | serverHook => exact hin
    · cases t <;> exact hin
    · intro p hp
      obtain rfl := Option.some.inj hp
      exact callable_lockConfig
  | int t =>
    obtain ⟨-, -, rfl⟩ := step_int h
    refine ⟨hd.config.mono fun c hin ↦ ?_, hd.buffer.mono fun t hin ↦ ?_, hd.names,
      fun r hr ↦ (hd.main r hr).congr (fun _ ↦ rfl) le_rfl,
      fun r hr ↦ (hd.hook r hr).congr (fun _ ↦ rfl) le_rfl⟩
    · cases c <;> exact hin
    · cases t <;> exact hin

theorem awake_of_reach {heap : Addr → Option Text} {sockets : ℤ → Option Socket}
    {arrays : ℕ → Buffers} {d : State}
    (h : Reach (step P) HupsServing (.initial heap sockets arrays) d) : Awake d :=
  h.invariant_of OneAlive Awake (fun _ ↦ oneAlive_of_reach)
    ⟨fun t ho ↦ absurd ho (Option.some_ne_none t).symm, fun t ho ↦ absurd ho
      (Option.some_ne_none t).symm, nofun, nofun, nofun⟩
    fun _ _ _ hone hd ↦ awake_step hone hd

/-! ## No circle of waits -/

theorem not_blocked_none {w : World} : ¬Blocked w none none := by
  rintro (⟨l, hl, -⟩ | ⟨n, hn, -⟩)
  · exact nomatch hl
  · exact nomatch hn

theorem MainPc.not_blocked_of_holdsConfig {w : World} {p : MainPc} (hp : p.holdsConfig = true) :
    ¬Blocked w p.waits p.joins := by
  cases p with
  | start p => cases p <;> first | exact not_blocked_none | exact nomatch hp
  | loop p =>
    cases p with
    | readConfig | unlockConfig => exact not_blocked_none
    | check p => cases p <;> first | exact not_blocked_none | exact nomatch hp
    | _ => exact nomatch hp
  | _ => exact nomatch hp

theorem HookPc.not_blocked_of_holdsConfig {w : World} {p : HookPc} (hp : p.holdsConfig = true) :
    ¬Blocked w p.waits p.joins := by
  cases p with
  | load | unlockConfig => exact not_blocked_none
  | start p => cases p <;> first | exact not_blocked_none | exact nomatch hp
  | _ => exact nomatch hp

theorem ServePc.not_blocked_of_holds {w : World} {p : ServePc}
    (hp : p.holdsConfig = true ∨ p.holdsBuffer = true) : ¬Blocked w p.waits none := by
  cases p with
  | readPort | unlockConfig | strdup | unlockBuffer => exact not_blocked_none
  | _ => rcases hp with hp | hp <;> exact nomatch hp

/-- A main thread that waits, and not for the lock of the configuration, does so in a call. -/
theorem MainPc.blocked_call {w : World} {p : MainPc} (h : Blocked w p.waits p.joins)
    (hconfig : w.config.mutex.owner = none) : ∃ r, p.call = some r ∧ Blocked w r.waits r.joins := by
  cases p with
  | start p => cases p <;> exact ⟨_, rfl, h⟩
  | stop p | destroySrv p => cases p <;> exact ⟨_, rfl, h⟩
  | loop p =>
    rcases h with ⟨l, hl, howner⟩ | ⟨n, hn, -⟩
    · have hl : l = .config := by
        cases p with
        | lockConfig => exact (Option.some.inj hl).symm
        | check p => cases p <;> first | exact (Option.some.inj hl).symm | exact nomatch hl
        | _ => exact nomatch hl
      exact absurd (hl ▸ hconfig) howner
    · exact nomatch hn
  | _ => exact absurd h not_blocked_none

/-- A good call waits for the lock of the configuration or for the end of a thread that is alive. -/
theorem Callable.alive_of_blocked {w : World} {p : HookPc} (hp : Callable w p)
    (hconfig : w.config.mutex.owner = none) (h : Blocked w p.waits p.joins) :
    ∃ n, p.joins = some n ∧ w.Alive n := by
  rcases h with ⟨l, hl, howner⟩ | ⟨n, hn, hexited⟩
  · cases p with
    | lockConfig =>
      obtain rfl := Option.some.inj hl
      exact absurd hconfig howner
    | start p =>
      cases p with
      | lockConfig | lockAddress =>
        obtain rfl := Option.some.inj hl
        exact absurd hconfig howner
      | lockMxq =>
        obtain rfl := Option.some.inj hl
        exact absurd (hp.mxq rfl) howner
      | _ => exact nomatch hl
    | _ => exact nomatch hl
  · exact ⟨n, hn, hp.joins n hn, hexited⟩

/-- Every thread of the daemon waits. -/
structure Asleep (d : State) : Prop where
  main : d.mainHook = none → Blocked d.world d.main.waits d.main.joins
  hook : ∀ p, d.mainHook = some p → Blocked d.world p.waits p.joins
  server : ∀ n, d.world.Alive n → Blocked d.world (d.servers n).pc.waits none

theorem Asleep.config {d : State} (hd : Asleep d) (hawake : Awake d) (hfree : ReloadsFree d) :
    d.world.config.mutex.owner = none := by
  by_contra howner
  obtain ⟨t, howner⟩ := Option.ne_none_iff_exists'.mp howner
  have hmain : t ≠ .main := by
    rintro rfl
    cases hhook : d.mainHook with
    | some p =>
      have hholds := (hfree.main p hhook).config howner
      exact HookPc.not_blocked_of_holdsConfig hholds (hd.hook p hhook)
    | none =>
      obtain ⟨c, hc, hin⟩ := hawake.config _ howner
      cases c with
      | main => exact MainPc.not_blocked_of_holdsConfig hin (hd.main hhook)
      | mainHook => simp [State.holdsConfig, hhook] at hin
      | server | serverHook => cases hc
  obtain ⟨c, rfl, hin⟩ := hawake.config t howner
  cases c with
  | main | mainHook => exact hmain rfl
  | server n => exact ServePc.not_blocked_of_holds (.inl hin.2) (hd.server n hin.1)
  | serverHook n => simp [State.holdsConfig, hfree.server n] at hin

/-- A server thread that is alive waits for the main thread, which has the buffer. -/
theorem Asleep.buffer {d : State} (hd : Asleep d) (hawake : Awake d) (hfree : ReloadsFree d) {n : ℕ}
    (halive : d.world.Alive n) :
    d.world.buffer.mutex.owner = some .main ∧ d.main.holdsBuffer = true := by
  have howner : d.world.buffer.mutex.owner ≠ none := by
    rcases hd.server n halive with ⟨l, hl, howner⟩ | ⟨m, hm, -⟩
    · cases hpc : (d.servers n).pc with
      | lockConfig =>
        obtain rfl := Option.some.inj ((congrArg ServePc.waits hpc).symm.trans hl)
        exact absurd (hd.config hawake hfree) howner
      | lockBuffer =>
        obtain rfl := Option.some.inj ((congrArg ServePc.waits hpc).symm.trans hl)
        exact howner
      | _ => exact nomatch (congrArg ServePc.waits hpc).symm.trans hl
    · exact nomatch hm
  obtain ⟨t, howner⟩ := Option.ne_none_iff_exists'.mp howner
  obtain ⟨t, rfl, hin⟩ := hawake.buffer t howner
  cases t with
  | main => exact ⟨howner, hin⟩
  | thread m => exact absurd (hd.server m hin.1) (ServePc.not_blocked_of_holds (.inr hin.2))

theorem not_asleep {d : State} (hawake : Awake d) (hfree : ReloadsFree d) : ¬Asleep d := by
  intro hd
  have hconfig := hd.config hawake hfree
  cases hhook : d.mainHook with
  | some p =>
    -- the hook waits for a thread, and that thread for the main thread below the hook
    obtain ⟨n, hn, halive⟩ := (hawake.hook p hhook).alive_of_blocked hconfig (hd.hook p hhook)
    have hstopping : p.stopping = true := by
      cases p with
      | start => exact nomatch hn
      | _ => rfl
    have hexited :=
      (hfree.main p hhook).buffer hstopping (hd.buffer hawake hfree halive).1 n halive.1
    exact absurd (hexited.symm.trans halive.2) (by decide)
  | none =>
    obtain ⟨r, hr, hblocked⟩ := MainPc.blocked_call (hd.main hhook) hconfig
    obtain ⟨n, hn, halive⟩ := (hawake.main r hr).alive_of_blocked hconfig hblocked
    have hholds := (hd.buffer hawake hfree halive).2
    cases hpc : d.main with
    | loop => rw [hpc] at hr; exact nomatch hr
    | _ => rw [hpc] at hholds; exact nomatch hholds

/-- A SIGHUP in the loop finds a main thread that may serve. -/
theorem HupsUnlocked.serving {d : State} {a : Action} (h : HupsUnlocked d a) : HupsServing d a := by
  cases a with
  | hup t =>
    obtain ⟨⟨rfl, hloop⟩, -⟩ := h
    cases hpc : d.main with
    | loop => exact ⟨rfl, by rw [hpc]; rfl, by rw [hpc]; rfl⟩
    | _ => rw [hpc] at hloop; exact nomatch hloop
  | _ => trivial

/-- The action is the step of a thread and not the delivery of a signal. -/
def Action.ofThread : Action → Bool
  | .hup _ | .int _ => false
  | _ => true

/-- In a run in which each SIGHUP finds the main thread in the loop, without the lock of the
configuration and, with a server thread alive, without the lock of the buffer, there is always a
thread that can take a step, as long as there is memory. -/
theorem goesOn_of_hupsUnlocked {heap : Addr → Option Text} {sockets : ℤ → Option Socket}
    {arrays : ℕ → Buffers} {d : State}
    (h : Reach (step P) HupsUnlocked (.initial heap sockets arrays) d)
    (hended : d.world.ended = false) (hmemory : ∃ a, d.world.heap a = none) :
    ∃ a : Action, a.ofThread = true ∧ (step P d a).isSome = true := by
  have hserving := h.mono fun t a ↦ HupsUnlocked.serving
  have hfree : ReloadsFree d := h.invariant ReloadsFree ⟨nofun, fun _ ↦ rfl⟩
    fun _ _ _ ↦ reloadsFree_step
  have hnever := neverStuck_of_hupsServing hserving hended hmemory
  by_contra hnone
  push Not at hnone
  refine not_asleep (awake_of_reach hserving) hfree
    ⟨fun hhook ↦ ?_, fun p hp ↦ ?_, fun n halive ↦ ?_⟩
  · refine (hnever.main hhook).resolve_right ?_
    rintro ⟨poll, e, he⟩
    exact hnone (.main poll e) rfl he
  · refine (hnever.hook p hp).resolve_right ?_
    rintro ⟨e, he⟩
    exact hnone (.mainHook e) rfl he
  · refine (hnever.server n halive).resolve_right ?_
    rintro ⟨e, he⟩
    exact hnone (.server n e) rfl he

/-- The hook waits for the end of the server thread, and the server thread goes on. -/
theorem goesOn_in_reload : ∃ d : State, Reach (step samplePlatform) HupsUnlocked sampleState d ∧
    (d.mainHook = some (.stop (.joining 0)) ∧ d.world.Alive 0) ∧
    ∃ a : Action, a.ofThread = true ∧ (step samplePlatform d a).isSome = true := by
  have hrun : ∃ d, Reach (step samplePlatform) HupsUnlocked sampleState d ∧
      (d.mainHook = some (.stop (.joining 0)) ∧ d.world.Alive 0) ∧
      d.world.ended = false ∧ d.world.heap 1 = none :=
    exists_reach_of_runAll (mainSteps 33 ++ .hup .main :: hookSteps 16) (by decide +kernel)
  obtain ⟨d, hreach, hwaits, hended, hfree⟩ := hrun
  exact ⟨d, hreach, hwaits, goesOn_of_hupsUnlocked hreach hended ⟨1, hfree⟩⟩

end Stored.Daemon
