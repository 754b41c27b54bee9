import Stored.Daemon.Publish
import Stored.Daemon.SingleServer

/-!
# Reports across reloads and the stop

The server is stopped and started again by the reload hook, and stopped for good after the loop. If
the main thread takes each SIGHUP while it may serve, outside of the two windows, what clients
receive are still the reports of scans, in the order of the scans, whatever SIGINTs are taken: the
text that a server thread copies is alive and published, and no server thread is left when it is
freed.
-/

namespace Stored.Daemon

open Json Http Run

variable {P : Platform} {ok : Text → Prop}

/-- The main thread has not called `ST_start_srv`. -/
def MainPc.building : MainPc → Bool
  | .demonize | .newConfig | .load _ | .assignConfig | .initMtabChecker | .initSrv
  | .assignSrvBuff | .setData => true
  | _ => false

/-- `ST_stop_srv` has returned. -/
def MainPc.over : MainPc → Bool
  | .destroySrv _ | .destroyMxq | .destroyBuffer | .freeBuffer | .endmntent | .freeEntries
  | .destroyCfg | .destroyConfig | .terminated | .exit => true
  | _ => false

/-- From the call of `ST_start_srv` to the return of `ST_stop_srv`. -/
def MainPc.serving (p : MainPc) : Bool := !p.building && !p.over

theorem MainPc.serving_iff {p : MainPc} : p.serving = true ↔ p.building ≠ true ∧ p.over ≠ true := by
  simp [serving]

/-- SIGHUPs are taken by the main thread, while it may serve and outside of the two windows. -/
def HupsServing (d : State) : Action → Prop
  | .hup t => t = .main ∧ d.main.serving = true ∧ d.main.committed = false
  | _ => True

instance (d : State) : (a : Action) → Decidable (HupsServing d a)
  | .hup _ => inferInstanceAs (Decidable (_ ∧ _ ∧ _))
  | .main _ _ | .mainHook _ | .server _ _ | .serverHook _ _ | .int _ =>
    inferInstanceAs (Decidable True)

theorem HupsServing.uncommitted {d : State} {a : Action} (h : HupsServing d a) :
    HupsUncommitted d a := by
  cases a with
  | hup t => exact ⟨h.1, h.2.2⟩
  | _ => trivial

/-- What is known of the text at each place of the loop, told to stop or not. -/
def LoopPc.TextIn (P : Platform) (w : World) : LoopPc → Prop
  | .check p => Counted w ∧ p.TextAt P w
  | .assignData => Rebuilt P w
  | _ => Live w ∧ Published P w

/-- What is known of the text at each place of the main thread. -/
def MainPc.TextIn (P : Platform) (w : World) : MainPc → Prop
  | .demonize | .newConfig | .load _ | .assignConfig | .initMtabChecker => w.entries.completed = 0
  | .initSrv | .assignSrvBuff | .setData =>
    Live w ∧ w.entries.scans = 0 ∧ w.entries.completed = 0
  | .start _ | .initCheckLoop | .setActive | .bindNetlink | .stop _ => Live w ∧ Published P w
  | .loop p => p.TextIn P w
  | .destroySrv _ | .destroyMxq | .destroyBuffer | .freeBuffer | .endmntent | .freeEntries => Live w
  | .destroyCfg | .destroyConfig | .terminated | .exit => True

/-- Where the main thread may serve and does not hold the buffer, what is served is published. -/
theorem MainPc.TextIn.published {w : World} {p : MainPc} (h : p.TextIn P w)
    (hserving : p.serving = true) (hfree : p.holdsBuffer = false) : Live w ∧ Published P w := by
  cases p with
  | loop p =>
    cases p with
    | check | assignData => exact nomatch hfree
    | _ => exact h
  | start | initCheckLoop | setActive | bindNetlink | stop => exact h
  | _ => exact nomatch hserving

/-- A step that leaves the entries, their text and what is served alone keeps what is known. -/
theorem MainPc.TextIn.congr {w w' : World} {p : MainPc} (h : p.TextIn P w)
    (hentries : w'.entries = w.entries) (hdata : w'.buffer.data = w.buffer.data)
    (hheap : w'.heap w.entries.textural = w.heap w.entries.textural) : p.TextIn P w' := by
  have hlive : Live w → Live w' := fun h ↦ by rwa [Live, hentries, hheap]
  have hpublished (h : Live w ∧ Published P w) : Live w' ∧ Published P w' := by
    refine ⟨hlive h.1, ?_⟩
    rw [Published, FromLastScan, Shown, hentries, hdata, hheap]
    exact h.2
  cases p with
  | loop p =>
    cases p with
    | check p => exact ⟨by rw [Counted, hentries]; exact h.1, h.2.congr hentries hheap⟩
    | assignData =>
      change Rebuilt P w'
      rw [Rebuilt, FromLastScan, Shown, hentries, hheap]
      exact h
    | _ => exact hpublished h
  | demonize | newConfig | load | assignConfig | initMtabChecker =>
    exact (congrArg Entries.completed hentries).trans h
  | initSrv | assignSrvBuff | setData =>
    exact ⟨hlive h.1, by rw [hentries]; exact h.2.1, by rw [hentries]; exact h.2.2⟩
  | start | initCheckLoop | setActive | bindNetlink | stop => exact hpublished h
  | destroySrv | destroyMxq | destroyBuffer | freeBuffer | endmntent | freeEntries => exact hlive h
  | destroyCfg | destroyConfig | terminated | exit => trivial

theorem checkLoop_textIn {t : Tid} {poll : Poll} {e : Env} {w w' : World} {p : LoopPc}
    {q : Option LoopPc} (h : checkLoop P t poll e w p = some (w', q)) (hp : p.TextIn P w) :
    q.elim (Live w' ∧ Published P w') (LoopPc.TextIn P w') ∧ Others w w' := by
  cases checkLoop_cases h with
  | test =>
    refine ⟨?_, others_of_eq rfl rfl rfl rfl⟩
    split_ifs <;> exact hp
  | trylock => exact ⟨⟨hp.2.1.ge, hp.1⟩, others_of_eq rfl rfl rfl rfl⟩
  | check p w' q hcheck =>
    obtain ⟨hcounted', hothers⟩ := checkMtab_others hcheck hp.1 hp.2
    have htext := checkMtab_text hcheck hp.1 hp.2
    cases q with
    | none => exact ⟨htext, hothers⟩
    | some q => exact ⟨⟨hcounted', htext⟩, hothers⟩
  | assignData => exact ⟨⟨hp.live, hp.published⟩, others_of_eq rfl rfl rfl rfl⟩
  | _ => exact ⟨hp, others_of_eq rfl rfl rfl rfl⟩

theorem main_textIn {poll : Poll} {e : Env} {w w' : World} {p p' : MainPc}
    (h : main P poll e w p = some (w', p')) (hp : p.TextIn P w) :
    p'.TextIn P w' ∧ Others w w' := by
  cases main_cases h with
  | setData =>
    obtain ⟨hlive, hscans, hcompleted⟩ := hp
    exact ⟨⟨hlive, hscans.trans hcompleted.symm, .inl ⟨rfl, hcompleted⟩⟩,
      others_of_eq rfl rfl rfl rfl⟩
  | load _ _ _ hload | loaded _ _ hload =>
    obtain ⟨_, _, _, rfl, -⟩ := loadFromFile_frame hload
    exact ⟨hp, others_of_eq rfl rfl rfl rfl⟩
  | initMtabChecker hfresh =>
    refine ⟨⟨⟨_, Function.update_self ..⟩, rfl, rfl⟩, hp.le, fun n hsome hn ↦ ?_,
      fun a text ha _ ↦ ?_⟩
    · exact absurd (hp ▸ hn) (not_le.mpr hsome)
    · have hother : a ≠ e.addr := by
        rintro rfl
        exact nomatch hfresh.symm.trans ha
      exact ⟨(Function.update_of_ne hother ..).trans ha, hother⟩
  | start _ _ _ hstart | started _ _ hstart =>
    obtain ⟨_, _, _, _, _, _, _, _, _, rfl, -, -⟩ := startSrv_frame hstart
    exact ⟨hp, others_of_eq rfl rfl rfl rfl⟩
  | loop _ _ _ hloop | left _ _ hloop => exact checkLoop_textIn hloop hp
  | stop _ _ _ hstop | destroySrv _ _ _ hstop | stoppedAgain _ _ hstop =>
    obtain ⟨_, _, _, rfl⟩ := stopSrv_frame hstop
    exact ⟨hp, others_of_eq rfl rfl rfl rfl⟩
  | stopped _ _ hstop =>
    obtain ⟨_, _, _, rfl⟩ := stopSrv_frame hstop
    exact ⟨hp.1, others_of_eq rfl rfl rfl rfl⟩
  | freeEntries =>
    refine ⟨trivial, le_rfl, fun _ _ _ ↦ rfl, fun a text ha hne ↦ ⟨?_, hne⟩⟩
    exact (Function.update_of_ne hne ..).trans ha
  | destroyCfg | destroyConfig | terminated | exit => exact ⟨trivial, others_of_eq rfl rfl rfl rfl⟩
  | _ => exact ⟨hp, others_of_eq rfl rfl rfl rfl⟩

/-- No server thread is made before `ST_start_srv`, and the lock of the buffer is not used. -/
theorem main_building {poll : Poll} {e : Env} {w w' : World} {p p' : MainPc}
    (h : main P poll e w p = some (w', p')) (hp : p.building = true → Unstarted w)
    (hp' : p'.building = true) : Unstarted w' := by
  cases main_cases h with
  | initSrv => exact ⟨(hp rfl).1, rfl⟩
  | load _ _ _ hload | loaded _ _ hload =>
    obtain ⟨_, _, _, rfl, -⟩ := loadFromFile_frame hload
    exact hp rfl
  | demonize | newConfig | assignConfig | initMtabChecker | assignSrvBuff => exact hp rfl
  | _ => exact nomatch hp'

/-- A stop that returns leaves no server thread. -/
theorem stopSrv_returns {w w' : World} {p : StopPc} (h : stopSrv .main w p = some (w', none))
    (hp : StopOk w p) : ∀ n, ¬w'.Alive n := by
  cases stopSrv_cases h with
  | stopped hstopped => exact hp hstopped
  | setStopped => exact hp

theorem main_over {poll : Poll} {e : Env} {w w' : World} {p p' : MainPc}
    (h : main P poll e w p = some (w', p')) (hok : MainOk w p)
    (hp : p.over = true → ∀ n, ¬w.Alive n) (hp' : p'.over = true) : ∀ n, ¬w'.Alive n := by
  cases main_cases h with
  | stopped _ _ hstop => exact stopSrv_returns hstop hok
  | destroySrv _ _ _ hstop | stoppedAgain _ _ hstop =>
    obtain ⟨_, _, _, rfl⟩ := stopSrv_frame hstop
    exact hp rfl
  | destroyMxq | destroyBuffer | freeBuffer | endmntent | endmntentFails | freeEntries | destroyCfg
  | destroyConfig | terminated | exit => exact hp rfl
  | _ => exact nomatch hp'

/-- The hook sends nothing and makes no copy. -/
theorem reload_served {t : Tid} {e : Env} {w w' : World} {p : HookPc} {q : Option HookPc}
    (h : reload P t e w p = some (w', q)) :
    w'.served = w.served ∧ w'.srv.contentBuffer = w.srv.contentBuffer := by
  cases reload_cases h with
  | lockConfig | unlockConfig => exact ⟨rfl, rfl⟩
  | load _ _ _ hload | loaded _ _ hload =>
    obtain ⟨_, _, _, rfl, -⟩ := loadFromFile_frame hload
    exact ⟨rfl, rfl⟩
  | stop _ _ _ hstop | stopped _ _ hstop =>
    obtain ⟨_, _, _, rfl⟩ := stopSrv_frame hstop
    exact ⟨rfl, rfl⟩
  | start _ _ _ hstart | started _ _ hstart =>
    obtain ⟨_, _, _, _, _, _, _, _, _, rfl, -, -⟩ := startSrv_frame hstart
    exact ⟨rfl, rfl⟩

/-- What is known of the text, the lock of the buffer and the copy of the server. -/
structure Serving (P : Platform) (ok : Text → Prop) (d : State) : Prop where
  text : d.main.TextIn P d.world
  building : d.main.building = true → Unstarted d.world
  hook : ∀ p, d.mainHook = some p → d.main.serving = true
  gone : d.main.over = true → ∀ n, ¬d.world.Alive n
  sections : d.world.buffer.mutex.Sections id d.holdsBuffer
  reports : Reports P ok d.world
  copied : ∀ n, d.world.Alive n → (d.servers n).pc.hasCopy = true →
    Copied P ok d.world (d.servers n).pc

/-- While a server thread is alive the main thread may serve. -/
theorem Serving.serving {d : State} (hd : Serving P ok d) {n : ℕ} (halive : d.world.Alive n) :
    d.main.serving = true := by
  have hbuilding : d.main.building ≠ true := by
    intro hb
    exact absurd halive.1 (by simp [(hd.building hb).1])
  exact MainPc.serving_iff.mpr ⟨hbuilding, fun ho ↦ hd.gone ho n halive⟩

/-- A server thread that is inside its section finds the published text. -/
theorem Serving.published {d : State} (hd : Serving P ok d) {n : ℕ} (halive : d.world.Alive n)
    (hpc : (d.servers n).pc.holdsBuffer = true) : Live d.world ∧ Published P d.world := by
  refine hd.text.published (hd.serving halive) ?_
  by_contra hholds
  have hmain : d.holdsBuffer .main := by simpa [State.holdsBuffer] using hholds
  cases hd.sections.unique .main (.thread n) hmain ⟨halive, hpc⟩

/-- A thread past its beginning was alive before a step that ends no thread. -/
theorem alive_of_begun {d : State} (hlock : ConfigLock d) {w : World}
    (hexited : w.threads.exited = d.world.threads.exited) {n : ℕ} (halive : w.Alive n)
    (hpc : (d.servers n).pc ≠ .sigmask) : d.world.Alive n := by
  refine ⟨?_, hexited ▸ halive.2⟩
  by_contra hge
  exact hpc (hlock.unborn n (not_lt.mp hge)).1

theorem ne_sigmask_of_holdsBuffer {p : ServePc} (h : p.holdsBuffer = true) : p ≠ .sigmask := by
  rintro rfl
  exact nomatch h

theorem ne_sigmask_of_hasCopy {p : ServePc} (h : p.hasCopy = true) : p ≠ .sigmask := by
  rintro rfl
  exact nomatch h

/-- A step of the main program or of the hook on it, which may make a server thread. -/
theorem serving_others {d : State} {w : World} {p : MainPc} {q : Option HookPc}
    (hlock : ConfigLock d) (hd : Serving P ok d) (htext : p.TextIn P w) (hothers : Others d.world w)
    (hexited : w.threads.exited = d.world.threads.exited)
    (hserved : w.served = d.world.served) (hcopy : w.srv.contentBuffer = d.world.srv.contentBuffer)
    (hbuilding : p.building = true → Unstarted w) (hhook : ∀ r, q = some r → p.serving = true)
    (hover : p.over = true → ∀ n, ¬w.Alive n)
    (hbuffer : d.main = .initSrv ∧ w.buffer.mutex.owner = none ∧ p.holdsBuffer = false ∨
      BufferStep d.world w .main d.main.holdsBuffer p.holdsBuffer) :
    Serving P ok { d with world := w, main := p, mainHook := q } := by
  refine ⟨htext, hbuilding, hhook, hover, ?_, hd.reports.others hothers hserved,
    fun n halive hpc ↦ ?_⟩
  · rcases hbuffer with ⟨hnew, hfree, hout⟩ | hbuffer
    · have hnone (t : Tid) :
          ¬State.holdsBuffer { d with world := w, main := p, mainHook := q } t := by
        cases t with
        | main => exact fun hin ↦ nomatch hout.symm.trans hin
        | thread n =>
          intro hin
          have hbefore := alive_of_begun hlock hexited hin.1 (ne_sigmask_of_holdsBuffer hin.2)
          have hzero := (hd.building (by rw [hnew]; rfl)).1
          exact absurd hbefore.1 (by simp [hzero])
      exact ⟨fun t hin ↦ absurd hin (hnone t), fun t _ hin ↦ absurd hin (hnone t)⟩
    · refine hd.sections.step (c := .main) hbuffer fun t ht hin ↦ ?_
      cases t with
      | main => exact absurd rfl ht
      | thread n =>
        exact ⟨alive_of_begun hlock hexited hin.1 (ne_sigmask_of_holdsBuffer hin.2), hin.2⟩
  · have hbefore := alive_of_begun hlock hexited halive (ne_sigmask_of_hasCopy hpc)
    exact (hd.copied n hbefore hpc).others hothers hserved hcopy

theorem serving_main {d : State} {poll : Poll} {e : Env} {w : World} {p : MainPc}
    (hlock : ConfigLock d) (hone : OneAlive d) (hd : Serving P ok d) (hhook : d.mainHook = none)
    (hmain : main P poll e d.world d.main = some (w, p)) :
    Serving P ok { d with world := w, main := p } := by
  obtain ⟨htext, hothers⟩ := main_textIn hmain hd.text
  obtain ⟨hserved, hcopy⟩ := main_served hmain
  obtain ⟨hexited, -, -⟩ := main_threads hmain
  refine serving_others (q := d.mainHook) hlock hd htext hothers hexited hserved hcopy
    (main_building hmain hd.building) (fun r hr ↦ nomatch hhook.symm.trans hr)
    (main_over hmain (hone.main hhook) hd.gone) ?_
  by_cases hnew : d.main = .initSrv
  · rw [hnew] at hmain
    obtain ⟨rfl, rfl⟩ := Prod.mk.inj (Option.some.inj hmain)
    exact .inl ⟨hnew, rfl, rfl⟩
  · exact .inr (main_buffer hmain hnew)

theorem serving_mainHook {d : State} {e : Env} {w : World} {p : HookPc} {q : Option HookPc}
    (hlock : ConfigLock d) (hd : Serving P ok d) (hp : d.mainHook = some p)
    (hreload : reload P .main e d.world p = some (w, q)) :
    Serving P ok { d with world := w, mainHook := q } := by
  have hserving := hd.hook p hp
  obtain ⟨hserved, hcopy⟩ := reload_served hreload
  obtain ⟨_, _, _, _, _, _, _, _, rfl, -, -⟩ := reload_frame hreload
  obtain ⟨hbuilding, hover⟩ := MainPc.serving_iff.mp hserving
  exact serving_others (p := d.main) hlock hd (hd.text.congr rfl rfl rfl)
    (others_of_eq rfl rfl rfl rfl) rfl hserved hcopy (fun hb ↦ absurd hb hbuilding)
    (fun _ _ ↦ hserving) (fun ho ↦ absurd ho hover) (.inr (.keep rfl id))

/-- What is published is accepted. -/
def Accepted (P : Platform) (ok : Text → Prop) (w : World) : Prop :=
  Published P w → ∀ text ∈ w.buffer.data.text? w.heap, ok text

theorem serving_server {d d' : State} {n : ℕ} {e : Env} (hone : OneAlive d) (hd : Serving P ok d)
    (hok : Accepted P ok d.world) (h : step P d (.server n e) = some d') : Serving P ok d' := by
  obtain ⟨-, halive, -, w, s, hserve, rfl⟩ := step_server h
  have hpublished (hpc : (d.servers n).pc = .strdup) : Live d.world ∧ Published P d.world :=
    hd.published halive (by rw [hpc]; rfl)
  obtain ⟨hreports, hcopied, hheap⟩ := serve_reports hserve hd.reports hpublished
    (fun hpc ↦ hok (hpublished hpc).2) (hd.copied n halive)
  have hbuffer := serve_buffer hserve
  have hbefore : d.holdsBuffer (.thread n) = ((d.servers n).pc.holdsBuffer = true) := by
    simp only [State.holdsBuffer, halive, true_and]
  obtain ⟨hbuilding, hover⟩ := MainPc.serving_iff.mp (hd.serving halive)
  have htext : d.main.TextIn P w := by
    obtain ⟨_, _, _, _, _, _, _, _, _, _, rfl⟩ := serve_frame hserve
    exact hd.text.congr rfl rfl hheap
  have hthreads : w.threads = d.world.threads := by
    obtain ⟨_, _, _, _, _, _, _, _, _, _, rfl⟩ := serve_frame hserve
    rfl
  have honly (m : ℕ) (hm : w.Alive m) : m = n := by
    have hm' : d.world.Alive m := by rwa [World.Alive, hthreads] at hm
    exact Option.some.inj ((hone.named m hm').symm.trans (hone.named n halive))
  cases s with
  | some s =>
    have hself : Function.update d.servers n s n = s := Function.update_self ..
    refine ⟨htext, fun hb ↦ absurd hb hbuilding, hd.hook, fun ho ↦ absurd ho hover, ?_, hreports,
      fun m hm hpc ↦ ?_⟩
    · refine hd.sections.step (c := .thread n) ?_ fun t ht hin ↦ ?_
      · rw [hbefore]
        refine hbuffer.congr Iff.rfl ⟨fun hs ↦ ?_, fun hs ↦ ⟨?_, ?_⟩⟩
        · simpa only [Function.update_self, Option.any_some] using hs.2
        · simpa only [World.Alive, hthreads] using halive
        · simpa only [Function.update_self, Option.any_some] using hs
      · cases t with
        | main => exact hin
        | thread m => exact absurd (congrArg Tid.thread (honly m hin.1)) ht
    · obtain rfl := honly m hm
      dsimp only at hpc ⊢
      rw [hself] at hpc ⊢
      exact hcopied s rfl hpc
  | none =>
    have hnone {m : ℕ} (hm : (w.exitThread n).Alive m) : False := by
      obtain ⟨hm, hmn⟩ := World.alive_exitThread_iff.mp hm
      exact hmn (honly m hm)
    refine ⟨htext, fun hb ↦ absurd hb hbuilding, hd.hook, fun _ m hm ↦ hnone hm, ?_,
      hreports.congr rfl rfl, fun m hm _ ↦ (hnone hm).elim⟩
    refine hd.sections.step (c := .thread n) ?_ fun t ht hin ↦ ?_
    · rw [hbefore]
      exact hbuffer.congr Iff.rfl ⟨fun hs ↦ (hnone hs.1).elim, fun hs ↦ by cases hs⟩
    · cases t with
      | main => exact hin
      | thread m => exact (hnone hin.1).elim

theorem serving_step {d d' : State} {a : Action} (hlock : ConfigLock d) (hone : OneAlive d)
    (hd : Serving P ok d) (haccepted : Accepted P ok d.world) (hok : HupsServing d a)
    (h : step P d a = some d') : Serving P ok d' := by
  cases a with
  | main poll e =>
    obtain ⟨-, hhook, w, p, hmain, rfl⟩ := step_main h
    exact serving_main hlock hone hd hhook hmain
  | mainHook e =>
    obtain ⟨-, p, w, q, hp, hreload, rfl⟩ := step_mainHook h
    exact serving_mainHook hlock hd hp hreload
  | server n e => exact serving_server hone hd haccepted h
  | serverHook n e =>
    obtain ⟨-, p, w, q, hp, -, -⟩ := step_serverHook h
    exact nomatch (hone.serverHook n).symm.trans hp
  | hup t =>
    obtain ⟨-, -, rfl⟩ := step_hup h
    obtain ⟨rfl, hserving, -⟩ := hok
    refine ⟨hd.text, hd.building, fun _ _ ↦ hserving, hd.gone, ?_, hd.reports, hd.copied⟩
    refine hd.sections.mono fun t hin ↦ ?_
    cases t <;> exact hin
  | int t =>
    obtain ⟨-, -, rfl⟩ := step_int h
    refine ⟨hd.text.congr rfl rfl rfl, hd.building, hd.hook, hd.gone, ?_,
      hd.reports.congr rfl rfl,
      fun n halive hpc ↦ (hd.copied n halive hpc).others (others_of_eq rfl rfl rfl rfl) rfl rfl⟩
    refine hd.sections.mono fun t hin ↦ ?_
    cases t <;> exact hin

theorem serving_initial (heap : Addr → Option Text) (sockets : ℤ → Option Socket)
    (arrays : ℕ → Http.Buffers) : Serving P ok (.initial heap sockets arrays) where
  text := rfl
  building _ := ⟨rfl, rfl⟩
  hook := nofun
  gone := nofun
  sections :=
    have hpublishing : Publishing P ok (.initial heap sockets arrays) :=
      publishing_initial heap sockets arrays
    hpublishing.sections
  reports := ⟨nofun, nofun, nofun, .nil⟩
  copied n halive := absurd halive.1 (Nat.not_lt_zero n)

theorem oneAlive_of_reach {heap : Addr → Option Text} {sockets : ℤ → Option Socket}
    {arrays : ℕ → Http.Buffers} {d : State}
    (h : Reach (step P) HupsServing (.initial heap sockets arrays) d) : OneAlive d :=
  h.invariant OneAlive ⟨fun _ ↦ rfl, fun n hn ↦ absurd hn.1 (Nat.not_lt_zero n),
    fun _ _ n hn ↦ absurd hn.1 (Nat.not_lt_zero n), nofun⟩ fun _ _ _ hd hok ↦
      oneAlive_step hd hok.uncommitted

theorem serving_of_reach {heap : Addr → Option Text} {sockets : ℤ → Option Socket}
    {arrays : ℕ → Http.Buffers} {d : State}
    (h : Reach (step P) HupsServing (.initial heap sockets arrays) d) :
    Serving P (fun _ ↦ True) d :=
  h.invariant_of (fun d ↦ ConfigLock d ∧ OneAlive d) (Serving P fun _ ↦ True)
    (fun _ ht ↦ ⟨configLock_of_reach ht, oneAlive_of_reach ht⟩)
    (serving_initial heap sockets arrays) fun _ _ _ hinv hd ↦
      serving_step hinv.1 hinv.2 hd fun _ _ _ ↦ trivial

/-- At most one server thread is alive. Inside its section it finds a text that is alive and
published, and what it has sent, whole or up to where a stop of the server has shut the connection
down, are responses with the reports of scans in the order of the scans. -/
structure ReportsKept (P : Platform) (d : State) : Prop where
  single : ∀ m n, d.world.Alive m → d.world.Alive n → m = n
  published : ∀ n, d.world.Alive n → (d.servers n).pc.holdsBuffer = true →
    Live d.world ∧ Published P d.world
  report : ∀ r ∈ d.world.served, IsReport P d.world.entries r.report
  response : ∀ r ∈ d.world.served, r.response = okResponse r.report.bytes
  sorted : d.world.served.Pairwise fun r r' ↦ r.report.scan ≤ r'.report.scan

/-- In a run in which the main thread takes each SIGHUP while it may serve, outside of the two
windows, clients receive the reports of scans in order, across every restart of the server. -/
theorem reportsKept_of_hupsServing {heap : Addr → Option Text} {sockets : ℤ → Option Socket}
    {arrays : ℕ → Http.Buffers} {d : State}
    (h : Reach (step P) HupsServing (.initial heap sockets arrays) d) : ReportsKept P d := by
  have hd := serving_of_reach h
  have hone := oneAlive_of_reach h
  exact ⟨fun m n hm hn ↦ Option.some.inj ((hone.named m hm).symm.trans (hone.named n hn)),
    fun _ halive hpc ↦ hd.published halive hpc, hd.reports.report, hd.reports.response,
    hd.reports.sorted⟩

/-- A client, a SIGHUP in the first pass of the loop, the pass, and a client of the new thread. -/
def reloadSteps : List Action :=
  mainSteps 32 ++ serverSteps 0 9 ++ clientSteps ++ .hup .main :: hookSteps 16 ++
    .server 0 { sampleEnv with ok := false } :: hookSteps 15 ++
    List.replicate 9 (.server 1 { sampleEnv with fd := 7 }) ++
    List.replicate 23 (.main .ready { sampleEnv with table := [sampleMount] }) ++
    List.replicate 13 (.server 1 clientEnv)

theorem reportsKept_across_reload : ∃ d : State,
    Reach (step samplePlatform) HupsServing sampleState d ∧
      (d.world.threads.created = 2 ∧ d.world.served.map (·.report.scan) = [0, 1]) ∧
      ReportsKept samplePlatform d := by
  have hrun : ∃ d, Reach (step samplePlatform) HupsServing sampleState d ∧
      (d.world.threads.created = 2 ∧ d.world.served.map (·.report.scan) = [0, 1]) :=
    exists_reach_of_runAll reloadSteps (by decide +kernel)
  obtain ⟨d, hreach, hrun⟩ := hrun
  exact ⟨d, hreach, hrun, reportsKept_of_hupsServing hreach⟩

end Stored.Daemon
