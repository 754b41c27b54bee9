import Stored.Daemon.Clients
import Stored.Daemon.Deadlock
import Stored.Daemon.Lifetime
import Stored.Daemon.PassLog

/-!
# No thread is stuck

A step that reads what is not there has no outcome: a tree that has been deleted, a text that has
been freed, a lookup in a configuration that has not been read, a hook on an object that is not
built. If the main thread takes each SIGHUP while it may serve, outside of the two windows, a thread
that cannot go on waits for a mutex that is held or for the end of a thread.
-/

namespace Stored.Daemon

open Json Mtab Http Run

variable {P : Platform} {ok : Text → Prop}

def MainPc.waits : MainPc → Option Lock
  | .start .lockConfig | .start .lockAddress | .loop .lockConfig
  | .loop (.check .lockConfig) => some .config
  | .start .lockMxq => some .mxq
  | _ => none

/-- The thread whose end is waited for. -/
def MainPc.joins : MainPc → Option ℕ
  | .stop (.joining n) | .destroySrv (.joining n) => some n
  | _ => none

def HookPc.joins : HookPc → Option ℕ
  | .stop (.joining n) => some n
  | _ => none

/-- A mutex that is held, or a thread that has not ended. -/
def Blocked (w : World) (lock : Option Lock) (thread : Option ℕ) : Prop :=
  (∃ l, lock = some l ∧ w.owner l ≠ none) ∨ ∃ n, thread = some n ∧ w.threads.exited n = false

/-- Every thread that is alive waits, or can take a step in some surroundings. -/
structure NeverStuck (P : Platform) (d : State) : Prop where
  main : d.mainHook = none → Blocked d.world d.main.waits d.main.joins ∨
    ∃ poll e, (step P d (.main poll e)).isSome
  hook : ∀ p, d.mainHook = some p → Blocked d.world p.waits p.joins ∨
    ∃ e, (step P d (.mainHook e)).isSome
  server : ∀ n, d.world.Alive n → Blocked d.world (d.servers n).pc.waits none ∨
    ∃ e, (step P d (.server n e)).isSome

/-- A mutex is held, or it can be locked. -/
theorem blocked_or {w : World} (l : Lock) {thread : Option ℕ} {p : Prop}
    (h : w.owner l = none → p) : Blocked w (some l) thread ∨ p := by
  by_cases hfree : w.owner l = none
  · exact .inr (h hfree)
  · exact .inl (.inl ⟨l, rfl, hfree⟩)

theorem startSrv_isSome {t : Tid} {b : Bool} {w : World} {p : StartPc} :
    Blocked w (HookPc.start p).waits none ∨ ∃ e, (startSrv P t b e w p).isSome := by
  cases p with
  | lockConfig | lockAddress =>
    refine blocked_or .config fun hfree ↦ ⟨sampleEnv, ?_⟩
    rw [startSrv, World.lockConfig_eq_some_iff.mpr ⟨hfree, rfl⟩]
    rfl
  | lockMxq =>
    refine blocked_or .mxq fun hfree ↦ ⟨sampleEnv, ?_⟩
    rw [startSrv, World.lockMxq_eq_some_iff.mpr ⟨hfree, rfl⟩]
    rfl
  | _ => exact .inr ⟨sampleEnv, rfl⟩

theorem stopSrv_isSome {t : Tid} {w : World} {p : StopPc} :
    Blocked w none (HookPc.stop p).joins ∨ (stopSrv t w p).isSome = true := by
  cases p with
  | joining n =>
    by_cases hexited : w.threads.exited n = true
    · exact .inr (by simp [stopSrv, hexited])
    · exact .inl (.inr ⟨n, rfl, by simpa using hexited⟩)
  | join =>
    refine .inr ?_
    rw [stopSrv]
    split <;> rfl
  | _ => exact .inr rfl

theorem loadFromFile_isSome {w : World} {p : LoadPc}
    (h : ∀ s, p = .lookup s → w.config.cfg ≠ none) :
    (loadFromFile sampleEnv w p).isSome = true := by
  cases p with
  | lookup s =>
    obtain ⟨file, hfile⟩ := Option.ne_none_iff_exists'.mp (h s rfl)
    simp [loadFromFile, hfile]
  | _ => rfl

def MainPc.holdsEntries : MainPc → Bool
  | .loop (.foreach _) | .loop .unlockEntries | .loop (.check (.delete _))
  | .loop (.check (.mkarray _)) | .loop (.check (.getmntent _)) | .loop (.check .free)
  | .loop (.check .stringify) | .loop (.check .unlockEntries) => true
  | _ => false

/-- The entries have a tree. -/
def MainPc.hasTree : MainPc → Bool
  | .demonize | .newConfig | .load _ | .assignConfig | .initMtabChecker
  | .loop (.check (.mkarray _)) | .destroyCfg | .destroyConfig | .terminated | .exit => false
  | _ => true

/-- The mutex of the entries is free outside of the sections of the main thread, their tree is
there, and a configuration whose settings are looked up has been read. -/
structure Found (d : State) : Prop where
  mutex : d.main.holdsEntries = false → d.world.entries.mutex.owner = none
  tree : d.main.hasTree = true → d.world.entries.jsonEntries ≠ none
  file : ∀ s, d.main = .load (.lookup s) ∨ d.mainHook = some (.load (.lookup s)) →
    d.world.config.cfg ≠ none

theorem checkMtab_found_entries {t : Tid} {e : Env} {w w' : World} {p : MtabPc} {q : Option MtabPc}
    (h : checkMtab P t e w p = some (w', q))
    (hmutex : (MainPc.loop (.check p)).holdsEntries = false → w.entries.mutex.owner = none)
    (htree : (MainPc.loop (.check p)).hasTree = true → w.entries.jsonEntries ≠ none) :
    ((MainPc.loop (q.elim .assignData .check)).holdsEntries = false →
        w'.entries.mutex.owner = none) ∧
      ((MainPc.loop (q.elim .assignData .check)).hasTree = true →
        w'.entries.jsonEntries ≠ none) := by
  cases checkMtab_cases h with
  | lockEntries => exact ⟨nofun, fun _ ↦ htree rfl⟩
  | delete => exact ⟨nofun, nofun⟩
  | mkarray => exact ⟨nofun, fun _ ↦ Option.some_ne_none _⟩
  | entry noticeLevel mt answer =>
    refine ⟨nofun, fun _ hnone ↦ htree rfl (Option.map_eq_none_iff.mp hnone)⟩
  | unlockEntries => exact ⟨fun _ ↦ rfl, fun _ ↦ htree rfl⟩
  | rewind | lockConfig | readNotice | unlockConfig => exact ⟨fun _ ↦ hmutex rfl, fun _ ↦ htree rfl⟩
  | endOfTable | free | stringify => exact ⟨nofun, fun _ ↦ htree rfl⟩

theorem main_found_entries {poll : Poll} {e : Env} {w w' : World} {p p' : MainPc}
    (h : main P poll e w p = some (w', p'))
    (hmutex : p.holdsEntries = false → w.entries.mutex.owner = none)
    (htree : p.hasTree = true → w.entries.jsonEntries ≠ none) :
    (p'.holdsEntries = false → w'.entries.mutex.owner = none) ∧
      (p'.hasTree = true → w'.entries.jsonEntries ≠ none) := by
  cases main_cases h with
  | load _ _ _ hload =>
    obtain ⟨_, _, _, rfl, -⟩ := loadFromFile_frame hload
    exact ⟨fun _ ↦ hmutex rfl, nofun⟩
  | loaded _ _ hload =>
    obtain ⟨_, _, _, rfl, -⟩ := loadFromFile_frame hload
    exact ⟨fun _ ↦ hmutex rfl, nofun⟩
  | initMtabChecker => exact ⟨fun _ ↦ rfl, fun _ ↦ Option.some_ne_none _⟩
  | start _ _ _ hstart | started _ _ hstart =>
    obtain ⟨_, _, _, _, _, _, _, _, _, rfl, -, -⟩ := startSrv_frame hstart
    exact ⟨fun _ ↦ hmutex rfl, fun _ ↦ htree rfl⟩
  | stop _ _ _ hstop | stopped _ _ hstop | destroySrv _ _ _ hstop | stoppedAgain _ _ hstop =>
    obtain ⟨_, _, _, rfl⟩ := stopSrv_frame hstop
    exact ⟨fun _ ↦ hmutex rfl, fun _ ↦ htree rfl⟩
  | loop p _ _ hloop =>
    cases checkLoop_cases hloop with
    | check p w' q hcheck => exact checkMtab_found_entries hcheck hmutex htree
    | test => split_ifs <;> exact ⟨fun _ ↦ hmutex rfl, fun _ ↦ htree rfl⟩
    | lockEntries | foreach => exact ⟨nofun, fun _ ↦ htree rfl⟩
    | unlockEntries => exact ⟨fun _ ↦ rfl, fun _ ↦ htree rfl⟩
    | _ => exact ⟨fun _ ↦ hmutex rfl, fun _ ↦ htree rfl⟩
  | left _ _ hloop =>
    cases checkLoop_cases hloop with
    | close => exact ⟨fun _ ↦ hmutex rfl, fun _ ↦ htree rfl⟩
  | demonize | newConfig | assignConfig => exact ⟨fun _ ↦ hmutex rfl, nofun⟩
  | freeEntries | destroyCfg | destroyConfig | terminated | exit =>
    exact ⟨fun _ ↦ hmutex rfl, nofun⟩
  | _ => exact ⟨fun _ ↦ hmutex rfl, fun _ ↦ htree rfl⟩

/-- A load that looks up its next setting has a configuration. -/
theorem loadFromFile_file {e : Env} {w w' : World} {p : LoadPc} {s : Setting}
    (h : loadFromFile e w p = some (w', some (.lookup s))) : w'.config.cfg ≠ none := by
  have hcases := loadFromFile_cases h
  generalize hq : some (LoadPc.lookup s) = q at hcases
  cases hcases with
  | destroy | readFails | lookupFails | abort => cases hq
  | read => exact Option.some_ne_none _
  | lookup r file c hfile hlookup =>
    have hcfg : c.cfg = w.config.cfg := by
      cases r <;> obtain ⟨v, -, rfl⟩ := Option.map_eq_some_iff.mp hlookup <;> rfl
    exact (hcfg.trans hfile).symm ▸ Option.some_ne_none file

theorem found_step {d d' : State} {a : Action} (hone : OneAlive d) (hserving : Serving P ok d)
    (hd : Found d) (h : step P d a = some d') : Found d' := by
  cases a with
  | main poll e =>
    obtain ⟨-, hhook, w, p, hmain, rfl⟩ := step_main h
    obtain ⟨hmutex, htree⟩ := main_found_entries hmain hd.mutex hd.tree
    refine ⟨hmutex, htree, fun s hs ↦ ?_⟩
    rcases hs with hs | hs
    · obtain rfl : p = .load (.lookup s) := hs
      have hcases := main_cases hmain
      generalize d.main = pc at hcases
      cases hcases with
      | load _ _ _ hload => exact loadFromFile_file hload
    · exact absurd (hhook.symm.trans hs) (Option.some_ne_none _).symm
  | mainHook e =>
    obtain ⟨-, p, w, q, hp, hreload, rfl⟩ := step_mainHook h
    have hentries : w.entries = d.world.entries := by
      obtain ⟨_, _, _, _, _, _, _, _, rfl, -, -⟩ := reload_frame hreload
      rfl
    refine ⟨fun hholds ↦ ?_, fun hhas ↦ ?_, fun s hs ↦ ?_⟩
    · rw [hentries]
      exact hd.mutex hholds
    · rw [hentries]
      exact hd.tree hhas
    · rcases hs with hs | hs
      · have hmain := hserving.hook p hp
        exact absurd hmain (by simp [show d.main = .load (.lookup s) from hs, MainPc.serving,
          MainPc.building])
      · cases reload_cases hreload with
        | load _ _ r hload =>
          obtain rfl := HookPc.load.inj (Option.some.inj hs)
          exact loadFromFile_file hload
        | _ => cases hs
  | server n e =>
    obtain ⟨-, -, -, w, s, hserve, rfl⟩ := step_server h
    obtain ⟨_, _, _, _, _, _, _, _, _, _, rfl⟩ := serve_frame hserve
    cases s <;> exact ⟨hd.mutex, hd.tree, hd.file⟩
  | serverHook n e =>
    obtain ⟨-, p, w, q, hp, -, -⟩ := step_serverHook h
    exact absurd ((hone.serverHook n).symm.trans hp) (Option.some_ne_none p).symm
  | hup t =>
    obtain ⟨-, htakes, rfl⟩ := step_hup h
    cases t with
    | main =>
      refine ⟨hd.mutex, hd.tree, fun s hs ↦ ?_⟩
      rcases hs with hs | hs
      · exact hd.file s (.inl hs)
      · cases hs
    | thread n => exact ⟨hd.mutex, hd.tree, hd.file⟩
  | int t =>
    obtain ⟨-, -, rfl⟩ := step_int h
    exact ⟨hd.mutex, hd.tree, hd.file⟩

theorem checkMtab_isSome {w : World} {p : MtabPc} {a : Addr} (hfree : w.heap a = none)
    (hmutex : (MainPc.loop (.check p)).holdsEntries = false → w.entries.mutex.owner = none)
    (htree : (MainPc.loop (.check p)).hasTree = true → w.entries.jsonEntries ≠ none) :
    Blocked w (MainPc.loop (.check p)).waits none ∨
      (checkMtab P .main { sampleEnv with addr := a } w p).isSome = true := by
  cases p with
  | lockConfig =>
    refine blocked_or .config fun hconfig ↦ ?_
    rw [checkMtab, World.lockConfig_eq_some_iff.mpr ⟨hconfig, rfl⟩]
    rfl
  | lockEntries noticeLevel =>
    refine .inr ?_
    rw [checkMtab, World.lockEntries_eq_some_iff.mpr ⟨hmutex rfl, rfl⟩]
    rfl
  | getmntent => exact .inr rfl
  | stringify =>
    obtain ⟨tree, hsome⟩ := Option.ne_none_iff_exists'.mp (htree rfl)
    refine .inr ?_
    rw [checkMtab, hsome, Option.bind_some, World.alloc_eq_some_iff.mpr ⟨hfree, rfl⟩]
    rfl
  | _ => exact .inr rfl

theorem checkLoop_isSome {w : World} {p : LoopPc} {a : Addr} (hfree : w.heap a = none)
    (hlisting : Listing (fun _ _ ↦ True) w)
    (hmutex : (MainPc.loop p).holdsEntries = false → w.entries.mutex.owner = none)
    (htree : (MainPc.loop p).hasTree = true → w.entries.jsonEntries ≠ none) :
    Blocked w (MainPc.loop p).waits none ∨
      (checkLoop P .main .ready { sampleEnv with addr := a } w p).isSome = true := by
  cases p with
  | lockConfig =>
    refine blocked_or .config fun hconfig ↦ ?_
    rw [checkLoop, World.lockConfig_eq_some_iff.mpr ⟨hconfig, rfl⟩]
    rfl
  | lockEntries c =>
    refine .inr ?_
    rw [checkLoop, World.lockEntries_eq_some_iff.mpr ⟨hmutex rfl, rfl⟩]
    rfl
  | foreach c =>
    -- the loop meets the objects of mounts alone
    obtain ⟨tree, hsome⟩ := Option.ne_none_iff_exists'.mp (htree rfl)
    obtain ⟨mounts, -, rfl⟩ := hlisting tree hsome
    refine .inr ?_
    rw [checkLoop, hsome, Option.bind_some, logEntries_mounts]
    rfl
  | trylock =>
    refine .inr ?_
    rw [checkLoop]
    split <;> rfl
  | check p =>
    rw [checkLoop, Option.isSome_map]
    exact checkMtab_isSome hfree hmutex htree
  | _ => exact .inr rfl

theorem main_isSome {d : State} {a : Addr} (hfree : d.world.heap a = none) (hd : Found d)
    (hlisting : Listing (fun _ _ ↦ True) d.world) :
    Blocked d.world d.main.waits d.main.joins ∨
      ∃ e, (main P .ready e d.world d.main).isSome = true := by
  obtain ⟨hmutex, htree, hfile⟩ := hd
  generalize d.main = pc at hmutex htree hfile
  cases pc with
  | load p =>
    refine .inr ⟨sampleEnv, ?_⟩
    rw [main, Option.isSome_map]
    exact loadFromFile_isSome fun s hs ↦ hfile s (.inl (congrArg MainPc.load hs))
  | initMtabChecker =>
    refine .inr ⟨{ sampleEnv with addr := a }, ?_⟩
    rw [main, World.alloc_eq_some_iff.mpr ⟨hfree, rfl⟩]
    rfl
  | start p =>
    rcases startSrv_isSome (P := P) (t := .main) (b := false) (w := d.world) (p := p) with
      hblocked | ⟨e, he⟩
    · cases p <;> exact .inl hblocked
    · refine .inr ⟨e, ?_⟩
      rw [main, Option.isSome_map]
      exact he
  | loop p =>
    rcases checkLoop_isSome (P := P) hfree hlisting hmutex htree with hblocked | hsome
    · exact .inl hblocked
    · refine .inr ⟨{ sampleEnv with addr := a }, ?_⟩
      rw [main, Option.isSome_map]
      exact hsome
  | stop p | destroySrv p =>
    rcases stopSrv_isSome (t := .main) (w := d.world) (p := p) with hblocked | hsome
    · cases p <;> exact .inl hblocked
    · refine .inr ⟨sampleEnv, ?_⟩
      rw [main, Option.isSome_map]
      exact hsome
  | _ => exact .inr ⟨sampleEnv, rfl⟩

theorem reload_isSome {w : World} {p : HookPc} (hlive : p = .lockConfig → w.coreConfig = .live)
    (hfile : ∀ s, p = .load (.lookup s) → w.config.cfg ≠ none) :
    Blocked w p.waits p.joins ∨ ∃ e, (reload P .main e w p).isSome = true := by
  cases p with
  | lockConfig =>
    refine blocked_or .config fun hfree ↦ ⟨sampleEnv, ?_⟩
    rw [reload, if_pos (hlive rfl), World.lockConfig_eq_some_iff.mpr ⟨hfree, rfl⟩]
    rfl
  | load p =>
    refine .inr ⟨sampleEnv, ?_⟩
    rw [reload, Option.isSome_map]
    exact loadFromFile_isSome fun s hs ↦ hfile s (congrArg HookPc.load hs)
  | unlockConfig => exact .inr ⟨sampleEnv, rfl⟩
  | stop p =>
    rcases stopSrv_isSome (t := .main) (w := w) (p := p) with hblocked | hsome
    · exact .inl hblocked
    · refine .inr ⟨sampleEnv, ?_⟩
      rw [reload, Option.isSome_map]
      exact hsome
  | start p =>
    rcases startSrv_isSome (P := P) (t := .main) (b := true) (w := w) (p := p) with
      hblocked | ⟨e, he⟩
    · exact .inl hblocked
    · refine .inr ⟨e, ?_⟩
      rw [reload, Option.isSome_map]
      exact he

theorem serve_isSome {n : ℕ} {w : World} {s : Server} {a : Addr} (hfree : w.heap a = none)
    (htext : s.pc = .strdup → ∃ text, w.buffer.data.text? w.heap = some text)
    (hcopy : s.pc.hasCopy = true →
      ∃ b text, w.srv.contentBuffer = some b ∧ w.heap b = some text) :
    Blocked w s.pc.waits none ∨ ∃ e, (serve n e w s).isSome = true := by
  cases hpc : s.pc with
  | lockConfig =>
    refine blocked_or .config fun hconfig ↦ ⟨sampleEnv, ?_⟩
    simp [serve, hpc, World.lockConfig_eq_some_iff.mpr ⟨hconfig, rfl⟩]
  | lockBuffer =>
    refine blocked_or .buffer fun hbuffer ↦ ⟨sampleEnv, ?_⟩
    simp [serve, hpc, World.lockBuffer_eq_some_iff.mpr ⟨hbuffer, rfl⟩]
  | socket => exact .inr ⟨{ sampleEnv with fd := -1 }, by simp [serve, hpc]⟩
  | bind | listen =>
    refine .inr ⟨sampleEnv, ?_⟩
    simp only [serve, hpc]
    split_ifs <;> rfl
  | trylockMxq | request =>
    refine .inr ⟨sampleEnv, ?_⟩
    simp only [serve, hpc]
    split <;> rfl
  | accepting fd => exact .inr ⟨{ sampleEnv with ok := false }, by simp [serve, hpc]⟩
  | strdup =>
    obtain ⟨text, htext⟩ := htext hpc
    refine .inr ⟨{ sampleEnv with addr := a }, ?_⟩
    simp [serve, hpc, htext, World.alloc_eq_some_iff.mpr ⟨hfree, rfl⟩]
  | respond =>
    obtain ⟨b, text, hb, htext⟩ := hcopy (by rw [hpc]; rfl)
    exact .inr ⟨sampleEnv, by simp [serve, hpc, hb, htext]⟩
  | free =>
    obtain ⟨b, text, hb, htext⟩ := hcopy (by rw [hpc]; rfl)
    exact .inr ⟨sampleEnv, by simp [serve, hpc, hb, htext]⟩
  | _ => exact .inr ⟨sampleEnv, by simp [serve, hpc]⟩

/-- A main thread that may serve has both objects of the hook built. -/
theorem MainPc.built_of_serving {p : MainPc} (hp : p.serving = true) : p.built := by
  cases p <;> first
    | exact ⟨rfl, rfl⟩
    | simp [serving, building, MainPc.over] at hp

theorem MainPc.not_aborting_of_serving {p : MainPc} (hp : p.serving = true)
    (hcommitted : p.committed = false) : p.aborting = false := by
  cases p with
  | load => simp [serving, building] at hp
  | start p =>
    cases p with
    | abort => exact absurd hcommitted.symm Bool.false_ne_true
    | _ => rfl
  | _ => rfl

/-- With all hooks on the main thread, no object is destroyed beside a hook. -/
theorem hupsWhileBuilt_of_serving {d d' : State} {a : Action} (hone : OneAlive d)
    (hok : HupsServing d a) (h : step P d a = some d') : HupsWhileBuilt d a := by
  have halone : d.HooksAlone .main := ⟨fun ht ↦ absurd rfl ht, fun n _ _ ↦ hone.serverHook n⟩
  cases a with
  | main | mainHook => exact fun _ ↦ halone
  | serverHook n e =>
    obtain ⟨-, p, w, q, hp, -, -⟩ := step_serverHook h
    exact absurd ((hone.serverHook n).symm.trans hp) (Option.some_ne_none p).symm
  | hup t =>
    obtain ⟨-, htakes, -⟩ := step_hup h
    obtain ⟨rfl, hserving, hcommitted⟩ := hok
    have hnone : d.mainHook = none := htakes
    refine ⟨MainPc.built_of_serving hserving, ?_⟩
    rintro (hmain | hhook | ⟨n, -, hn⟩)
    · exact Bool.false_ne_true
        ((MainPc.not_aborting_of_serving hserving hcommitted).symm.trans hmain)
    · simp [hnone] at hhook
    · simp [hone.serverHook n] at hn
  | server | int => trivial

theorem hooksServed_of_reach {heap : Addr → Option Text} {sockets : ℤ → Option Socket}
    {arrays : ℕ → Buffers} {d : State}
    (h : Reach (step P) HupsServing (.initial heap sockets arrays) d) : HooksServed d :=
  h.invariant_of OneAlive HooksServed (fun _ ↦ oneAlive_of_reach)
    (hooksServed_initial heap sockets arrays) fun _ _ _ hone hd hok hstep ↦
      hooksServed_step hd (hupsWhileBuilt_of_serving hone hok hstep) hstep

theorem found_of_reach {heap : Addr → Option Text} {sockets : ℤ → Option Socket}
    {arrays : ℕ → Buffers} {d : State}
    (h : Reach (step P) HupsServing (.initial heap sockets arrays) d) : Found d :=
  h.invariant_of (fun d ↦ OneAlive d ∧ Serving P (fun _ ↦ True) d) Found
    (fun _ ht ↦ ⟨oneAlive_of_reach ht, serving_of_reach ht⟩)
    ⟨fun _ ↦ rfl, nofun, fun _ hs ↦ hs.elim nofun nofun⟩
    fun _ _ _ hinv hd _ ↦ found_step hinv.1 hinv.2 hd

/-- What is published is alive. -/
theorem Published.alive {w : World} (h : Published P w) (hlive : Live w) :
    ∃ text, w.buffer.data.text? w.heap = some text := by
  obtain ⟨-, ⟨hdata, -⟩ | ⟨hdata, -⟩⟩ := h
  · exact ⟨Data.initial, by rw [hdata]; rfl⟩
  · rw [hdata]
    exact hlive

/-- In a run in which the main thread takes each SIGHUP while it may serve, outside of the two
windows, no thread is stuck as long as there is memory: it waits for a mutex that is held or for
the end of a thread, or it can take a step. -/
theorem neverStuck_of_hupsServing {heap : Addr → Option Text} {sockets : ℤ → Option Socket}
    {arrays : ℕ → Buffers} {d : State}
    (h : Reach (step P) HupsServing (.initial heap sockets arrays) d)
    (hended : d.world.ended = false) (hmemory : ∃ a, d.world.heap a = none) : NeverStuck P d := by
  obtain ⟨a, hfree⟩ := hmemory
  have hone := oneAlive_of_reach h
  have hserving := serving_of_reach h
  have hfound := found_of_reach h
  have huses := hookUsesLive_of_served (hooksServed_of_reach h) hended
  have hlisting : Listing (fun _ _ ↦ True) d.world :=
    h.invariant (fun d ↦ Listing (fun _ _ ↦ True) d.world) nofun fun _ b _ hd _ ↦
      listing_step (P := P) hd (by cases b <;> simp [ListsAccepted])
  refine ⟨fun hhook ↦ ?_, fun p hp ↦ ?_, fun n halive ↦ ?_⟩
  · refine (main_isSome (P := P) hfree hfound hlisting).imp_right ?_
    rintro ⟨e, he⟩
    exact ⟨.ready, e, by simpa [step, hended, hhook] using he⟩
  · have hlive : p = .lockConfig → d.world.coreConfig = .live := by
      rintro rfl
      exact (huses .main _ hp).1 rfl
    refine (reload_isSome (P := P) hlive fun s hs ↦ hfound.file s (.inr ?_)).imp_right ?_
    · rw [hp, hs]
    · rintro ⟨e, he⟩
      exact ⟨e, by simpa [step, hended, hp] using he⟩
  · have hstrdup (hpc : (d.servers n).pc = .strdup) :
        ∃ text, d.world.buffer.data.text? d.world.heap = some text := by
      obtain ⟨hlive, hpublished⟩ := hserving.published halive (by rw [hpc]; rfl)
      exact hpublished.alive hlive
    have hcopy (hpc : (d.servers n).pc.hasCopy = true) :
        ∃ b text, d.world.srv.contentBuffer = some b ∧ d.world.heap b = some text := by
      obtain ⟨b, text, hb, htext, -⟩ := hserving.copied n halive hpc
      exact ⟨b, text, hb, htext⟩
    refine (serve_isSome (n := n) hfree hstrdup hcopy).imp_right ?_
    rintro ⟨e, he⟩
    exact ⟨e, by simpa [step, hended, halive, hone.serverHook n] using he⟩

/-- The hook on the main thread waits for the end of a server thread that can take a step. -/
theorem neverStuck_in_reload : ∃ d : State,
    Reach (step samplePlatform) HupsServing sampleState d ∧
      (d.mainHook = some (.stop (.joining 0)) ∧ d.world.Alive 0) ∧ NeverStuck samplePlatform d := by
  have hrun : ∃ d, Reach (step samplePlatform) HupsServing sampleState d ∧
      (d.mainHook = some (.stop (.joining 0)) ∧ d.world.Alive 0) ∧
      d.world.ended = false ∧ d.world.heap 1 = none :=
    exists_reach_of_runAll (mainSteps 33 ++ .hup .main :: hookSteps 16) (by decide +kernel)
  obtain ⟨d, hreach, hwaits, hended, hfree⟩ := hrun
  exact ⟨d, hreach, hwaits, neverStuck_of_hupsServing hreach hended ⟨1, hfree⟩⟩

end Stored.Daemon
