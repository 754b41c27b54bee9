import Stored.Daemon.Restart

/-!
# Steps of `load_from_file` and of the reload hook
-/

namespace Stored.Daemon

open Bytes Json Mtab Http

/-- The settings in the order in which they are looked up. -/
inductive Setting where
  | checkIntervalMs
  | freePercentNotice
  | freePercentWarn
  | freePercentCrit
  | enabled
  | port
  | bindAddr
  deriving DecidableEq

def Setting.next : Setting → Option Setting
  | .checkIntervalMs => some .freePercentNotice
  | .freePercentNotice => some .freePercentWarn
  | .freePercentWarn => some .freePercentCrit
  | .freePercentCrit => some .enabled
  | .enabled => some .port
  | .port => some .bindAddr
  | .bindAddr => none

/-- A lookup in its group, which writes the field; no value is a lookup that fails. -/
def lookup (c : Config) (file : ConfigFile) : Setting → Option Config
  | .checkIntervalMs => (file.core.bind (·.checkIntervalMs)).map fun v ↦
    { c with interval := ⟨v, c.version⟩ }
  | .freePercentNotice => (file.core.bind (·.freePercentNotice)).map fun v ↦
    { c with noticePercent := ⟨v, c.version⟩ }
  | .freePercentWarn => (file.core.bind (·.freePercentWarn)).map fun v ↦
    { c with warnPercent := ⟨v, c.version⟩ }
  | .freePercentCrit => (file.core.bind (·.freePercentCrit)).map fun v ↦
    { c with critPercent := ⟨v, c.version⟩ }
  | .enabled => (file.server.bind (·.enabled)).map fun v ↦
    { c with httpEnabled := ⟨v, c.version⟩ }
  | .port => (file.server.bind (·.port)).map fun v ↦
    { c with httpPort := ⟨v, c.version⟩ }
  | .bindAddr => (file.server.bind (·.bindAddr)).map fun v ↦
    { c with httpBindAddress := ⟨v, c.version⟩ }

inductive LoadPc where
  | destroy
  | read
  | lookup (s : Setting)
  /-- the configuration has been destroyed for a file that is not accepted -/
  | abort
  deriving DecidableEq

/-- `ST_destroy_config(c)`, where `c` is `core_config` once `ST_new_config` has returned. -/
def World.destroyConfig (w : World) : World :=
  { w with
    config := { w.config with cfg := none }
    coreConfig := if w.coreConfig = .live then .destroyed else w.coreConfig }

theorem World.destroyConfig_coreConfig_ne_live (w : World) :
    w.destroyConfig.coreConfig ≠ .live := by
  unfold World.destroyConfig
  split_ifs with hlive
  · exact nofun
  · exact hlive

def loadFromFile (e : Env) (w : World) : LoadPc → Option (World × Option LoadPc)
  | .destroy => some ({ w with config := { w.config with cfg := none } }, some .read)
  | .read =>
    some (if e.file.parses then
      ({ w with config := { w.config with cfg := some e.file, version := w.config.version + 1 } },
        some (.lookup .checkIntervalMs))
    else (w.destroyConfig, some .abort))
  | .lookup s =>
    w.config.cfg.map fun file ↦
      match lookup w.config file s with
      | some c => ({ w with config := c }, s.next.map .lookup)
      | none => (w.destroyConfig, some .abort)
  | .abort => some (w.abort, some .abort)

/-- What one step of a load can do. -/
inductive LoadStep (e : Env) (w : World) : LoadPc → World → Option LoadPc → Prop
  | destroy :
    LoadStep e w .destroy { w with config := { w.config with cfg := none } } (some .read)
  | read (hparses : e.file.parses = true) :
    LoadStep e w .read
      { w with config := { w.config with cfg := some e.file, version := w.config.version + 1 } }
      (some (.lookup .checkIntervalMs))
  | readFails (hfails : e.file.parses = false) :
    LoadStep e w .read w.destroyConfig (some .abort)
  | lookup (s : Setting) (file : ConfigFile) (c : Config) (hfile : w.config.cfg = some file)
    (hlookup : lookup w.config file s = some c) :
    LoadStep e w (.lookup s) { w with config := c } (s.next.map .lookup)
  | lookupFails (s : Setting) (file : ConfigFile) (hfile : w.config.cfg = some file)
    (hlookup : Daemon.lookup w.config file s = none) :
    LoadStep e w (.lookup s) w.destroyConfig (some .abort)
  | abort : LoadStep e w .abort w.abort (some .abort)

theorem loadFromFile_cases {e : Env} {w w' : World} {p : LoadPc} {q : Option LoadPc}
    (h : loadFromFile e w p = some (w', q)) : LoadStep e w p w' q := by
  cases p with
  | destroy | abort =>
    obtain ⟨rfl, rfl⟩ := Prod.mk.inj (Option.some.inj h)
    constructor
  | read =>
    simp only [loadFromFile, Option.some.injEq] at h
    split_ifs at h with hparses <;> obtain ⟨rfl, rfl⟩ := Prod.mk.inj h
    · exact .read hparses
    · exact .readFails (Bool.eq_false_iff.mpr hparses)
  | lookup s =>
    obtain ⟨file, hfile, h⟩ := Option.map_eq_some_iff.mp h
    split at h
    · rename_i c hc
      obtain ⟨rfl, rfl⟩ := Prod.mk.inj h
      exact .lookup s file c hfile hc
    · rename_i hnone
      obtain ⟨rfl, rfl⟩ := Prod.mk.inj h
      exact .lookupFails s file hfile hnone

theorem lookup_mutex {c c' : Config} {file : ConfigFile} {s : Setting}
    (h : lookup c file s = some c') : c' = { c' with mutex := c.mutex } := by
  cases s <;> obtain ⟨v, -, rfl⟩ := Option.map_eq_some_iff.mp h <;> rfl

/-- A load writes the configuration, and destroys it when it comes to abort. -/
theorem loadFromFile_frame {e : Env} {w w' : World} {p : LoadPc} {q : Option LoadPc}
    (h : loadFromFile e w p = some (w', q)) :
    ∃ (c : Config) (coreConfig : Life) (ended : Bool), w' = { w with
      config := { c with mutex := w.config.mutex },
      coreConfig := coreConfig, ended := ended } ∧
      (q ≠ some .abort → coreConfig = w.coreConfig) := by
  cases loadFromFile_cases h with
  | destroy => exact ⟨{ w.config with cfg := none }, _, _, rfl, fun _ ↦ rfl⟩
  | read =>
    exact ⟨{ w.config with cfg := some e.file, version := w.config.version + 1 }, _, _, rfl,
      fun _ ↦ rfl⟩
  | readFails | lookupFails =>
    exact ⟨{ w.config with cfg := none }, _, _, rfl, fun hq ↦ absurd rfl hq⟩
  | abort => exact ⟨w.config, _, _, rfl, fun _ ↦ rfl⟩
  | lookup s file c hfile hlookup =>
    rw [lookup_mutex hlookup]
    exact ⟨c, _, _, rfl, fun _ ↦ rfl⟩

/-- Where `reload` of `stored.c` stands: in `ST_reload_config`, then in the two parts of
`ST_restart_srv`. -/
inductive HookPc where
  | lockConfig
  | load (p : LoadPc)
  | unlockConfig
  | stop (p : StopPc)
  | start (p : StartPc)
  deriving DecidableEq

/-- One step of the hook on thread `t`, which has SIGHUP blocked. To lock a mutex in a
configuration that is not there has no defined outcome. -/
def reload (P : Platform) (t : Tid) (e : Env) (w : World) : HookPc → Option (World × Option HookPc)
  | .lockConfig =>
    if w.coreConfig = .live then (w.lockConfig t).map (·, some (.load .destroy)) else none
  | .load p => (loadFromFile e w p).map fun r ↦
    (r.1, some (match r.2 with
      | some p => .load p
      | none => .unlockConfig))
  | .unlockConfig => some (w.unlockConfig, some (.stop .test))
  | .stop p => (stopSrv t w p).map fun r ↦
    (r.1, some (match r.2 with
      | some p => .stop p
      | none => .start .checkBuffer))
  | .start p => (startSrv P t true e w p).map fun r ↦ (r.1, r.2.map .start)

/-- What one step of the hook can do. -/
inductive HookStep (P : Platform) (t : Tid) (e : Env) (w : World) :
    HookPc → World → Option HookPc → Prop
  | lockConfig (hlive : w.coreConfig = .live) (hfree : w.config.mutex.owner = none) :
    HookStep P t e w .lockConfig { w with config := { w.config with mutex := ⟨some t⟩ } }
      (some (.load .destroy))
  | load (p : LoadPc) (w' : World) (q : LoadPc) (hload : loadFromFile e w p = some (w', some q)) :
    HookStep P t e w (.load p) w' (some (.load q))
  | loaded (p : LoadPc) (w' : World) (hload : loadFromFile e w p = some (w', none)) :
    HookStep P t e w (.load p) w' (some .unlockConfig)
  | unlockConfig : HookStep P t e w .unlockConfig w.unlockConfig (some (.stop .test))
  | stop (p : StopPc) (w' : World) (q : StopPc) (hstop : stopSrv t w p = some (w', some q)) :
    HookStep P t e w (.stop p) w' (some (.stop q))
  | stopped (p : StopPc) (w' : World) (hstop : stopSrv t w p = some (w', none)) :
    HookStep P t e w (.stop p) w' (some (.start .checkBuffer))
  | start (p : StartPc) (w' : World) (q : StartPc)
    (hstart : startSrv P t true e w p = some (w', some q)) :
    HookStep P t e w (.start p) w' (some (.start q))
  | started (p : StartPc) (w' : World) (hstart : startSrv P t true e w p = some (w', none)) :
    HookStep P t e w (.start p) w' none

theorem reload_cases {P : Platform} {t : Tid} {e : Env} {w w' : World} {p : HookPc}
    {q : Option HookPc} (h : reload P t e w p = some (w', q)) : HookStep P t e w p w' q := by
  cases p with
  | lockConfig =>
    simp only [reload] at h
    split_ifs at h with hlive
    simp only [Option.map_eq_some_iff, World.lockConfig_eq_some_iff] at h
    obtain ⟨w₁, ⟨hfree, rfl⟩, h⟩ := h
    obtain ⟨rfl, rfl⟩ := Prod.mk.inj h
    exact .lockConfig hlive hfree
  | load p =>
    obtain ⟨⟨w₁, q₁⟩, hload, h⟩ := Option.map_eq_some_iff.mp h
    obtain ⟨rfl, rfl⟩ := Prod.mk.inj h
    cases q₁ with
    | some q => exact .load p w₁ q hload
    | none => exact .loaded p w₁ hload
  | unlockConfig =>
    obtain ⟨rfl, rfl⟩ := Prod.mk.inj (Option.some.inj h)
    exact .unlockConfig
  | stop p =>
    obtain ⟨⟨w₁, q₁⟩, hstop, h⟩ := Option.map_eq_some_iff.mp h
    obtain ⟨rfl, rfl⟩ := Prod.mk.inj h
    cases q₁ with
    | some q => exact .stop p w₁ q hstop
    | none => exact .stopped p w₁ hstop
  | start p =>
    obtain ⟨⟨w₁, q₁⟩, hstart, h⟩ := Option.map_eq_some_iff.mp h
    obtain ⟨rfl, rfl⟩ := Prod.mk.inj h
    cases q₁ with
    | some q => exact .start p w₁ q hstart
    | none => exact .started p w₁ hstart

/-- The hook has destroyed an object and is about to abort. -/
def HookPc.aborting : HookPc → Bool
  | .load .abort | .start .abort => true
  | _ => false

/-- The hook leaves the entries, the buffer, the heap and the loop's flag alone; it destroys an
object only when it comes to abort. -/
theorem reload_frame {P : Platform} {t : Tid} {e : Env} {w w' : World} {p : HookPc}
    {q : Option HookPc} (h : reload P t e w p = some (w', q)) :
    ∃ (c : Config) (srv : Srv) (sockets : ℤ → Option Socket) (created : ℕ) (blocked : ℕ → Bool)
      (coreConfig srvBuff : Life) (ended : Bool), w' = { w with
        config := c, srv := srv, sockets := sockets,
        threads := { w.threads with created := created, hupBlocked := blocked },
        coreConfig := coreConfig, srvBuff := srvBuff, ended := ended } ∧
      (q.any HookPc.aborting = false → coreConfig = w.coreConfig ∧ srvBuff = w.srvBuff) ∧
      w.threads.created ≤ created := by
  cases reload_cases h with
  | lockConfig | unlockConfig => exact ⟨_, _, _, _, _, _, _, _, rfl, fun _ ↦ ⟨rfl, rfl⟩, le_rfl⟩
  | load _ _ q hload =>
    obtain ⟨_, _, _, rfl, hlife⟩ := loadFromFile_frame hload
    refine ⟨_, _, _, _, _, _, _, _, rfl, fun hq ↦ ⟨hlife ?_, rfl⟩, le_rfl⟩
    rintro ⟨⟩
    exact Bool.false_ne_true hq.symm
  | loaded _ _ hload =>
    obtain ⟨_, _, _, rfl, hlife⟩ := loadFromFile_frame hload
    exact ⟨_, _, _, _, _, _, _, _, rfl, fun _ ↦ ⟨hlife nofun, rfl⟩, le_rfl⟩
  | stop _ _ _ hstop | stopped _ _ hstop =>
    obtain ⟨_, _, _, rfl⟩ := stopSrv_frame hstop
    exact ⟨_, _, _, _, _, _, _, _, rfl, fun _ ↦ ⟨rfl, rfl⟩, le_rfl⟩
  | start _ _ q hstart =>
    obtain ⟨_, _, _, _, _, _, _, _, _, rfl, hlife, hle⟩ := startSrv_frame hstart
    refine ⟨_, _, _, _, _, _, _, _, rfl, fun hq ↦ ⟨rfl, hlife ?_⟩, hle⟩
    rintro ⟨⟩
    exact Bool.false_ne_true hq.symm
  | started _ _ hstart =>
    obtain ⟨_, _, _, _, _, _, _, _, _, rfl, hlife, hle⟩ := startSrv_frame hstart
    exact ⟨_, _, _, _, _, _, _, _, rfl, fun _ ↦ ⟨rfl, hlife nofun⟩, hle⟩

theorem reload_exited {P : Platform} {t : Tid} {e : Env} {w w' : World} {p : HookPc}
    {q : Option HookPc} (h : reload P t e w p = some (w', q)) :
    w'.threads.exited = w.threads.exited := by
  obtain ⟨_, _, _, _, _, _, _, _, rfl, -⟩ := reload_frame h
  rfl

/-- The hook is inside one of its critical sections of the configuration. -/
def HookPc.holdsConfig : HookPc → Bool
  | .load _ | .unlockConfig => true
  | .start p => p.holdsConfig
  | _ => false

theorem reload_config {P : Platform} {t : Tid} {e : Env} {w w' : World} {p : HookPc}
    {q : Option HookPc} (h : reload P t e w p = some (w', q)) :
    ConfigStep w w' t p.holdsConfig (q.any HookPc.holdsConfig) := by
  cases reload_cases h with
  | lockConfig _ hfree => exact .lock (Mutex.lock_eq_some_iff.mpr ⟨hfree, rfl⟩)
  | load _ _ _ hload | loaded _ _ hload =>
    obtain ⟨_, _, _, rfl, -⟩ := loadFromFile_frame hload
    exact .keep rfl fun _ ↦ rfl
  | unlockConfig => exact .unlock rfl nofun rfl
  | stop _ _ _ hstop | stopped _ _ hstop =>
    obtain ⟨_, _, _, rfl⟩ := stopSrv_frame hstop
    exact .keep rfl nofun
  | start _ _ _ hstart | started _ _ hstart => exact startSrv_config hstart

end Stored.Daemon
