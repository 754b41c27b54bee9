import Stored.Daemon.World

/-!
# Steps of `ST_check_mtab`
-/

namespace Stored.Daemon

open Bytes Json Mtab Http

/-- Where a call of `ST_check_mtab` stands, with its local `notice_level`. -/
inductive MtabPc where
  | rewind
  | lockConfig
  | readNotice
  | unlockConfig (noticeLevel : Int32)
  | lockEntries (noticeLevel : Int32)
  | delete (noticeLevel : Int32)
  | mkarray (noticeLevel : Int32)
  | getmntent (noticeLevel : Int32)
  | free
  | stringify
  | unlockEntries
  deriving DecidableEq

/-- One step of a call on thread `t`; a call without a place to go on has returned. -/
def checkMtab (P : Platform) (t : Tid) (e : Env) (w : World) :
    MtabPc → Option (World × Option MtabPc)
  | .rewind => some ({ w with mtabf := 0 }, some .lockConfig)
  | .lockConfig => (w.lockConfig t).map (·, some .readNotice)
  | .readNotice => some (w, some (.unlockConfig w.config.noticePercent.value))
  | .unlockConfig noticeLevel => some (w.unlockConfig, some (.lockEntries noticeLevel))
  | .lockEntries noticeLevel => (w.lockEntries t).map (·, some (.delete noticeLevel))
  | .delete noticeLevel =>
    some ({ w with entries := { w.entries with jsonEntries := none } }, some (.mkarray noticeLevel))
  | .mkarray noticeLevel =>
    some ({ w with entries := { w.entries with
      jsonEntries := some (.array []), scans := w.entries.scans + 1 } },
      some (.getmntent noticeLevel))
  | .getmntent noticeLevel =>
    match e.table[w.mtabf]? with
    | none => some (w, some .free)
    | some (mt, answer) =>
      let w := if answer = none then w.logMsg "statvfs error" .warn else w
      let entries := w.entries.jsonEntries.map (scanEntry P.ratio noticeLevel · mt answer)
      some ({ w with
        mtabf := w.mtabf + 1
        entries := { w.entries with jsonEntries := entries } }, some (.getmntent noticeLevel))
  | .free => some (w.release w.entries.textural, some .stringify)
  | .stringify =>
    w.entries.jsonEntries.bind fun j ↦
      (w.alloc e.addr ⟨jsonStringify P.libc j (ascii " "), w.entries.scans⟩).map fun w ↦
        ({ w with entries := { w.entries with textural := e.addr } }, some .unlockEntries)
  | .unlockEntries =>
    some ({ w with entries := w.entries.complete }, none)

/-- What one step of a call can do. -/
inductive MtabStep (P : Platform) (t : Tid) (e : Env) (w : World) :
    MtabPc → World → Option MtabPc → Prop
  | rewind : MtabStep P t e w .rewind { w with mtabf := 0 } (some .lockConfig)
  | lockConfig (hfree : w.config.mutex.owner = none) :
    MtabStep P t e w .lockConfig { w with config := { w.config with mutex := ⟨some t⟩ } }
      (some .readNotice)
  | readNotice :
    MtabStep P t e w .readNotice w (some (.unlockConfig w.config.noticePercent.value))
  | unlockConfig (noticeLevel : Int32) :
    MtabStep P t e w (.unlockConfig noticeLevel) w.unlockConfig (some (.lockEntries noticeLevel))
  | lockEntries (noticeLevel : Int32) (hfree : w.entries.mutex.owner = none) :
    MtabStep P t e w (.lockEntries noticeLevel)
      { w with entries := { w.entries with mutex := ⟨some t⟩ } } (some (.delete noticeLevel))
  | delete (noticeLevel : Int32) :
    MtabStep P t e w (.delete noticeLevel)
      { w with entries := { w.entries with jsonEntries := none } } (some (.mkarray noticeLevel))
  | mkarray (noticeLevel : Int32) :
    MtabStep P t e w (.mkarray noticeLevel)
      { w with entries := { w.entries with
        jsonEntries := some (.array []), scans := w.entries.scans + 1 } }
      (some (.getmntent noticeLevel))
  | endOfTable (noticeLevel : Int32) (hend : e.table[w.mtabf]? = none) :
    MtabStep P t e w (.getmntent noticeLevel) w (some .free)
  | entry (noticeLevel : Int32) (mt : Mntent) (answer : Option Statvfs) (log : List Message)
    (hentry : e.table[w.mtabf]? = some (mt, answer)) :
    MtabStep P t e w (.getmntent noticeLevel)
      { w with
        mtabf := w.mtabf + 1
        entries := { w.entries with
          jsonEntries := w.entries.jsonEntries.map (scanEntry P.ratio noticeLevel · mt answer) }
        log := log } (some (.getmntent noticeLevel))
  | free : MtabStep P t e w .free (w.release w.entries.textural) (some .stringify)
  | stringify (tree : JsonNode) (htree : w.entries.jsonEntries = some tree)
    (hfresh : w.heap e.addr = none) :
    MtabStep P t e w .stringify
      { w with
        heap := Function.update w.heap e.addr
          (some ⟨jsonStringify P.libc tree (ascii " "), w.entries.scans⟩)
        entries := { w.entries with textural := e.addr } } (some .unlockEntries)
  | unlockEntries :
    MtabStep P t e w .unlockEntries { w with entries := w.entries.complete } none

theorem checkMtab_cases {P : Platform} {t : Tid} {e : Env} {w w' : World} {p : MtabPc}
    {q : Option MtabPc} (h : checkMtab P t e w p = some (w', q)) : MtabStep P t e w p w' q := by
  cases p with
  | rewind | readNotice | unlockConfig | delete | mkarray | free | unlockEntries =>
    obtain ⟨rfl, rfl⟩ := Prod.mk.inj (Option.some.inj h)
    constructor
  | lockConfig =>
    simp only [checkMtab, Option.map_eq_some_iff, World.lockConfig_eq_some_iff] at h
    obtain ⟨w₁, ⟨hfree, rfl⟩, h⟩ := h
    obtain ⟨rfl, rfl⟩ := Prod.mk.inj h
    exact .lockConfig hfree
  | lockEntries noticeLevel =>
    simp only [checkMtab, Option.map_eq_some_iff, World.lockEntries_eq_some_iff] at h
    obtain ⟨w₁, ⟨hfree, rfl⟩, h⟩ := h
    obtain ⟨rfl, rfl⟩ := Prod.mk.inj h
    exact .lockEntries noticeLevel hfree
  | getmntent noticeLevel =>
    simp only [checkMtab] at h
    split at h
    · rename_i hend
      obtain ⟨rfl, rfl⟩ := Prod.mk.inj (Option.some.inj h)
      exact .endOfTable noticeLevel hend
    · rename_i mt answer hentry
      split_ifs at h <;> obtain ⟨rfl, rfl⟩ := Prod.mk.inj (Option.some.inj h) <;>
        exact .entry noticeLevel mt answer _ hentry
  | stringify =>
    simp only [checkMtab, Option.bind_eq_some_iff, Option.map_eq_some_iff,
      World.alloc_eq_some_iff] at h
    obtain ⟨tree, htree, w₁, ⟨hfresh, rfl⟩, h⟩ := h
    obtain ⟨rfl, rfl⟩ := Prod.mk.inj h
    exact .stringify tree htree hfresh

/-- A call writes the entries, their stream and their text, and takes the configuration lock. -/
theorem checkMtab_frame {P : Platform} {t : Tid} {e : Env} {w w' : World} {p : MtabPc}
    {q : Option MtabPc} (h : checkMtab P t e w p = some (w', q)) :
    ∃ mutex entries mtabf heap log, w' = { w with
      config := { w.config with mutex := mutex }, entries := entries, mtabf := mtabf, heap := heap,
      log := log } := by
  cases checkMtab_cases h <;> exact ⟨_, _, _, _, _, rfl⟩

def MtabPc.holdsConfig : MtabPc → Bool
  | .readNotice | .unlockConfig _ => true
  | _ => false

theorem checkMtab_config {P : Platform} {t : Tid} {e : Env} {w w' : World} {p : MtabPc}
    {q : Option MtabPc} (h : checkMtab P t e w p = some (w', q)) :
    ConfigStep w w' t p.holdsConfig (q.any MtabPc.holdsConfig) := by
  cases checkMtab_cases h with
  | lockConfig hfree => exact .lock (Mutex.lock_eq_some_iff.mpr ⟨hfree, rfl⟩)
  | unlockConfig => exact .unlock rfl nofun rfl
  | readNotice => exact .keep rfl fun _ ↦ rfl
  | _ => exact .keep rfl nofun

end Stored.Daemon
