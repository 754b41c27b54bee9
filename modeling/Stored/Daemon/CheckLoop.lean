import Stored.Daemon.CheckMtab

/-!
# Steps of `ST_check_loop`
-/

namespace Stored.Daemon

open Bytes Json Mtab Http

/-- `json_find_member` -/
def jsonFindMember (object : JsonNode) (name : String) : Option JsonNode :=
  match object with
  | .object ms => (ms.find? fun m ↦ m.1 = ascii name).map Prod.snd
  | _ => none

/-- `(int) fspace_elem->number_` -/
def toInt (number : ℚ) : Int32 := Int32.ofInt (number.num.tdiv number.den)

/-- The locals that a pass reads from the configuration. -/
structure Thresholds where
  notice : Int32
  warn : Int32
  crit : Int32
  deriving DecidableEq

/-- `sprintf(msg_buf, "%s has %i percent space left.", ...)` -/
def mountMessage (mountPoint : List UInt8) (freeSpace : Int32) : List UInt8 :=
  mountPoint ++ ascii " has " ++ decimal freeSpace.toInt ++ ascii " percent space left."

/-- The level of a message that is logged. -/
def severity (c : Thresholds) (freeSpace : Int32) : Severity :=
  if c.crit ≥ freeSpace then .crit else if c.warn ≥ freeSpace then .warn else .notice

/-- The body of `json_foreach`; no value is a `NULL` member that is dereferenced. -/
def logEntry (c : Thresholds) (entry : JsonNode) : Option (List Message) :=
  (jsonFindMember entry "free_space").bind fun fspaceElem ↦
    match fspaceElem with
    | .number number =>
      (jsonFindMember entry "mount_point").map fun mPointElem ↦
        match mPointElem with
        | .string mountPoint =>
          let freeSpace := toInt number
          if c.notice ≥ freeSpace then
            [⟨mountMessage mountPoint freeSpace, severity c freeSpace⟩]
          else []
        | _ => [⟨ascii "json_foreach: readout error", .warn⟩]
    | _ => some [⟨ascii "json_foreach: readout error", .warn⟩]

/-- The messages of a pass over the entries. -/
def logEntries (c : Thresholds) : JsonNode → Option (List Message)
  | .array entries => (entries.mapM (logEntry c)).map List.flatten
  | _ => some []

inductive LoopPc where
  | test
  | lockConfig
  | readConfig
  | unlockConfig (c : Thresholds)
  | poll (c : Thresholds)
  | pollError
  | lockEntries (c : Thresholds)
  | foreach (c : Thresholds)
  | unlockEntries
  | trylock
  | check (p : MtabPc)
  | assignData
  | unlockBuffer
  | recv
  | close
  deriving DecidableEq

/-- The results of `poll` that are told apart. -/
inductive Poll where
  | ready
  | interrupted
  | failed
  deriving DecidableEq

/-- One step of the loop on thread `t`. -/
def checkLoop (P : Platform) (t : Tid) (poll : Poll) (e : Env) (w : World) :
    LoopPc → Option (World × Option LoopPc)
  | .test => some (w, some (if w.active then .lockConfig else .close))
  | .lockConfig => (w.lockConfig t).map (·, some .readConfig)
  | .readConfig =>
    let c := w.config
    some (w, some (.unlockConfig ⟨c.noticePercent.value, c.warnPercent.value,
      c.critPercent.value⟩))
  | .unlockConfig c => some (w.unlockConfig, some (.poll c))
  | .poll c =>
    match poll with
    | .ready => some (w, some (.lockEntries c))
    | .interrupted => some (w, some .test)
    | .failed => some ({ w with active := false }, some .pollError)
  | .pollError => some (w.abort, some .pollError)
  | .lockEntries c => (w.lockEntries t).map (·, some (.foreach c))
  | .foreach c =>
    w.entries.jsonEntries.bind fun entries ↦ (logEntries c entries).map fun messages ↦
      ({ w with log := w.log ++ messages }, some .unlockEntries)
  | .unlockEntries => some (w.unlockEntries, some .trylock)
  | .trylock =>
    match w.lockBuffer t with
    | some w => some (w, some (.check .rewind))
    | none => some (w.logMsg "srv_buff->mutex locked" .notice, some .recv)
  | .check p => (checkMtab P t e w p).map fun r ↦
    (r.1, some (match r.2 with
      | some p => .check p
      | none => .assignData))
  | .assignData =>
    some ({ w with buffer := { w.buffer with data := .text w.entries.textural } },
      some .unlockBuffer)
  | .unlockBuffer => some (w.unlockBuffer, some .recv)
  | .recv => some (w, some .test)
  | .close => some (w, none)

/-- What one step of the loop can do. -/
inductive LoopStep (P : Platform) (t : Tid) (e : Env) (w : World) :
    LoopPc → World → Option LoopPc → Prop
  | test : LoopStep P t e w .test w (some (if w.active then .lockConfig else .close))
  | lockConfig (hfree : w.config.mutex.owner = none) :
    LoopStep P t e w .lockConfig { w with config := { w.config with mutex := ⟨some t⟩ } }
      (some .readConfig)
  | readConfig :
    LoopStep P t e w .readConfig w (some (.unlockConfig ⟨w.config.noticePercent.value,
      w.config.warnPercent.value, w.config.critPercent.value⟩))
  | unlockConfig (c : Thresholds) :
    LoopStep P t e w (.unlockConfig c) w.unlockConfig (some (.poll c))
  | pollReady (c : Thresholds) : LoopStep P t e w (.poll c) w (some (.lockEntries c))
  | pollInterrupted (c : Thresholds) : LoopStep P t e w (.poll c) w (some .test)
  | pollFailed (c : Thresholds) :
    LoopStep P t e w (.poll c) { w with active := false } (some .pollError)
  | pollError : LoopStep P t e w .pollError w.abort (some .pollError)
  | lockEntries (c : Thresholds) (hfree : w.entries.mutex.owner = none) :
    LoopStep P t e w (.lockEntries c) { w with entries := { w.entries with mutex := ⟨some t⟩ } }
      (some (.foreach c))
  | foreach (c : Thresholds) (entries : JsonNode) (messages : List Message)
    (hentries : w.entries.jsonEntries = some entries)
    (hmessages : logEntries c entries = some messages) :
    LoopStep P t e w (.foreach c) { w with log := w.log ++ messages } (some .unlockEntries)
  | unlockEntries : LoopStep P t e w .unlockEntries w.unlockEntries (some .trylock)
  | trylock (hfree : w.buffer.mutex.owner = none) :
    LoopStep P t e w .trylock { w with buffer := { w.buffer with mutex := ⟨some t⟩ } }
      (some (.check .rewind))
  | busy (hheld : w.buffer.mutex.owner ≠ none) :
    LoopStep P t e w .trylock (w.logMsg "srv_buff->mutex locked" .notice) (some .recv)
  | check (p : MtabPc) (w' : World) (q : Option MtabPc)
    (hcheck : checkMtab P t e w p = some (w', q)) :
    LoopStep P t e w (.check p) w' (some (q.elim .assignData .check))
  | assignData :
    LoopStep P t e w .assignData
      { w with buffer := { w.buffer with data := .text w.entries.textural } } (some .unlockBuffer)
  | unlockBuffer : LoopStep P t e w .unlockBuffer w.unlockBuffer (some .recv)
  | recv : LoopStep P t e w .recv w (some .test)
  | close : LoopStep P t e w .close w none

theorem checkLoop_cases {P : Platform} {t : Tid} {poll : Poll} {e : Env} {w w' : World}
    {p : LoopPc} {q : Option LoopPc} (h : checkLoop P t poll e w p = some (w', q)) :
    LoopStep P t e w p w' q := by
  cases p with
  | test | readConfig | unlockConfig | pollError | unlockEntries | assignData | unlockBuffer | recv
  | close =>
    obtain ⟨rfl, rfl⟩ := Prod.mk.inj (Option.some.inj h)
    constructor
  | lockConfig =>
    simp only [checkLoop, Option.map_eq_some_iff, World.lockConfig_eq_some_iff] at h
    obtain ⟨w₁, ⟨hfree, rfl⟩, h⟩ := h
    obtain ⟨rfl, rfl⟩ := Prod.mk.inj h
    exact .lockConfig hfree
  | poll c =>
    cases poll <;> obtain ⟨rfl, rfl⟩ := Prod.mk.inj (Option.some.inj h)
    · exact .pollReady c
    · exact .pollInterrupted c
    · exact .pollFailed c
  | lockEntries c =>
    simp only [checkLoop, Option.map_eq_some_iff, World.lockEntries_eq_some_iff] at h
    obtain ⟨w₁, ⟨hfree, rfl⟩, h⟩ := h
    obtain ⟨rfl, rfl⟩ := Prod.mk.inj h
    exact .lockEntries c hfree
  | foreach c =>
    simp only [checkLoop, Option.bind_eq_some_iff, Option.map_eq_some_iff] at h
    obtain ⟨entries, hentries, messages, hmessages, h⟩ := h
    obtain ⟨rfl, rfl⟩ := Prod.mk.inj h
    exact .foreach c entries messages hentries hmessages
  | trylock =>
    simp only [checkLoop] at h
    split at h
    · rename_i w₁ hlock
      obtain ⟨hfree, rfl⟩ := World.lockBuffer_eq_some_iff.mp hlock
      obtain ⟨rfl, rfl⟩ := Prod.mk.inj (Option.some.inj h)
      exact .trylock hfree
    · rename_i hlock
      obtain ⟨rfl, rfl⟩ := Prod.mk.inj (Option.some.inj h)
      refine .busy fun hfree ↦ ?_
      exact nomatch hlock.symm.trans (World.lockBuffer_eq_some_iff.mpr ⟨hfree, rfl⟩)
  | check p =>
    obtain ⟨⟨w₁, q₁⟩, hcheck, h⟩ := Option.map_eq_some_iff.mp h
    obtain ⟨rfl, rfl⟩ := Prod.mk.inj h
    have hstep := LoopStep.check p w₁ q₁ hcheck
    cases q₁ <;> exact hstep

/-- The loop leaves the server's statics, the threads and the pointers of `stored.c` alone, and it
clears `active` at most. -/
theorem checkLoop_frame {P : Platform} {t : Tid} {poll : Poll} {e : Env} {w w' : World}
    {p : LoopPc} {q : Option LoopPc} (h : checkLoop P t poll e w p = some (w', q)) :
    ∃ mutex entries mtabf heap buffer active log ended, w' = { w with
      config := { w.config with mutex := mutex }, entries := entries, mtabf := mtabf, heap := heap,
      buffer := buffer, active := active, log := log, ended := ended } ∧
      (active = true → w.active = true) := by
  cases checkLoop_cases h with
  | check p w' q hcheck =>
    obtain ⟨mutex, entries, mtabf, heap, log, rfl⟩ := checkMtab_frame hcheck
    exact ⟨_, _, _, _, _, _, _, _, rfl, id⟩
  | pollFailed => exact ⟨_, _, _, _, _, _, _, _, rfl, nofun⟩
  | _ => exact ⟨_, _, _, _, _, _, _, _, rfl, id⟩

def LoopPc.holdsConfig : LoopPc → Bool
  | .readConfig | .unlockConfig _ => true
  | .check p => p.holdsConfig
  | _ => false

theorem checkLoop_config {P : Platform} {t : Tid} {poll : Poll} {e : Env} {w w' : World}
    {p : LoopPc} {q : Option LoopPc} (h : checkLoop P t poll e w p = some (w', q)) :
    ConfigStep w w' t p.holdsConfig (q.any LoopPc.holdsConfig) := by
  cases checkLoop_cases h with
  | lockConfig hfree => exact .lock (Mutex.lock_eq_some_iff.mpr ⟨hfree, rfl⟩)
  | unlockConfig => exact .unlock rfl nofun rfl
  | readConfig => exact .keep rfl fun _ ↦ rfl
  | test => split_ifs <;> exact .keep rfl nofun
  | check p w' q hcheck =>
    have hconfig := checkMtab_config hcheck
    cases q <;> exact hconfig
  | _ => exact .keep rfl nofun

end Stored.Daemon
