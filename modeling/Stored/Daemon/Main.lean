import Stored.Lib.Run
import Stored.Daemon.CheckLoop
import Stored.Daemon.Serve
import Stored.Daemon.Reload

/-!
# Steps of the daemon

The run of `main` from the moment `ST_demonize` has installed the handlers, with the server
threads, and with the reload hook on any thread that takes a SIGHUP. The stop hook, whose one
write is `active = false`, is one step of the thread that takes a SIGINT.
-/

namespace Stored.Daemon

open Bytes Json Mtab Http Run

inductive MainPc where
  | demonize
  | newConfig
  | load (p : LoadPc)
  | assignConfig
  | initMtabChecker
  | initSrv
  | assignSrvBuff
  | setData
  | start (p : StartPc)
  | initCheckLoop
  | setActive
  | bindNetlink
  | loop (p : LoopPc)
  | stop (p : StopPc)
  | destroySrv (p : StopPc)
  | destroyMxq
  | destroyBuffer
  | freeBuffer
  | endmntent
  | freeEntries
  | destroyCfg
  | destroyConfig
  | terminated
  | exit
  deriving DecidableEq

/-- The main thread has destroyed an object and is about to abort. -/
def MainPc.aborting : MainPc → Bool
  | .load .abort | .start .abort => true
  | _ => false

/-- One step of the main thread outside of the handlers. -/
def main (P : Platform) (poll : Poll) (e : Env) (w : World) : MainPc → Option (World × MainPc)
  | .demonize => some (w, .newConfig)
  | .newConfig => some ({ w with config := { w.config with mutex := .free } }, .load .destroy)
  | .load p => (loadFromFile e w p).map fun r ↦
    (r.1, match r.2 with
      | some p => .load p
      | none => .assignConfig)
  | .assignConfig => some ({ w with coreConfig := .live }, .initMtabChecker)
  | .initMtabChecker =>
    (w.alloc e.addr ⟨jsonStringify P.libc (.array []) [], 0⟩).map fun w ↦
      ({ w with entries := ⟨.free, some (.array []), e.addr, 0, 0, fun _ ↦ none⟩ }, .initSrv)
  | .initSrv => some ({ w with buffer := ⟨.free, .unset⟩ }, .assignSrvBuff)
  | .assignSrvBuff => some ({ w with srvBuff := .live }, .setData)
  | .setData => some ({ w with buffer := { w.buffer with data := .literal } }, .start .checkBuffer)
  | .start p => (startSrv P .main false e w p).map fun r ↦
    (r.1, match r.2 with
      | some p => .start p
      | none => .initCheckLoop)
  | .initCheckLoop => some (w, .setActive)
  | .setActive => some ({ w with active := true }, .bindNetlink)
  | .bindNetlink => some (if e.ok then (w, .loop .test) else (w.abort, .bindNetlink))
  | .loop p => (checkLoop P .main poll e w p).map fun r ↦
    (r.1, match r.2 with
      | some p => .loop p
      | none => .stop .test)
  | .stop p => (stopSrv .main w p).map fun r ↦
    (r.1, match r.2 with
      | some p => .stop p
      | none => .destroySrv .test)
  | .destroySrv p => (stopSrv .main w p).map fun r ↦
    (r.1, match r.2 with
      | some p => .destroySrv p
      | none => .destroyMxq)
  | .destroyMxq => some (w, .destroyBuffer)
  | .destroyBuffer => some ({ w with srvBuff := .destroyed }, .freeBuffer)
  | .freeBuffer => some (w, .endmntent)
  | .endmntent => some (if e.ok then (w, .freeEntries) else (w.abort, .endmntent))
  | .freeEntries =>
    some ({ w.release w.entries.textural with entries := { w.entries with jsonEntries := none } },
      .destroyCfg)
  | .destroyCfg =>
    some ({ w with config := { w.config with cfg := none }, coreConfig := .destroyed },
      .destroyConfig)
  | .destroyConfig => some (w, .terminated)
  | .terminated => some (w, .exit)
  | .exit => some ({ w with ended := true }, .exit)

/-- What one step of `main` can do. -/
inductive MainStep (P : Platform) (poll : Poll) (e : Env) (w : World) :
    MainPc → World → MainPc → Prop
  | demonize : MainStep P poll e w .demonize w .newConfig
  | newConfig :
    MainStep P poll e w .newConfig { w with config := { w.config with mutex := .free } }
      (.load .destroy)
  | load (p : LoadPc) (w' : World) (q : LoadPc) (hload : loadFromFile e w p = some (w', some q)) :
    MainStep P poll e w (.load p) w' (.load q)
  | loaded (p : LoadPc) (w' : World) (hload : loadFromFile e w p = some (w', none)) :
    MainStep P poll e w (.load p) w' .assignConfig
  | assignConfig :
    MainStep P poll e w .assignConfig { w with coreConfig := .live } .initMtabChecker
  | initMtabChecker (hfresh : w.heap e.addr = none) :
    MainStep P poll e w .initMtabChecker
      { w with
        heap := Function.update w.heap e.addr (some ⟨jsonStringify P.libc (.array []) [], 0⟩)
        entries := ⟨.free, some (.array []), e.addr, 0, 0, fun _ ↦ none⟩ } .initSrv
  | initSrv :
    MainStep P poll e w .initSrv { w with buffer := ⟨.free, .unset⟩ } .assignSrvBuff
  | assignSrvBuff : MainStep P poll e w .assignSrvBuff { w with srvBuff := .live } .setData
  | setData :
    MainStep P poll e w .setData { w with buffer := { w.buffer with data := .literal } }
      (.start .checkBuffer)
  | start (p : StartPc) (w' : World) (q : StartPc)
    (hstart : startSrv P .main false e w p = some (w', some q)) :
    MainStep P poll e w (.start p) w' (.start q)
  | started (p : StartPc) (w' : World) (hstart : startSrv P .main false e w p = some (w', none)) :
    MainStep P poll e w (.start p) w' .initCheckLoop
  | initCheckLoop : MainStep P poll e w .initCheckLoop w .setActive
  | setActive : MainStep P poll e w .setActive { w with active := true } .bindNetlink
  | bindNetlink : MainStep P poll e w .bindNetlink w (.loop .test)
  | bindFails : MainStep P poll e w .bindNetlink w.abort .bindNetlink
  | loop (p : LoopPc) (w' : World) (q : LoopPc)
    (hloop : checkLoop P .main poll e w p = some (w', some q)) :
    MainStep P poll e w (.loop p) w' (.loop q)
  | left (p : LoopPc) (w' : World) (hloop : checkLoop P .main poll e w p = some (w', none)) :
    MainStep P poll e w (.loop p) w' (.stop .test)
  | stop (p : StopPc) (w' : World) (q : StopPc) (hstop : stopSrv .main w p = some (w', some q)) :
    MainStep P poll e w (.stop p) w' (.stop q)
  | stopped (p : StopPc) (w' : World) (hstop : stopSrv .main w p = some (w', none)) :
    MainStep P poll e w (.stop p) w' (.destroySrv .test)
  | destroySrv (p : StopPc) (w' : World) (q : StopPc)
    (hstop : stopSrv .main w p = some (w', some q)) :
    MainStep P poll e w (.destroySrv p) w' (.destroySrv q)
  | stoppedAgain (p : StopPc) (w' : World) (hstop : stopSrv .main w p = some (w', none)) :
    MainStep P poll e w (.destroySrv p) w' .destroyMxq
  | destroyMxq : MainStep P poll e w .destroyMxq w .destroyBuffer
  | destroyBuffer :
    MainStep P poll e w .destroyBuffer { w with srvBuff := .destroyed } .freeBuffer
  | freeBuffer : MainStep P poll e w .freeBuffer w .endmntent
  | endmntent : MainStep P poll e w .endmntent w .freeEntries
  | endmntentFails : MainStep P poll e w .endmntent w.abort .endmntent
  | freeEntries :
    MainStep P poll e w .freeEntries
      { w.release w.entries.textural with entries := { w.entries with jsonEntries := none } }
      .destroyCfg
  | destroyCfg :
    MainStep P poll e w .destroyCfg
      { w with config := { w.config with cfg := none }, coreConfig := .destroyed } .destroyConfig
  | destroyConfig : MainStep P poll e w .destroyConfig w .terminated
  | terminated : MainStep P poll e w .terminated w .exit
  | exit : MainStep P poll e w .exit { w with ended := true } .exit

theorem main_cases {P : Platform} {poll : Poll} {e : Env} {w w' : World} {p p' : MainPc}
    (h : main P poll e w p = some (w', p')) : MainStep P poll e w p w' p' := by
  cases p with
  | load p =>
    obtain ⟨⟨w₁, q⟩, hload, h⟩ := Option.map_eq_some_iff.mp h
    obtain ⟨rfl, rfl⟩ := Prod.mk.inj h
    cases q with
    | some q => exact .load p w₁ q hload
    | none => exact .loaded p w₁ hload
  | initMtabChecker =>
    simp only [main, Option.map_eq_some_iff, World.alloc_eq_some_iff] at h
    obtain ⟨w₁, ⟨hfresh, rfl⟩, h⟩ := h
    obtain ⟨rfl, rfl⟩ := Prod.mk.inj h
    exact .initMtabChecker hfresh
  | start p =>
    obtain ⟨⟨w₁, q⟩, hstart, h⟩ := Option.map_eq_some_iff.mp h
    obtain ⟨rfl, rfl⟩ := Prod.mk.inj h
    cases q with
    | some q => exact .start p w₁ q hstart
    | none => exact .started p w₁ hstart
  | loop p =>
    obtain ⟨⟨w₁, q⟩, hloop, h⟩ := Option.map_eq_some_iff.mp h
    obtain ⟨rfl, rfl⟩ := Prod.mk.inj h
    cases q with
    | some q => exact .loop p w₁ q hloop
    | none => exact .left p w₁ hloop
  | stop p =>
    obtain ⟨⟨w₁, q⟩, hstop, h⟩ := Option.map_eq_some_iff.mp h
    obtain ⟨rfl, rfl⟩ := Prod.mk.inj h
    cases q with
    | some q => exact .stop p w₁ q hstop
    | none => exact .stopped p w₁ hstop
  | destroySrv p =>
    obtain ⟨⟨w₁, q⟩, hstop, h⟩ := Option.map_eq_some_iff.mp h
    obtain ⟨rfl, rfl⟩ := Prod.mk.inj h
    cases q with
    | some q => exact .destroySrv p w₁ q hstop
    | none => exact .stoppedAgain p w₁ hstop
  | bindNetlink | endmntent =>
    simp only [main, Option.some.injEq] at h
    split_ifs at h <;> obtain ⟨rfl, rfl⟩ := Prod.mk.inj h <;> constructor
  | _ =>
    obtain ⟨rfl, rfl⟩ := Prod.mk.inj (Option.some.inj h)
    constructor

/-! ## All threads -/

/-- The shared state with the place of each thread and of the hook that runs on it. -/
structure State where
  world : World
  main : MainPc
  mainHook : Option HookPc
  servers : ℕ → Server
  serverHook : ℕ → Option HookPc

inductive Action where
  | main (poll : Poll) (e : Env)
  | mainHook (e : Env)
  | server (n : ℕ) (e : Env)
  | serverHook (n : ℕ) (e : Env)
  | hup (t : Tid)
  | int (t : Tid)

/-- SIGHUP can be delivered to the thread. -/
def State.TakesHup (d : State) : Tid → Prop
  | .main => d.mainHook = none
  | .thread n => d.world.Alive n ∧ d.serverHook n = none ∧ d.world.threads.hupBlocked n = false

def State.Running (d : State) : Tid → Prop
  | .main => True
  | .thread n => d.world.Alive n

instance (d : State) : (t : Tid) → Decidable (d.TakesHup t)
  | .main => inferInstanceAs (Decidable (_ = _))
  | .thread _ => inferInstanceAs (Decidable (_ ∧ _ ∧ _))

instance (d : State) : (t : Tid) → Decidable (d.Running t)
  | .main => inferInstanceAs (Decidable True)
  | .thread n => inferInstanceAs (Decidable (d.world.Alive n))

/-- The hook begins on a thread. -/
def State.deliver (d : State) : Tid → State
  | .main => { d with mainHook := some .lockConfig }
  | .thread n => { d with serverHook := Function.update d.serverHook n (some .lockConfig) }

/-- One step of the daemon. A thread that runs the hook goes on when the hook has returned. -/
def step (P : Platform) (d : State) (a : Action) : Option State :=
  if d.world.ended then none
  else match a with
    | .main poll e =>
      match d.mainHook with
      | some _ => none
      | none => (main P poll e d.world d.main).map fun r ↦
        { d with world := r.1, main := r.2 }
    | .mainHook e => d.mainHook.bind fun p ↦ (reload P .main e d.world p).map fun r ↦
      { d with world := r.1, mainHook := r.2 }
    | .server n e =>
      if d.world.Alive n ∧ d.serverHook n = none then
        (serve n e d.world (d.servers n)).map fun r ↦
          match r.2 with
          | some s => { d with world := r.1, servers := Function.update d.servers n s }
          | none => { d with world := r.1.exitThread n }
      else none
    | .serverHook n e => (d.serverHook n).bind fun p ↦
      (reload P (.thread n) e d.world p).map fun r ↦
        { d with world := r.1, serverHook := Function.update d.serverHook n r.2 }
    | .hup t => if d.TakesHup t then some (d.deliver t) else none
    | .int t =>
      if d.Running t then some { d with world := { d.world with active := false } } else none

section

variable {P : Platform} {d d' : State}

theorem step_main {poll : Poll} {e : Env} (h : step P d (.main poll e) = some d') :
    d.world.ended = false ∧ d.mainHook = none ∧
      ∃ w p, main P poll e d.world d.main = some (w, p) ∧
        d' = { d with world := w, main := p } := by
  unfold step at h
  split_ifs at h with hended
  cases hhook : d.mainHook with
  | some p => simp [hhook] at h
  | none =>
    simp only [hhook, Option.map_eq_some_iff] at h
    obtain ⟨r, hmain, h⟩ := h
    exact ⟨by simpa using hended, rfl, r.1, r.2, hmain, h.symm⟩

theorem step_mainHook {e : Env} (h : step P d (.mainHook e) = some d') :
    d.world.ended = false ∧ ∃ p w q, d.mainHook = some p ∧ reload P .main e d.world p = some (w, q) ∧
      d' = { d with world := w, mainHook := q } := by
  unfold step at h
  split_ifs at h with hended
  simp only [Option.bind_eq_some_iff, Option.map_eq_some_iff] at h
  obtain ⟨p, hp, r, hreload, h⟩ := h
  exact ⟨by simpa using hended, p, r.1, r.2, hp, hreload, h.symm⟩

theorem step_server {n : ℕ} {e : Env} (h : step P d (.server n e) = some d') :
    d.world.ended = false ∧ d.world.Alive n ∧ d.serverHook n = none ∧
      ∃ w s, serve n e d.world (d.servers n) = some (w, s) ∧
        d' = (match s with
          | some s => { d with world := w, servers := Function.update d.servers n s }
          | none => { d with world := w.exitThread n }) := by
  unfold step at h
  split_ifs at h with hended
  simp only at h
  split_ifs at h with halive
  obtain ⟨r, hserve, h⟩ := Option.map_eq_some_iff.mp h
  exact ⟨by simpa using hended, halive.1, halive.2, r.1, r.2, hserve, h.symm⟩

theorem step_serverHook {n : ℕ} {e : Env} (h : step P d (.serverHook n e) = some d') :
    d.world.ended = false ∧
      ∃ p w q, d.serverHook n = some p ∧ reload P (.thread n) e d.world p = some (w, q) ∧
        d' = { d with world := w, serverHook := Function.update d.serverHook n q } := by
  unfold step at h
  split_ifs at h with hended
  simp only [Option.bind_eq_some_iff, Option.map_eq_some_iff] at h
  obtain ⟨p, hp, r, hreload, h⟩ := h
  exact ⟨by simpa using hended, p, r.1, r.2, hp, hreload, h.symm⟩

theorem step_hup {t : Tid} (h : step P d (.hup t) = some d') :
    d.world.ended = false ∧ d.TakesHup t ∧ d' = d.deliver t := by
  unfold step at h
  split_ifs at h with hended
  simp only at h
  split_ifs at h with htakes
  exact ⟨by simpa using hended, htakes, (Option.some.inj h).symm⟩

theorem step_int {t : Tid} (h : step P d (.int t) = some d') :
    d.world.ended = false ∧ d.Running t ∧
      d' = { d with world := { d.world with active := false } } := by
  unfold step at h
  split_ifs at h with hended
  simp only at h
  split_ifs at h with hrunning
  exact ⟨by simpa using hended, hrunning, (Option.some.inj h).symm⟩

end

/-- The statics before anything has written them. -/
def World.initial (heap : Addr → Option Text) (sockets : ℤ → Option Socket) : World where
  config := ⟨.free, ⟨0, 0⟩, ⟨0, 0⟩, ⟨0, 0⟩, ⟨0, 0⟩, ⟨0, 0⟩, ⟨0, 0⟩, ⟨⟨[], by decide⟩, 0⟩, none, 0⟩
  entries := ⟨.free, none, 0, 0, 0, fun _ ↦ none⟩
  mtabf := 0
  heap := heap
  buffer := ⟨.free, .unset⟩
  srv := ⟨true, .free, none, 0, 0, ⟨0, 0⟩, none⟩
  sockets := sockets
  threads := ⟨0, fun _ ↦ false, fun _ ↦ false⟩
  active := false
  coreConfig := .absent
  srvBuff := .absent
  served := []
  log := []
  ended := false

/-- A thread that begins, its arrays as the stack has them. -/
def Server.initial (buffers : Buffers) : Server := ⟨.sigmask, ⟨0, 0⟩, 0, buffers, false⟩

/-- The daemon when `ST_demonize` has installed the handlers. -/
def State.initial (heap : Addr → Option Text) (sockets : ℤ → Option Socket)
    (arrays : ℕ → Buffers) : State where
  world := .initial heap sockets
  main := .demonize
  mainHook := none
  servers n := .initial (arrays n)
  serverHook _ := none

/-- Exact conversions, exact percents, and the addresses of the loopback interface and of all. -/
def samplePlatform : Platform where
  libc := exactLibc
  ratio := exactPercent
  inetAddr s := if s.bytes = ascii "0.0.0.0" then 0 else 0x0100007F

def sampleFile (enabled port : Int32) (bindAddr : CString) : ConfigFile where
  parses := true
  core := some ⟨some 1000, some 20, some 10, some 5⟩
  server := some ⟨some enabled, some port, some bindAddr⟩

def loopback : CString := ⟨ascii "127.0.0.1", by decide⟩

def sampleEnv : Env where
  fd := 5
  addr := 0
  table := []
  file := sampleFile 1 8080 loopback
  stream := []
  written := 0
  ok := true

/-- A full file system of 100 blocks, mounted at `/`. -/
def sampleMount : Mntent × Option Statvfs := (⟨⟨ascii "/", nulFree_slash⟩⟩, some ⟨4096, 100, 5, 5⟩)

def sampleState : State := .initial (fun _ ↦ none) (fun _ ↦ none) fun _ ↦ ⟨[], [], [], []⟩

/-- A thread alone for a number of steps. -/
def mainSteps (k : ℕ) : List Action := List.replicate k (.main .ready sampleEnv)
def hookSteps (k : ℕ) : List Action := List.replicate k (.mainHook sampleEnv)
def serverSteps (n k : ℕ) : List Action := List.replicate k (.server n sampleEnv)

end Stored.Daemon
