import Mathlib.Logic.Function.Basic
import Stored.Lib.Mutex
import Stored.Http.Request
import Stored.Mtab.Scan

/-!
# Shared state of the daemon

The objects and statics that the threads of the daemon share, with the counts that say which scan
a text and which configuration file a value comes from.
-/

namespace Stored.Daemon

open Bytes Json Mtab Http

/-- The main thread and the threads that `pthread_create` makes. -/
inductive Tid where
  | main
  | thread (n : ℕ)
  deriving DecidableEq

/-- The libraries that the daemon calls: the number conversions of libc, the double arithmetic of
the percent expression and `inet_addr`. -/
structure Platform where
  libc : Libc
  ratio : Ratio
  inetAddr : CString → UInt32

def inaddrNone : UInt32 := 0xFFFFFFFF

/-- What a pointer of `stored.c` designates: nothing yet, an initialised object, a destroyed one. -/
inductive Life where
  | absent
  | live
  | destroyed
  deriving DecidableEq

/-- The settings that a `stored.core` group has with the type `int`. -/
structure CoreGroup where
  checkIntervalMs : Option Int32
  freePercentNotice : Option Int32
  freePercentWarn : Option Int32
  freePercentCrit : Option Int32
  deriving DecidableEq

/-- The settings that a `stored.server` group has with their types. -/
structure ServerGroup where
  enabled : Option Int32
  port : Option Int32
  bindAddr : Option CString
  deriving DecidableEq

/-- A configuration file as libconfig presents it. -/
structure ConfigFile where
  parses : Bool
  core : Option CoreGroup
  server : Option ServerGroup
  deriving DecidableEq

/-- A value with the number of the configuration file it was read from. -/
structure Loaded (α : Type) where
  value : α
  version : ℕ
  deriving DecidableEq

/-- `ST_CONFIG_STRUCT` with the static `cfg` that its strings point into; `version` counts the
files read. -/
structure Config where
  mutex : Mutex Tid
  interval : Loaded Int32
  noticePercent : Loaded Int32
  warnPercent : Loaded Int32
  critPercent : Loaded Int32
  httpEnabled : Loaded Int32
  httpPort : Loaded Int32
  httpBindAddress : Loaded CString
  cfg : Option ConfigFile
  version : ℕ
  deriving DecidableEq

abbrev Addr := ℕ

/-- A string on the heap with the number of the scan whose tree it shows. -/
structure Text where
  bytes : List UInt8
  scan : ℕ
  deriving DecidableEq

/-- `ST_MTAB_MTAB_ENTRIES_STRUCT`; a tree that has been deleted is no value. `scans` counts the
trees begun, `completed` those whose call has released the mutex, and `trees` keeps what they
were. -/
structure Entries where
  mutex : Mutex Tid
  jsonEntries : Option JsonNode
  textural : Addr
  scans : ℕ
  completed : ℕ
  trees : ℕ → Option JsonNode

/-- The entries when a call releases their mutex. -/
def Entries.complete (entries : Entries) : Entries :=
  { entries with
    mutex := entries.mutex.unlock
    completed := entries.scans
    trees := Function.update entries.trees entries.scans entries.jsonEntries }

/-- `srv_buff->data`: what `malloc` left, the literal `{}` or a string on the heap. -/
inductive Data where
  | unset
  | literal
  | text (a : Addr)
  deriving DecidableEq

def Data.initial : Text := ⟨ascii "\x7b\x7d", 0⟩

/-- `ST_SERVER_BUFFER` -/
structure Buffer where
  mutex : Mutex Tid
  data : Data
  deriving DecidableEq

/-- What a descriptor number of the process designates. -/
inductive Socket where
  | unbound
  | bound
  | listening
  /-- a listening socket after `shutdown` -/
  | shut
  | client
  /-- a connection after `shutdown` -/
  | clientShut
  /-- a descriptor that another part of the process opened -/
  | foreign
  deriving DecidableEq

/-- The statics of `srv.c`. -/
structure Srv where
  stopped : Bool
  mxq : Mutex Tid
  srvThread : Option ℕ
  parentfd : ℤ
  childfd : ℤ
  address : Loaded UInt32
  contentBuffer : Option Addr
  deriving DecidableEq

/-- A 200 response that has been sent, with the text that was copied for it, and the number of its
bytes that went out if the connection was shut down before the last of them. -/
structure Served where
  report : Text
  response : OkResponse
  cut : Option ℕ
  deriving DecidableEq

/-- The client receives the whole of the text, under its length. -/
def Served.Whole (r : Served) : Prop := r.cut = none ∧ r.response.Whole r.report.bytes

instance (r : Served) : Decidable r.Whole := inferInstanceAs (Decidable (_ ∧ _))

/-- The threads that `pthread_create` has made, numbered from 0: which of them have ended and which
began with SIGHUP blocked, as the mask of their creator had it. -/
structure Threads where
  created : ℕ
  exited : ℕ → Bool
  hupBlocked : ℕ → Bool

inductive Severity where
  | plain
  | notice
  | warn
  | error
  | crit
  deriving DecidableEq

structure Message where
  text : List UInt8
  severity : Severity
  deriving DecidableEq

/-! ## The state -/

structure World where
  config : Config
  entries : Entries
  /-- the position of the stream `mtabf` -/
  mtabf : ℕ
  heap : Addr → Option Text
  buffer : Buffer
  srv : Srv
  sockets : ℤ → Option Socket
  threads : Threads
  active : Bool
  /-- `core_config` and `srv_buff` of `stored.c` -/
  coreConfig : Life
  srvBuff : Life
  served : List Served
  log : List Message
  /-- the process has ended -/
  ended : Bool

/-- What the environment supplies to a step: the descriptor that the kernel hands out, the address
that `malloc` does, the mount table and the configuration file as they are, the bytes of a client,
the number of bytes of a response that are written while it is built, and the outcome of a call
that may fail. -/
structure Env where
  fd : ℤ
  addr : Addr
  table : Table
  file : ConfigFile
  stream : List Segment
  written : ℕ
  ok : Bool

namespace World

/-- `ST_abort` -/
def abort (w : World) : World := { w with ended := true }

def logMsg (w : World) (text : String) (severity : Severity) : World :=
  { w with log := w.log ++ [⟨ascii text, severity⟩] }

def lockConfig (w : World) (t : Tid) : Option World :=
  (w.config.mutex.lock t).map fun m ↦ { w with config := { w.config with mutex := m } }

def unlockConfig (w : World) : World :=
  { w with config := { w.config with mutex := w.config.mutex.unlock } }

def lockEntries (w : World) (t : Tid) : Option World :=
  (w.entries.mutex.lock t).map fun m ↦ { w with entries := { w.entries with mutex := m } }

def unlockEntries (w : World) : World :=
  { w with entries := { w.entries with mutex := w.entries.mutex.unlock } }

def lockBuffer (w : World) (t : Tid) : Option World :=
  (w.buffer.mutex.lock t).map fun m ↦ { w with buffer := { w.buffer with mutex := m } }

def unlockBuffer (w : World) : World :=
  { w with buffer := { w.buffer with mutex := w.buffer.mutex.unlock } }

def lockMxq (w : World) (t : Tid) : Option World :=
  (w.srv.mxq.lock t).map fun m ↦ { w with srv := { w.srv with mxq := m } }

def unlockMxq (w : World) : World :=
  { w with srv := { w.srv with mxq := w.srv.mxq.unlock } }

/-- A string put at an address that no live string has. -/
def alloc (w : World) (a : Addr) (text : Text) : Option World :=
  match w.heap a with
  | none => some { w with heap := Function.update w.heap a (some text) }
  | some _ => none

def release (w : World) (a : Addr) : World :=
  { w with heap := Function.update w.heap a none }

/-- `pthread_create(&srv_thread, NULL, &serve, &mxq)` in a thread with SIGHUP blocked or not. -/
def create (w : World) (hupBlocked : Bool) : World :=
  { w with
    srv := { w.srv with srvThread := some w.threads.created }
    threads := { w.threads with
      created := w.threads.created + 1
      hupBlocked := Function.update w.threads.hupBlocked w.threads.created hupBlocked } }

def exitThread (w : World) (n : ℕ) : World :=
  { w with threads := { w.threads with exited := Function.update w.threads.exited n true } }

/-- The thread has been created and has not ended. -/
def Alive (w : World) (n : ℕ) : Prop := n < w.threads.created ∧ w.threads.exited n = false

instance (w : World) (n : ℕ) : Decidable (w.Alive n) := inferInstanceAs (Decidable (_ ∧ _))

theorem alive_exitThread_iff {w : World} {m n : ℕ} :
    (w.exitThread n).Alive m ↔ w.Alive m ∧ m ≠ n := by
  by_cases hmn : m = n
  · simp [Alive, exitThread, hmn]
  · simp [Alive, exitThread, hmn]

def setSocket (w : World) (fd : ℤ) (s : Option Socket) : World :=
  { w with sockets := Function.update w.sockets fd s }

@[simp]
theorem sockets_setSocket (w : World) (fd : ℤ) (s : Option Socket) :
    (w.setSocket fd s).sockets = Function.update w.sockets fd s := rfl

/-- `shutdown(fd, SHUT_RDWR)`: it matters for a listening socket and for a connection. -/
def shutdown (w : World) (fd : ℤ) : World :=
  match w.sockets fd with
  | some .listening => w.setSocket fd (some .shut)
  | some .client => w.setSocket fd (some .clientShut)
  | _ => w

theorem shutdown_cases (w : World) (fd : ℤ) :
    (w.sockets fd = some .listening ∧ w.shutdown fd = w.setSocket fd (some .shut)) ∨
      (w.sockets fd = some .client ∧ w.shutdown fd = w.setSocket fd (some .clientShut)) ∨
      (w.sockets fd ≠ some .listening ∧ w.sockets fd ≠ some .client ∧ w.shutdown fd = w) := by
  unfold shutdown
  split
  · rename_i h
    exact .inl ⟨h, rfl⟩
  · rename_i h
    exact .inr (.inl ⟨h, rfl⟩)
  · rename_i hlistening hclient
    exact .inr (.inr ⟨hlistening, hclient, rfl⟩)

theorem shutdown_frame (w : World) (fd : ℤ) :
    ∃ sockets, w.shutdown fd = { w with sockets := sockets } := by
  rcases w.shutdown_cases fd with ⟨-, h⟩ | ⟨-, h⟩ | ⟨-, -, h⟩ <;> exact ⟨_, h⟩

/-- The end of a 200 response of which `sent` bytes are out: the rest goes out if the connection
has not been shut down. -/
def send (w : World) (fd : ℤ) (report : Text) (sent : ℕ) : World :=
  let response := okResponse report.bytes
  if w.sockets fd = some .client ∨ response.bytes.any (·.length ≤ sent) = true then
    { w with served := w.served ++ [⟨report, response, none⟩] }
  else if sent = 0 then w
  else { w with served := w.served ++ [⟨report, response, some sent⟩] }

/-- A response on a connection that is open goes out whole. -/
theorem send_cases (w : World) (fd : ℤ) (report : Text) (sent : ℕ) :
    ∃ served, w.send fd report sent = { w with served := served } ∧
      (served = w.served ∨ ∃ cut, served = w.served ++ [⟨report, okResponse report.bytes, cut⟩] ∧
        (w.sockets fd = some .client → cut = none)) := by
  unfold send
  dsimp only
  split_ifs with hopen
  · exact ⟨_, rfl, .inr ⟨none, rfl, fun _ ↦ rfl⟩⟩
  · exact ⟨_, rfl, .inl rfl⟩
  · exact ⟨_, rfl, .inr ⟨some sent, rfl, fun h ↦ absurd (.inl h) hopen⟩⟩

variable {w w' : World} {t : Tid}

theorem lockConfig_eq_some_iff : w.lockConfig t = some w' ↔ w.config.mutex.owner = none ∧
    w' = { w with config := { w.config with mutex := ⟨some t⟩ } } := by
  simp only [lockConfig, Option.map_eq_some_iff, Mutex.lock_eq_some_iff]
  grind

theorem lockEntries_eq_some_iff : w.lockEntries t = some w' ↔ w.entries.mutex.owner = none ∧
    w' = { w with entries := { w.entries with mutex := ⟨some t⟩ } } := by
  simp only [lockEntries, Option.map_eq_some_iff, Mutex.lock_eq_some_iff]
  grind

theorem lockBuffer_eq_some_iff : w.lockBuffer t = some w' ↔ w.buffer.mutex.owner = none ∧
    w' = { w with buffer := { w.buffer with mutex := ⟨some t⟩ } } := by
  simp only [lockBuffer, Option.map_eq_some_iff, Mutex.lock_eq_some_iff]
  grind

theorem lockMxq_eq_some_iff : w.lockMxq t = some w' ↔ w.srv.mxq.owner = none ∧
    w' = { w with srv := { w.srv with mxq := ⟨some t⟩ } } := by
  simp only [lockMxq, Option.map_eq_some_iff, Mutex.lock_eq_some_iff]
  grind

theorem alloc_eq_some_iff {a : Addr} {text : Text} : w.alloc a text = some w' ↔
    w.heap a = none ∧ w' = { w with heap := Function.update w.heap a (some text) } := by
  unfold alloc
  cases w.heap a <;> simp [eq_comm]

end World

/-- What a step from a place that holds the lock, or not, to another one does with it. -/
abbrev ConfigStep (w w' : World) (t : Tid) (before after : Bool) : Prop :=
  Mutex.LockStep w.config.mutex w'.config.mutex t (before = true) (after = true)

end Stored.Daemon
