import Stored.Lib.Bytes

/-!
# The logger

The three functions of `logger.c` over their two statics. Whether the logger is initialised is
deduced from a pointer that `ST_logger_destroy` does not reset and from a sink type whose first
value is zero, so the check differs from what the calls have initialised.
-/

namespace Stored.Log

open Bytes

/-- `ST_SINK` -/
inductive Sink where
  | syslog
  | stdout
  deriving DecidableEq

/-- The value of the enumerator. -/
def Sink.value : Sink → ℕ
  | .syslog => 0
  | .stdout => 1

/-- What the pointer `daemon_name` is. -/
inductive DaemonName where
  | null
  | allocated (name : CString)
  | freed
  deriving DecidableEq

structure Logger where
  daemonName : DaemonName
  sinkType : Sink
  deriving DecidableEq

/-- The statics before any call. -/
def Logger.initial : Logger := ⟨.null, .syslog⟩

inductive Call where
  | init (name : CString) (type : Sink)
  | msg (msg : CString) (type : Int32)
  | destroy
  deriving DecidableEq

/-- What a sink is handed: the bytes written to `stdout`, or the arguments of `syslog`, of which the
second is a format. -/
inductive Delivery where
  | stdout (bytes : List UInt8)
  | syslog (priority : Int32) (format : List UInt8)
  deriving DecidableEq

inductive Outcome where
  | returned (l : Logger) (delivered : Option Delivery)
  /-- `ST_abort` -/
  | aborted
  deriving DecidableEq

/-- `fprintf(stdout, MSG_FMT, type, msg)` -/
def msgFmt (type : Int32) (msg : List UInt8) : List UInt8 :=
  ascii "<" ++ decimal type.toInt ++ ascii "> " ++ msg ++ ascii "\n"

/-- The `switch` of `ST_logger_msg`. -/
def deliver (sinkType : Sink) (msg : List UInt8) (type : Int32) : Delivery :=
  match sinkType with
  | .stdout => .stdout (msgFmt type msg)
  | .syslog => .syslog type msg

def loggerInit (_l : Logger) (name : CString) (type : Sink) : Outcome :=
  .returned ⟨.allocated name, type⟩ none

def loggerMsg (l : Logger) (msg : CString) (type : Int32) : Outcome :=
  if l.daemonName = .null ∨ l.sinkType.value = 0 then .aborted
  else .returned l (some (deliver l.sinkType msg.bytes type))

/-- No value is a second `sdsfree` of one string, which has no defined outcome. -/
def loggerDestroy (l : Logger) : Option Outcome :=
  match l.daemonName with
  | .null => some (.returned l none)
  | .allocated _ => some (.returned { l with daemonName := .freed } none)
  | .freed => none

def call (l : Logger) : Call → Option Outcome
  | .init name type => some (loggerInit l name type)
  | .msg msg type => some (loggerMsg l msg type)
  | .destroy => loggerDestroy l

/-- What has become of the process after some calls. -/
inductive Progress where
  | running (l : Logger)
  | ended
  | undefined
  deriving DecidableEq

/-- The progress after a sequence of calls; a process that has ended makes no further one. -/
def run : Logger → List Call → Progress
  | l, [] => .running l
  | l, c :: cs =>
    match call l c with
    | none => .undefined
    | some .aborted => .ended
    | some (.returned l _) => run l cs

/-- The sink of the initialisation that is in effect after a call. -/
def effect : Option Sink → Call → Option Sink
  | _, .init _ type => some type
  | sink, .msg _ _ => sink
  | _, .destroy => none

/-- What `printf` makes of a format without arguments; no value is a conversion that needs one. -/
def formatText : List UInt8 → Option (List UInt8)
  | [] => some []
  | 0x25 :: 0x25 :: s => (formatText s).map (0x25 :: ·)
  | 0x25 :: _ => none
  | c :: s => (formatText s).map (c :: ·)

/-- The sink receives the bytes of the message. -/
def Receives (sink : Sink) (msg : List UInt8) (type : Int32) (d : Delivery) : Prop :=
  match sink with
  | .stdout => d = .stdout (msgFmt type msg)
  | .syslog => ∃ format, d = .syslog type format ∧ formatText format = some msg

/-- A message aborts the process if no initialisation is in effect, and is received by the chosen
sink otherwise. -/
def MessageRight (sink : Option Sink) (p : Progress) (msg : CString) (type : Int32) : Prop :=
  match p with
  | .undefined => False
  | .ended => True
  | .running l =>
    match sink with
    | none => call l (.msg msg type) = some .aborted
    | some sink => ∃ l' d, call l (.msg msg type) = some (.returned l' (some d)) ∧
      Receives sink msg.bytes type d

/-- Every message that the calls make is right. -/
def MessagesRight (l : Logger) (sink : Option Sink) (calls : List Call) : Prop :=
  ∀ before msg type after, calls = before ++ .msg msg type :: after →
    MessageRight (before.foldl effect sink) (run l before) msg type

/-- Where a sequence of calls stands: nothing has been initialised, an initialisation is in effect,
or the last one has been destroyed. -/
inductive Phase where
  | fresh
  | live (type : Sink)
  | destroyed (type : Sink)

/-- Every message has an initialisation with `ST_STDOUT` in effect, up to one that is made before
any initialisation or after the destruction of one with `ST_SYSLOG`; and no message is made after
two destructions in a row. -/
def Phase.Allows : Phase → List Call → Prop
  | _, [] => True
  | _, .init _ type :: cs => (Phase.live type).Allows cs
  | .fresh, .destroy :: cs => Phase.fresh.Allows cs
  | .live type, .destroy :: cs => (Phase.destroyed type).Allows cs
  | .destroyed _, .destroy :: cs => ∀ msg type, .msg msg type ∉ cs
  | .live .stdout, .msg _ _ :: cs => (Phase.live .stdout).Allows cs
  | .live .syslog, .msg _ _ :: _ => False
  | .fresh, .msg _ _ :: _ => True
  | .destroyed type, .msg _ _ :: _ => type = .syslog

/-- What a phase says about the statics and about the initialisation in effect. -/
def Phase.Describes (l : Logger) (sink : Option Sink) : Phase → Prop
  | .fresh => l = .initial ∧ sink = none
  | .live type => (∃ name, l = ⟨.allocated name, type⟩) ∧ sink = some type
  | .destroyed type => l = ⟨.freed, type⟩ ∧ sink = none

theorem loggerMsg_syslog {l : Logger} (h : l.sinkType = .syslog) (msg : CString) (type : Int32) :
    loggerMsg l msg type = .aborted := by
  rw [loggerMsg, h]
  exact if_pos (.inr rfl)

theorem loggerMsg_stdout {l : Logger} (hname : l.daemonName ≠ .null) (h : l.sinkType = .stdout)
    (msg : CString) (type : Int32) :
    loggerMsg l msg type = .returned l (some (.stdout (msgFmt type msg.bytes))) := by
  rw [loggerMsg, h]
  exact if_neg fun hor ↦ hor.elim hname nofun

/-- What the calls after the first one have to do. -/
def RestRight (l : Logger) (sink : Option Sink) (c : Call) (cs : List Call) : Prop :=
  match call l c with
  | none => ∀ msg type, .msg msg type ∉ cs
  | some .aborted => True
  | some (.returned l' _) => MessagesRight l' (effect sink c) cs

theorem messagesRight_nil (l : Logger) (sink : Option Sink) : MessagesRight l sink [] := by
  intro before msg type after h
  cases before <;> exact nomatch h

theorem messagesRight_cons (l : Logger) (sink : Option Sink) (c : Call) (cs : List Call) :
    MessagesRight l sink (c :: cs) ↔
      (∀ msg type, c = .msg msg type → MessageRight sink (.running l) msg type) ∧
        RestRight l sink c cs := by
  constructor
  · intro h
    refine ⟨fun msg type hc ↦ h [] msg type cs (hc ▸ rfl), ?_⟩
    have hrest (before : List Call) (msg : CString) (type : Int32) (after : List Call)
        (hcs : cs = before ++ .msg msg type :: after) :=
      h (c :: before) msg type after (hcs ▸ rfl)
    simp only [List.foldl_cons, run] at hrest
    unfold RestRight
    cases hcall : call l c with
    | none =>
      intro msg type hmem
      obtain ⟨before, after, hcs⟩ := List.append_of_mem hmem
      have hright := hrest before msg type after hcs
      rw [hcall] at hright
      exact hright
    | some outcome =>
      cases outcome with
      | aborted => trivial
      | returned l' d =>
        intro before msg type after hcs
        simpa only [hcall] using hrest before msg type after hcs
  · rintro ⟨hfirst, hrest⟩ before msg type after h
    cases before with
    | nil => exact hfirst msg type (List.cons.inj h).1
    | cons c' before =>
      obtain ⟨rfl, hcs⟩ := List.cons.inj h
      unfold RestRight at hrest
      rw [List.foldl_cons, run]
      cases hcall : call l c with
      | none =>
        rw [hcall] at hrest
        exact hrest msg type (hcs ▸ List.mem_append_right before List.mem_cons_self)
      | some outcome =>
        rw [hcall] at hrest
        cases outcome with
        | aborted => trivial
        | returned l' d => exact hrest before msg type after hcs

section

variable {l : Logger} {sink : Option Sink} {p : Phase} {cs : List Call}
  (ih : ∀ {l : Logger} {sink : Option Sink} {p : Phase}, p.Describes l sink →
    (MessagesRight l sink cs ↔ p.Allows cs))

include ih

theorem messagesRight_init (name : CString) (type : Sink) :
    MessagesRight l sink (.init name type :: cs) ↔ p.Allows (.init name type :: cs) := by
  have hrest : RestRight l sink (.init name type) cs ↔ (Phase.live type).Allows cs :=
    ih (p := .live type) ⟨⟨name, rfl⟩, rfl⟩
  have hallows : p.Allows (.init name type :: cs) ↔ (Phase.live type).Allows cs := by
    cases p <;> rfl
  rw [messagesRight_cons, hrest, hallows]
  exact and_iff_right nofun

theorem messagesRight_destroy (h : p.Describes l sink) :
    MessagesRight l sink (.destroy :: cs) ↔ p.Allows (.destroy :: cs) := by
  rw [messagesRight_cons, and_iff_right nofun]
  cases p with
  | fresh =>
    obtain ⟨rfl, rfl⟩ := h
    exact ih (p := .fresh) ⟨rfl, rfl⟩
  | live type =>
    obtain ⟨⟨name, rfl⟩, rfl⟩ := h
    exact ih (p := .destroyed type) ⟨rfl, rfl⟩
  | destroyed type =>
    obtain ⟨rfl, rfl⟩ := h
    exact Iff.rfl

theorem messagesRight_msg (h : p.Describes l sink) (msg : CString) (type : Int32) :
    MessagesRight l sink (.msg msg type :: cs) ↔ p.Allows (.msg msg type :: cs) := by
  have hfirst : (∀ m t, Call.msg msg type = .msg m t → MessageRight sink (.running l) m t) ↔
      MessageRight sink (.running l) msg type := by
    constructor
    · exact fun hall ↦ hall msg type rfl
    · rintro hright m t ⟨rfl, rfl⟩
      exact hright
  rw [messagesRight_cons, hfirst]
  cases p with
  | fresh =>
    obtain ⟨rfl, rfl⟩ := h
    exact iff_of_true ⟨rfl, trivial⟩ trivial
  | live type =>
    obtain ⟨⟨name, rfl⟩, rfl⟩ := h
    cases type with
    | syslog =>
      apply iff_of_false _ id
      rintro ⟨⟨l', d, hcall, -⟩, -⟩
      exact nomatch hcall
    | stdout =>
      rw [and_iff_right ⟨⟨.allocated name, .stdout⟩, _, rfl, rfl⟩]
      exact ih (p := .live .stdout) ⟨⟨name, rfl⟩, rfl⟩
  | destroyed type =>
    obtain ⟨rfl, rfl⟩ := h
    cases type with
    | syslog => exact iff_of_true ⟨rfl, trivial⟩ rfl
    | stdout =>
      apply iff_of_false _ nofun
      rintro ⟨hcall, -⟩
      exact nomatch hcall

end

theorem messagesRight_iff_allows (calls : List Call) {l : Logger} {sink : Option Sink} {p : Phase}
    (h : p.Describes l sink) : MessagesRight l sink calls ↔ p.Allows calls := by
  induction calls generalizing l sink p with
  | nil => exact iff_of_true (messagesRight_nil l sink) (by cases p <;> trivial)
  | cons c cs ih =>
    cases c with
    | init name type => exact messagesRight_init ih name type
    | msg msg type => exact messagesRight_msg ih h msg type
    | destroy => exact messagesRight_destroy ih h

/-- For every sequence of calls, all messages are right if and only if the sequence keeps to the
phases. -/
theorem messagesRight_iff (calls : List Call) :
    MessagesRight .initial none calls ↔ Phase.fresh.Allows calls :=
  messagesRight_iff_allows calls ⟨rfl, rfl⟩

def sampleName : CString := ⟨ascii "stored", by decide⟩

/-- A message after the destruction is printed. -/
theorem not_messagesRight_afterDestroy :
    ¬MessagesRight .initial none
      [.init sampleName .stdout, .destroy, .msg ⟨ascii "late", by decide⟩ 1] := by
  intro h
  have hright := h [.init sampleName .stdout, .destroy] _ _ [] rfl
  exact nomatch hright

/-- A message with an initialisation in effect aborts if the sink is `ST_SYSLOG`. -/
example : ¬MessagesRight .initial none
    [.init sampleName .syslog, .msg ⟨ascii "started", by decide⟩ 1] := by
  intro h
  obtain ⟨l', d, hcall, -⟩ := h [.init sampleName .syslog] _ _ [] rfl
  exact nomatch hcall

end Stored.Log
