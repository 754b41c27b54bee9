import Stored.Lib.Run
import Stored.Daemon.PassLog
import Stored.Daemon.SharedScan

/-!
# Findings in the log

The loop of `ST_check_loop` with everything that other threads may do between its steps. Each pass
logs the tree that an earlier pass has left and only then scans again, so a scan is replaced after
it has been logged. The events of a run record what the loop reads, logs and scans.
-/

namespace Stored.Daemon

open Bytes Json Mtab Http Run

def Config.thresholds (c : Config) : Thresholds :=
  ⟨c.noticePercent.value, c.warnPercent.value, c.critPercent.value⟩

/-- What a scan has read: the thresholds that the configuration had when the scan took its notice
level, and the mounts that `getmntent` returned, each with what `statvfs` answered. -/
structure Scan where
  thresholds : Thresholds
  visited : Table
  deriving DecidableEq

/-- The mounts that a scan has listed. -/
def Scan.findings (P : Platform) (s : Scan) : List (Mntent × Int32) :=
  listedMounts P.ratio s.thresholds.notice s.visited

inductive Event where
  /-- a pass reads the thresholds -/
  | read (c : Thresholds)
  /-- the poll of a pass ends with `EINTR` -/
  | interrupted
  /-- a pass has gone over the entries -/
  | logged (c : Thresholds) (messages : List Message)
  /-- a message that is not about a mount -/
  | other (m : Message)
  /-- a scan has replaced the tree by an empty one -/
  | begun
  /-- a scan has completed -/
  | scanned (s : Scan)
  deriving DecidableEq

def Event.messages : Event → List Message
  | .logged _ messages => messages
  | .other m => [m]
  | _ => []

/-- What other threads leave behind between two steps of the loop: anything but the entries, their
stream and the log. -/
structure Interference where
  config : Config
  heap : Addr → Option Text
  buffer : Buffer
  srv : Srv
  sockets : ℤ → Option Socket
  threads : Threads
  active : Bool
  coreConfig : Life
  srvBuff : Life
  served : List Served
  ended : Bool

def World.interfere (w : World) (i : Interference) : World :=
  { w with
    config := i.config, heap := i.heap, buffer := i.buffer, srv := i.srv, sockets := i.sockets,
    threads := i.threads, active := i.active, coreConfig := i.coreConfig, srvBuff := i.srvBuff,
    served := i.served, ended := i.ended }

/-- The loop, the scan it is in or was in last, and the events so far. -/
structure Watched where
  world : World
  pc : Option LoopPc
  pending : Scan
  events : List Event

inductive WatchAction where
  | loop (poll : Poll) (e : Env)
  | others (i : Interference)

/-- The messages that a step has logged. -/
def newMessages (w w' : World) : List Message := w'.log.drop w.log.length

/-- The events of a step of the loop from `w` to `w'`. -/
def record (poll : Poll) (e : Env) (w w' : World) (pending : Scan) : LoopPc → Scan × List Event
  | .readConfig => (pending, [.read w.config.thresholds])
  | .poll _ => (pending, if poll = .interrupted then [.interrupted] else [])
  | .foreach c => (pending, [.logged c (newMessages w w')])
  | .check .readNotice => ({ pending with thresholds := w.config.thresholds }, [])
  | .check (.mkarray _) => ({ pending with visited := [] }, [.begun])
  | .check (.getmntent _) =>
    ({ pending with visited := pending.visited ++ e.table[w.mtabf]?.toList },
      (newMessages w w').map .other)
  | .check .unlockEntries => (pending, [.scanned pending])
  | _ => (pending, (newMessages w w').map .other)

theorem record_foreach (poll : Poll) (e : Env) (w w' : World) (pending : Scan) (c : Thresholds) :
    record poll e w w' pending (.foreach c) = (pending, [.logged c (newMessages w w')]) := rfl

theorem record_trylock (poll : Poll) (e : Env) (w w' : World) (pending : Scan) :
    record poll e w w' pending .trylock = (pending, (newMessages w w').map .other) := rfl

/-- One step of the loop on the main thread, or of other threads. -/
def stepWatched (P : Platform) (s : Watched) : WatchAction → Option Watched
  | .loop poll e =>
    if s.world.ended then none
    else s.pc.bind fun p ↦ (checkLoop P .main poll e s.world p).map fun r ↦
      let recorded := record poll e s.world r.1 s.pending p
      { world := r.1, pc := r.2, pending := recorded.1, events := s.events ++ recorded.2 }
  | .others i => some { s with world := s.world.interfere i }

/-- The loop when it is entered, with the tree of `ST_init_mtab_checker` and nothing recorded. -/
def Watched.enter (w : World) : Watched where
  world := { w with entries := { w.entries with jsonEntries := some (.array []) } }
  pc := some .test
  pending := ⟨⟨0, 0, 0⟩, []⟩
  events := []

/-- The thresholds that were read last. -/
def lastRead (events : List Event) : Option Thresholds :=
  events.foldl (fun last ev ↦ match ev with
    | .read c => some c
    | _ => last) none

/-- The findings of the scan that completed last, of none before the first one. -/
def lastFindings (P : Platform) (events : List Event) : List (Mntent × Int32) :=
  events.foldl (fun found ev ↦ match ev with
    | .scanned s => s.findings P
    | _ => found) []

/-- A pass has gone over the entries since the last scan completed. -/
def LoggedInFull (events : List Event) : Prop :=
  ∀ before s after, events = before ++ .scanned s :: after → (∀ s', .scanned s' ∉ after) →
    ∃ c messages, .logged c messages ∈ after

def busyMessage : Message := ⟨ascii "srv_buff->mutex locked", .notice⟩

def statvfsMessage : Message := ⟨ascii "statvfs error", .warn⟩

/-- An event is right after the ones before it: a pass logs the findings of the last scan, by the
thresholds it has read; a pass that is interrupted has done nothing since it read them; a scan is
replaced when it has been logged; and no other message is about a mount. -/
def EventRight (P : Platform) (before : List Event) : Event → Prop
  | .logged c messages => lastRead before = some c ∧
      messages = (lastFindings P before).flatMap (mountMessages c)
  | .interrupted => ∃ c, before.getLast? = some (.read c)
  | .begun => LoggedInFull before
  | .other m => m = busyMessage ∨ m = statvfsMessage
  | _ => True

def History (P : Platform) (events : List Event) : Prop :=
  ∀ before ev after, events = before ++ ev :: after → EventRight P before ev

/-- The places of a pass up to the end of its poll. -/
def LoopPc.beforeScan : LoopPc → Bool
  | .test | .lockConfig | .readConfig | .unlockConfig _ | .poll _ => true
  | _ => false

/-- Up to the end of a poll that is interrupted, the loop uses the configuration lock and does
nothing else, and it goes back to its test. -/
def InterruptedQuiet (P : Platform) (s : Watched) : Prop :=
  ∀ p e w q, s.pc = some p → p.beforeScan = true →
    checkLoop P .main .interrupted e s.world p = some (w, q) →
      w = { s.world with config := { s.world.config with mutex := w.config.mutex } } ∧
        (∀ c, p = .poll c → w = s.world ∧ q = some .test)

/-- Every message is recorded by an event, every event is right, and passes that are interrupted
are quiet. -/
structure FindingsLogged (P : Platform) (log : List Message) (s : Watched) : Prop where
  log : s.world.log = log ++ s.events.flatMap Event.messages
  history : History P s.events
  quiet : InterruptedQuiet P s

variable {P : Platform} {events : List Event}

theorem lastRead_snoc (events : List Event) (ev : Event) :
    lastRead (events ++ [ev]) = match ev with
      | .read c => some c
      | _ => lastRead events := List.foldl_concat ..

theorem lastFindings_snoc (P : Platform) (events : List Event) (ev : Event) :
    lastFindings P (events ++ [ev]) = match ev with
      | .scanned s => s.findings P
      | _ => lastFindings P events := List.foldl_concat ..

/-- Where an element stands in a list that has grown by one. -/
theorem snoc_eq_append_cons {α : Type*} {l before after : List α} {x y : α}
    (h : l ++ [x] = before ++ y :: after) :
    (after = [] ∧ l = before ∧ x = y) ∨
      ∃ after', after = after' ++ [x] ∧ l = before ++ y :: after' := by
  rcases List.eq_nil_or_concat after with rfl | ⟨after', z, rfl⟩
  · left
    obtain ⟨hl, hx⟩ := List.append_inj' h rfl
    exact ⟨rfl, hl, (List.cons.inj hx).1⟩
  · right
    rw [List.concat_eq_append, ← List.cons_append, ← List.append_assoc] at h
    obtain ⟨hl, hx⟩ := List.append_inj' h rfl
    exact ⟨after', by rw [hx, List.concat_eq_append], hl⟩

theorem History.snoc {ev : Event} (h : History P events) (hev : EventRight P events ev) :
    History P (events ++ [ev]) := by
  intro before x after heq
  rcases snoc_eq_append_cons heq with ⟨-, rfl, rfl⟩ | ⟨after', -, hevents⟩
  · exact hev
  · exact h before x after' hevents

theorem loggedInFull_logged (events : List Event) (c : Thresholds) (messages : List Message) :
    LoggedInFull (events ++ [.logged c messages]) := by
  intro before s after heq _
  rcases snoc_eq_append_cons heq with ⟨-, -, hev⟩ | ⟨after', rfl, -⟩
  · exact nomatch hev
  · exact ⟨c, messages, List.mem_append_right _ (List.mem_singleton.mpr rfl)⟩

theorem lastRead_of_getLast? {c : Thresholds} (h : events.getLast? = some (.read c)) :
    lastRead events = some c := by
  obtain ⟨before, rfl⟩ := List.getLast?_eq_some_iff.mp h
  exact lastRead_snoc before (.read c)

/-! ## The invariant -/

/-- The tree shows the findings of the last scan. -/
def LastTree (P : Platform) (events : List Event) (w : World) : Prop :=
  w.entries.jsonEntries =
    some (.array ((lastFindings P events).map fun m ↦ entryNode m.1 m.2))

/-- What is known at each place of a scan. -/
def MtabPc.FoundAt (P : Platform) (pending : Scan) (events : List Event) (w : World) :
    MtabPc → Prop
  | .mkarray _ => LoggedInFull events
  | .getmntent _ | .free | .stringify | .unlockEntries => w.entries.jsonEntries =
      some (scanTable P.ratio pending.thresholds.notice pending.visited)
  | _ => LastTree P events w ∧ LoggedInFull events

/-- What is known at each place of the loop. -/
def LoopPc.FoundAt (P : Platform) (pending : Scan) (events : List Event) (w : World) :
    LoopPc → Prop
  | .unlockConfig c | .poll c => LastTree P events w ∧ events.getLast? = some (.read c)
  | .lockEntries c | .foreach c => LastTree P events w ∧ lastRead events = some c
  | .unlockEntries | .trylock => LastTree P events w ∧ LoggedInFull events
  | .check p => p.FoundAt P pending events w ∧
      ∀ n, p.noticeLevel = some n → n = pending.thresholds.notice
  | _ => LastTree P events w

structure Watching (P : Platform) (log : List Message) (s : Watched) : Prop where
  log : s.world.log = log ++ s.events.flatMap Event.messages
  history : History P s.events
  place : ∀ p, s.pc = some p → p.FoundAt P s.pending s.events s.world

theorem newMessages_of_eq {w w' : World} (h : w'.log = w.log) : newMessages w w' = [] := by
  rw [newMessages, h, List.drop_length]

theorem newMessages_of_append {w w' : World} {messages : List Message}
    (h : w'.log = w.log ++ messages) : newMessages w w' = messages := by
  rw [newMessages, h, List.drop_left]

/-- The events of a step account for what it logs, and are right after those before them. -/
structure Recorded (P : Platform) (events : List Event) (w w' : World) (new : List Event) :
    Prop where
  log : w'.log = w.log ++ new.flatMap Event.messages
  history : History P (events ++ new)

/-- A step without events. -/
theorem recorded_nil {w w' : World} {Q : List Event → Prop} (hhistory : History P events)
    (hlog : w'.log = w.log) (hQ : Q events) : Recorded P events w w' [] ∧ Q (events ++ []) := by
  rw [List.append_nil]
  refine ⟨⟨?_, ?_⟩, hQ⟩
  · rw [hlog, List.flatMap_nil, List.append_nil]
  · rwa [List.append_nil]

theorem recorded_one {w w' : World} {ev : Event} (hhistory : History P events)
    (hev : EventRight P events ev) (hlog : w'.log = w.log ++ ev.messages) :
    Recorded P events w w' [ev] := by
  constructor
  · rw [hlog, List.flatMap_singleton]
  · exact hhistory.snoc hev

theorem recorded_other {w w' : World} {m : Message} (hhistory : History P events)
    (hm : m = busyMessage ∨ m = statvfsMessage) (hlog : w'.log = w.log ++ [m]) :
    Recorded P events w w' ((newMessages w w').map .other) := by
  rw [newMessages_of_append hlog]
  exact recorded_one hhistory hm hlog

/-- A step that logs nothing, and is not an event of its own. -/
theorem recorded_silent {w w' : World} {Q : List Event → Prop} (hhistory : History P events)
    (hlog : w'.log = w.log) (hQ : Q events) :
    Recorded P events w w' ((newMessages w w').map .other) ∧
      Q (events ++ (newMessages w w').map .other) := by
  rw [newMessages_of_eq hlog, List.map_nil]
  exact recorded_nil hhistory hlog hQ

/-- A call of `ST_check_mtab` logs nothing, or that `statvfs` failed. -/
theorem checkMtab_log {t : Tid} {e : Env} {w w' : World} {p : MtabPc} {q : Option MtabPc}
    (h : checkMtab P t e w p = some (w', q)) :
    w'.log = w.log ∨ w'.log = w.log ++ [statvfsMessage] := by
  cases p with
  | getmntent noticeLevel =>
    simp only [checkMtab] at h
    split at h
    · obtain ⟨rfl, -⟩ := Prod.mk.inj (Option.some.inj h)
      exact .inl rfl
    · split_ifs at h <;> obtain ⟨rfl, -⟩ := Prod.mk.inj (Option.some.inj h)
      · exact .inr rfl
      · exact .inl rfl
  | _ =>
    cases checkMtab_cases h
    exact .inl rfl

/-- What a call of `ST_check_mtab` goes on to, or leaves behind. -/
def FoundAfter (P : Platform) (pending : Scan) (events : List Event) (w : World) :
    Option MtabPc → Prop
  | some q => q.FoundAt P pending events w ∧
      ∀ n, q.noticeLevel = some n → n = pending.thresholds.notice
  | none => LastTree P events w

/-- One step of a scan inside of the loop. -/
theorem checkMtab_found {poll : Poll} {e : Env} {w w' : World} {pending : Scan} {p : MtabPc}
    {q : Option MtabPc} (h : checkMtab P .main e w p = some (w', q))
    (hp : p.FoundAt P pending events w)
    (hnotice : ∀ n, p.noticeLevel = some n → n = pending.thresholds.notice)
    (hhistory : History P events) :
    Recorded P events w w' (record poll e w w' pending (.check p)).2 ∧
      FoundAfter P (record poll e w w' pending (.check p)).1
        (events ++ (record poll e w w' pending (.check p)).2) w' q := by
  cases checkMtab_cases h with
  | rewind | lockConfig =>
    exact recorded_silent (Q := fun evs ↦ FoundAfter P pending evs _ _) hhistory rfl ⟨hp, nofun⟩
  | unlockConfig | lockEntries =>
    exact recorded_silent (Q := fun evs ↦ FoundAfter P pending evs _ _) hhistory rfl ⟨hp, hnotice⟩
  | free | stringify =>
    exact recorded_silent (Q := fun evs ↦ FoundAfter P pending evs _ _) hhistory rfl ⟨hp, nofun⟩
  | delete =>
    exact recorded_silent (Q := fun evs ↦ FoundAfter P pending evs _ _) hhistory rfl
      ⟨hp.2, hnotice⟩
  | readNotice =>
    exact recorded_nil (Q := fun evs ↦ FoundAfter P _ evs _ _) hhistory rfl
      ⟨hp, fun n hn ↦ (Option.some.inj hn).symm⟩
  | mkarray noticeLevel =>
    refine ⟨recorded_one hhistory hp (List.append_nil _).symm, rfl, hnotice⟩
  | endOfTable noticeLevel hend =>
    refine recorded_silent (Q := fun evs ↦ FoundAfter P _ evs _ _) hhistory rfl ⟨?_, nofun⟩
    change w.entries.jsonEntries =
      some (scanTable _ _ (pending.visited ++ e.table[w.mtabf]?.toList))
    rw [hend, Option.toList_none, List.append_nil]
    exact hp
  | entry noticeLevel mt answer log hentry =>
    refine ⟨?_, ?_, hnotice⟩
    · rcases checkMtab_log h with hlog | hlog
      · exact (recorded_silent (Q := fun _ ↦ True) hhistory hlog trivial).1
      · exact recorded_other hhistory (.inr rfl) hlog
    · obtain rfl := hnotice noticeLevel rfl
      have htree : w.entries.jsonEntries =
          some (scanTable P.ratio pending.thresholds.notice pending.visited) := hp
      change w.entries.jsonEntries.map _ =
        some (scanTable _ _ (pending.visited ++ e.table[w.mtabf]?.toList))
      rw [hentry, Option.toList_some, scanTable_snoc, htree]
      rfl
  | unlockEntries =>
    refine ⟨recorded_one hhistory trivial (List.append_nil _).symm, ?_⟩
    change LastTree P (events ++ [.scanned pending]) _
    rw [LastTree, lastFindings_snoc]
    exact hp.trans (congrArg some (scanTable_eq ..))

theorem LastTree.snoc {w : World} {ev : Event} (h : LastTree P events w)
    (hev : ∀ s, ev ≠ .scanned s) : LastTree P (events ++ [ev]) w := by
  rw [LastTree, lastFindings_snoc]
  cases ev with
  | scanned s => exact absurd rfl (hev s)
  | _ => exact h

/-- What is known at the next place of the loop. -/
def NextFound (P : Platform) (pending : Scan) (q : Option LoopPc) (w : World)
    (events : List Event) : Prop :=
  q.elim True (LoopPc.FoundAt P pending events w)

/-- One step of the loop, other than in a poll. -/
theorem checkLoop_found {poll : Poll} {e : Env} {w w' : World} {pending : Scan} {p : LoopPc}
    {q : Option LoopPc} (h : checkLoop P .main poll e w p = some (w', q))
    (hp : p.FoundAt P pending events w) (hhistory : History P events) (hpoll : ∀ c, p ≠ .poll c) :
    Recorded P events w w' (record poll e w w' pending p).2 ∧
      NextFound P (record poll e w w' pending p).1 q w'
        (events ++ (record poll e w w' pending p).2) := by
  cases checkLoop_cases h with
  | pollReady c | pollInterrupted c | pollFailed c => exact absurd rfl (hpoll c)
  | test =>
    have hnext :
        NextFound P pending (some (if w.active then .lockConfig else .close)) w events := by
      split_ifs <;> exact hp
    exact recorded_silent (Q := NextFound P pending _ _) hhistory rfl hnext
  | lockConfig | unlockConfig | pollError | lockEntries | unlockEntries | assignData
  | unlockBuffer | recv =>
    exact recorded_silent (Q := NextFound P pending _ _) hhistory rfl hp
  | close => exact recorded_silent (Q := NextFound P pending _ _) hhistory rfl trivial
  | trylock => exact recorded_silent (Q := NextFound P pending _ _) hhistory rfl ⟨hp, nofun⟩
  | readConfig =>
    refine ⟨recorded_one hhistory trivial (List.append_nil _).symm, ?_, ?_⟩
    · exact LastTree.snoc hp nofun
    · exact List.getLast?_concat ..
  | foreach c entries messages hentries hmessages =>
    have hnew : newMessages w { w with log := w.log ++ messages } = messages :=
      newMessages_of_append rfl
    obtain rfl := Option.some.inj (hentries.symm.trans hp.1)
    rw [logEntries_mounts] at hmessages
    have hright : EventRight P events (.logged c messages) :=
      ⟨hp.2, (Option.some.inj hmessages).symm⟩
    rw [record_foreach, hnew]
    refine ⟨recorded_one hhistory hright rfl, ?_, ?_⟩
    · exact LastTree.snoc hp.1 nofun
    · exact loggedInFull_logged events c messages
  | busy =>
    have hnew : newMessages w (w.logMsg "srv_buff->mutex locked" .notice) = [busyMessage] :=
      newMessages_of_append rfl
    refine ⟨recorded_other hhistory (.inl rfl) rfl, ?_⟩
    rw [record_trylock, hnew]
    exact LastTree.snoc hp.1 nofun
  | check p w' q hcheck =>
    obtain ⟨hrecorded, hfound⟩ := checkMtab_found hcheck hp.1 hp.2 hhistory
    refine ⟨hrecorded, ?_⟩
    cases q with
    | none => exact hfound
    | some q => exact hfound

/-- The step in which a poll ends. -/
theorem poll_found {poll : Poll} {e : Env} {w w' : World} {pending : Scan} {c : Thresholds}
    {q : Option LoopPc} (h : checkLoop P .main poll e w (.poll c) = some (w', q))
    (hp : (LoopPc.poll c).FoundAt P pending events w) (hhistory : History P events) :
    Recorded P events w w' (record poll e w w' pending (.poll c)).2 ∧
      NextFound P (record poll e w w' pending (.poll c)).1 q w'
        (events ++ (record poll e w w' pending (.poll c)).2) := by
  obtain ⟨htree, hread⟩ := hp
  cases poll with
  | ready =>
    obtain ⟨rfl, rfl⟩ := Prod.mk.inj (Option.some.inj h)
    exact recorded_nil (Q := NextFound P pending _ _) hhistory rfl
      ⟨htree, lastRead_of_getLast? hread⟩
  | interrupted =>
    obtain ⟨rfl, rfl⟩ := Prod.mk.inj (Option.some.inj h)
    refine ⟨recorded_one hhistory ⟨c, hread⟩ (List.append_nil _).symm, ?_⟩
    exact htree.snoc nofun
  | failed =>
    obtain ⟨rfl, rfl⟩ := Prod.mk.inj (Option.some.inj h)
    exact recorded_nil (Q := NextFound P pending _ _) hhistory rfl htree

theorem watching_step {log : List Message} {s s' : Watched} {a : WatchAction}
    (hs : Watching P log s) (h : stepWatched P s a = some s') : Watching P log s' := by
  cases a with
  | others i =>
    obtain rfl := Option.some.inj h
    refine ⟨hs.log, hs.history, fun p hp ↦ ?_⟩
    have hfound := hs.place p hp
    cases p with
    | check p => exact ⟨by cases p <;> exact hfound.1, hfound.2⟩
    | _ => exact hfound
  | loop poll e =>
    simp only [stepWatched] at h
    split_ifs at h
    simp only [Option.bind_eq_some_iff, Option.map_eq_some_iff] at h
    obtain ⟨p, hpc, ⟨w, q⟩, hloop, rfl⟩ := h
    have hp := hs.place p hpc
    have hstep : Recorded P s.events s.world w (record poll e s.world w s.pending p).2 ∧
        NextFound P (record poll e s.world w s.pending p).1 q w
          (s.events ++ (record poll e s.world w s.pending p).2) := by
      by_cases hpoll : ∃ c, p = .poll c
      · obtain ⟨c, rfl⟩ := hpoll
        exact poll_found hloop hp hs.history
      · exact checkLoop_found hloop hp hs.history fun c hc ↦ hpoll ⟨c, hc⟩
    obtain ⟨⟨hlog, hhistory⟩, hplace⟩ := hstep
    refine ⟨?_, hhistory, fun q' hq ↦ ?_⟩
    · rw [hlog, hs.log, List.flatMap_append, List.append_assoc]
    · obtain rfl : q = some q' := hq
      exact hplace

theorem watching_enter (w : World) : Watching P w.log (.enter w) where
  log := (List.append_nil _).symm
  history before ev after heq := by cases before <;> exact nomatch heq
  place p hp := by
    obtain rfl := Option.some.inj hp
    rfl

theorem interruptedQuiet (s : Watched) : InterruptedQuiet P s := by
  intro p e w q hpc hp h
  cases p with
  | test | readConfig | poll =>
    obtain ⟨rfl, rfl⟩ := Prod.mk.inj (Option.some.inj h)
    exact ⟨rfl, fun c hc ↦ ⟨rfl, by cases hc <;> rfl⟩⟩
  | unlockConfig =>
    obtain ⟨rfl, rfl⟩ := Prod.mk.inj (Option.some.inj h)
    exact ⟨rfl, nofun⟩
  | lockConfig =>
    cases checkLoop_cases h
    exact ⟨rfl, nofun⟩
  | _ => exact nomatch hp

theorem watching_of_reach {w : World} {s : Watched}
    (h : Reachable (stepWatched P) (.enter w) s) : Watching P w.log s :=
  h.invariant (Watching P w.log) (watching_enter w) fun _ _ _ hs _ ↦ watching_step hs

/-- In every run of the loop, whatever other threads do between its steps: a pass logs the findings
of the last scan in full, a scan is replaced only after that, no other message is about a mount,
and a pass that is interrupted does nothing. -/
theorem findingsLogged_of_reach {w : World} {s : Watched}
    (h : Reachable (stepWatched P) (.enter w) s) : FindingsLogged P w.log s :=
  ⟨(watching_of_reach h).log, (watching_of_reach h).history, interruptedQuiet s⟩

/-- The scan that completed last. -/
def lastScan (events : List Event) : Option Scan :=
  events.foldl (fun last ev ↦ match ev with
    | .scanned s => some s
    | _ => last) none

/-- One message for a mount under one of the thresholds, at the level of the most urgent one. -/
def ladderMessages (P : Platform) (c : Thresholds) (entry : Mntent × Option Statvfs) :
    List Message :=
  match entry.2 with
  | none => []
  | some s =>
    let f := freePercent P.ratio s
    let text := mountMessage entry.1.mntDir.bytes f
    if 0 < s.fBlocks then
      if f ≤ c.crit then [⟨text, .crit⟩]
      else if f ≤ c.warn then [⟨text, .warn⟩]
      else if f ≤ c.notice then [⟨text, .notice⟩]
      else []
    else []

/-- One message for a mount under both notice levels, that of the scan and that of the pass, at the
level of the most urgent threshold. -/
def gatedMessages (P : Platform) (noticeLevel : Int32) (c : Thresholds)
    (entry : Mntent × Option Statvfs) : List Message :=
  match entry.2 with
  | none => []
  | some s =>
    let f := freePercent P.ratio s
    let text := mountMessage entry.1.mntDir.bytes f
    if 0 < s.fBlocks then
      if noticeLevel < f ∨ c.notice < f then []
      else if f ≤ c.crit then [⟨text, .crit⟩]
      else if f ≤ c.warn then [⟨text, .warn⟩]
      else [⟨text, .notice⟩]
    else []

/-- A pass that reads the thresholds that the last scan has read logs a mount that the scan has
visited under one of the thresholds, at the level of the most urgent one. -/
def PassesFollowLadder (P : Platform) (events : List Event) : Prop :=
  ∀ before c messages after s, events = before ++ .logged c messages :: after →
    lastScan before = some s → s.thresholds = c →
    messages = s.visited.flatMap (ladderMessages P c)

/-- A pass logs a mount that the last scan has visited under the notice levels of both, at the level
of the most urgent threshold. -/
def PassesFollowGate (P : Platform) (events : List Event) : Prop :=
  ∀ before c messages after s, events = before ++ .logged c messages :: after →
    lastScan before = some s →
    messages = s.visited.flatMap (gatedMessages P s.thresholds.notice c)

theorem lastScan_snoc (events : List Event) (ev : Event) :
    lastScan (events ++ [ev]) = match ev with
      | .scanned s => some s
      | _ => lastScan events := List.foldl_concat ..

theorem lastFindings_of_lastScan {s : Scan} (h : lastScan events = some s) :
    lastFindings P events = s.findings P := by
  induction events using List.reverseRecOn with
  | nil => exact nomatch h
  | append_singleton events ev ih =>
    rw [lastScan_snoc] at h
    rw [lastFindings_snoc]
    cases ev with
    | scanned s' =>
      obtain rfl := Option.some.inj h
      rfl
    | _ => exact ih h

theorem listedMounts_singleton (ratio : Ratio) (noticeLevel : Int32)
    (entry : Mntent × Option Statvfs) : listedMounts ratio noticeLevel [entry] =
      ((listedPercent ratio noticeLevel entry.2).map (entry.1, ·)).toList := by
  rw [listedMounts, List.filterMap_cons, List.filterMap_nil]
  cases listedPercent ratio noticeLevel entry.2 <;> rfl

theorem mountMessages_listed (P : Platform) (noticeLevel : Int32) (c : Thresholds)
    (entry : Mntent × Option Statvfs) :
    (listedMounts P.ratio noticeLevel [entry]).flatMap (mountMessages c) =
      gatedMessages P noticeLevel c entry := by
  rw [listedMounts_singleton, gatedMessages]
  cases entry.2 with
  | none => rfl
  | some s =>
    by_cases hblocks : 0 < s.fBlocks
    · by_cases hlevel : freePercent P.ratio s ≤ noticeLevel
      · simp only [listedPercent, if_pos hblocks, if_pos hlevel, Option.map_some,
          Option.toList_some, List.flatMap_singleton, mountMessages, severity, ge_iff_le,
          Int32.not_lt.mpr hlevel, false_or, ← Int32.not_le, ite_not]
        split_ifs <;> rfl
      · have hlt : noticeLevel < freePercent P.ratio s := Int32.not_le.mp hlevel
        simp only [listedPercent, if_pos hblocks, if_neg hlevel, hlt, true_or, if_true]
        rfl
    · simp only [listedPercent, if_neg hblocks]
      rfl

/-- The messages for the findings of a scan, mount by mount. -/
theorem findings_flatMap (P : Platform) (s : Scan) (c : Thresholds) :
    (s.findings P).flatMap (mountMessages c) =
      s.visited.flatMap (gatedMessages P s.thresholds.notice c) := by
  unfold Scan.findings
  induction s.visited with
  | nil => rfl
  | cons entry visited ih =>
    calc
      _ = (listedMounts P.ratio s.thresholds.notice [entry]).flatMap (mountMessages c) ++
          (listedMounts P.ratio s.thresholds.notice visited).flatMap (mountMessages c) := by
        rw [listedMounts_cons, List.flatMap_append]
      _ = gatedMessages P s.thresholds.notice c entry ++
          visited.flatMap (gatedMessages P s.thresholds.notice c) := by
        rw [mountMessages_listed, ih]
      _ = _ := List.flatMap_cons.symm

/-- In every run of the loop, a pass logs a mount that the last scan has visited if and only if its
percent is at most the notice level of the scan and that of the pass, and then at the level of the
most urgent threshold of the pass that is not below the percent. -/
theorem passesFollowGate_of_reach {w : World} {s : Watched}
    (h : Reachable (stepWatched P) (.enter w) s) : PassesFollowGate P s.events := by
  intro before c messages after scan hevents hscan
  obtain ⟨-, hmessages⟩ := (watching_of_reach h).history before _ after hevents
  rw [hmessages, lastFindings_of_lastScan hscan, findings_flatMap]

/-- The loop alone, entered with thresholds that do not change, while 5 percent of the one file
system are free. -/
def sampleLoop (c : Thresholds) : World :=
  { World.initial (fun _ ↦ none) (fun _ ↦ none) with
    config := { (World.initial (fun _ ↦ none) fun _ ↦ none).config with
      noticePercent := ⟨c.notice, 0⟩
      warnPercent := ⟨c.warn, 0⟩
      critPercent := ⟨c.crit, 0⟩ }
    active := true }

def watchedSteps (k : ℕ) : List WatchAction :=
  List.replicate k (.loop .ready { sampleEnv with table := [sampleMount] })

/-- A pass that scans one mount, a pass whose poll is interrupted, and two passes at an empty mount
table. -/
def replacedSteps : List WatchAction :=
  watchedSteps 28 ++ .loop .interrupted sampleEnv :: List.replicate 30 (.loop .ready sampleEnv)

/-- The one finding is logged before a scan without findings replaces the tree. -/
def replacedEvents : List Event :=
  [.read ⟨20, 10, 5⟩, .logged ⟨20, 10, 5⟩ [], .begun, .scanned ⟨⟨20, 10, 5⟩, [sampleMount]⟩,
    .read ⟨20, 10, 5⟩, .interrupted, .read ⟨20, 10, 5⟩,
    .logged ⟨20, 10, 5⟩ [⟨ascii "/ has 5 percent space left.", .crit⟩], .begun,
    .scanned ⟨⟨20, 10, 5⟩, []⟩, .read ⟨20, 10, 5⟩, .logged ⟨20, 10, 5⟩ []]

theorem findingsLogged_secondPass : ∃ s,
    Reachable (stepWatched samplePlatform) (.enter (sampleLoop ⟨20, 10, 5⟩)) s ∧
      s.events = replacedEvents ∧ FindingsLogged samplePlatform (sampleLoop ⟨20, 10, 5⟩).log s := by
  have hrun : ∃ s, Reachable (stepWatched samplePlatform) (.enter (sampleLoop ⟨20, 10, 5⟩)) s ∧
      s.events = replacedEvents := exists_reach_of_runAll replacedSteps (by decide +kernel)
  obtain ⟨s, hreach, hevents⟩ := hrun
  exact ⟨s, hreach, hevents, findingsLogged_of_reach hreach⟩

/-- Each pass logs what the scan before it has found. -/
theorem passesFollowGate_secondPass : ∃ s,
    Reachable (stepWatched samplePlatform) (.enter (sampleLoop ⟨20, 10, 5⟩)) s ∧
      s.events = replacedEvents ∧ PassesFollowGate samplePlatform s.events := by
  have hrun : ∃ s, Reachable (stepWatched samplePlatform) (.enter (sampleLoop ⟨20, 10, 5⟩)) s ∧
      s.events = replacedEvents := exists_reach_of_runAll replacedSteps (by decide +kernel)
  obtain ⟨s, hreach, hevents⟩ := hrun
  exact ⟨s, hreach, hevents, passesFollowGate_of_reach hreach⟩

/-- A critical threshold above the notice level: 5 percent are critical, and nothing is logged. -/
theorem not_passesFollowLadder :
    ¬∀ s, Reachable (stepWatched samplePlatform) (.enter (sampleLoop ⟨4, 15, 10⟩)) s →
      PassesFollowLadder samplePlatform s.events := by
  intro hclaim
  have hrun : ∃ s, Reachable (stepWatched samplePlatform) (.enter (sampleLoop ⟨4, 15, 10⟩)) s ∧
      s.events = [.read ⟨4, 15, 10⟩, .logged ⟨4, 15, 10⟩ [], .begun,
        .scanned ⟨⟨4, 15, 10⟩, [sampleMount]⟩, .read ⟨4, 15, 10⟩, .logged ⟨4, 15, 10⟩ []] :=
    exists_reach_of_runAll (watchedSteps 31) (by decide +kernel)
  obtain ⟨s, hreach, hevents⟩ := hrun
  have hsilent : [] = [sampleMount].flatMap (ladderMessages samplePlatform ⟨4, 15, 10⟩) :=
    hclaim s hreach [.read ⟨4, 15, 10⟩, .logged ⟨4, 15, 10⟩ [], .begun,
      .scanned ⟨⟨4, 15, 10⟩, [sampleMount]⟩, .read ⟨4, 15, 10⟩] _ _ [] _ hevents rfl rfl
  have hlogged : [sampleMount].flatMap (ladderMessages samplePlatform ⟨4, 15, 10⟩) ≠ [] := by
    decide +kernel
  exact hlogged hsilent.symm

/-! ## The daemon -/

/-- The main thread is behind the loop. -/
def MainPc.afterLoop : MainPc → Bool
  | .stop _ | .destroySrv _ | .destroyMxq | .destroyBuffer | .freeBuffer | .endmntent
  | .freeEntries | .destroyCfg | .destroyConfig | .terminated | .exit => true
  | _ => false

theorem main_afterLoop {poll : Poll} {e : Env} {w w' : World} {p p' : MainPc}
    (h : main P poll e w p = some (w', p')) (hp : p.afterLoop = true) : p'.afterLoop = true := by
  cases main_cases h with
  | stop | stopped | destroySrv | stoppedAgain | destroyMxq | destroyBuffer | freeBuffer | endmntent
  | endmntentFails | freeEntries | destroyCfg | destroyConfig | terminated | exit => rfl
  | _ => exact nomatch hp

/-- Every step that is not one of the main program leaves the entries and the log alone. -/
theorem step_interferes {d d' : State} {a : Action} (h : step P d a = some d') :
    (∃ poll e, a = .main poll e) ∨
      (d'.main = d.main ∧ ∃ i, d'.world = d.world.interfere i) := by
  cases a with
  | main poll e => exact .inl ⟨poll, e, rfl⟩
  | mainHook e =>
    obtain ⟨-, p, w, q, -, hreload, rfl⟩ := step_mainHook h
    obtain ⟨_, _, _, _, _, _, _, _, rfl, -, -⟩ := reload_frame hreload
    exact .inr ⟨rfl, ⟨_, _, _, _, _, _, _, _, _, _, _⟩, rfl⟩
  | serverHook n e =>
    obtain ⟨-, p, w, q, -, hreload, rfl⟩ := step_serverHook h
    obtain ⟨_, _, _, _, _, _, _, _, rfl, -, -⟩ := reload_frame hreload
    exact .inr ⟨rfl, ⟨_, _, _, _, _, _, _, _, _, _, _⟩, rfl⟩
  | server n e =>
    obtain ⟨-, -, -, w, s, hserve, rfl⟩ := step_server h
    obtain ⟨_, _, _, _, _, _, _, _, _, _, rfl⟩ := serve_frame hserve
    cases s with
    | some s => exact .inr ⟨rfl, ⟨_, _, _, _, _, _, _, _, _, _, _⟩, rfl⟩
    | none => exact .inr ⟨rfl, ⟨_, _, _, _, _, _, _, _, _, _, _⟩, rfl⟩
  | hup t =>
    obtain ⟨-, -, rfl⟩ := step_hup h
    cases t <;> exact .inr ⟨rfl, ⟨_, _, _, _, _, _, _, _, _, _, _⟩, rfl⟩
  | int t =>
    obtain ⟨-, -, rfl⟩ := step_int h
    exact .inr ⟨rfl, ⟨_, _, _, _, _, _, _, _, _, _, _⟩, rfl⟩

/-- The main thread is in the loop, as in a run of the loop among other threads. -/
def InWatchedLoop (P : Platform) (w : World) (d : State) : Prop :=
  ∃ s p, Reachable (stepWatched P) (.enter w) s ∧ s.world = d.world ∧ d.main = .loop p ∧
    s.pc = some p

theorem inWatchedLoop_step {w : World} {d d' : State} {a : Action} (hd : InWatchedLoop P w d)
    (h : step P d a = some d') : InWatchedLoop P w d' ∨ d'.main.afterLoop = true := by
  obtain ⟨s, p, hreach, hworld, hmain, hpc⟩ := hd
  rcases step_interferes h with ⟨poll, e, rfl⟩ | ⟨hsame, i, hi⟩
  · obtain ⟨hended, -, w', p', hstep, rfl⟩ := step_main h
    rw [hmain] at hstep
    obtain ⟨⟨w₁, q⟩, hloop, hstep⟩ := Option.map_eq_some_iff.mp hstep
    obtain ⟨rfl, rfl⟩ := Prod.mk.inj hstep
    cases q with
    | none => exact .inr rfl
    | some q =>
      refine .inl ⟨⟨w₁, some q, (record poll e s.world w₁ s.pending p).1,
        s.events ++ (record poll e s.world w₁ s.pending p).2⟩, q, ?_, rfl, rfl, rfl⟩
      refine .tail hreach trivial (a := .loop poll e) ?_
      rw [stepWatched, hworld, hended, hpc, Option.bind_some, hloop]
      rfl
  · refine .inl ⟨{ s with world := s.world.interfere i }, p, ?_, ?_, hsame.trans hmain, hpc⟩
    · exact .tail hreach trivial (a := .others i) rfl
    · rw [hi, ← hworld]

/-- A run of the daemon from the entry of its loop is one of the loop among other threads, until
the loop is left. -/
theorem inWatchedLoop_of_reach {d d' : State} (hmain : d.main = .loop .test)
    (hentries : d.world.entries.jsonEntries = some (.array [])) (h : Reachable (step P) d d') :
    InWatchedLoop P d.world d' ∨ d'.main.afterLoop = true := by
  induction h with
  | refl =>
    refine .inl ⟨.enter d.world, .test, .refl, ?_, hmain, rfl⟩
    change { d.world with entries := { d.world.entries with jsonEntries := some (.array []) } } =
      d.world
    rw [← hentries]
  | tail _ _ hstep ih =>
    rcases ih with hloop | hleft
    · exact inWatchedLoop_step hloop hstep
    · right
      rcases step_interferes hstep with ⟨poll, e, rfl⟩ | ⟨hsame, -⟩
      · obtain ⟨-, -, w', p', hmainStep, rfl⟩ := step_main hstep
        exact main_afterLoop hmainStep hleft
      · rwa [hsame]

/-- What the daemon has logged in its loop is what the events of such a run say. -/
theorem exists_findingsLogged {d d' : State} {p : LoopPc} (hmain : d.main = .loop .test)
    (hentries : d.world.entries.jsonEntries = some (.array [])) (h : Reachable (step P) d d')
    (hloop : d'.main = .loop p) :
    ∃ s, s.world = d'.world ∧ FindingsLogged P d.world.log s := by
  rcases inWatchedLoop_of_reach hmain hentries h with ⟨s, -, hreach, hworld, -⟩ | hleft
  · have hs := watching_of_reach hreach
    exact ⟨s, hworld, hs.log, hs.history, interruptedQuiet s⟩
  · rw [hloop] at hleft
    exact nomatch hleft

end Stored.Daemon
