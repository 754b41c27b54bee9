import Stored.Daemon.ConfigLock
import Stored.Mtab.Length

/-!
# The published report

`srv_buff->data` is an alias of the text that `ST_check_mtab` frees and replaces under the lock of
the entries, while a server thread copies it under the lock of the buffer. The loop holds the lock
of the buffer from before the rebuild until it has assigned the new text, so that a server thread
inside its critical section always finds a text that is alive and shows the tree of the scan that
completed last. What it then sends is whole if the length of the text fits an `int`.
-/

namespace Stored.Daemon

open Bytes Json Mtab Http Run

variable {P : Platform} {ok : Text → Prop}

/-- The text of the entries has not been freed. -/
def Live (w : World) : Prop := ∃ text, w.heap w.entries.textural = some text

/-- The text of the entries shows their tree. -/
def Shown (P : Platform) (w : World) : Prop :=
  ∃ tree, w.entries.jsonEntries = some tree ∧
    w.heap w.entries.textural = some ⟨jsonStringify P.libc tree (ascii " "), w.entries.scans⟩

/-- The tree of the entries is that of the scan that completed last. -/
def FromLastScan (w : World) : Prop := w.entries.trees w.entries.completed = w.entries.jsonEntries

/-- What is served is the literal, and then no scan has completed, or it is the text of the
entries, and this shows the tree of the scan that completed last. -/
def Published (P : Platform) (w : World) : Prop :=
  w.entries.scans = w.entries.completed ∧
    ((w.buffer.data = .literal ∧ w.entries.completed = 0) ∨
      (w.buffer.data = .text w.entries.textural ∧ 0 < w.entries.completed ∧ Shown P w ∧
        FromLastScan w))

/-- The literal, or the text of the tree of a scan that has completed. -/
def IsReport (P : Platform) (entries : Entries) (text : Text) : Prop :=
  text.scan ≤ entries.completed ∧ (text = Data.initial ∨
    0 < text.scan ∧ ∃ tree, entries.trees text.scan = some tree ∧
      text.bytes = jsonStringify P.libc tree (ascii " "))

theorem Shown.live {w : World} (h : Shown P w) : Live w := by
  obtain ⟨tree, -, hheap⟩ := h
  exact ⟨_, hheap⟩

/-- What is served is the report of the last scan. -/
theorem Published.report {w : World} (h : Published P w) {text : Text}
    (htext : w.buffer.data.text? w.heap = some text) :
    IsReport P w.entries text ∧ text.scan = w.entries.completed := by
  obtain ⟨hscans, ⟨hdata, hnone⟩ | ⟨hdata, hsome, ⟨tree, htree, hheap⟩, hfrom⟩⟩ := h
  · rw [hdata] at htext
    obtain rfl := Option.some.inj htext
    exact ⟨⟨Nat.zero_le _, .inl rfl⟩, hnone.symm⟩
  · rw [hdata, Data.text?, hheap] at htext
    obtain rfl := Option.some.inj htext
    have hscan : w.entries.trees w.entries.scans = some tree := by
      rw [hscans, ← htree]
      exact hfrom
    exact ⟨⟨hscans.le, .inr ⟨hscans ▸ hsome, tree, hscan, rfl⟩⟩, hscans⟩

/-- What is known of the text at each place of a call. -/
def MtabPc.TextAt (P : Platform) (w : World) : MtabPc → Prop
  | .getmntent _ | .free => w.entries.completed < w.entries.scans ∧ Live w
  | .stringify => w.entries.completed < w.entries.scans
  | .unlockEntries => w.entries.completed < w.entries.scans ∧ Shown P w
  | _ => Live w

/-- A call has returned. -/
def Rebuilt (P : Platform) (w : World) : Prop :=
  0 < w.entries.scans ∧ w.entries.scans = w.entries.completed ∧ Shown P w ∧ FromLastScan w

theorem Rebuilt.live {w : World} (h : Rebuilt P w) : Live w := h.2.2.1.live

/-- The text that a call has built is published once it is assigned. -/
theorem Rebuilt.published {w : World} (h : Rebuilt P w) :
    Published P { w with buffer := { w.buffer with data := .text w.entries.textural } } := by
  obtain ⟨hsome, hscans, hshown⟩ := h
  exact ⟨hscans, .inr ⟨rfl, hscans ▸ hsome, hshown⟩⟩

/-- What a step that leaves the copies of the server alone does to scans and strings: no scan is
taken back, and the strings besides the text of the entries stay, and stay apart from it. -/
structure Others (w w' : World) : Prop where
  completed : w.entries.completed ≤ w'.entries.completed
  trees : ∀ n, 0 < n → n ≤ w.entries.completed → w'.entries.trees n = w.entries.trees n
  strings : ∀ a text, w.heap a = some text → a ≠ w.entries.textural →
    w'.heap a = some text ∧ a ≠ w'.entries.textural

/-- A report stays one. -/
theorem IsReport.others {w w' : World} {text : Text} (h : IsReport P w.entries text)
    (hothers : Others w w') : IsReport P w'.entries text := by
  obtain ⟨hscan, rfl | ⟨hsome, tree, htree, hbytes⟩⟩ := h
  · exact ⟨Nat.zero_le _, .inl rfl⟩
  · refine ⟨hscan.trans hothers.completed, .inr ⟨hsome, tree, ?_, hbytes⟩⟩
    rw [hothers.trees text.scan hsome hscan, htree]

/-- The scan that completed last is not behind the last one that has begun. -/
def Counted (w : World) : Prop := w.entries.completed ≤ w.entries.scans

theorem checkMtab_text {t : Tid} {e : Env} {w w' : World} {p : MtabPc} {q : Option MtabPc}
    (h : checkMtab P t e w p = some (w', q)) (hcounted : Counted w) (hp : p.TextAt P w) :
    q.elim (Rebuilt P w') (MtabPc.TextAt P w') := by
  cases checkMtab_cases h with
  | mkarray => exact ⟨Nat.lt_succ_of_le hcounted, hp⟩
  | free => exact hp.1
  | stringify tree htree => exact ⟨hp, tree, htree, Function.update_self ..⟩
  | unlockEntries =>
    obtain ⟨hlt, hshown⟩ := hp
    exact ⟨(Nat.zero_le _).trans_lt hlt, rfl, hshown, Function.update_self ..⟩
  | _ => exact hp

/-- A step that leaves the heap, the address of the text and the completed scans alone. -/
theorem others_of_eq {w w' : World} (hheap : w'.heap = w.heap)
    (hcompleted : w'.entries.completed = w.entries.completed)
    (htrees : w'.entries.trees = w.entries.trees)
    (htextural : w'.entries.textural = w.entries.textural) : Others w w' where
  completed := hcompleted.ge
  trees n _ _ := by rw [htrees]
  strings a text ha hne := by
    rw [hheap, htextural]
    exact ⟨ha, hne⟩

/-- A call completes scans in order, and it leaves the other strings on the heap alone. -/
theorem checkMtab_others {t : Tid} {e : Env} {w w' : World} {p : MtabPc} {q : Option MtabPc}
    (h : checkMtab P t e w p = some (w', q)) (hcounted : Counted w) (hp : p.TextAt P w) :
    Counted w' ∧ Others w w' := by
  cases checkMtab_cases h with
  | mkarray => exact ⟨hcounted.trans (Nat.le_succ _), others_of_eq rfl rfl rfl rfl⟩
  | free =>
    refine ⟨hcounted, le_rfl, fun _ _ _ ↦ rfl, fun a text ha hne ↦ ⟨?_, hne⟩⟩
    exact (Function.update_of_ne hne ..).trans ha
  | stringify tree htree hfresh =>
    refine ⟨hcounted, le_rfl, fun _ _ _ ↦ rfl, fun a text ha hne ↦ ?_⟩
    have hother : a ≠ e.addr := by
      rintro rfl
      exact nomatch hfresh.symm.trans ha
    exact ⟨(Function.update_of_ne hother ..).trans ha, hother⟩
  | unlockEntries =>
    refine ⟨le_rfl, hcounted, fun n _ hn ↦ ?_, fun a text ha hne ↦ ⟨ha, hne⟩⟩
    -- the tree is recorded under the number of a scan that had not completed
    exact Function.update_of_ne (hn.trans_lt hp.1).ne ..
  | _ => exact ⟨hcounted, others_of_eq rfl rfl rfl rfl⟩

/-- What is known of the text at each place of the loop. -/
def LoopPc.TextAt (P : Platform) (w : World) : LoopPc → Prop
  | .check p => w.active = true ∧ Counted w ∧ p.TextAt P w
  | .assignData => w.active = true ∧ Rebuilt P w
  | .pollError => Live w ∧ Published P w
  | .close => False
  | _ => w.active = true ∧ Live w ∧ Published P w

/-- What is known of the text at each place of the main thread, as long as the loop is not told
to stop. -/
def MainPc.TextAt (P : Platform) (w : World) : MainPc → Prop
  | .demonize | .newConfig | .load _ | .assignConfig | .initMtabChecker => w.entries.completed = 0
  | .initSrv | .assignSrvBuff | .setData =>
    Live w ∧ w.entries.scans = 0 ∧ w.entries.completed = 0
  | .start _ | .initCheckLoop | .setActive => Live w ∧ Published P w
  | .bindNetlink => w.active = true ∧ Live w ∧ Published P w
  | .loop p => p.TextAt P w
  | _ => False

theorem checkLoop_text {t : Tid} {poll : Poll} {e : Env} {w w' : World} {p : LoopPc}
    {q : Option LoopPc} (h : checkLoop P t poll e w p = some (w', q)) (hp : p.TextAt P w) :
    (q.elim False (LoopPc.TextAt P w')) ∧ Others w w' := by
  cases checkLoop_cases h with
  | test =>
    rw [if_pos hp.1]
    exact ⟨hp, others_of_eq rfl rfl rfl rfl⟩
  | trylock => exact ⟨⟨hp.1, hp.2.2.1.ge, hp.2.1⟩, others_of_eq rfl rfl rfl rfl⟩
  | pollFailed => exact ⟨hp.2, others_of_eq rfl rfl rfl rfl⟩
  | check p w' q hcheck =>
    obtain ⟨hactive, hcounted, htext⟩ := hp
    obtain ⟨hcounted', hothers⟩ := checkMtab_others hcheck hcounted htext
    have htext' := checkMtab_text hcheck hcounted htext
    obtain ⟨mutex, entries, mtabf, heap, log, rfl⟩ := checkMtab_frame hcheck
    cases q with
    | none => exact ⟨⟨hactive, htext'⟩, hothers⟩
    | some q => exact ⟨⟨hactive, hcounted', htext'⟩, hothers⟩
  | assignData =>
    obtain ⟨hactive, hrebuilt⟩ := hp
    exact ⟨⟨hactive, hrebuilt.live, hrebuilt.published⟩, others_of_eq rfl rfl rfl rfl⟩
  | close => exact hp.elim
  | _ => exact ⟨hp, others_of_eq rfl rfl rfl rfl⟩

theorem main_text {poll : Poll} {e : Env} {w w' : World} {p p' : MainPc}
    (h : main P poll e w p = some (w', p')) (hp : p.TextAt P w) :
    p'.TextAt P w' ∧ Others w w' := by
  cases main_cases h with
  | demonize | newConfig | assignConfig | initSrv | assignSrvBuff | initCheckLoop | bindNetlink
  | bindFails => exact ⟨hp, others_of_eq rfl rfl rfl rfl⟩
  | setData =>
    obtain ⟨hlive, hscans, hcompleted⟩ := hp
    exact ⟨⟨hlive, hscans.trans hcompleted.symm, .inl ⟨rfl, hcompleted⟩⟩,
      others_of_eq rfl rfl rfl rfl⟩
  | setActive => exact ⟨⟨rfl, hp⟩, others_of_eq rfl rfl rfl rfl⟩
  | load _ _ _ hload | loaded _ _ hload =>
    obtain ⟨_, _, _, rfl, -⟩ := loadFromFile_frame hload
    exact ⟨hp, others_of_eq rfl rfl rfl rfl⟩
  | initMtabChecker hfresh =>
    refine ⟨⟨⟨_, Function.update_self ..⟩, rfl, rfl⟩, hp.le, fun n hsome hn ↦ ?_,
      fun a text ha _ ↦ ?_⟩
    · exact absurd (hp ▸ hn) (not_le.mpr hsome)
    · have hother : a ≠ e.addr := by
        rintro rfl
        exact nomatch hfresh.symm.trans ha
      exact ⟨(Function.update_of_ne hother ..).trans ha, hother⟩
  | start _ _ _ hstart | started _ _ hstart =>
    obtain ⟨_, _, _, _, _, _, _, _, _, rfl, -, -⟩ := startSrv_frame hstart
    exact ⟨hp, others_of_eq rfl rfl rfl rfl⟩
  | loop _ _ _ hloop => exact checkLoop_text hloop hp
  | left _ _ hloop => exact (checkLoop_text hloop hp).1.elim
  | _ => exact hp.elim

/-- The main thread sends nothing and makes no copy. -/
theorem main_served {poll : Poll} {e : Env} {w w' : World} {p p' : MainPc}
    (h : main P poll e w p = some (w', p')) :
    w'.served = w.served ∧ w'.srv.contentBuffer = w.srv.contentBuffer := by
  cases main_cases h with
  | load _ _ _ hload | loaded _ _ hload =>
    obtain ⟨_, _, _, rfl, -⟩ := loadFromFile_frame hload
    exact ⟨rfl, rfl⟩
  | start _ _ _ hstart | started _ _ hstart =>
    obtain ⟨_, _, _, _, _, _, _, _, _, rfl, -, -⟩ := startSrv_frame hstart
    exact ⟨rfl, rfl⟩
  | stop _ _ _ hstop | stopped _ _ hstop | destroySrv _ _ _ hstop | stoppedAgain _ _ hstop =>
    obtain ⟨_, _, _, rfl⟩ := stopSrv_frame hstop
    exact ⟨rfl, rfl⟩
  | loop _ _ _ hloop | left _ _ hloop =>
    obtain ⟨_, _, _, _, _, _, _, _, rfl, -⟩ := checkLoop_frame hloop
    exact ⟨rfl, rfl⟩
  | _ => exact ⟨rfl, rfl⟩

def LoopPc.holdsBuffer : LoopPc → Bool
  | .check _ | .assignData | .unlockBuffer => true
  | _ => false

def MainPc.holdsBuffer : MainPc → Bool
  | .loop p => p.holdsBuffer
  | _ => false

def ServePc.holdsBuffer : ServePc → Bool
  | .strdup | .unlockBuffer => true
  | _ => false

def State.holdsBuffer (d : State) : Tid → Prop
  | .main => d.main.holdsBuffer = true
  | .thread n => d.world.Alive n ∧ (d.servers n).pc.holdsBuffer = true

/-- What a step from a place that holds the lock of the buffer, or not, to another one does. -/
abbrev BufferStep (w w' : World) (t : Tid) (before after : Bool) : Prop :=
  Mutex.LockStep w.buffer.mutex w'.buffer.mutex t (before = true) (after = true)

theorem checkLoop_buffer {t : Tid} {poll : Poll} {e : Env} {w w' : World} {p : LoopPc}
    {q : Option LoopPc} (h : checkLoop P t poll e w p = some (w', q)) :
    BufferStep w w' t p.holdsBuffer (q.any LoopPc.holdsBuffer) := by
  cases checkLoop_cases h with
  | test => split_ifs <;> exact .keep rfl nofun
  | trylock hfree => exact .lock (Mutex.lock_eq_some_iff.mpr ⟨hfree, rfl⟩)
  | check p w' q hcheck =>
    obtain ⟨_, _, _, _, _, rfl⟩ := checkMtab_frame hcheck
    exact .keep rfl fun _ ↦ rfl
  | assignData => exact .keep rfl fun _ ↦ rfl
  | unlockBuffer => exact .unlock rfl nofun rfl
  | _ => exact .keep rfl nofun

theorem main_buffer {poll : Poll} {e : Env} {w w' : World} {p p' : MainPc}
    (h : main P poll e w p = some (w', p')) (hp : p ≠ .initSrv) :
    BufferStep w w' .main p.holdsBuffer p'.holdsBuffer := by
  cases main_cases h with
  | initSrv => exact absurd rfl hp
  | load _ _ _ hload | loaded _ _ hload =>
    obtain ⟨_, _, _, rfl, -⟩ := loadFromFile_frame hload
    exact .keep rfl nofun
  | start _ _ _ hstart | started _ _ hstart =>
    obtain ⟨_, _, _, _, _, _, _, _, _, rfl, -, -⟩ := startSrv_frame hstart
    exact .keep rfl nofun
  | stop _ _ _ hstop | stopped _ _ hstop | destroySrv _ _ _ hstop | stoppedAgain _ _ hstop =>
    obtain ⟨_, _, _, rfl⟩ := stopSrv_frame hstop
    exact .keep rfl nofun
  | loop _ _ _ hloop | left _ _ hloop => exact checkLoop_buffer hloop
  | _ => exact .keep rfl nofun

theorem serve_buffer {n : ℕ} {e : Env} {w w' : World} {s : Server} {s' : Option Server}
    (h : serve n e w s = some (w', s')) :
    BufferStep w w' (.thread n) s.pc.holdsBuffer (s'.any (·.pc.holdsBuffer)) := by
  cases serve_cases h with
  | lockBuffer hpc hfree => exact .lock (Mutex.lock_eq_some_iff.mpr ⟨hfree, rfl⟩)
  | strdup text hpc => exact .keep rfl fun _ ↦ by rw [hpc]; rfl
  | unlockBuffer hpc => exact .unlock (by rw [hpc]; rfl) nofun rfl
  | abort | headers => exact .keep rfl id
  | request p b held hpc hp => rcases hp with rfl | rfl | rfl <;> exact .keep rfl nofun
  | close ok => cases ok <;> exact .keep rfl nofun
  | _ => exact .keep rfl nofun

/-- From `strdup` to `free`. -/
def ServePc.hasCopy : ServePc → Bool
  | .unlockBuffer | .respond | .fflush _ _ | .fclose true | .close true | .free => true
  | _ => false

/-- A response under way is that to the text. -/
def ServePc.Sends (text : Text) : ServePc → Prop
  | .fflush report _ => report = text
  | _ => True

/-- The copy is alive, apart from the text of the entries, and no older than what was served, and
it is what a thread at the place sends. -/
def Copied (P : Platform) (ok : Text → Prop) (w : World) (p : ServePc) : Prop :=
  ∃ a text, w.srv.contentBuffer = some a ∧ w.heap a = some text ∧ a ≠ w.entries.textural ∧
    IsReport P w.entries text ∧ ok text ∧ (∀ r ∈ w.served, r.report.scan ≤ text.scan) ∧
      p.Sends text

/-- What was served are reports, in the order of their scans. -/
structure Reports (P : Platform) (ok : Text → Prop) (w : World) : Prop where
  report : ∀ r ∈ w.served, IsReport P w.entries r.report
  accepted : ∀ r ∈ w.served, ok r.report
  response : ∀ r ∈ w.served, r.response = okResponse r.report.bytes
  sorted : w.served.Pairwise fun r r' ↦ r.report.scan ≤ r'.report.scan

theorem Reports.others {w w' : World} (h : Reports P ok w) (hothers : Others w w')
    (hserved : w'.served = w.served) : Reports P ok w' where
  report r hr := (h.report r (hserved ▸ hr)).others hothers
  accepted r hr := h.accepted r (hserved ▸ hr)
  response r hr := h.response r (hserved ▸ hr)
  sorted := hserved ▸ h.sorted

theorem Reports.congr {w w' : World} (h : Reports P ok w) (hentries : w'.entries = w.entries)
    (hserved : w'.served = w.served) : Reports P ok w' where
  report r hr := hentries ▸ h.report r (hserved ▸ hr)
  accepted r hr := h.accepted r (hserved ▸ hr)
  response r hr := h.response r (hserved ▸ hr)
  sorted := hserved ▸ h.sorted

theorem Reports.append {w : World} {text : Text} {cut : Option ℕ} (h : Reports P ok w)
    (hreport : IsReport P w.entries text) (hok : ok text)
    (hle : ∀ r ∈ w.served, r.report.scan ≤ text.scan) :
    Reports P ok { w with served := w.served ++ [⟨text, okResponse text.bytes, cut⟩] } where
  report := List.forall_mem_append.mpr ⟨h.report, List.forall_mem_singleton.mpr hreport⟩
  accepted := List.forall_mem_append.mpr ⟨h.accepted, List.forall_mem_singleton.mpr hok⟩
  response := List.forall_mem_append.mpr ⟨h.response, List.forall_mem_singleton.mpr rfl⟩
  sorted := by
    refine List.pairwise_append.mpr ⟨h.sorted, List.pairwise_singleton .., ?_⟩
    exact fun r hr r' hr' ↦ List.mem_singleton.mp hr' ▸ hle r hr

theorem Copied.others {w w' : World} {p : ServePc} (h : Copied P ok w p) (hothers : Others w w')
    (hserved : w'.served = w.served) (hcopy : w'.srv.contentBuffer = w.srv.contentBuffer) :
    Copied P ok w' p := by
  obtain ⟨a, text, ha, htext, hne, hreport, hok, hle⟩ := h
  obtain ⟨htext', hne'⟩ := hothers.strings a text htext hne
  exact ⟨a, text, hcopy.trans ha, htext', hne', hreport.others hothers, hok, hserved ▸ hle⟩

/-- The thread may go on to another place that sends nothing else. -/
theorem Copied.congr {w w' : World} {p q : ServePc} (h : Copied P ok w p)
    (hheap : w'.heap = w.heap) (hentries : w'.entries = w.entries) (hserved : w'.served = w.served)
    (hcopy : w'.srv.contentBuffer = w.srv.contentBuffer) (hq : ∀ text, q.Sends text) :
    Copied P ok w' q := by
  obtain ⟨a, text, ha, htext, hne, hreport, hok, hle, -⟩ := h
  exact ⟨a, text, hcopy.trans ha, hheap ▸ htext, hentries ▸ hne, hentries ▸ hreport, hok,
    hserved ▸ hle, hq text⟩

/-- A copy of what is published. -/
theorem copied_strdup {w : World} {a : Addr} {text : Text} (hreports : Reports P ok w)
    (hlive : Live w) (hpublished : Published P w) (hok : ok text)
    (htext : w.buffer.data.text? w.heap = some text) (hfresh : w.heap a = none) :
    Copied P ok { w with
      heap := Function.update w.heap a (some text)
      srv := { w.srv with contentBuffer := some a } } .unlockBuffer := by
  obtain ⟨hreport, hscan⟩ := hpublished.report htext
  obtain ⟨old, hold⟩ := hlive
  refine ⟨a, text, rfl, Function.update_self .., ?_, hreport, hok, fun r hr ↦ ?_, trivial⟩
  · intro (heq : a = w.entries.textural)
    exact nomatch (heq ▸ hfresh).symm.trans hold
  · exact (hreports.report r hr).1.trans hscan.ge

/-- A step of the server, which makes its copy from a published text. -/
theorem serve_reports {n : ℕ} {e : Env} {w w' : World} {s : Server} {s' : Option Server}
    (h : serve n e w s = some (w', s')) (hreports : Reports P ok w)
    (hpublished : s.pc = .strdup → Live w ∧ Published P w)
    (hok : s.pc = .strdup → ∀ text ∈ w.buffer.data.text? w.heap, ok text)
    (hcopied : s.pc.hasCopy = true → Copied P ok w s.pc) :
    Reports P ok w' ∧ (∀ s₁, s' = some s₁ → s₁.pc.hasCopy = true → Copied P ok w' s₁.pc) ∧
      w'.heap w.entries.textural = w.heap w.entries.textural := by
  cases serve_cases h with
  | strdup text hpc htext hfresh =>
    obtain ⟨hlive, hpub⟩ := hpublished hpc
    refine ⟨hreports.congr rfl rfl, ?_, ?_⟩
    · rintro _ ⟨⟩ -
      exact copied_strdup hreports hlive hpub (hok hpc text htext) htext hfresh
    · obtain ⟨old, hold⟩ := hlive
      refine Function.update_of_ne ?_ ..
      intro heq
      exact nomatch (heq ▸ hold).symm.trans hfresh
  | unlockBuffer hpc =>
    refine ⟨hreports.congr rfl rfl, ?_, rfl⟩
    rintro _ ⟨⟩ -
    exact (hcopied (by rw [hpc]; rfl)).congr rfl rfl rfl rfl fun _ ↦ trivial
  | respond a text sent hpc ha htext =>
    refine ⟨hreports, ?_, rfl⟩
    rintro _ ⟨⟩ -
    obtain ⟨a', text', ha', htext', hcopy⟩ := hcopied (by rw [hpc]; rfl)
    obtain rfl := Option.some.inj (ha.symm.trans ha')
    obtain rfl := Option.some.inj (htext.symm.trans htext')
    exact ⟨a, text, ha, htext, hcopy.1, hcopy.2.1, hcopy.2.2.1, hcopy.2.2.2.1, rfl⟩
  | fflush report sent served hpc hserved =>
    obtain ⟨a, text, ha, htext, hne, hreport, htextOk, hle, hsends⟩ := hcopied (by rw [hpc]; rfl)
    rw [hpc] at hsends
    obtain rfl : report = text := hsends
    rcases hserved with rfl | ⟨cut, rfl, -⟩
    · refine ⟨hreports, ?_, rfl⟩
      rintro _ ⟨⟩ -
      exact ⟨a, report, ha, htext, hne, hreport, htextOk, hle, trivial⟩
    · refine ⟨hreports.append hreport htextOk hle, ?_, rfl⟩
      rintro _ ⟨⟩ -
      refine ⟨a, report, ha, htext, hne, hreport, htextOk, ?_, trivial⟩
      exact List.forall_mem_append.mpr ⟨hle, List.forall_mem_singleton.mpr le_rfl⟩
  | fclose ok hpc =>
    refine ⟨hreports.congr rfl rfl, ?_, rfl⟩
    rintro _ ⟨⟩ hs
    cases ok with
    | true => exact (hcopied (by rw [hpc]; rfl)).congr rfl rfl rfl rfl fun _ ↦ trivial
    | false => exact nomatch hs
  | close ok hpc =>
    refine ⟨hreports.congr rfl rfl, ?_, rfl⟩
    rintro _ ⟨⟩ hs
    cases ok with
    | true => exact (hcopied (by rw [hpc]; rfl)).congr rfl rfl rfl rfl fun _ ↦ trivial
    | false => exact nomatch hs
  | free a hpc ha =>
    obtain ⟨a', text, ha', htext, hne, -⟩ := hcopied (by rw [hpc]; rfl)
    obtain rfl := Option.some.inj (ha.symm.trans ha')
    refine ⟨hreports.congr rfl rfl, ?_, Function.update_of_ne hne.symm ..⟩
    rintro _ ⟨⟩ hs
    exact nomatch hs
  | headers | abort =>
    refine ⟨hreports.congr rfl rfl, ?_, rfl⟩
    rintro _ ⟨⟩ hs
    exact hcopied hs
  | request p b held hpc hp =>
    refine ⟨hreports, ?_, rfl⟩
    rintro _ ⟨⟩ hs
    rcases hp with rfl | rfl | rfl <;> exact nomatch hs
  | unlockMxq | refused => exact ⟨hreports.congr rfl rfl, nofun, rfl⟩
  | _ =>
    refine ⟨hreports.congr rfl rfl, ?_, rfl⟩
    rintro _ ⟨⟩ hs
    exact nomatch hs

/-- The connection is open from `accept` to `fclose`. -/
structure Connected (w : World) (s : Server) : Prop where
  child : s.pc = .fdopen → w.sockets w.srv.childfd = some .client
  stream : s.pc.hasStream = true → w.sockets s.stream = some .client

/-- A server thread does not shut its connection down, and it does not cut a response. -/
theorem serve_connected {n : ℕ} {e : Env} {w w' : World} {s : Server} {s' : Option Server}
    (h : serve n e w s = some (w', s')) (hs : Connected w s)
    (huncut : ∀ r ∈ w.served, r.cut = none) :
    (∀ s₁, s' = some s₁ → Connected w' s₁) ∧ ∀ r ∈ w'.served, r.cut = none := by
  cases serve_cases h with
  | accepted fd hpc =>
    refine ⟨?_, huncut⟩
    rintro _ ⟨⟩
    exact ⟨fun _ ↦ Function.update_self .., nofun⟩
  | fdopen hpc =>
    refine ⟨?_, huncut⟩
    rintro _ ⟨⟩
    exact ⟨nofun, fun _ ↦ hs.child hpc⟩
  | fflush report sent served hpc hserved =>
    have hopen := hs.stream (by rw [hpc]; rfl)
    refine ⟨?_, ?_⟩
    · rintro _ ⟨⟩
      exact ⟨nofun, fun _ ↦ hopen⟩
    · rcases hserved with rfl | ⟨cut, rfl, hcut⟩
      · exact huncut
      · exact List.forall_mem_append.mpr ⟨huncut, List.forall_mem_singleton.mpr (hcut hopen)⟩
  | headers | abort =>
    refine ⟨?_, huncut⟩
    rintro _ ⟨⟩
    exact ⟨hs.child, hs.stream⟩
  | request p b held hpc hp =>
    refine ⟨?_, huncut⟩
    rintro _ ⟨⟩
    have hopen := hs.stream (by rw [hpc]; rfl)
    exact ⟨by rcases hp with rfl | rfl | rfl <;> exact nofun, fun _ ↦ hopen⟩
  | lockBuffer hpc | strdup text hpc | unlockBuffer hpc | respond a text sent hpc =>
    refine ⟨?_, huncut⟩
    rintro _ ⟨⟩
    exact ⟨nofun, fun _ ↦ hs.stream (by rw [hpc]; rfl)⟩
  | close ok =>
    refine ⟨?_, huncut⟩
    rintro _ ⟨⟩
    cases ok <;> exact ⟨nofun, nofun⟩
  | unlockMxq | refused => exact ⟨nofun, huncut⟩
  | _ =>
    refine ⟨?_, huncut⟩
    rintro _ ⟨⟩
    exact ⟨nofun, nofun⟩

/-- As long as the loop is not told to stop the main thread leaves connections alone. -/
theorem main_sockets {poll : Poll} {e : Env} {w w' : World} {p p' : MainPc}
    (h : main P poll e w p = some (w', p')) (hp : p.TextAt P w) :
    w'.sockets = w.sockets ∧ w'.srv.childfd = w.srv.childfd := by
  cases main_cases h with
  | load _ _ _ hload | loaded _ _ hload =>
    obtain ⟨_, _, _, rfl, -⟩ := loadFromFile_frame hload
    exact ⟨rfl, rfl⟩
  | start _ _ _ hstart | started _ _ hstart =>
    obtain ⟨_, _, _, _, _, _, _, _, _, rfl, -, -⟩ := startSrv_frame hstart
    exact ⟨rfl, rfl⟩
  | loop _ _ _ hloop | left _ _ hloop =>
    obtain ⟨_, _, _, _, _, _, _, _, rfl, -⟩ := checkLoop_frame hloop
    exact ⟨rfl, rfl⟩
  | stop | stopped | destroySrv | stoppedAgain => exact hp.elim
  | _ => exact ⟨rfl, rfl⟩

/-! ## The invariant -/

/-- The main thread has not made the server thread. -/
def MainPc.unstarted : MainPc → Bool
  | .demonize | .newConfig | .load _ | .assignConfig | .initMtabChecker | .initSrv
  | .assignSrvBuff | .setData => true
  | .start p => p ≠ .setStopped
  | _ => false

/-- There is no server thread, and nobody has used the lock of the buffer. -/
def Unstarted (w : World) : Prop := w.threads.created = 0 ∧ w.buffer.mutex.owner = none

structure Publishing (P : Platform) (ok : Text → Prop) (d : State) : Prop where
  text : d.main.TextAt P d.world
  unstarted : d.main.unstarted = true → Unstarted d.world
  single : d.world.threads.created ≤ 1
  sections : d.world.buffer.mutex.Sections id d.holdsBuffer
  reports : Reports P ok d.world
  copied : ∀ n, d.world.Alive n → (d.servers n).pc.hasCopy = true →
    Copied P ok d.world (d.servers n).pc
  connected : ∀ n, d.world.Alive n → Connected d.world (d.servers n)
  uncut : ∀ r ∈ d.world.served, r.cut = none

theorem MtabPc.TextAt.congr {w w' : World} {p : MtabPc} (h : p.TextAt P w)
    (hentries : w'.entries = w.entries)
    (hheap : w'.heap w.entries.textural = w.heap w.entries.textural) : p.TextAt P w' := by
  have hlive : Live w → Live w' := fun h ↦ by rwa [Live, hentries, hheap]
  have hscans (h : w.entries.completed < w.entries.scans) :
      w'.entries.completed < w'.entries.scans := by rwa [hentries]
  cases p with
  | getmntent | free => exact ⟨hscans h.1, hlive h.2⟩
  | stringify => exact hscans h
  | unlockEntries => exact ⟨hscans h.1, by rw [Shown, hentries, hheap]; exact h.2⟩
  | _ => exact hlive h

theorem MainPc.TextAt.congr {w w' : World} {p : MainPc} (h : p.TextAt P w)
    (hentries : w'.entries = w.entries) (hactive : w'.active = w.active)
    (hdata : w'.buffer.data = w.buffer.data)
    (hheap : w'.heap w.entries.textural = w.heap w.entries.textural) : p.TextAt P w' := by
  have hlive : Live w → Live w' := fun h ↦ by rwa [Live, hentries, hheap]
  have hpublished : Published P w → Published P w' := fun h ↦ by
    rw [Published, FromLastScan, Shown, hentries, hdata, hheap]
    exact h
  cases p with
  | loop p =>
    cases p with
    | check p =>
      obtain ⟨hold, hcounted, hp⟩ := h
      exact ⟨hactive.trans hold, by rwa [Counted, hentries], hp.congr hentries hheap⟩
    | assignData =>
      refine ⟨hactive.trans h.1, ?_⟩
      rw [Rebuilt, FromLastScan, Shown, hentries, hheap]
      exact h.2
    | pollError => exact ⟨hlive h.1, hpublished h.2⟩
    | close => exact h.elim
    | _ => exact ⟨hactive.trans h.1, hlive h.2.1, hpublished h.2.2⟩
  | demonize | newConfig | load | assignConfig | initMtabChecker =>
    exact (congrArg Entries.completed hentries).trans h
  | initSrv | assignSrvBuff | setData =>
    refine ⟨hlive h.1, ?_, ?_⟩
    · exact (congrArg Entries.scans hentries).trans h.2.1
    · exact (congrArg Entries.completed hentries).trans h.2.2
  | start | initCheckLoop | setActive => exact ⟨hlive h.1, hpublished h.2⟩
  | bindNetlink => exact ⟨hactive.trans h.1, hlive h.2.1, hpublished h.2.2⟩
  | _ => exact h.elim

/-- Where the buffer is free of the main thread and a server thread has been made, what is served
is published. -/
theorem MainPc.TextAt.published {w : World} {p : MainPc} (h : p.TextAt P w)
    (hstarted : p.unstarted = false) (hfree : p.holdsBuffer = false) : Live w ∧ Published P w := by
  cases p with
  | loop p =>
    cases p with
    | check | assignData => exact nomatch hfree
    | close => exact h.elim
    | pollError => exact h
    | _ => exact h.2
  | start | initCheckLoop | setActive => exact h
  | bindNetlink => exact h.2
  | demonize | newConfig | load | assignConfig | initMtabChecker | initSrv | assignSrvBuff
  | setData => exact nomatch hstarted
  | _ => exact h.elim

/-- A start that finds no server thread makes one. -/
theorem startSrv_single {e : Env} {w w' : World} {p : StartPc} {q : Option StartPc}
    (h : startSrv P .main false e w p = some (w', q))
    (hunstarted : p ≠ .setStopped → Unstarted w) (hle : w.threads.created ≤ 1) :
    (∀ r, q = some r → r ≠ .setStopped → Unstarted w') ∧ w'.threads.created ≤ 1 := by
  obtain ⟨_, _, _, _, _, _, _, _, _, hw, -, -⟩ := startSrv_frame h
  rcases startSrv_create_cases h with ⟨rfl, rfl, rfl⟩ | ⟨rfl, rfl, rfl⟩ | ⟨-, hset, hq, hthreads, -⟩
  · have hzero := (hunstarted nofun).1
    refine ⟨fun r hr hne ↦ absurd (Option.some.inj hr).symm hne, ?_⟩
    split_ifs <;> simp [World.create, hzero]
  · exact ⟨nofun, hle⟩
  · obtain ⟨hzero, hfree⟩ := hunstarted hset
    refine ⟨fun _ _ _ ↦ ⟨hthreads ▸ hzero, ?_⟩, hthreads ▸ hle⟩
    rw [hw]
    exact hfree

/-- The main thread makes one server thread, and does not use the lock of the buffer before. -/
theorem main_single {poll : Poll} {e : Env} {w w' : World} {p p' : MainPc}
    (h : main P poll e w p = some (w', p')) (hp : p.TextAt P w)
    (hunstarted : p.unstarted = true → Unstarted w) (hle : w.threads.created ≤ 1) :
    (p'.unstarted = true → Unstarted w') ∧ w'.threads.created ≤ 1 := by
  cases main_cases h with
  | initSrv => exact ⟨fun _ ↦ ⟨(hunstarted rfl).1, rfl⟩, hle⟩
  | load _ _ _ hload | loaded _ _ hload =>
    obtain ⟨_, _, _, rfl, -⟩ := loadFromFile_frame hload
    exact ⟨fun _ ↦ hunstarted rfl, hle⟩
  | start _ _ q hstart =>
    obtain ⟨hunstarted', hle'⟩ := startSrv_single hstart
      (fun hset ↦ hunstarted (by simpa [MainPc.unstarted] using hset)) hle
    exact ⟨fun hun ↦ hunstarted' q rfl (by simpa [MainPc.unstarted] using hun), hle'⟩
  | started _ _ hstart =>
    exact ⟨nofun, (startSrv_single hstart
      (fun hset ↦ hunstarted (by simpa [MainPc.unstarted] using hset)) hle).2⟩
  | loop _ _ _ hloop | left _ _ hloop =>
    obtain ⟨_, _, _, _, _, _, _, _, rfl, -⟩ := checkLoop_frame hloop
    exact ⟨nofun, hle⟩
  | bindNetlink | bindFails | initCheckLoop | setActive => exact ⟨nofun, hle⟩
  | demonize | newConfig | assignConfig | initMtabChecker | assignSrvBuff | setData =>
    exact ⟨fun _ ↦ hunstarted rfl, hle⟩
  | _ => exact hp.elim

/-- No signal is taken, and a server thread copies only accepted texts. -/
def Copies (ok : Text → Prop) (d : State) : Action → Prop
  | .main _ _ => True
  | .server n _ =>
    (d.servers n).pc = .strdup → ∀ text ∈ d.world.buffer.data.text? d.world.heap, ok text
  | _ => False

instance [DecidablePred ok] (d : State) : (a : Action) → Decidable (Copies ok d a)
  | .main _ _ => inferInstanceAs (Decidable True)
  | .server _ _ =>
    inferInstanceAs (Decidable (_ → ∀ text ∈ d.world.buffer.data.text? d.world.heap, ok text))
  | .mainHook _ | .serverHook _ _ | .hup _ | .int _ => inferInstanceAs (Decidable False)

/-- A server thread that is inside its section finds the published text. -/
theorem Publishing.published {d : State} (hd : Publishing P ok d) {n : ℕ}
    (howner : d.world.buffer.mutex.owner = some (.thread n)) :
    Live d.world ∧ Published P d.world := by
  refine hd.text.published ?_ ?_
  · by_contra hun
    exact nomatch (hd.unstarted (by simpa using hun)).2.symm.trans howner
  · by_contra hholds
    have hmain := hd.sections.held .main (by simpa [State.holdsBuffer] using hholds)
    exact nomatch hmain.symm.trans howner

theorem publishing_main {d : State} {poll : Poll} {e : Env} {w : World} {p : MainPc}
    (hlock : ConfigLock d) (hd : Publishing P ok d)
    (hmain : main P poll e d.world d.main = some (w, p)) :
    Publishing P ok { d with world := w, main := p } := by
  obtain ⟨htext, hothers⟩ := main_text hmain hd.text
  obtain ⟨hunstarted, hsingle⟩ := main_single hmain hd.text hd.unstarted hd.single
  obtain ⟨hserved, hcopy⟩ := main_served hmain
  obtain ⟨hexited, -, -⟩ := main_threads hmain
  -- a thread that is made by this step stands at its beginning
  have hbefore (n : ℕ) (halive : w.Alive n) (hpc : (d.servers n).pc ≠ .sigmask) :
      d.world.Alive n := by
    refine ⟨?_, hexited ▸ halive.2⟩
    by_contra hge
    exact hpc (hlock.unborn n (not_lt.mp hge)).1
  refine ⟨htext, hunstarted, hsingle, ?_, hd.reports.others hothers hserved,
    fun n halive hpc ↦ ?_, fun n halive ↦ ?_, hserved ▸ hd.uncut⟩
  · by_cases hnew : d.main = .initSrv
    · rw [hnew] at hmain
      obtain ⟨rfl, rfl⟩ := Prod.mk.inj (Option.some.inj hmain)
      have hnone (t : Tid) : ¬State.holdsBuffer { d with
          world := { d.world with buffer := ⟨.free, .unset⟩ }, main := .assignSrvBuff } t := by
        cases t with
        | main => exact nofun
        | thread n =>
          have hzero := (hd.unstarted (by rw [hnew]; rfl)).1
          exact fun hin ↦ absurd (show n < d.world.threads.created from hin.1.1) (by simp [hzero])
      exact ⟨fun t hin ↦ absurd hin (hnone t), fun t _ hin ↦ absurd hin (hnone t)⟩
    · refine hd.sections.step (c := .main) (main_buffer hmain hnew) fun t ht hin ↦ ?_
      cases t with
      | main => exact absurd rfl ht
      | thread n =>
        have hin' : (d.servers n).pc.holdsBuffer = true := hin.2
        exact ⟨hbefore n hin.1 (fun hpc ↦ nomatch hpc ▸ hin'), hin'⟩
  · have hpc' : (d.servers n).pc.hasCopy = true := hpc
    have hbegun : (d.servers n).pc ≠ .sigmask := fun hs ↦ nomatch hs ▸ hpc'
    exact (hd.copied n (hbefore n halive hbegun) hpc).others hothers hserved hcopy
  · change Connected w (d.servers n)
    obtain ⟨hsockets, hchild⟩ := main_sockets hmain hd.text
    by_cases hbegun : (d.servers n).pc = .sigmask
    · constructor <;> rw [hbegun] <;> exact nofun
    · have hs := hd.connected n (hbefore n halive hbegun)
      exact ⟨fun hpc ↦ by rw [hsockets, hchild]; exact hs.child hpc,
        fun hpc ↦ by rw [hsockets]; exact hs.stream hpc⟩

theorem publishing_server {d d' : State} {n : ℕ} {e : Env} (hd : Publishing P ok d)
    (hok : Copies ok d (.server n e)) (h : step P d (.server n e) = some d') :
    Publishing P ok d' := by
  obtain ⟨-, halive, -, w, s, hserve, rfl⟩ := step_server h
  have hpublished (hpc : (d.servers n).pc = .strdup) : Live d.world ∧ Published P d.world :=
    hd.published (hd.sections.held (.thread n) ⟨halive, by rw [hpc]; rfl⟩)
  obtain ⟨hreports, hcopied, hheap⟩ :=
    serve_reports hserve hd.reports hpublished hok (hd.copied n halive)
  obtain ⟨hconnected, huncut⟩ := serve_connected hserve (hd.connected n halive) hd.uncut
  have hbuffer := serve_buffer hserve
  have hbefore : d.holdsBuffer (.thread n) = ((d.servers n).pc.holdsBuffer = true) := by
    simp only [State.holdsBuffer, halive, true_and]
  have hstarted : d.main.unstarted = false := by
    by_contra hun
    exact absurd halive.1 (by simp [(hd.unstarted (by simpa using hun)).1])
  have htext : d.main.TextAt P w := by
    obtain ⟨_, _, _, _, _, _, _, _, _, _, rfl⟩ := serve_frame hserve
    exact hd.text.congr rfl rfl rfl hheap
  have hthreads : w.threads = d.world.threads := by
    obtain ⟨_, _, _, _, _, _, _, _, _, _, rfl⟩ := serve_frame hserve
    rfl
  have hsingle : w.threads.created ≤ 1 := hthreads ▸ hd.single
  have honly (m : ℕ) (hm : w.Alive m) : m = n := by
    have := hm.1
    have := hthreads ▸ halive.1
    omega
  cases s with
  | some s =>
    have hself : Function.update d.servers n s n = s := Function.update_self ..
    refine ⟨htext, fun hun ↦ absurd hun (by simp [hstarted]), hsingle, ?_, hreports,
      fun m hm hpc ↦ ?_, fun m hm ↦ ?_, huncut⟩
    · refine hd.sections.step (c := .thread n) ?_ fun t ht hin ↦ ?_
      · rw [hbefore]
        refine hbuffer.congr Iff.rfl ⟨fun hs ↦ ?_, fun hs ↦ ⟨?_, ?_⟩⟩
        · simpa only [Function.update_self, Option.any_some] using hs.2
        · simpa only [World.Alive, hthreads] using halive
        · simpa only [Function.update_self, Option.any_some] using hs
      · cases t with
        | main => exact hin
        | thread m => exact absurd (congrArg Tid.thread (honly m hin.1)) ht
    · obtain rfl := honly m hm
      dsimp only at hpc ⊢
      rw [hself] at hpc ⊢
      exact hcopied s rfl hpc
    · obtain rfl := honly m hm
      dsimp only
      rw [hself]
      exact hconnected s rfl
  | none =>
    have hnone {m : ℕ} (hm : (w.exitThread n).Alive m) : False := by
      obtain ⟨hm, hmn⟩ := World.alive_exitThread_iff.mp hm
      exact hmn (honly m hm)
    refine ⟨htext, fun hun ↦ absurd hun (by simp [hstarted]), hsingle, ?_,
      hreports.congr rfl rfl, fun m hm _ ↦ (hnone hm).elim, fun m hm ↦ (hnone hm).elim, huncut⟩
    refine hd.sections.step (c := .thread n) ?_ fun t ht hin ↦ ?_
    · rw [hbefore]
      exact hbuffer.congr Iff.rfl ⟨fun hs ↦ (hnone hs.1).elim, fun hs ↦ by cases hs⟩
    · cases t with
      | main => exact hin
      | thread m => exact (hnone hin.1).elim

theorem publishing_step {d d' : State} {a : Action} (hlock : ConfigLock d) (hd : Publishing P ok d)
    (hok : Copies ok d a) (h : step P d a = some d') : Publishing P ok d' := by
  cases a with
  | main poll e =>
    obtain ⟨-, -, w, p, hmain, rfl⟩ := step_main h
    exact publishing_main hlock hd hmain
  | server n e => exact publishing_server hd hok h
  | _ => exact hok.elim

theorem publishing_initial (heap : Addr → Option Text) (sockets : ℤ → Option Socket)
    (arrays : ℕ → Buffers) : Publishing P ok (.initial heap sockets arrays) where
  text := rfl
  unstarted _ := ⟨rfl, rfl⟩
  single := Nat.zero_le 1
  sections := by
    have hnone (t : Tid) : ¬(State.initial heap sockets arrays).holdsBuffer t := by
      cases t with
      | main => exact nofun
      | thread n => exact fun hin ↦ absurd hin.1.1 (Nat.not_lt_zero n)
    exact ⟨fun t hin ↦ absurd hin (hnone t), fun t _ hin ↦ absurd hin (hnone t)⟩
  reports := ⟨nofun, nofun, nofun, .nil⟩
  copied n halive := absurd halive.1 (Nat.not_lt_zero n)
  connected n halive := absurd halive.1 (Nat.not_lt_zero n)
  uncut := nofun

theorem publishing_of_reach {heap : Addr → Option Text} {sockets : ℤ → Option Socket}
    {arrays : ℕ → Buffers} {d : State}
    (h : Reach (step P) (Copies ok) (.initial heap sockets arrays) d) : Publishing P ok d := by
  refine h.invariant_of ConfigLock (Publishing P ok) (fun _ ↦ configLock_of_reach)
    (publishing_initial heap sockets arrays) fun _ _ _ hlock hd hok ↦ publishing_step hlock hd hok

/-- A server thread that holds the lock of the buffer finds a text that is published. Every 200
response is a whole report, and the scans that successive responses report never go back. -/
structure ServesReports (P : Platform) (d : State) : Prop where
  published : ∀ n, d.world.buffer.mutex.owner = some (.thread n) → Published P d.world
  report : ∀ r ∈ d.world.served, IsReport P d.world.entries r.report
  whole : ∀ r ∈ d.world.served, r.Whole
  sorted : d.world.served.Pairwise fun r r' ↦ r.report.scan ≤ r'.report.scan

/-- The length of the text fits an `int`. -/
def Short (text : Text) : Prop := text.bytes.length < 2 ^ 31

instance (text : Text) : Decidable (Short text) := inferInstanceAs (Decidable (_ < _))

/-- In a run without signals clients receive what they should exactly if every text that was sent
is short. -/
theorem servesReports_iff {heap : Addr → Option Text} {sockets : ℤ → Option Socket}
    {arrays : ℕ → Buffers} {d : State}
    (h : Reach (step P) (Copies fun _ ↦ True) (.initial heap sockets arrays) d) :
    ServesReports P d ↔ ∀ r ∈ d.world.served, Short r.report := by
  have hd := publishing_of_reach h
  have hwhole (r : Served) (hr : r ∈ d.world.served) : r.Whole ↔ Short r.report := by
    rw [Served.Whole, hd.reports.response r hr, okResponse_whole_iff]
    exact and_iff_right (hd.uncut r hr)
  constructor
  · exact fun hserves r hr ↦ (hwhole r hr).mp (hserves.whole r hr)
  · exact fun hshort ↦ ⟨fun n howner ↦ (hd.published howner).2, hd.reports.report,
      fun r hr ↦ (hwhole r hr).mpr (hshort r hr), hd.reports.sorted⟩

/-- In a run without signals in which a server thread copies only short texts, clients receive
what they should. -/
theorem servesReports_of_shortCopies {heap : Addr → Option Text} {sockets : ℤ → Option Socket}
    {arrays : ℕ → Buffers} {d : State}
    (h : Reach (step P) (Copies Short) (.initial heap sockets arrays) d) : ServesReports P d := by
  have hd := publishing_of_reach h
  refine ⟨fun n howner ↦ (hd.published howner).2, hd.reports.report,
    fun r hr ↦ ⟨hd.uncut r hr, ?_⟩, hd.reports.sorted⟩
  rw [hd.reports.response r hr]
  exact (okResponse_whole_iff _).mpr (hd.reports.accepted r hr)

/-- The surroundings of a client that sends a GET request. -/
def clientEnv : Env :=
  { sampleEnv with
    fd := 6
    addr := 1
    stream := [⟨ascii "GET / HTTP/1.1\r\n\r\n", by decide⟩] }

/-- The connection, up to the next `accept`. -/
def clientSteps : List Action := List.replicate 13 (.server 0 clientEnv)

/-- A client that is served before the first scan, and one after it. -/
theorem servesReports_around_scan : ∃ d : State,
    Reach (step samplePlatform) (Copies Short) sampleState d ∧
      d.world.served.map (·.report.scan) = [0, 1] ∧ ServesReports samplePlatform d := by
  have hrun : ∃ d, Reach (step samplePlatform) (Copies Short) sampleState d ∧
      d.world.served.map (·.report.scan) = [0, 1] :=
    exists_reach_of_runAll (mainSteps 32 ++ serverSteps 0 9 ++ clientSteps ++
      List.replicate 23 (.main .ready { sampleEnv with table := [sampleMount] }) ++
      clientSteps) (by decide +kernel)
  obtain ⟨d, hreach, hserved⟩ := hrun
  exact ⟨d, hreach, hserved, servesReports_of_shortCopies hreach⟩

/-! ## A report that is too long -/

theorem step_of_main {d : State} {poll : Poll} {e : Env} {w : World} {p : MainPc}
    (hended : d.world.ended = false) (hhook : d.mainHook = none)
    (h : main P poll e d.world d.main = some (w, p)) :
    step P d (.main poll e) = some { d with world := w, main := p } := by
  simp [step, hended, hhook, h]

/-- A scan of a table that does not change lists what is left of it. -/
theorem reach_free {d : State} {e : Env} {noticeLevel : Int32} {tree : JsonNode} {rest : Table}
    (hended : d.world.ended = false) (hhook : d.mainHook = none)
    (hpc : d.main = .loop (.check (.getmntent noticeLevel)))
    (hrest : e.table.drop d.world.mtabf = rest) (htree : d.world.entries.jsonEntries = some tree) :
    ∃ d', Reach (step P) (Copies fun _ ↦ True) d d' ∧ ∃ mtabf log, d' = { d with
      world := { d.world with
        mtabf := mtabf
        entries := { d.world.entries with jsonEntries := some (rest.foldl
          (fun entries entry ↦ scanEntry P.ratio noticeLevel entries entry.1 entry.2) tree) }
        log := log }
      main := .loop (.check .free) } := by
  induction rest generalizing d tree with
  | nil =>
    have hend : e.table[d.world.mtabf]? = none :=
      List.getElem?_eq_none (List.drop_eq_nil_iff.mp hrest)
    have hmain : main P .ready e d.world d.main = some (d.world, .loop (.check .free)) := by
      simp [main, hpc, checkLoop, checkMtab, hend]
    refine ⟨_, .tail .refl (a := .main .ready e) trivial (step_of_main hended hhook hmain),
      d.world.mtabf, d.world.log, ?_⟩
    rw [List.foldl_nil, ← htree]
  | cons entry rest ih =>
    have hentry : e.table[d.world.mtabf]? = some entry := by
      rw [← List.head?_drop, hrest, List.head?_cons]
    have hdrop : e.table.drop (d.world.mtabf + 1) = rest := by
      rw [← List.tail_drop, hrest, List.tail_cons]
    let log := if entry.2 = none then (d.world.logMsg "statvfs error" .warn).log else d.world.log
    let w : World := { d.world with
      mtabf := d.world.mtabf + 1
      entries := { d.world.entries with
        jsonEntries := some (scanEntry P.ratio noticeLevel tree entry.1 entry.2) }
      log := log }
    have hmain : main P .ready e d.world d.main =
        some (w, .loop (.check (.getmntent noticeLevel))) := by
      simp only [main, hpc, checkLoop, checkMtab, hentry, w, log]
      split_ifs <;> simp [World.logMsg, htree]
    have hstep : Reach (step P) (Copies fun _ ↦ True) d
        { d with world := w, main := .loop (.check (.getmntent noticeLevel)) } :=
      .tail .refl (a := .main .ready e) trivial (step_of_main hended hhook hmain)
    obtain ⟨d', hreach, hd'⟩ := ih (d := { d with world := w, main := _ }) hended hhook rfl hdrop rfl
    exact ⟨d', hstep.trans hreach, hd'⟩

/-- The old text of the entries gives way to the new one, which is published. -/
theorem reach_publish {d : State} {tree : JsonNode} (hended : d.world.ended = false)
    (hhook : d.mainHook = none) (hpc : d.main = .loop (.check .free))
    (htree : d.world.entries.jsonEntries = some tree) (htextural : d.world.entries.textural = 0) :
    ∃ d', Reach (step P) (Copies fun _ ↦ True) d d' ∧ d'.world.ended = false ∧
      d'.world.buffer = ⟨.free, .text 0⟩ ∧ d'.world.heap = Function.update d.world.heap 0
        (some ⟨jsonStringify P.libc tree (ascii " "), d.world.entries.scans⟩) ∧
      d'.world.threads = d.world.threads ∧ d'.world.sockets = d.world.sockets ∧
      d'.servers = d.servers ∧
      d'.serverHook = d.serverHook := by
  have hrun : runAll (step P) (Copies fun _ ↦ True) d (mainSteps 5) = some { d with
      world := { d.world with
        heap := Function.update d.world.heap 0
          (some ⟨jsonStringify P.libc tree (ascii " "), d.world.entries.scans⟩)
        entries := { d.world.entries with
          mutex := .free
          completed := d.world.entries.scans
          trees := Function.update d.world.entries.trees d.world.entries.scans
            d.world.entries.jsonEntries }
        buffer := ⟨.free, .text 0⟩ }
      main := .loop .recv } := by
    simp [mainSteps, runAll, Copies, step, main, checkLoop, checkMtab, hended, hhook, hpc, htree,
      htextural, World.release, World.alloc, sampleEnv, Mutex.free, Mutex.unlock,
      World.unlockBuffer, Entries.complete]
  exact ⟨_, reach_of_runAll hrun, hended, rfl, rfl, rfl, rfl, rfl, rfl⟩

/-- A server thread that waits for the lock of the buffer copies and sends the published text. -/
theorem reach_served {d : State} {a : Addr} {text : Text} (hended : d.world.ended = false)
    (hfree : d.world.buffer.mutex.owner = none)
    (hdata : d.world.buffer.data = .text a) (htext : d.world.heap a = some text)
    (hfresh : d.world.heap 1 = none) (halive : d.world.Alive 0) (hhook : d.serverHook 0 = none)
    (hwaits : (d.servers 0).pc = .lockBuffer) (hheld : (d.servers 0).held = false)
    (hopen : d.world.sockets (d.servers 0).stream = some .client) :
    ∃ d', Reach (step P) (Copies fun _ ↦ True) d d' ∧ ∃ r ∈ d'.world.served, r.report = text := by
  have hrun : ∃ d', runAll (step P) (Copies fun _ ↦ True) d
      (List.replicate 5 (.server 0 clientEnv)) = some d' ∧
      ∃ r ∈ d'.world.served, r.report = text := by
    obtain ⟨hcreated, hexited⟩ := halive
    simp [runAll, Copies, step, serve, hended, hhook, hwaits, World.lockBuffer, Mutex.lock, hfree,
      hdata, Data.text?, htext, World.alloc, hfresh, World.Alive, hcreated, hexited, clientEnv,
      World.unlockBuffer, World.send, hheld, hopen]
  obtain ⟨d', hrun, hserved⟩ := hrun
  exact ⟨d', reach_of_runAll hrun, hserved⟩

/-- The first scan is about to read the mount table, and a client waits for the lock. -/
def AtScan (d : State) : Prop :=
  (d.world.ended = false ∧ d.mainHook = none ∧ d.serverHook 0 = none ∧ d.world.Alive 0) ∧
    d.main = .loop (.check (.getmntent 20)) ∧
    ((d.servers 0).pc = .lockBuffer ∧ (d.servers 0).held = false ∧
      d.world.sockets (d.servers 0).stream = some .client) ∧
    d.world.mtabf = 0 ∧ d.world.entries.textural = 0 ∧ d.world.heap 1 = none ∧
    d.world.entries.jsonEntries.any (fun tree ↦ match tree with
      | .array [] => true
      | _ => false) = true

instance (d : State) : Decidable (AtScan d) := by unfold AtScan; infer_instance

theorem AtScan.tree {d : State} (h : AtScan d) :
    d.world.entries.jsonEntries = some (.array []) := by
  obtain ⟨tree, hsome, hnil⟩ := (Option.any_eq_true ..).mp h.2.2.2.2.2.2
  split at hnil
  · exact hsome
  · exact nomatch hnil

/-- From there the report of the mount table is sent. -/
theorem reach_report {d : State} (h : AtScan d) (table : Table) :
    ∃ d', Reach (step P) (Copies fun _ ↦ True) d d' ∧
      ∃ r ∈ d'.world.served, r.report.bytes = reportText P.libc P.ratio 20 table := by
  have htree := h.tree
  obtain ⟨⟨hended, hhook, hserver, halive⟩, hpc, hclient, hmtabf, htextural, hfresh, -⟩ := h
  obtain ⟨hwaits, hheld, hopen⟩ := hclient
  obtain ⟨d₁, hscan, mtabf, log, hd₁⟩ := reach_free (P := P)
    (e := { sampleEnv with table := table }) hended hhook hpc (by rw [hmtabf, List.drop_zero]) htree
  obtain ⟨d₂, hpublish, hended₂, hbuffer₂, hheap₂, hthreads₂, hsockets₂, hservers₂, hhook₂⟩ :=
    reach_publish (P := P) (d := d₁) (by rw [hd₁]; exact hended) (by rw [hd₁]; exact hhook)
      (by rw [hd₁]) (by rw [hd₁]) (by rw [hd₁]; exact htextural)
  subst hd₁
  obtain ⟨d', hreach, r, hr, hreport⟩ := reach_served (P := P) (d := d₂) (a := 0) hended₂
    (by rw [hbuffer₂]; rfl) (by rw [hbuffer₂]) (by rw [hheap₂]; exact Function.update_self ..)
    (by rw [hheap₂]; exact (Function.update_of_ne Nat.one_ne_zero ..).trans hfresh)
    (by rw [World.Alive, hthreads₂]; exact halive) (by rw [hhook₂]; exact hserver)
    (by rw [hservers₂]; exact hwaits) (by rw [hservers₂]; exact hheld)
    (by rw [hservers₂, hsockets₂]; exact hopen)
  exact ⟨d', hscan.trans (hpublish.trans hreach), r, hr, congrArg Text.bytes hreport⟩

/-- With 94000 mounts on the deep path the report is too long to be sent as a whole. -/
theorem not_servesReports_deepMounts :
    ¬∀ d : State, Reach (step samplePlatform) (Copies fun _ ↦ True) sampleState d →
      ServesReports samplePlatform d := by
  intro hclaim
  have hrun : ∃ d, Reach (step samplePlatform) (Copies fun _ ↦ True) sampleState d ∧ AtScan d :=
    exists_reach_of_runAll (mainSteps 32 ++ serverSteps 0 9 ++
      List.replicate 3 (.server 0 clientEnv) ++ mainSteps 16) (by decide +kernel)
  obtain ⟨d, hreach, hscan⟩ := hrun
  obtain ⟨d', hreach', r, hr, hbytes⟩ :=
    reach_report (P := samplePlatform) hscan (List.replicate 94000 deepMount)
  have hwhole := ((hclaim d' (hreach.trans hreach')).whole r hr).2
  have hresponse := (publishing_of_reach (hreach.trans hreach')).reports.response r hr
  have hlong := length_reportText_replicate samplePlatform.libc samplePlatform.ratio 20 5 deepMount
    94000 (by decide)
  rw [hresponse, okResponse_whole_iff, hbytes] at hwhole
  rw [length_emitString_deepMount] at hlong
  omega

end Stored.Daemon
