import Stored.Lib.Run
import Stored.Daemon.CheckMtab
import Stored.Daemon.Main

/-!
# Concurrent calls of `ST_check_mtab`

Any number of threads call `ST_check_mtab` on the same entries. The scan is inside the critical
section of the entries, but `rewind(mtabf)` is outside of it. A scan is complete if nobody rewinds
the stream after it has listed a mount, and the stream stands before every mount to be listed when
it lists the first one.
-/

namespace Stored.Daemon

open Bytes Json Mtab Run

variable {P : Platform} {table : Table}

/-- The shared state with the place of each thread in its call, if it is in one. -/
structure Callers where
  world : World
  calls : ℕ → Option MtabPc

inductive CallAction where
  | begin (n : ℕ)
  | call (n : ℕ) (e : Env)

/-- One step of a thread, with a mount table that does not change. -/
def stepCallers (P : Platform) (table : Table) (s : Callers) : CallAction → Option Callers
  | .begin n => if s.calls n = none then
      some { s with calls := Function.update s.calls n (some .rewind) }
    else none
  | .call n e => (s.calls n).bind fun p ↦
    (checkMtab P (.thread n) { e with table := table } s.world p).map fun r ↦
      { world := r.1, calls := Function.update s.calls n r.2 }

/-- The entries as `ST_init_mtab_checker` leaves them, with a configuration that is loaded. -/
def Callers.initial (P : Platform) (config : Config) (heap : Addr → Option Text) (a : Addr) :
    Callers where
  world := { World.initial heap fun _ ↦ none with
    config := { config with mutex := .free }
    entries := ⟨.free, some (.array []), a, 0, 0, fun _ ↦ none⟩
    heap := Function.update heap a (some ⟨jsonStringify P.libc (.array []) [], 0⟩) }
  calls _ := none

theorem stepCallers_begin {s s' : Callers} {n : ℕ}
    (h : stepCallers P table s (.begin n) = some s') :
    s.calls n = none ∧ s' = { s with calls := Function.update s.calls n (some .rewind) } := by
  simp only [stepCallers] at h
  split_ifs at h with hcalls
  exact ⟨hcalls, (Option.some.inj h).symm⟩

theorem stepCallers_call {s s' : Callers} {n : ℕ} {e : Env}
    (h : stepCallers P table s (.call n e) = some s') :
    ∃ p w q, s.calls n = some p ∧
      checkMtab P (.thread n) { e with table := table } s.world p = some (w, q) ∧
      s' = ⟨w, Function.update s.calls n q⟩ := by
  simp only [stepCallers, Option.bind_eq_some_iff, Option.map_eq_some_iff] at h
  obtain ⟨p, hp, r, hcheck, h⟩ := h
  exact ⟨p, r.1, r.2, hp, hcheck, h.symm⟩

/-- The tree and the text hold one entry for each mount to be listed, in table order. -/
def ScanComplete (P : Platform) (table : Table) (w : World) : Prop :=
  ∃ tree text, tree = JsonNode.array ((listedMounts P.ratio w.config.noticePercent.value table).map
      fun m ↦ entryNode m.1 m.2) ∧
    w.entries.jsonEntries = some tree ∧ w.heap w.entries.textural = some text ∧
    text.bytes = jsonStringify P.libc tree (ascii " ")

/-- Whenever a call releases the lock of the entries, they are complete. -/
def ReleasesComplete (P : Platform) (table : Table) (s : Callers) : Prop :=
  ∀ n e s', s.calls n = some .unlockEntries →
    stepCallers P table s (.call n e) = some s' → ScanComplete P table s'.world

/-- The tree holds no entry. -/
def World.Unlisted (w : World) : Prop := w.entries.jsonEntries.any (fun tree ↦ match tree with
  | .array [] => true
  | _ => false) = true

/-- A call is between two reads of the mount table. -/
def MtabPc.reading : MtabPc → Bool
  | .getmntent _ => true
  | _ => false

/-- The thread that holds the lock of the entries is between two reads of the mount table and has
listed a mount. -/
def Callers.Listing (s : Callers) : Prop :=
  match s.world.entries.mutex.owner with
  | some (.thread n) => (s.calls n).any MtabPc.reading = true ∧ ¬s.world.Unlisted
  | _ => False

/-- The next read of the mount table lists a mount or ends the scan. -/
def Decides (P : Platform) (table : Table) (w : World) : Prop :=
  match table[w.mtabf]? with
  | some entry => listedPercent P.ratio w.config.noticePercent.value entry.2 ≠ none
  | none => True

/-- Nobody rewinds the stream when a scan has listed a mount, and no mount to be listed is before
the stream position when a scan lists its first mount, or ends without one. -/
def ScansFromStart (P : Platform) (table : Table) (s : Callers) : CallAction → Prop
  | .begin _ => True
  | .call n _ => match s.calls n with
    | some .rewind => ¬s.Listing
    | some (.getmntent _) => s.world.Unlisted → Decides P table s.world →
      listedMounts P.ratio s.world.config.noticePercent.value (table.take s.world.mtabf) = []
    | _ => True

/-- A call is inside the critical section of the entries. -/
def MtabPc.inside : MtabPc → Bool
  | .delete _ | .mkarray _ | .getmntent _ | .free | .stringify | .unlockEntries => true
  | _ => false

/-- The local `notice_level` of a call that has read it. -/
def MtabPc.noticeLevel : MtabPc → Option Int32
  | .unlockConfig n | .lockEntries n | .delete n | .mkarray n | .getmntent n => some n
  | _ => none

/-- What is known of the tree and the text at each place of a call that is inside. -/
def MtabPc.ScanAt (P : Platform) (table : Table) (w : World) : MtabPc → Prop
  | .getmntent _ => w.Unlisted ∨ w.entries.jsonEntries =
      some (scanTable P.ratio w.config.noticePercent.value (table.take w.mtabf))
  | .free | .stringify =>
    w.entries.jsonEntries = some (scanTable P.ratio w.config.noticePercent.value table)
  | .unlockEntries => ScanComplete P table w
  | _ => True

theorem unlisted_iff {w : World} : w.Unlisted ↔ w.entries.jsonEntries = some (.array []) := by
  unfold World.Unlisted
  constructor
  · intro h
    obtain ⟨tree, hsome, hnil⟩ := (Option.any_eq_true ..).mp h
    split at hnil
    · exact hsome
    · exact nomatch hnil
  · intro h
    rw [h]
    rfl

theorem scanTable_of_unlisted {ratio : Ratio} {noticeLevel : Int32} {table : Table}
    (h : listedMounts ratio noticeLevel table = []) :
    scanTable ratio noticeLevel table = .array [] := by
  rw [scanTable_eq, h, List.map_nil]

theorem scanTable_take_succ {ratio : Ratio} {noticeLevel : Int32} {table : Table} {i : ℕ}
    {entry : Mntent × Option Statvfs} (h : table[i]? = some entry) :
    scanTable ratio noticeLevel (table.take (i + 1)) =
      scanEntry ratio noticeLevel (scanTable ratio noticeLevel (table.take i)) entry.1 entry.2 := by
  rw [List.take_add_one, h, Option.toList_some, scanTable_snoc]

/-- A read of the mount table keeps the tree in step with the stream position. -/
theorem scanEntry_scanAt {w : World} {noticeLevel : Int32} {entry : Mntent × Option Statvfs}
    (hentry : table[w.mtabf]? = some entry)
    (hp : (MtabPc.getmntent noticeLevel).ScanAt P table w)
    (hfirst : w.Unlisted → Decides P table w →
      listedMounts P.ratio w.config.noticePercent.value (table.take w.mtabf) = []) :
    let tree := w.entries.jsonEntries.map
      (scanEntry P.ratio w.config.noticePercent.value · entry.1 entry.2)
    tree = some (.array []) ∨
      tree = some (scanTable P.ratio w.config.noticePercent.value (table.take (w.mtabf + 1))) := by
  intro tree
  rcases hp with hunlisted | htree
  · have hempty := unlisted_iff.mp hunlisted
    cases hlisted : listedPercent P.ratio w.config.noticePercent.value entry.2 with
    | none =>
      left
      simp only [tree, hempty, Option.map_some, scanEntry, hlisted]
    | some percent =>
      right
      have hdecides : Decides P table w := by simp [Decides, hentry, hlisted]
      rw [scanTable_take_succ hentry, scanTable_of_unlisted (hfirst hunlisted hdecides)]
      simp only [tree, hempty, Option.map_some]
  · right
    rw [scanTable_take_succ hentry]
    simp only [tree, htree, Option.map_some]

/-- The end of the mount table finds the tree complete. -/
theorem scanTable_of_end {w : World} {noticeLevel : Int32} (hend : table[w.mtabf]? = none)
    (hp : (MtabPc.getmntent noticeLevel).ScanAt P table w)
    (hfirst : w.Unlisted → Decides P table w →
      listedMounts P.ratio w.config.noticePercent.value (table.take w.mtabf) = []) :
    w.entries.jsonEntries = some (scanTable P.ratio w.config.noticePercent.value table) := by
  have htake : table.take w.mtabf = table :=
    List.take_of_length_le (List.getElem?_eq_none_iff.mp hend)
  rcases hp with hunlisted | htree
  · have hnone := hfirst hunlisted (by simp [Decides, hend])
    rw [htake] at hnone
    rw [scanTable_of_unlisted hnone]
    exact unlisted_iff.mp hunlisted
  · rwa [htake] at htree

/-- What a step knows when it reads the mount table. -/
def FirstFromStart (P : Platform) (table : Table) (w : World) (p : MtabPc) : Prop :=
  ∀ noticeLevel, p = .getmntent noticeLevel → w.Unlisted → Decides P table w →
    listedMounts P.ratio w.config.noticePercent.value (table.take w.mtabf) = []

/-- A call inside the section goes on to what is known at its next place, and leaves complete
entries behind. -/
theorem checkMtab_scanAt {t : Tid} {e : Env} {w w' : World} {p : MtabPc} {q : Option MtabPc}
    (h : checkMtab P t { e with table := table } w p = some (w', q)) (hp : p.ScanAt P table w)
    (hnotice : ∀ l, p.noticeLevel = some l → l = w.config.noticePercent.value)
    (hfirst : FirstFromStart P table w p) :
    (∀ q', q = some q' → q'.ScanAt P table w') ∧ (p = .unlockEntries → ScanComplete P table w') := by
  refine ⟨?_, fun hpc ↦ ?_⟩
  · rintro q' rfl
    cases checkMtab_cases h with
    | mkarray => exact .inl rfl
    | endOfTable noticeLevel hend => exact scanTable_of_end hend hp (hfirst noticeLevel rfl)
    | entry noticeLevel mt answer log hentry =>
      obtain rfl := hnotice noticeLevel rfl
      have htree := scanEntry_scanAt hentry hp (hfirst _ rfl)
      exact htree.imp unlisted_iff.mpr id
    | free => exact hp
    | stringify tree htree hfresh =>
      refine ⟨tree, _, ?_, htree, Function.update_self .., rfl⟩
      have hlisted := Option.some.inj (htree.symm.trans hp)
      rw [hlisted, scanTable_eq]
    | _ => trivial
  · subst hpc
    cases checkMtab_cases h
    exact hp

/-- A call outside of the section leaves the scan of another one as it is, unless it rewinds. -/
theorem checkMtab_outside {t : Tid} {e : Env} {w w' : World} {p p' : MtabPc} {q : Option MtabPc}
    (h : checkMtab P t { e with table := table } w p = some (w', q)) (hout : p.inside = false)
    (hp' : p'.ScanAt P table w)
    (hrewind : p = .rewind → ∀ noticeLevel, p' = .getmntent noticeLevel → w.Unlisted) :
    p'.ScanAt P table w' := by
  cases checkMtab_cases h with
  | rewind =>
    cases p' with
    | getmntent noticeLevel => exact .inl (hrewind rfl noticeLevel rfl)
    | _ => exact hp'
  | lockConfig | readNotice | unlockConfig | lockEntries => cases p' <;> exact hp'
  | _ => exact nomatch hout

theorem scanAt_of_not_inside {w : World} {p : MtabPc} (h : p.inside = false) :
    p.ScanAt P table w := by
  cases p <;> trivial

theorem checkMtab_inside {t : Tid} {e : Env} {w w' : World} {p : MtabPc} {q : Option MtabPc}
    (h : checkMtab P t e w p = some (w', q)) :
    Mutex.LockStep w.entries.mutex w'.entries.mutex t (p.inside = true)
      (q.any MtabPc.inside = true) := by
  cases checkMtab_cases h with
  | lockEntries _ hfree => exact .lock (Mutex.lock_eq_some_iff.mpr ⟨hfree, rfl⟩)
  | unlockEntries => exact .unlock rfl nofun rfl
  | rewind | lockConfig | readNotice | unlockConfig => exact .keep rfl nofun
  | _ => exact .keep rfl fun _ ↦ rfl

/-- The notice level stays, and a call carries the one that it has read. -/
theorem checkMtab_notice {t : Tid} {e : Env} {w w' : World} {p : MtabPc} {q : Option MtabPc}
    (h : checkMtab P t e w p = some (w', q))
    (hnotice : ∀ l, p.noticeLevel = some l → l = w.config.noticePercent.value) :
    w'.config.noticePercent = w.config.noticePercent ∧ ∀ q', q = some q' →
      ∀ l, q'.noticeLevel = some l → l = w.config.noticePercent.value := by
  refine ⟨?_, ?_⟩
  · obtain ⟨_, _, _, _, _, rfl⟩ := checkMtab_frame h
    rfl
  · rintro q' rfl l hl
    cases checkMtab_cases h with
    | readNotice => exact (Option.some.inj hl).symm
    | unlockConfig | lockEntries | delete | mkarray | entry => exact hnotice l hl
    | _ => exact nomatch hl

structure Scanning (P : Platform) (table : Table) (s : Callers) : Prop where
  sections : s.world.entries.mutex.Sections Tid.thread
    fun n ↦ (s.calls n).any MtabPc.inside = true
  notice : ∀ n p, s.calls n = some p → ∀ l, p.noticeLevel = some l →
    l = s.world.config.noticePercent.value
  scan : ∀ n p, s.calls n = some p → p.ScanAt P table s.world

theorem calls_update {calls : ℕ → Option MtabPc} {n m : ℕ} {q : Option MtabPc} {p : MtabPc}
    (h : Function.update calls n q m = some p) :
    (m = n ∧ q = some p) ∨ (m ≠ n ∧ calls m = some p) := by
  by_cases hmn : m = n
  · subst hmn
    exact .inl ⟨rfl, by rwa [Function.update_self] at h⟩
  · exact .inr ⟨hmn, by rwa [Function.update_of_ne hmn] at h⟩

theorem scanning_begin {s : Callers} {n : ℕ} (hs : Scanning P table s) (hnone : s.calls n = none) :
    Scanning P table { s with calls := Function.update s.calls n (some .rewind) } where
  sections := by
    refine hs.sections.mono fun m hin ↦ ?_
    by_cases hmn : m = n
    · subst hmn
      simp only [Function.update_self] at hin
      exact nomatch hin
    · simpa only [Function.update_of_ne hmn] using hin
  notice m p hp l hl := by
    rcases calls_update hp with ⟨rfl, hq⟩ | ⟨-, hm⟩
    · obtain rfl := Option.some.inj hq
      exact nomatch hl
    · exact hs.notice m p hm l hl
  scan m p hp := by
    rcases calls_update hp with ⟨rfl, hq⟩ | ⟨-, hm⟩
    · obtain rfl := Option.some.inj hq
      trivial
    · exact hs.scan m p hm

/-- A rewind that is allowed finds no mount listed by a scan. -/
theorem unlisted_of_not_listing {s : Callers} {n : ℕ} {noticeLevel : Int32}
    (hs : Scanning P table s) (hn : s.calls n = some (.getmntent noticeLevel))
    (h : ¬s.Listing) : s.world.Unlisted := by
  have howner := hs.sections.held n (by rw [hn]; rfl)
  by_contra hunlisted
  refine h ?_
  rw [Callers.Listing, howner]
  exact ⟨by rw [hn]; rfl, hunlisted⟩

theorem scanning_call {s : Callers} {n : ℕ} {e : Env} {p : MtabPc} {w : World}
    {q : Option MtabPc} (hs : Scanning P table s) (hok : ScansFromStart P table s (.call n e))
    (hp : s.calls n = some p)
    (h : checkMtab P (.thread n) { e with table := table } s.world p = some (w, q)) :
    Scanning P table ⟨w, Function.update s.calls n q⟩ := by
  obtain ⟨hsame, hnotice⟩ := checkMtab_notice h (hs.notice n p hp)
  have hfirst : FirstFromStart P table s.world p := by
    rintro noticeLevel rfl
    simpa only [ScansFromStart, hp] using hok
  have hscan := (checkMtab_scanAt h (hs.scan n p hp) (hs.notice n p hp) hfirst).1
  refine ⟨?_, fun m p' hp' l hl ↦ ?_, fun m p' hp' ↦ ?_⟩
  · refine hs.sections.step (c := n) ?_ fun m hmn hin ↦ ?_
    · refine (checkMtab_inside h).congr ?_ ?_
      · rw [hp, Option.any_some]
      · simp only [Function.update_self]
    · simpa only [Function.update_of_ne hmn] using hin
  · rcases calls_update hp' with ⟨rfl, hq⟩ | ⟨-, hm⟩
    · exact hsame ▸ hnotice p' hq l hl
    · exact hsame ▸ hs.notice m p' hm l hl
  · rcases calls_update hp' with ⟨rfl, hq⟩ | ⟨hmn, hm⟩
    · exact hscan p' hq
    · cases hin : p.inside with
      | false =>
        refine checkMtab_outside h hin (hs.scan m p' hm) ?_
        rintro rfl noticeLevel rfl
        have hlisting : ¬s.Listing := by simpa only [ScansFromStart, hp] using hok
        exact unlisted_of_not_listing hs hm hlisting
      | true =>
        refine scanAt_of_not_inside ?_
        by_contra hin'
        refine hmn (hs.sections.unique m n ?_ ?_)
        · rw [hm]
          simpa using hin'
        · rw [hp]
          exact hin

theorem scanning_step {s s' : Callers} {a : CallAction} (hs : Scanning P table s)
    (hok : ScansFromStart P table s a) (h : stepCallers P table s a = some s') :
    Scanning P table s' := by
  cases a with
  | begin n =>
    obtain ⟨hnone, rfl⟩ := stepCallers_begin h
    exact scanning_begin hs hnone
  | call n e =>
    obtain ⟨p, w, q, hp, hcheck, rfl⟩ := stepCallers_call h
    exact scanning_call hs hok hp hcheck

theorem scanning_initial (config : Config) (heap : Addr → Option Text) (a : Addr) :
    Scanning P table (.initial P config heap a) where
  sections := ⟨nofun, nofun⟩
  notice := nofun
  scan := nofun

theorem releasesComplete_of_scanning {s : Callers} (hs : Scanning P table s) :
    ReleasesComplete P table s := by
  intro n e s' hn h
  obtain ⟨p, w, q, hp, hcheck, rfl⟩ := stepCallers_call h
  obtain rfl := Option.some.inj (hn.symm.trans hp)
  exact (checkMtab_scanAt hcheck (hs.scan n _ hp) nofun nofun).2 rfl

/-- In a run in which scans are not disturbed by rewinds, whenever a call releases the lock of the
entries they hold one entry for each mount to be listed. -/
theorem releasesComplete_of_scansFromStart {config : Config} {heap : Addr → Option Text} {a : Addr}
    {s : Callers}
    (h : Reach (stepCallers P table) (ScansFromStart P table) (.initial P config heap a) s) :
    ReleasesComplete P table s :=
  releasesComplete_of_scanning (h.invariant (Scanning P table) (scanning_initial config heap a)
    fun _ _ _ ↦ scanning_step)

instance (w : World) : Decidable w.Unlisted := inferInstanceAs (Decidable (_ = true))

instance (s : Callers) : Decidable s.Listing := by
  unfold Callers.Listing
  split <;> infer_instance

instance (w : World) : Decidable (Decides P table w) := by
  unfold Decides
  split <;> infer_instance

instance (s : Callers) (a : CallAction) : Decidable (ScansFromStart P table s a) := by
  cases a with
  | begin n => exact instDecidableTrue
  | call n e =>
    unfold ScansFromStart
    dsimp only
    split <;> infer_instance

/-- The sample configuration with a notice level of 20 percent, and no call begun. -/
def sampleCallers : Callers :=
  .initial samplePlatform { sampleState.world.config with noticePercent := ⟨20, 1⟩ }
    (fun _ ↦ none) 0

def callSteps (n k : ℕ) : List CallAction := List.replicate k (.call n sampleEnv)

/-- A thread that rewinds the stream when another one has read the whole table. -/
theorem releasesComplete_rewind_after_scan : ∃ s : Callers,
    Reach (stepCallers samplePlatform [sampleMount]) (ScansFromStart samplePlatform [sampleMount])
      sampleCallers s ∧ s.calls 1 = some .unlockEntries ∧
      ReleasesComplete samplePlatform [sampleMount] s := by
  have hrun : ∃ s, Reach (stepCallers samplePlatform [sampleMount])
      (ScansFromStart samplePlatform [sampleMount]) sampleCallers s ∧
      s.calls 1 = some .unlockEntries :=
    exists_reach_of_runAll (.begin 0 :: callSteps 0 9 ++ .begin 1 :: callSteps 1 1 ++
      callSteps 0 3 ++ callSteps 1 10) (by decide +kernel)
  obtain ⟨s, hreach, hcalls⟩ := hrun
  exact ⟨s, hreach, hcalls, releasesComplete_of_scansFromStart hreach⟩

/-- Two threads rewind the stream before either scans: the second one finds no mount. -/
theorem not_releasesComplete_both_rewound :
    ¬∀ s : Callers, Reachable (stepCallers samplePlatform [sampleMount]) sampleCallers s →
      ReleasesComplete samplePlatform [sampleMount] s := by
  intro hclaim
  have hrun : ∃ s, Reachable (stepCallers samplePlatform [sampleMount]) sampleCallers s ∧
      (s.calls 1 = some .unlockEntries ∧ s.world.Unlisted ∧
        s.world.config.noticePercent.value = 20) :=
    exists_reach_of_runAll (.begin 0 :: .begin 1 :: callSteps 0 1 ++ callSteps 1 1 ++
      callSteps 0 11 ++ callSteps 1 9) (by decide +kernel)
  obtain ⟨s, hreach, hcalls, hunlisted, hnotice⟩ := hrun
  have hstep : ∃ s', stepCallers samplePlatform [sampleMount] s (.call 1 sampleEnv) = some s' ∧
      s'.world.entries.jsonEntries = s.world.entries.jsonEntries ∧
      s'.world.config.noticePercent.value = 20 := by
    simp [stepCallers, hcalls, checkMtab, Entries.complete, hnotice]
  obtain ⟨s', hstep, htree, hnotice'⟩ := hstep
  obtain ⟨tree, text, rfl, hlisted, -⟩ := hclaim s hreach 1 sampleEnv s' hcalls hstep
  rw [htree, unlisted_iff.mp hunlisted, hnotice'] at hlisted
  have hnone := List.map_eq_nil_iff.mp (JsonNode.array.inj (Option.some.inj hlisted)).symm
  exact absurd hnone (by decide)

end Stored.Daemon
