import Stored.Json.Stringify
import Stored.Mtab.Scan

/-!
# The scan of the mount table in memory

`ST_init_mtab_checker` and `ST_check_mtab` on the nodes of json.c. Each call frees the nodes of the
one before and makes new ones; what they span is the tree of the scan.
-/

namespace Stored.Entries

open Bytes Json Json.Linked Heap Separation Assertion
open Mtab hiding jsonAppendElement jsonAppendMember

/-- `struct _MTAB_ENTRIES` without the mutex. -/
structure MtabEntries where
  textural : List UInt8
  jsonEntries : Ptr

/-- `ST_init_mtab_checker`; its own request is that for the structure. -/
def initMtabChecker (A : Alloc) (libc : Libc) (fuel : ℕ) : Cmd MtabEntries := do
  request A
  let jsonEntries ← jsonMkarray A
  let textural ← jsonStringify A libc fuel jsonEntries (ascii "")
  pure ⟨textural, jsonEntries⟩

/-- The body of the `getmntent` loop, from the answer of `statvfs` on. -/
def scanMount (A : Alloc) (ratio : Ratio) (noticeLevel : Int32) (entries : Ptr) (mt : Mntent)
    (answer : Option Statvfs) : Cmd Unit :=
  match answer with
  | none => pure ()
  | some s =>
    if 0 < s.fBlocks then
      let freePercent := freePercent ratio s
      if noticeLevel ≥ freePercent then do
        let jNode ← jsonMkobject A
        let mPoint ← jsonMkstring A mt.mntDir.bytes
        let fPercent ← jsonMknumber A freePercent.toInt
        jsonAppendMember A jNode "mount_point" mPoint
        jsonAppendMember A jNode "free_space" fPercent
        jsonAppendElement entries jNode
      else pure ()
    else pure ()

/-- The `getmntent` loop. -/
def scanMounts (A : Alloc) (ratio : Ratio) (noticeLevel : Int32) (entries : Ptr) :
    Table → Cmd Unit
  | [] => pure ()
  | (mt, answer) :: table => do
    scanMount A ratio noticeLevel entries mt answer
    scanMounts A ratio noticeLevel entries table

/-- `ST_check_mtab` between its locks, with the notice level that it has read. -/
def checkMtab (A : Alloc) (libc : Libc) (ratio : Ratio) (fuel : ℕ) (noticeLevel : Int32)
    (table : Table) (me : MtabEntries) : Cmd MtabEntries := do
  jsonDelete fuel me.jsonEntries
  let jsonEntries ← jsonMkarray A
  scanMounts A ratio noticeLevel jsonEntries table
  let textural ← jsonStringify A libc fuel jsonEntries (ascii " ")
  pure ⟨textural, jsonEntries⟩

/-- `json_delete` of `ST_destroy_mtab_checker` -/
def destroyMtabChecker (fuel : ℕ) (me : MtabEntries) : Cmd Unit := jsonDelete fuel me.jsonEntries

/-- A call of `ST_check_mtab`: the notice level it reads and the mount table with the answers. -/
abbrev Call := Int32 × Table

/-- `ST_init_mtab_checker` and the calls that follow it. -/
def runCalls (A : Alloc) (libc : Libc) (ratio : Ratio) (fuel : ℕ) (calls : List Call) :
    Cmd MtabEntries := do
  let me ← initMtabChecker A libc fuel
  calls.foldlM (fun me call ↦ checkMtab A libc ratio fuel call.1 call.2 me) me

/-- The assertions of the three appends hold, and the object of the mount is the last element. -/
theorem triple_listMount (A : Alloc) {root : ℕ} {es : List JsonNode} (mt : Mntent)
    (percent : Int32) :
    Triple (detached (.array es) root)
      (do
        let jNode ← jsonMkobject A
        let mPoint ← jsonMkstring A mt.mntDir.bytes
        let fPercent ← jsonMknumber A percent.toInt
        jsonAppendMember A jNode "mount_point" mPoint
        jsonAppendMember A jNode "free_space" fPercent
        jsonAppendElement (some root) jNode)
      fun _ ↦ detached (.array (es ++ [entryNode mt percent])) root := by
  apply Triple.new_bind (triple_jsonMkobject A)
  intro j
  apply Triple.new_bind (triple_jsonMkstring A mt.mntDir.bytes)
  intro m
  apply Triple.new_bind (triple_jsonMknumber A percent.toInt)
  intro f
  have hpoint : Triple (detached (.object []) j * detached (.string mt.mntDir.bytes) m)
      (jsonAppendMember A (some j) "mount_point" (some m))
      fun _ ↦ detached (.object [(ascii "mount_point", .string mt.mntDir.bytes)]) j :=
    triple_jsonAppendMember A
  apply Triple.bind (detached (.number percent.toInt) f * detached (.array es) root) hpoint
    (by ac_rfl)
  intro x
  have hspace : Triple (detached (.object [(ascii "mount_point", .string mt.mntDir.bytes)]) j *
      detached (.number percent.toInt) f)
      (jsonAppendMember A (some j) "free_space" (some f))
      fun _ ↦ detached (entryNode mt percent) j :=
    triple_jsonAppendMember A
  apply Triple.bind (detached (.array es) root) hspace (mul_assoc _ _ _).symm
  intro x
  rw [mul_comm]
  exact triple_jsonAppendElement

theorem triple_scanMount (A : Alloc) (ratio : Ratio) (noticeLevel : Int32) {root : ℕ}
    {es : List JsonNode} (mt : Mntent) (answer : Option Statvfs) :
    Triple (detached (.array es) root) (scanMount A ratio noticeLevel (some root) mt answer)
      fun _ ↦ detached (scanEntry ratio noticeLevel (.array es) mt answer) root := by
  cases answer with
  | none => exact Triple.pure le_rfl
  | some s =>
    rw [scanMount, scanEntry, listedPercent]
    by_cases hblocks : 0 < s.fBlocks
    · rw [if_pos hblocks, if_pos hblocks]
      by_cases hnotice : noticeLevel ≥ freePercent ratio s
      · rw [if_pos hnotice, if_pos hnotice]
        exact triple_listMount A mt (freePercent ratio s)
      · rw [if_neg hnotice, if_neg hnotice]
        exact Triple.pure le_rfl
    · rw [if_neg hblocks, if_neg hblocks]
      exact Triple.pure le_rfl

theorem triple_scanMounts (A : Alloc) (ratio : Ratio) (noticeLevel : Int32) {root : ℕ}
    (table : Table) (es : List JsonNode) :
    Triple (detached (.array es) root) (scanMounts A ratio noticeLevel (some root) table)
      fun _ ↦ detached (table.foldl
        (fun entries entry ↦ scanEntry ratio noticeLevel entries entry.1 entry.2) (.array es))
        root := by
  induction table generalizing es with
  | nil => exact Triple.pure le_rfl
  | cons entry table ih =>
    apply Triple.bind 1 (triple_scanMount A ratio noticeLevel entry.1 entry.2) (mul_one _).symm
    intro x
    rw [mul_one, List.foldl_cons, scanEntry_array]
    exact ih _

/-- The structure that `ST_init_mtab_checker` and `ST_check_mtab` leave, with the tree that its
nodes span. -/
def entriesAre (text : List UInt8) (t : JsonNode) (me : MtabEntries) : Assertion ℕ Node :=
  ⨆ root, fact (me = ⟨text, some root⟩) * detached t root

theorem eventually_stringify (A : Alloc) (libc : Libc) (space : List UInt8) (t : JsonNode) :
    ∀ᶠ fuel in Filter.atTop, ∀ root, Triple (detached t root)
      (do
        let textural ← jsonStringify A libc fuel (some root) space
        pure ⟨textural, some root⟩)
      (entriesAre (Json.jsonStringify libc t space) t) := by
  filter_upwards [eventually_jsonStringify A libc space t] with fuel htext root
  apply Triple.bind 1 (htext root) (mul_one _).symm
  intro text
  rw [mul_one]
  apply Triple.of_fact
  rintro rfl
  apply Triple.pure
  apply le_iSup_of_le root
  rw [fact_of rfl, one_mul]

theorem eventually_initMtabChecker (A : Alloc) (libc : Libc) : ∀ᶠ fuel in Filter.atTop,
    Triple 1 (initMtabChecker A libc fuel)
      (entriesAre (Json.jsonStringify libc (.array []) (ascii "")) (.array [])) := by
  filter_upwards [eventually_stringify A libc (ascii "") (.array [])] with fuel htext
  apply Triple.request_bind
  apply Triple.new_bind (triple_jsonMkarray A)
  intro root
  rw [mul_one]
  exact htext root

/-- A call frees the tree that it finds and leaves the tree and the text of its own scan. -/
theorem eventually_checkMtab (A : Alloc) (libc : Libc) (ratio : Ratio) (noticeLevel : Int32)
    (table : Table) (t : JsonNode) : ∀ᶠ fuel in Filter.atTop, ∀ text me,
    Triple (entriesAre text t me) (checkMtab A libc ratio fuel noticeLevel table me)
      (entriesAre (reportText libc ratio noticeLevel table)
        (scanTable ratio noticeLevel table)) := by
  filter_upwards [eventually_jsonDelete t,
    eventually_stringify A libc (ascii " ") (scanTable ratio noticeLevel table)]
    with fuel hdelete htext text me
  apply Triple.of_iSup
  intro old
  apply Triple.of_fact
  rintro rfl
  apply Triple.bind 1 (hdelete old) (mul_one _).symm
  intro x
  rw [mul_one]
  apply Triple.new_bind (triple_jsonMkarray A)
  intro root
  rw [mul_one]
  apply Triple.bind 1 (triple_scanMounts A ratio noticeLevel table []) (mul_one _).symm
  intro x
  rw [mul_one]
  exact htext root

/-- The mounts that the last of the calls lists. -/
def listedAfter (ratio : Ratio) (calls : List Call) : List (Mntent × Int32) :=
  match calls.getLast? with
  | none => []
  | some call => listedMounts ratio call.1 call.2

/-- `me->textural` after the calls. -/
def textAfter (libc : Libc) (ratio : Ratio) (calls : List Call) : List UInt8 :=
  match calls.getLast? with
  | none => Json.jsonStringify libc (.array []) (ascii "")
  | some call => reportText libc ratio call.1 call.2

theorem listedAfter_snoc (ratio : Ratio) (calls : List Call) (call : Call) :
    listedAfter ratio (calls ++ [call]) = listedMounts ratio call.1 call.2 := by
  rw [listedAfter, List.getLast?_concat]

theorem textAfter_snoc (libc : Libc) (ratio : Ratio) (calls : List Call) (call : Call) :
    textAfter libc ratio (calls ++ [call]) = reportText libc ratio call.1 call.2 := by
  rw [textAfter, List.getLast?_concat]

/-- The tree of listed mounts. -/
def mountsTree (mounts : List (Mntent × Int32)) : JsonNode :=
  .array (mounts.map fun m ↦ entryNode m.1 m.2)

theorem scanTable_mountsTree (ratio : Ratio) (noticeLevel : Int32) (table : Table) :
    scanTable ratio noticeLevel table = mountsTree (listedMounts ratio noticeLevel table) :=
  scanTable_eq ratio noticeLevel table

theorem runCalls_snoc (A : Alloc) (libc : Libc) (ratio : Ratio) (fuel : ℕ) (calls : List Call)
    (call : Call) : runCalls A libc ratio fuel (calls ++ [call]) = (do
      let me ← runCalls A libc ratio fuel calls
      checkMtab A libc ratio fuel call.1 call.2 me) := by
  simp only [runCalls, List.foldlM_append, List.foldlM_cons, List.foldlM_nil, bind_pure, bind_assoc]

/-- After any calls the nodes span the tree of the mounts that the last call lists, and the text is
the text of that tree. -/
theorem eventually_runCalls (A : Alloc) (libc : Libc) (ratio : Ratio) (calls : List Call) :
    ∀ᶠ fuel in Filter.atTop, Triple 1 (runCalls A libc ratio fuel calls)
      (entriesAre (textAfter libc ratio calls) (mountsTree (listedAfter ratio calls))) := by
  induction calls using List.reverseRecOn with
  | nil =>
    filter_upwards [eventually_initMtabChecker A libc] with fuel hinit
    simp only [runCalls, List.foldlM_nil, bind_pure]
    exact hinit
  | append_singleton calls call ih =>
    filter_upwards [ih, eventually_checkMtab A libc ratio call.1 call.2
      (mountsTree (listedAfter ratio calls))] with fuel hcalls hcall
    rw [runCalls_snoc]
    apply Triple.bind 1 hcalls (mul_one _).symm
    intro me
    rw [mul_one, listedAfter_snoc, textAfter_snoc, ← scanTable_mountsTree]
    exact hcall _ me

/-- After any calls `me->textural` is the report of the last one. -/
theorem eventually_textural (A : Alloc) (libc : Libc) (ratio : Ratio) (calls : List Call)
    (m₀ : Memory ℕ Node) : ∀ᶠ fuel in Filter.atTop,
    Ends (fun me _ ↦ me.textural = textAfter libc ratio calls)
      (runCalls A libc ratio fuel calls m₀) := by
  filter_upwards [eventually_runCalls A libc ratio calls] with fuel hruns
  apply (hruns ⊤ m₀ (one_mul_top_holds _)).mono
  intro me m hend
  rw [entriesAre, Quantale.iSup_mul_distrib, iSup_holds] at hend
  obtain ⟨root, hend⟩ := hend
  rw [mul_assoc, fact_mul_holds] at hend
  rw [hend.1]

/-- However many calls were made, the end of the checker leaves the cells that were there before. -/
theorem eventually_destroyMtabChecker (A : Alloc) (libc : Libc) (ratio : Ratio)
    (calls : List Call) (m₀ : Memory ℕ Node) : ∀ᶠ fuel in Filter.atTop,
    Ends (fun _ m ↦ m.cells = m₀.cells)
      ((do
        let me ← runCalls A libc ratio fuel calls
        destroyMtabChecker fuel me : Cmd Unit) m₀) := by
  filter_upwards [eventually_runCalls A libc ratio calls,
    eventually_jsonDelete (mountsTree (listedAfter ratio calls))] with fuel hruns hdelete
  have htriple : Triple 1 (do
      let me ← runCalls A libc ratio fuel calls
      destroyMtabChecker fuel me : Cmd Unit) fun _ ↦ 1 := by
    apply Triple.bind 1 hruns (mul_one _).symm
    intro me
    rw [mul_one]
    apply Triple.of_iSup
    intro root
    apply Triple.of_fact
    rintro rfl
    exact hdelete root
  have hstart : (1 * mk fun h ↦ h = m₀.cells).Holds m₀.cells := by
    rw [one_mul]
    rfl
  apply (htriple _ m₀ hstart).mono
  intro x m hend
  rwa [one_mul] at hend

end Stored.Entries
