import Stored.Json.RoundTrip

/-!
# One scan of the mount table

The data part of `ST_check_mtab`: which mounts are listed, the tree they become and the text of
that tree. The double arithmetic of the percent expression is a parameter `ratio`, applied to the
two products that the source computes in unsigned 64-bit arithmetic.
-/

namespace Stored.Mtab

open Bytes Utf8 Json

/-- `struct mntent`, of which `mnt_dir` is read. -/
structure Mntent where
  mntDir : CString
  deriving DecidableEq

theorem nulFree_slash : 0 ∉ ascii "/" := by decide

/-- The fields of `struct statvfs` that are read. -/
structure Statvfs where
  fBsize : UInt64
  fBlocks : UInt64
  fBfree : UInt64
  fBavail : UInt64
  deriving DecidableEq

/-- `(int) (100.0 / x * y)` -/
abbrev Ratio := UInt64 → UInt64 → Int32

def freePercent (ratio : Ratio) (s : Statvfs) : Int32 :=
  ratio ((s.fBlocks - (s.fBfree - s.fBavail)) * s.fBsize) (s.fBavail * s.fBsize)

/-- The percent under which a mount is listed, from the answer of `statvfs` for it; no answer is
the failure that is only logged. -/
def listedPercent (ratio : Ratio) (noticeLevel : Int32) : Option Statvfs → Option Int32
  | none => none
  | some s =>
    if 0 < s.fBlocks then
      if noticeLevel ≥ freePercent ratio s then some (freePercent ratio s) else none
    else none

/-- `json_append_element`; the tag is asserted in the source. -/
def jsonAppendElement : JsonNode → JsonNode → JsonNode
  | .array es, element => .array (es ++ [element])
  | node, _ => node

/-- `json_append_member`; the tag is asserted in the source. -/
def jsonAppendMember (key : String) : JsonNode → JsonNode → JsonNode
  | .object ms, value => .object (ms ++ [(ascii key, value)])
  | node, _ => node

/-- The object of one listed mount. -/
def entryNode (mt : Mntent) (freePercent : Int32) : JsonNode :=
  let jNode := JsonNode.object []
  let mPoint := JsonNode.string mt.mntDir.bytes
  let fPercent := JsonNode.number freePercent.toInt
  let jNode := jsonAppendMember "mount_point" jNode mPoint
  jsonAppendMember "free_space" jNode fPercent

/-- One round of the `getmntent` loop. -/
def scanEntry (ratio : Ratio) (noticeLevel : Int32) (entries : JsonNode) (mt : Mntent)
    (answer : Option Statvfs) : JsonNode :=
  match listedPercent ratio noticeLevel answer with
  | some percent => jsonAppendElement entries (entryNode mt percent)
  | none => entries

/-- A mount table, each entry with what `statvfs` answers for it. -/
abbrev Table := List (Mntent × Option Statvfs)

/-- `me->json_entries` after the loop. -/
def scanTable (ratio : Ratio) (noticeLevel : Int32) (table : Table) : JsonNode :=
  table.foldl (fun entries entry ↦ scanEntry ratio noticeLevel entries entry.1 entry.2) (.array [])

/-- `me->textural` after the loop. -/
def reportText (libc : Libc) (ratio : Ratio) (noticeLevel : Int32) (table : Table) : List UInt8 :=
  jsonStringify libc (scanTable ratio noticeLevel table) (ascii " ")

/-- The mounts of a table that are listed, each with its percent. -/
def listedMounts (ratio : Ratio) (noticeLevel : Int32) (table : Table) : List (Mntent × Int32) :=
  table.filterMap fun entry ↦ (listedPercent ratio noticeLevel entry.2).map (entry.1, ·)

theorem entryNode_eq (mt : Mntent) (percent : Int32) : entryNode mt percent =
    .object [(ascii "mount_point", .string mt.mntDir.bytes),
      (ascii "free_space", .number percent.toInt)] := rfl

theorem scanEntry_array (ratio : Ratio) (noticeLevel : Int32) (es : List JsonNode)
    (entry : Mntent × Option Statvfs) :
    scanEntry ratio noticeLevel (.array es) entry.1 entry.2 =
      .array (es ++ (listedMounts ratio noticeLevel [entry]).map fun m ↦ entryNode m.1 m.2) := by
  unfold scanEntry listedMounts
  cases h : listedPercent ratio noticeLevel entry.2 <;> simp [h, jsonAppendElement]

theorem listedMounts_cons (ratio : Ratio) (noticeLevel : Int32) (entry : Mntent × Option Statvfs)
    (table : Table) : listedMounts ratio noticeLevel (entry :: table) =
      listedMounts ratio noticeLevel [entry] ++ listedMounts ratio noticeLevel table := by
  rw [listedMounts, ← List.singleton_append, List.filterMap_append]
  rfl

theorem foldl_scanEntry (ratio : Ratio) (noticeLevel : Int32) (table : Table)
    (es : List JsonNode) :
    table.foldl (fun entries entry ↦ scanEntry ratio noticeLevel entries entry.1 entry.2)
      (.array es) =
      .array (es ++ (listedMounts ratio noticeLevel table).map fun m ↦ entryNode m.1 m.2) := by
  induction table generalizing es with
  | nil => simp [listedMounts]
  | cons entry table ih =>
    rw [List.foldl_cons, scanEntry_array, ih, listedMounts_cons _ _ _ table, List.map_append,
      List.append_assoc]

theorem scanTable_snoc (ratio : Ratio) (noticeLevel : Int32) (table : Table)
    (entry : Mntent × Option Statvfs) : scanTable ratio noticeLevel (table ++ [entry]) =
      scanEntry ratio noticeLevel (scanTable ratio noticeLevel table) entry.1 entry.2 :=
  List.foldl_concat ..

/-- The tree holds one object for each listed mount, in table order. -/
theorem scanTable_eq (ratio : Ratio) (noticeLevel : Int32) (table : Table) :
    scanTable ratio noticeLevel table =
      .array ((listedMounts ratio noticeLevel table).map fun m ↦ entryNode m.1 m.2) := by
  rw [scanTable, foldl_scanEntry, List.nil_append]

theorem intNumbers_mounts (mounts : List (Mntent × Int32)) :
    IntNumbers (.array (mounts.map fun m ↦ entryNode m.1 m.2)) := by
  change IntElements _
  induction mounts with
  | nil => trivial
  | cons m ms ih => exact ⟨⟨trivial, ⟨m.2, rfl⟩, trivial⟩, ih⟩

theorem intNumbers_scanTable (ratio : Ratio) (noticeLevel : Int32) (table : Table) :
    IntNumbers (scanTable ratio noticeLevel table) := by
  rw [scanTable_eq]
  exact intNumbers_mounts _

theorem readableNode_entryNode (mt : Mntent) (percent : Int32) :
    ReadableNode (entryNode mt percent) ↔ 0x1F ∉ mt.mntDir.bytes := by
  have hkeys : Readable (ascii "mount_point") ∧ Readable (ascii "free_space") := by decide
  simp only [entryNode_eq, ReadableNode, ReadableMembers, hkeys.1, hkeys.2]
  simp [Readable, mt.mntDir.nulFree]

theorem readableNode_mounts (mounts : List (Mntent × Int32)) :
    ReadableNode (.array (mounts.map fun m ↦ entryNode m.1 m.2)) ↔
      ∀ m ∈ mounts, 0x1F ∉ m.1.mntDir.bytes := by
  change ReadableElements _ ↔ _
  induction mounts with
  | nil => simp [ReadableElements]
  | cons m ms ih =>
    rw [List.map_cons, ReadableElements, ih, readableNode_entryNode, List.forall_mem_cons]

theorem readableNode_scanTable (ratio : Ratio) (noticeLevel : Int32) (table : Table) :
    ReadableNode (scanTable ratio noticeLevel table) ↔
      ∀ m ∈ listedMounts ratio noticeLevel table, 0x1F ∉ m.1.mntDir.bytes := by
  rw [scanTable_eq]
  exact readableNode_mounts _

theorem repairNode_entryNode (mt : Mntent) (percent : Int32) :
    repairNode (entryNode mt percent) =
      .object [(ascii "mount_point", .string (repair mt.mntDir.bytes)),
        (ascii "free_space", .number percent.toInt)] := by
  have hkeys : repair (ascii "mount_point") = ascii "mount_point" ∧
      repair (ascii "free_space") = ascii "free_space" := by decide
  simp only [entryNode_eq, repairNode, repairMembers, hkeys.1, hkeys.2]

/-- The report of a scan is decodable, and decodes to the listed mounts: an array with one object
for each, in table order, with exactly the members `mount_point` and `free_space`, the percent
exact and a mount point in valid UTF-8 unchanged. -/
def ReportDecodes (libc : Libc) (ratio : Ratio) (noticeLevel : Int32) (table : Table) : Prop :=
  ∃ objects, jsonDecode libc (reportText libc ratio noticeLevel table) = some (.array objects) ∧
    List.Forall₂ (fun m object ↦ ∃ dir percent,
      object = .object [(ascii "mount_point", .string dir), (ascii "free_space", .number percent)] ∧
      percent = m.2.toInt ∧ (ValidUtf8 m.1.mntDir.bytes → dir = m.1.mntDir.bytes))
      (listedMounts ratio noticeLevel table) objects

theorem isSpace_ascii_space : ∀ c ∈ ascii " ", isSpace c = true := by
  intro c hc
  rw [List.mem_singleton.mp hc]
  rfl

/-- `json_decode` refuses the report if some listed mount point contains the unit separator 1F,
the one control character that the encoder writes unescaped and the decoder does not take. -/
theorem jsonDecode_reportText_refused (libc : Libc) {ratio : Ratio} {noticeLevel : Int32}
    {table : Table}
    (hbad : ¬∀ m ∈ listedMounts ratio noticeLevel table, 0x1F ∉ m.1.mntDir.bytes) :
    jsonDecode libc (reportText libc ratio noticeLevel table) = none := by
  have hrefuse := (jsonDecode_jsonStringify libc isSpace_ascii_space
    (intNumbers_scanTable ratio noticeLevel table)).2
  rw [readableNode_scanTable] at hrefuse
  exact hrefuse hbad

/-- `json_decode` reads the tree of the scan back, each mount point with its ill-formed sequences
replaced. -/
theorem jsonDecode_reportText (libc : Libc) {ratio : Ratio} {noticeLevel : Int32} {table : Table}
    (hclean : ∀ m ∈ listedMounts ratio noticeLevel table, 0x1F ∉ m.1.mntDir.bytes) :
    jsonDecode libc (reportText libc ratio noticeLevel table) =
      some (repairNode (scanTable ratio noticeLevel table)) := by
  have haccept := (jsonDecode_jsonStringify libc isSpace_ascii_space
    (intNumbers_scanTable ratio noticeLevel table)).1
  rw [readableNode_scanTable] at haccept
  exact haccept hclean

/-- The report decodes exactly if no listed mount point contains the unit separator. -/
theorem reportDecodes_iff (libc : Libc) (ratio : Ratio) (noticeLevel : Int32) (table : Table) :
    ReportDecodes libc ratio noticeLevel table ↔
      ∀ m ∈ listedMounts ratio noticeLevel table, 0x1F ∉ m.1.mntDir.bytes := by
  constructor
  · rintro ⟨objects, hdecode, -⟩
    by_contra hbad
    rw [jsonDecode_reportText_refused libc hbad] at hdecode
    exact nomatch hdecode
  · intro hclean
    refine ⟨repairElements ((listedMounts ratio noticeLevel table).map fun m ↦
      entryNode m.1 m.2), ?_, ?_⟩
    · rw [jsonDecode_reportText libc hclean, scanTable_eq, repairNode]
    · clear hclean
      induction listedMounts ratio noticeLevel table with
      | nil => exact .nil
      | cons m ms ih =>
        rw [List.map_cons, repairElements]
        exact .cons ⟨repair m.1.mntDir.bytes, m.2.toInt, repairNode_entryNode m.1 m.2, rfl,
          repair_of_validUtf8⟩ ih

/-- The percent expression without rounding. -/
def exactPercent : Ratio := fun x y ↦ Int32.ofInt (100 * y.toNat / x.toNat)

/-- A full file system of 100 blocks, mounted at `/` followed by the byte 1F. -/
def separatorMount : Mntent × Option Statvfs :=
  (⟨⟨[0x2F, 0x1F], by decide⟩⟩, some ⟨4096, 100, 5, 5⟩)

/-- The report of a table with one qualifying mount is not decodable. -/
theorem not_reportDecodes_separatorMount :
    ¬ReportDecodes exactLibc exactPercent 10 [separatorMount] := by
  rintro ⟨objects, hdecode, -⟩
  rw [jsonDecode_reportText_refused exactLibc (by decide)] at hdecode
  exact nomatch hdecode

end Stored.Mtab
