import Stored.Daemon.PassLog
import Stored.Entries.Scan
import Stored.Json.Siblings

/-!
# Reading the entries

The pass of `ST_check_loop` over the nodes that `ST_check_mtab` has left. It looks at the tags of
the members before it tests the pointers to them, so it relies on both members being there.
-/

namespace Stored.Entries

open Bytes Json Json.Linked Heap Separation Assertion Daemon
open Mtab hiding jsonAppendElement jsonAppendMember

/-- The condition of `ST_check_loop`, each tag read before its pointer is tested. -/
def readable (fspaceElem mPointElem : Ptr) : Cmd Bool := do
  let f ← load fspaceElem
  if f.value.tag = .number ∧ fspaceElem ≠ none then
    let p ← load mPointElem
    pure (p.value.tag = .string ∧ mPointElem ≠ none)
  else pure false

def readoutError : Message := ⟨ascii "json_foreach: readout error", .warn⟩

/-- The body of `json_foreach`, with the messages that it logs. -/
def logEntry (fuel : ℕ) (c : Thresholds) (entry : Ptr) : Cmd (List Message) := do
  let fspaceElem ← Linked.jsonFindMember fuel entry "free_space"
  let mPointElem ← Linked.jsonFindMember fuel entry "mount_point"
  let ok ← readable fspaceElem mPointElem
  if ok then
    let number ← readValue fspaceElem Value.getNumber
    let freeSpace := toInt number
    if c.notice ≥ freeSpace then
      let mountPoint ← readValue mPointElem Value.getString
      pure [⟨mountMessage mountPoint freeSpace, severity c freeSpace⟩]
    else pure []
  else pure [readoutError]

/-- The messages of a pass. -/
def logEntries (fuel : ℕ) (c : Thresholds) (me : MtabEntries) : Cmd (List Message) := do
  let messages ← jsonForeach (logEntry fuel c) fuel me.jsonEntries
  pure messages.flatten

/-- An element is an object in which the path and the percent of a mount are found. -/
structure IsEntry (fuel : ℕ) (m : Memory ℕ Node) (e : ℕ × Node) (mount : Mntent × Int32) :
    Prop where
  isObject : e.2.value.tag = .object
  mountPoint : ∃ d n, Linked.jsonFindMember fuel (some e.1) "mount_point" m = .ok (some d, m) ∧
    m.cells d = some n ∧ n.value = .string (some mount.1.mntDir.bytes)
  freeSpace : ∃ f n x, Linked.jsonFindMember fuel (some e.1) "free_space" m = .ok (some f, m) ∧
    m.cells f = some n ∧ n.value = .number x ∧ toInt x = mount.2

/-- `json_entries` is an array without a parent, and the chain from its head visits one element for
each mount, no two of them the same node, and ends. -/
def HoldsMounts (fuel : ℕ) (m : Memory ℕ Node) (jsonEntries : Ptr)
    (mounts : List (Mntent × Int32)) : Prop :=
  ∃ root array head tail elements, jsonEntries = some root ∧ m.cells root = some array ∧
    array.parent = none ∧ array.value = .children false head tail ∧
    Siblings m.cells root none head tail elements ∧ (elements.map Prod.fst).Nodup ∧
    List.Forall₂ (IsEntry fuel m) elements mounts

theorem isEntry_of_spans {fuel : ℕ} {m : Memory ℕ Node} {e : ℕ × Node} {mount : Mntent × Int32}
    (hcell : m.cells e.1 = some e.2)
    (h : Spans m.cells (entryNode mount.1 mount.2) e.1 e.2.value) (hfuel : 2 ≤ fuel) :
    IsEntry fuel m e mount := by
  rw [entryNode_eq] at h
  obtain ⟨head, tail, nodes, hvalue, hnodes, -, hcontents⟩ := h.siblings (contentOf_object _)
  rw [List.map_cons, List.map_cons, List.map_nil] at hcontents
  obtain ⟨d, ds, ⟨hkeyd, hspansd⟩, hrest, rfl⟩ := List.forall₂_cons_right_iff.mp hcontents
  obtain ⟨f, fs, ⟨hkeyf, hspansf⟩, hnone, rfl⟩ := List.forall₂_cons_right_iff.mp hrest
  obtain rfl := List.forall₂_nil_right_iff.mp hnone
  have hcells := hnodes.cell
  have hkeys : ∀ n ∈ [d, f], n.2.key ≠ none := by
    simp [hkeyd, hkeyf]
  have hne : ascii "mount_point" ≠ ascii "free_space" := by decide +kernel
  have hfind (name : String) : jsonFindMember fuel (some e.1) name m =
      .ok (([d, f].find? fun n ↦ n.2.key = some (ascii name)).map Prod.fst, m) :=
    jsonFindMember_siblings hcell hvalue hnodes hkeys hfuel
  refine ⟨by rw [hvalue]; rfl, ⟨d.1, d.2, ?_, hcells d List.mem_cons_self, hspansd.string⟩,
    ⟨f.1, f.2, _, ?_, hcells f (by simp), hspansf.number, toInt_intCast mount.2⟩⟩
  · rw [hfind, List.find?_cons_of_pos (by simp [hkeyd])]
    rfl
  · rw [hfind, List.find?_cons_of_neg (by simp [hkeyd, hne]),
      List.find?_cons_of_pos (by simp [hkeyf])]
    rfl

theorem holdsMounts_of_entriesAre {fuel : ℕ} {m : Memory ℕ Node} {me : MtabEntries}
    {text : List UInt8} {mounts : List (Mntent × Int32)} {F : Assertion ℕ Node}
    (h : (entriesAre text (mountsTree mounts) me * F).Holds m.cells) (hfuel : 2 ≤ fuel) :
    HoldsMounts fuel m me.jsonEntries mounts := by
  rw [entriesAre, Quantale.iSup_mul_distrib, iSup_holds] at h
  obtain ⟨root, h⟩ := h
  rw [mul_assoc, fact_mul_holds, detached, nodeAt, nodeLink, Quantale.iSup_mul_distrib,
    iSup_holds] at h
  obtain ⟨rfl, v, h⟩ := h
  have hspans : Spans m.cells (mountsTree mounts) root v := by
    rw [mul_right_comm, mul_comm] at h
    exact le_iff.mp (mul_le_mul_right le_top _) _ h
  rw [mul_assoc, pointsTo_mul_holds] at h
  obtain ⟨head, tail, nodes, hvalue, hnodes, hnodup, hcontents⟩ :=
    hspans.siblings (contentOf_array _)
  refine ⟨root, _, head, tail, nodes, rfl, h.1, rfl, hvalue, hnodes, hnodup, ?_⟩
  rw [List.forall₂_map_right_iff, List.forall₂_map_right_iff] at hcontents
  exact ((List.forall₂_and_left _ _).mpr ⟨hnodes.cell, hcontents⟩).imp fun e mount he ↦
    isEntry_of_spans he.1 he.2.2 hfuel

/-- A member that is found is dereferenced, and the condition holds for an entry. -/
theorem logEntry_of_isEntry {fuel : ℕ} {m : Memory ℕ Node} {e : ℕ × Node}
    {mount : Mntent × Int32} (h : IsEntry fuel m e mount) (c : Thresholds) :
    logEntry fuel c (some e.1) m = .ok (mountMessages c mount, m) := by
  obtain ⟨d, dn, hd, hdcell, hdvalue⟩ := h.mountPoint
  obtain ⟨f, fn, x, hf, hfcell, hfvalue, hx⟩ := h.freeSpace
  have hftag : fn.value.tag = .number ∧ some f ≠ none :=
    ⟨by rw [hfvalue]; rfl, Option.some_ne_none f⟩
  have hdtag : dn.value.tag = .string ∧ some d ≠ none :=
    ⟨by rw [hdvalue]; rfl, Option.some_ne_none d⟩
  have hreadable : readable (some f) (some d) m = .ok (true, m) := by
    rw [readable, bind_of_ok (load_of_cell hfcell), if_pos hftag, bind_of_ok (load_of_cell hdcell),
      decide_eq_true hdtag]
    rfl
  have hnumber : readValue (some f) Value.getNumber m = .ok (x, m) :=
    readValue_of_cell hfcell (by rw [hfvalue]; rfl)
  have hstring : readValue (some d) Value.getString m = .ok (mount.1.mntDir.bytes, m) :=
    readValue_of_cell hdcell (by rw [hdvalue]; rfl)
  rw [logEntry, bind_of_ok hf, bind_of_ok hd, bind_of_ok hreadable, if_pos rfl, bind_of_ok hnumber,
    hx, mountMessages]
  by_cases hnotice : c.notice ≥ mount.2
  · rw [if_pos hnotice, if_pos hnotice, bind_of_ok hstring]
    rfl
  · rw [if_neg hnotice, if_neg hnotice]
    rfl

/-- A pass over the mounts logs the messages for each of them and nothing else. -/
theorem logEntries_of_holdsMounts {fuel : ℕ} {m : Memory ℕ Node} {me : MtabEntries}
    {mounts : List (Mntent × Int32)} (h : HoldsMounts fuel m me.jsonEntries mounts)
    (hfuel : mounts.length ≤ fuel) (c : Thresholds) :
    logEntries fuel c me m = .ok (mounts.flatMap (mountMessages c), m) := by
  obtain ⟨root, array, head, tail, elements, hroot, hcell, -, hvalue, hsiblings, -, helements⟩ := h
  have hbody : List.Forall₂ (fun e x ↦ logEntry fuel c (some e.1) m = .ok (x, m)) elements
      (mounts.map (mountMessages c)) := by
    rw [List.forall₂_map_right_iff]
    exact helements.imp fun e mount he ↦ logEntry_of_isEntry he c
  have hforeach := jsonForeach_siblings hcell hvalue hsiblings hbody
    (helements.length_eq.trans_le hfuel)
  rw [logEntries, hroot, bind_of_ok hforeach, List.flatMap_def]
  rfl

/-- A pass over the nodes logs what a pass over their tree logs. -/
theorem logEntries_refines {fuel : ℕ} {m : Memory ℕ Node} {me : MtabEntries}
    {mounts : List (Mntent × Int32)} (h : HoldsMounts fuel m me.jsonEntries mounts)
    (hfuel : mounts.length ≤ fuel) {c : Thresholds} {messages : List Message}
    (htree : Daemon.logEntries c (mountsTree mounts) = some messages) :
    logEntries fuel c me m = .ok (messages, m) := by
  rw [mountsTree, logEntries_mounts] at htree
  rw [logEntries_of_holdsMounts h hfuel, Option.some.inj htree]

/-- The message for a mount ends with a full stop, the one of the other branch does not. -/
theorem mountMessages_ne_readoutError (c : Thresholds) (mount : Mntent × Int32) :
    readoutError ∉ mountMessages c mount := by
  rw [mountMessages]
  by_cases hnotice : c.notice ≥ mount.2
  · rw [if_pos hnotice, List.mem_singleton]
    intro heq
    have hlast := congrArg (fun message ↦ message.text.getLast?) heq
    have hstop : (ascii " percent space left.").getLast? = some 0x2E := by decide +kernel
    rw [mountMessage, List.getLast?_append, hstop, Option.some_or] at hlast
    exact absurd hlast (by decide +kernel)
  · rw [if_neg hnotice]
    exact List.not_mem_nil

/-- In every state that `ST_init_mtab_checker` and any calls of `ST_check_mtab` reach, whatever the
mount tables, the answers of `statvfs` and the notice levels, the nodes hold the mounts that the
last call lists, and a pass of `ST_check_loop` with any thresholds returns without a readout error.
No call ends otherwise than by returning, except where memory runs out: no pointer is dereferenced
that leads nowhere, and no assertion of the appends fails. -/
theorem eventually_holdsMounts (A : Alloc) (libc : Libc) (ratio : Ratio) (calls : List Call)
    (m₀ : Memory ℕ Node) : ∀ᶠ fuel in Filter.atTop,
    Ends (fun me m ↦ HoldsMounts fuel m me.jsonEntries (listedAfter ratio calls) ∧
      ∀ c, ∃ messages, logEntries fuel c me m = .ok (messages, m) ∧ readoutError ∉ messages)
      (runCalls A libc ratio fuel calls m₀) := by
  filter_upwards [eventually_runCalls A libc ratio calls, Filter.eventually_ge_atTop 2,
    Filter.eventually_ge_atTop (listedAfter ratio calls).length] with fuel hruns htwo hlength
  apply (hruns ⊤ m₀ (one_mul_top_holds _)).mono
  intro me m hend
  have hholds := holdsMounts_of_entriesAre hend htwo
  refine ⟨hholds, fun c ↦ ⟨_, logEntries_of_holdsMounts hholds hlength c, ?_⟩⟩
  rw [List.mem_flatMap]
  rintro ⟨mount, -, hmem⟩
  exact mountMessages_ne_readoutError c mount hmem

end Stored.Entries
