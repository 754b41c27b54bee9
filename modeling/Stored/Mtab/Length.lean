import Stored.Mtab.Scan

/-!
# The length of a report

A report is at least as long as the mount points in it, and a control character in a mount point
takes six bytes. Mount points of the length that a path may have, on a table of a length that the
kernel allows, make a report whose length does not fit an `int`.
-/

namespace Stored.Mtab

open Bytes Json

theorem length_emitElements (libc : Libc) (space : List UInt8) (level : ℕ) {k : ℕ}
    {es : List JsonNode}
    (hk : ∀ e ∈ es, k ≤ (emitValueIndented libc space (level + 1) e).length) :
    es.length * k ≤ (emitElements libc space level es).length := by
  induction es with
  | nil => simp
  | cons e es ih =>
    have hhead := hk e List.mem_cons_self
    have htail := ih fun e he ↦ hk e (List.mem_cons_of_mem _ he)
    simp only [emitElements, List.length_append, List.length_cons, Nat.succ_mul]
    omega

theorem length_emit_entryNode (libc : Libc) (space : List UInt8) (level : ℕ) (mt : Mntent)
    (percent : Int32) : (emitString mt.mntDir.bytes).length ≤
      (emitValueIndented libc space level (entryNode mt percent)).length := by
  simp only [entryNode_eq, emitValueIndented, emitMembers, List.length_append]
  omega

/-- The text of a scan is at least as long as the mount points in it. -/
theorem length_reportText_replicate (libc : Libc) (ratio : Ratio) (noticeLevel percent : Int32)
    (entry : Mntent × Option Statvfs) (n : ℕ)
    (hlisted : listedPercent ratio noticeLevel entry.2 = some percent) :
    n * (emitString entry.1.mntDir.bytes).length ≤
      (reportText libc ratio noticeLevel (List.replicate n entry)).length := by
  have hmounts : listedMounts ratio noticeLevel (List.replicate n entry) =
      List.replicate n (entry.1, percent) := by
    rw [listedMounts, List.filterMap_replicate_of_some (by rw [hlisted]; rfl)]
  rw [reportText, scanTable_eq, hmounts, List.map_replicate, jsonStringify]
  cases n with
  | zero => simp
  | succ n =>
    rw [List.replicate_succ, emitValueIndented, ← List.replicate_succ]
    have hentry : ∀ e ∈ List.replicate (n + 1) (entryNode entry.1 percent),
        (emitString entry.1.mntDir.bytes).length ≤
          (emitValueIndented libc (ascii " ") 1 e).length := by
      intro e he
      rw [List.eq_of_mem_replicate he]
      exact length_emit_entryNode ..
    calc
      _ ≤ (emitElements libc (ascii " ") 0
          (List.replicate (n + 1) (entryNode entry.1 percent))).length := by
        have helements := length_emitElements libc (ascii " ") 0 hentry
        rwa [List.length_replicate] at helements
      _ ≤ _ := by
        simp only [List.length_append]
        omega

/-- A directory below `n` names of 254 control characters each. -/
def deepPath (n : ℕ) : List UInt8 := (List.replicate n (0x2F :: List.replicate 254 0x01)).flatten

/-- A control character is written in six bytes. -/
theorem length_emitChars_control (k : ℕ) (s : List UInt8) :
    (emitChars 0 (List.replicate k 0x01 ++ s)).length = 6 * k + (emitChars 0 s).length := by
  induction k with
  | zero => simp
  | succ k ih =>
    have hsix : (emitAscii 0x01).length = 6 := by decide
    calc
      _ = (emitAscii 0x01).length + (emitChars 0 (List.replicate k 0x01 ++ s)).length := by
        rw [List.replicate_succ, List.cons_append, emitChars_ascii (by decide), List.length_append]
      _ = 6 + (6 * k + (emitChars 0 s).length) := by rw [hsix, ih]
      _ = _ := by omega

theorem length_emitChars_deepPath (n : ℕ) : (emitChars 0 (deepPath n)).length = 1525 * n := by
  induction n with
  | zero => rfl
  | succ n ih =>
    have hslash : (emitAscii 0x2F).length = 1 := by decide
    calc
      _ = (emitAscii 0x2F).length +
          (emitChars 0 (List.replicate 254 0x01 ++ deepPath n)).length := by
        rw [deepPath, List.replicate_succ, List.flatten_cons, List.cons_append,
          emitChars_ascii (by decide), List.length_append]
        rfl
      _ = 1 + (6 * 254 + 1525 * n) := by rw [hslash, length_emitChars_control, ih]
      _ = _ := by omega

theorem nulFree_deepPath (n : ℕ) : 0 ∉ deepPath n := by
  intro hmem
  obtain ⟨name, hname, hzero⟩ := List.mem_flatten.mp hmem
  rw [List.eq_of_mem_replicate hname] at hzero
  rcases List.mem_cons.mp hzero with hzero | hzero
  · exact absurd hzero (by decide)
  · exact absurd (List.eq_of_mem_replicate hzero) (by decide)

/-- A full file system that is mounted below fifteen such names, a path of 3825 bytes. -/
def deepMount : Mntent × Option Statvfs :=
  (⟨⟨deepPath 15, nulFree_deepPath 15⟩⟩, some ⟨4096, 100, 5, 5⟩)

theorem length_emitString_deepMount : (emitString deepMount.1.mntDir.bytes).length = 22877 := by
  change (_ :: emitChars 0 (deepPath 15) ++ [_]).length = 22877
  rw [List.length_append, List.length_cons, length_emitChars_deepPath]
  rfl

end Stored.Mtab
