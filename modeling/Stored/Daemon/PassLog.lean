import Stored.Daemon.CheckLoop
import Stored.Log.Logger

/-!
# The messages of a pass

What `ST_check_loop` logs for the entries that a scan has listed: one message for each entry under
the notice level of the pass, at a level that the critical and the warning threshold choose. The
numbers of the levels grow with the urgency, while the sinks of the logger read a smaller number
as the more urgent one.
-/

namespace Stored.Daemon

open Bytes Json Mtab Log

/-- The messages for a mount that a scan has listed. -/
def mountMessages (c : Thresholds) (m : Mntent × Int32) : List Message :=
  if c.notice ≥ m.2 then [⟨mountMessage m.1.mntDir.bytes m.2, severity c m.2⟩] else []

theorem toInt_intCast (f : Int32) : toInt (f.toInt : ℚ) = f := by
  rw [toInt, Rat.num_intCast, Rat.den_intCast, Nat.cast_one, Int.tdiv_one, Int32.ofInt_toInt]

theorem logEntry_entryNode (c : Thresholds) (m : Mntent × Int32) :
    logEntry c (entryNode m.1 m.2) = some (mountMessages c m) := by
  have hnumber : jsonFindMember (entryNode m.1 m.2) "free_space" =
      some (.number m.2.toInt) := rfl
  have hstring : jsonFindMember (entryNode m.1 m.2) "mount_point" =
      some (.string m.1.mntDir.bytes) := rfl
  simp only [logEntry, hnumber, hstring, Option.bind_some, Option.map_some, toInt_intCast]
  rfl

/-- The messages of a pass over the listed mounts, in their order. -/
theorem logEntries_mounts (c : Thresholds) (ms : List (Mntent × Int32)) :
    logEntries c (.array (ms.map fun m ↦ entryNode m.1 m.2)) =
      some (ms.flatMap (mountMessages c)) := by
  have hmapM : (ms.map fun m ↦ entryNode m.1 m.2).mapM (logEntry c) =
      some (ms.map (mountMessages c)) := by
    induction ms with
    | nil => rfl
    | cons m ms ih =>
      rw [List.map_cons, List.mapM_cons, logEntry_entryNode, ih]
      rfl
  rw [logEntries, hmapM]
  rfl

/-- `ST_MSG_PLAIN` to `ST_MSG_CRIT` -/
def Severity.number : Severity → Int32
  | .plain => 0
  | .notice => 1
  | .warn => 2
  | .error => 3
  | .crit => 4

/-- The priority that a sink reads: the digit of the prefix `<n>`, or the argument of `syslog`. -/
def readPriority : Delivery → Option ℤ
  | .stdout (0x3C :: d :: 0x3E :: _) => if isDigit d then some (d.toNat - 48) else none
  | .stdout _ => none
  | .syslog priority _ => some priority.toInt

theorem readPriority_deliver (sink : Sink) (text : List UInt8) (s : Severity) :
    readPriority (deliver sink text s.number) = some s.number.toInt := by
  cases sink with
  | syslog => rfl
  | stdout => cases s <;> rfl

/-- The messages for two mounts reach a sink, and the first is read as at least as urgent. -/
def UrgencyKept (sink : Sink) (c : Thresholds) (m₁ m₂ : Mntent × Int32) : Prop :=
  ∃ msg₁ msg₂ p₁ p₂, mountMessages c m₁ = [msg₁] ∧ mountMessages c m₂ = [msg₂] ∧
    readPriority (deliver sink msg₁.text msg₁.severity.number) = some p₁ ∧
    readPriority (deliver sink msg₂.text msg₂.severity.number) = some p₂ ∧ p₁ ≤ p₂

/-- No threshold lies between the two percents. -/
def SameLevel (c : Thresholds) (f₁ f₂ : Int32) : Prop :=
  f₂ ≤ c.crit ∨ (c.crit < f₁ ∧ (f₂ ≤ c.warn ∨ c.warn < f₁))

instance (c : Thresholds) (f₁ f₂ : Int32) : Decidable (SameLevel c f₁ f₂) :=
  inferInstanceAs (Decidable (_ ∨ _))

theorem mountMessages_of_le {c : Thresholds} {m : Mntent × Int32} (h : m.2 ≤ c.notice) :
    mountMessages c m = [⟨mountMessage m.1.mntDir.bytes m.2, severity c m.2⟩] := if_pos h

theorem severity_number_le_iff (c : Thresholds) {f₁ f₂ : Int32} (hle : f₁ ≤ f₂) :
    (severity c f₁).number.toInt ≤ (severity c f₂).number.toInt ↔ SameLevel c f₁ f₂ := by
  unfold severity SameLevel
  rw [← Int32.not_le, ← Int32.not_le]
  by_cases hcrit₂ : f₂ ≤ c.crit
  · have hcrit₁ : f₁ ≤ c.crit := Int32.le_trans hle hcrit₂
    simp [hcrit₁, hcrit₂]
  by_cases hcrit₁ : f₁ ≤ c.crit
  · simp only [ge_iff_le, hcrit₁, hcrit₂, if_true, if_false, not_true_eq_false, false_and, or_self,
      iff_false]
    split_ifs <;> decide
  by_cases hwarn₂ : f₂ ≤ c.warn
  · have hwarn₁ : f₁ ≤ c.warn := Int32.le_trans hle hwarn₂
    simp [hcrit₁, hcrit₂, hwarn₁, hwarn₂]
  by_cases hwarn₁ : f₁ ≤ c.warn
  · simp only [ge_iff_le, hcrit₁, hcrit₂, hwarn₁, hwarn₂, if_true, if_false, not_true_eq_false,
      not_false_eq_true, and_false, or_self, iff_false]
    decide
  · simp [hcrit₁, hcrit₂, hwarn₁, hwarn₂]

/-- For all thresholds and every two mounts that are logged in one pass, the one with less space is
read as at least as urgent if and only if no threshold lies between them. -/
theorem urgencyKept_iff (sink : Sink) {c : Thresholds} {m₁ m₂ : Mntent × Int32}
    (hle : m₁.2 ≤ m₂.2) (hlogged : m₂.2 ≤ c.notice) :
    UrgencyKept sink c m₁ m₂ ↔ SameLevel c m₁.2 m₂.2 := by
  have h₁ := mountMessages_of_le (Int32.le_trans hle hlogged)
  have h₂ := mountMessages_of_le hlogged
  rw [← severity_number_le_iff c hle]
  constructor
  · rintro ⟨msg₁, msg₂, p₁, p₂, hmsg₁, hmsg₂, hp₁, hp₂, hp⟩
    obtain rfl := List.singleton_inj.mp (h₁.symm.trans hmsg₁)
    obtain rfl := List.singleton_inj.mp (h₂.symm.trans hmsg₂)
    rw [readPriority_deliver] at hp₁ hp₂
    rwa [Option.some.inj hp₁, Option.some.inj hp₂]
  · intro hp
    exact ⟨_, _, _, _, h₁, h₂, readPriority_deliver .., readPriority_deliver .., hp⟩

def rootDir : Mntent := ⟨⟨ascii "/", nulFree_slash⟩⟩

/-- Two mounts under the critical threshold. -/
theorem urgencyKept_bothCritical :
    UrgencyKept .stdout ⟨20, 10, 5⟩ (rootDir, 1) (rootDir, 4) :=
  (urgencyKept_iff .stdout (by decide) (by decide)).mpr (by decide)

/-- One mount under the critical threshold and one that is only noticed. -/
theorem not_urgencyKept_critical_notice :
    ¬UrgencyKept .stdout ⟨20, 10, 5⟩ (rootDir, 3) (rootDir, 15) := by
  rintro ⟨msg₁, msg₂, p₁, p₂, hmsg₁, hmsg₂, hp₁, hp₂, hp⟩
  obtain rfl := List.singleton_inj.mp hmsg₁
  obtain rfl := List.singleton_inj.mp hmsg₂
  rw [readPriority_deliver] at hp₁ hp₂
  obtain rfl := Option.some.inj hp₁
  obtain rfl := Option.some.inj hp₂
  exact absurd hp (by decide)

end Stored.Daemon
