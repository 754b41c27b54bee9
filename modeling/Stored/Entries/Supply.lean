import Stored.Entries.Foreach
import Stored.Lib.Supply

/-!
# The checker is given memory

No operation of the checker runs out of memory by itself: if the allocator refuses no request,
every call of `ST_check_mtab` returns, with the nodes of its mounts.
-/

namespace Stored.Entries

open Bytes Json Json.Linked Heap Separation Assertion
open Mtab hiding jsonAppendElement jsonAppendMember

variable {A : Alloc}

theorem supplied_readValue {γ : Type} (node : Ptr) (read : Value → Option γ) :
    Supplied (readValue node read) :=
  (Supplied.load node).bind fun n ↦ .member (read n.value)

theorem supplied_writeValue (node : Ptr) (write : Value → Option Value) :
    Supplied (writeValue node write) :=
  (supplied_readValue node write).bind fun _ ↦ .update node _

theorem supplied_mknode (hA : A.Supplies) (tag : JsonTag) : Supplied (mknode A tag) :=
  .allocate hA _

theorem supplied_jsonStrdup (hA : A.Supplies) (str : List UInt8) : Supplied (jsonStrdup A str) :=
  (Supplied.request hA).bind fun _ ↦ .pure str

theorem supplied_jsonMkstring (hA : A.Supplies) (s : List UInt8) : Supplied (jsonMkstring A s) := by
  refine (supplied_jsonStrdup hA s).bind fun s ↦ ?_
  refine (supplied_mknode hA .string).bind fun ret ↦ ?_
  exact (supplied_writeValue ret _).bind fun _ ↦ .pure ret

theorem supplied_jsonMknumber (hA : A.Supplies) (n : ℚ) : Supplied (jsonMknumber A n) := by
  refine (supplied_mknode hA .number).bind fun node ↦ ?_
  exact (supplied_writeValue node _).bind fun _ ↦ .pure node

theorem supplied_appendNode (parent child : Ptr) : Supplied (appendNode parent child) := by
  refine (Supplied.update child _).bind fun _ ↦ ?_
  refine (supplied_readValue parent _).bind fun tail ↦ ?_
  refine (Supplied.update child _).bind fun _ ↦ ?_
  refine (Supplied.update child _).bind fun _ ↦ ?_
  refine (supplied_readValue parent _).bind fun tail ↦ ?_
  have hlink : Supplied (linkAppended parent child tail) :=
    .ite (.update tail _) (supplied_writeValue parent _)
  exact hlink.bind fun _ ↦ supplied_writeValue parent _

theorem supplied_jsonAppendElement (array element : Ptr) :
    Supplied (jsonAppendElement array element) := by
  refine (Supplied.load array).bind fun a ↦ ?_
  refine (Supplied.assert _).bind fun _ ↦ ?_
  refine (Supplied.load element).bind fun e ↦ ?_
  exact (Supplied.assert _).bind fun _ ↦ supplied_appendNode array element

theorem supplied_jsonAppendMember (hA : A.Supplies) (object : Ptr) (key : String) (value : Ptr) :
    Supplied (jsonAppendMember A object key value) := by
  refine (Supplied.load object).bind fun o ↦ ?_
  refine (Supplied.assert _).bind fun _ ↦ ?_
  refine (Supplied.load value).bind fun v ↦ ?_
  refine (Supplied.assert _).bind fun _ ↦ ?_
  refine (supplied_jsonStrdup hA _).bind fun key ↦ ?_
  exact (Supplied.update value _).bind fun _ ↦ supplied_appendNode object value

theorem supplied_jsonRemoveFromParent (node : Ptr) : Supplied (jsonRemoveFromParent node) := by
  refine (Supplied.load node).bind fun n ↦ .ite ?_ (.pure ())
  have hprev : Supplied (unlinkPrev n.parent n.prev n.next) :=
    .ite (.update n.prev _) (supplied_writeValue n.parent _)
  refine hprev.bind fun _ ↦ ?_
  refine (Supplied.load node).bind fun n' ↦ ?_
  have hnext : Supplied (unlinkNext n.parent n'.prev n'.next) :=
    .ite (.update n'.next _) (supplied_writeValue n.parent _)
  refine hnext.bind fun _ ↦ ?_
  refine (Supplied.update node _).bind fun _ ↦ ?_
  exact (Supplied.update node _).bind fun _ ↦ .update node _

theorem supplied_delete (fuel : ℕ) :
    (∀ node, Supplied (jsonDelete fuel node)) ∧ ∀ child, Supplied (deleteChildren fuel child) := by
  induction fuel with
  | zero =>
    constructor <;> rintro (_ | a) <;> first | exact .pure () | exact .hang
  | succ fuel ih =>
    constructor
    · rintro (_ | node)
      · exact .pure ()
      · refine (supplied_jsonRemoveFromParent _).bind fun _ ↦ ?_
        refine (Supplied.load _).bind fun n ↦ ?_
        exact (ih.2 _).bind fun _ ↦ .free _
    · rintro (_ | child)
      · exact .pure ()
      · refine (Supplied.load _).bind fun c ↦ ?_
        exact (ih.1 _).bind fun _ ↦ ih.2 _

theorem supplied_emit (libc : Libc) (space : List UInt8) (fuel : ℕ) :
    (∀ level node, Supplied (Linked.emitValueIndented libc space fuel level node)) ∧
      (∀ level child, Supplied (Linked.emitElements libc space fuel level child)) ∧
      ∀ level child, Supplied (Linked.emitMembers libc space fuel level child) := by
  induction fuel with
  | zero =>
    refine ⟨fun _ _ ↦ .hang, ?_, ?_⟩ <;> rintro level (_ | a) <;>
      first | exact .pure [] | exact .hang
  | succ fuel ih =>
    refine ⟨fun level node ↦ ?_, ?_, ?_⟩
    · rw [Linked.emitValueIndented]
      refine (Supplied.load node).bind fun n ↦ ?_
      cases n.value with
      | null | bool | number => exact .pure _
      | string s => exact (Supplied.member s).bind fun s ↦ .pure _
      | children object head tail =>
        cases object
        · exact .ite (.pure _) ((ih.2.1 level head).bind fun _ ↦ .pure _)
        · exact .ite (.pure _) ((ih.2.2 level head).bind fun _ ↦ .pure _)
    · rintro level (_ | element)
      · exact .pure []
      · refine (ih.1 _ _).bind fun text ↦ ?_
        refine (Supplied.load _).bind fun n ↦ ?_
        exact (ih.2.1 level n.next).bind fun _ ↦ .pure _
    · rintro level (_ | m)
      · exact .pure []
      · refine (Supplied.load _).bind fun n ↦ ?_
        refine (Supplied.member n.key).bind fun key ↦ ?_
        refine (ih.1 _ _).bind fun text ↦ ?_
        refine (Supplied.load _).bind fun n' ↦ ?_
        exact (ih.2.2 level n'.next).bind fun _ ↦ .pure _

theorem supplied_jsonStringify (hA : A.Supplies) (libc : Libc) (fuel : ℕ) (node : Ptr)
    (space : List UInt8) : Supplied (Linked.jsonStringify A libc fuel node space) :=
  (Supplied.request hA).bind fun _ ↦ (supplied_emit libc space fuel).1 0 node

theorem supplied_initMtabChecker (hA : A.Supplies) (libc : Libc) (fuel : ℕ) :
    Supplied (initMtabChecker A libc fuel) := by
  refine (Supplied.request hA).bind fun _ ↦ ?_
  refine (supplied_mknode hA .array).bind fun jsonEntries ↦ ?_
  exact (supplied_jsonStringify hA libc fuel jsonEntries _).bind fun _ ↦ .pure _

theorem supplied_scanMount (hA : A.Supplies) (ratio : Ratio) (noticeLevel : Int32) (entries : Ptr)
    (mt : Mntent) (answer : Option Statvfs) :
    Supplied (scanMount A ratio noticeLevel entries mt answer) := by
  cases answer with
  | none => exact .pure ()
  | some s =>
    refine .ite (.ite ?_ (.pure ())) (.pure ())
    refine (supplied_mknode hA .object).bind fun jNode ↦ ?_
    refine (supplied_jsonMkstring hA _).bind fun mPoint ↦ ?_
    refine (supplied_jsonMknumber hA _).bind fun fPercent ↦ ?_
    refine (supplied_jsonAppendMember hA jNode _ mPoint).bind fun _ ↦ ?_
    refine (supplied_jsonAppendMember hA jNode _ fPercent).bind fun _ ↦ ?_
    exact supplied_jsonAppendElement entries jNode

theorem supplied_scanMounts (hA : A.Supplies) (ratio : Ratio) (noticeLevel : Int32) (entries : Ptr)
    (table : Table) : Supplied (scanMounts A ratio noticeLevel entries table) := by
  induction table with
  | nil => exact .pure ()
  | cons entry table ih =>
    exact (supplied_scanMount hA ratio noticeLevel entries entry.1 entry.2).bind fun _ ↦ ih

theorem supplied_checkMtab (hA : A.Supplies) (libc : Libc) (ratio : Ratio) (fuel : ℕ)
    (noticeLevel : Int32) (table : Table) (me : MtabEntries) :
    Supplied (checkMtab A libc ratio fuel noticeLevel table me) := by
  refine ((supplied_delete fuel).1 me.jsonEntries).bind fun _ ↦ ?_
  refine (supplied_mknode hA .array).bind fun jsonEntries ↦ ?_
  refine (supplied_scanMounts hA ratio noticeLevel jsonEntries table).bind fun _ ↦ ?_
  exact (supplied_jsonStringify hA libc fuel jsonEntries _).bind fun _ ↦ .pure _

theorem supplied_runCalls (hA : A.Supplies) (libc : Libc) (ratio : Ratio) (fuel : ℕ)
    (calls : List Call) : Supplied (runCalls A libc ratio fuel calls) := by
  induction calls using List.reverseRecOn with
  | nil => exact (supplied_initMtabChecker hA libc fuel).bind fun me ↦ .pure me
  | append_singleton calls call ih =>
    rw [runCalls_snoc]
    exact ih.bind fun me ↦ supplied_checkMtab hA libc ratio fuel call.1 call.2 me

/-- If the allocator refuses no request, `ST_init_mtab_checker` and any calls of `ST_check_mtab`
return, `me->textural` is the report of the last one, and the nodes hold the mounts that it
lists. -/
theorem eventually_returns (hA : A.Supplies) (libc : Libc) (ratio : Ratio) (calls : List Call)
    {m₀ : Memory ℕ Node} (hm₀ : m₀.Finite) : ∀ᶠ fuel in Filter.atTop,
    ∃ me m, runCalls A libc ratio fuel calls m₀ = .ok (me, m) ∧
      me.textural = textAfter libc ratio calls ∧
      HoldsMounts fuel m me.jsonEntries (listedAfter ratio calls) := by
  filter_upwards [eventually_runCalls A libc ratio calls, eventually_textural A libc ratio calls m₀,
    Filter.eventually_ge_atTop 2] with fuel hruns htext hfuel
  obtain ⟨hmemory, -⟩ := supplied_runCalls hA libc ratio fuel calls m₀ hm₀
  obtain ⟨me, m, hok, hend⟩ := (hruns ⊤ m₀ (one_mul_top_holds _)).returns hmemory
  rw [hok] at htext
  exact ⟨me, m, hok, htext, holdsMounts_of_entriesAre hend hfuel⟩

/-- The end of the checker returns as well, and no cell is left that was not there before. -/
theorem eventually_destroyed (hA : A.Supplies) (libc : Libc) (ratio : Ratio) (calls : List Call)
    {m₀ : Memory ℕ Node} (hm₀ : m₀.Finite) : ∀ᶠ fuel in Filter.atTop,
    ∃ m, (do
      let me ← runCalls A libc ratio fuel calls
      destroyMtabChecker fuel me : Cmd Unit) m₀ = .ok ((), m) ∧ m.cells = m₀.cells := by
  filter_upwards [eventually_destroyMtabChecker A libc ratio calls m₀] with fuel hdestroy
  have hsupplied : Supplied (do
      let me ← runCalls A libc ratio fuel calls
      destroyMtabChecker fuel me : Cmd Unit) :=
    (supplied_runCalls hA libc ratio fuel calls).bind fun me ↦ (supplied_delete fuel).1 _
  obtain ⟨_, m, hok, hcells⟩ := hdestroy.returns (hsupplied m₀ hm₀).1
  exact ⟨m, hok, hcells⟩

end Stored.Entries
