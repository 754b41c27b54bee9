import Stored.Daemon.Reports

/-!
# What a client decodes

The way of a mount from the mount table to a client: the scan lists it, the tree becomes the text
of the entries, the text is published, copied and sent, and the client decodes it. In a run whose
steps list only accepted mounts, every 200 response, across reloads and the stop, decodes to the
empty object or to an array of accepted mounts with their exact percents.
-/

namespace Stored.Daemon

open Bytes Utf8 Json Mtab Http Run

variable {P : Platform} {accepted : Mntent → Int32 → Prop}

/-- The mounts that a step of the main thread lists. -/
def State.lists (P : Platform) (d : State) (e : Env) : List (Mntent × Int32) :=
  match d.main with
  | .loop (.check (.getmntent noticeLevel)) =>
    listedMounts P.ratio noticeLevel (e.table[d.world.mtabf]?).toList
  | _ => []

/-- Every mount that a step lists is accepted. -/
def ListsAccepted (P : Platform) (accepted : Mntent → Int32 → Prop) (d : State) : Action → Prop
  | .main _ e => ∀ m ∈ d.lists P e, accepted m.1 m.2
  | _ => True

instance [∀ mt percent, Decidable (accepted mt percent)] (d : State) :
    (a : Action) → Decidable (ListsAccepted P accepted d a)
  | .main _ e => inferInstanceAs (Decidable (∀ m ∈ d.lists P e, accepted m.1 m.2))
  | .mainHook _ | .server _ _ | .serverHook _ _ | .hup _ | .int _ =>
    inferInstanceAs (Decidable True)

/-- The tree of a list of accepted mounts. -/
def IsListing (accepted : Mntent → Int32 → Prop) (tree : JsonNode) : Prop :=
  ∃ mounts : List (Mntent × Int32), (∀ m ∈ mounts, accepted m.1 m.2) ∧
    tree = .array (mounts.map fun m ↦ entryNode m.1 m.2)

/-- The entries list accepted mounts. -/
def Listing (accepted : Mntent → Int32 → Prop) (w : World) : Prop :=
  ∀ tree, w.entries.jsonEntries = some tree → IsListing accepted tree

theorem isListing_nil : IsListing accepted (.array []) :=
  ⟨[], nofun, rfl⟩

theorem IsListing.scanEntry {noticeLevel : Int32} {tree : JsonNode} {mt : Mntent}
    {answer : Option Statvfs} (h : IsListing accepted tree)
    (haccepted : ∀ m ∈ listedMounts P.ratio noticeLevel [(mt, answer)], accepted m.1 m.2) :
    IsListing accepted (scanEntry P.ratio noticeLevel tree mt answer) := by
  obtain ⟨mounts, hmounts, rfl⟩ := h
  refine ⟨mounts ++ listedMounts P.ratio noticeLevel [(mt, answer)],
    List.forall_mem_append.mpr ⟨hmounts, haccepted⟩, ?_⟩
  rw [List.map_append]
  exact scanEntry_array P.ratio noticeLevel _ (mt, answer)

theorem checkMtab_listing {t : Tid} {e : Env} {w w' : World} {p : MtabPc} {q : Option MtabPc}
    (h : checkMtab P t e w p = some (w', q)) (hw : Listing accepted w)
    (haccepted : ∀ noticeLevel, p = .getmntent noticeLevel →
      ∀ m ∈ listedMounts P.ratio noticeLevel (e.table[w.mtabf]?).toList, accepted m.1 m.2) :
    Listing accepted w' := by
  cases checkMtab_cases h with
  | delete => exact nofun
  | mkarray =>
    rintro tree ⟨⟩
    exact isListing_nil
  | entry noticeLevel mt answer log hentry =>
    intro tree htree
    obtain ⟨old, hold, rfl⟩ := Option.map_eq_some_iff.mp htree
    have hlisted := haccepted noticeLevel rfl
    rw [hentry] at hlisted
    exact (hw old hold).scanEntry hlisted
  | _ => exact hw

theorem main_listing {d : State} {poll : Poll} {e : Env} {w : World} {p : MainPc}
    (h : main P poll e d.world d.main = some (w, p)) (hd : Listing accepted d.world)
    (haccepted : ∀ m ∈ d.lists P e, accepted m.1 m.2) : Listing accepted w := by
  have hstep := main_cases h
  generalize hpc : d.main = pc at hstep
  cases hstep with
  | initMtabChecker =>
    rintro tree ⟨⟩
    exact isListing_nil
  | load _ _ _ hload | loaded _ _ hload =>
    obtain ⟨_, _, _, rfl, -⟩ := loadFromFile_frame hload
    exact hd
  | start _ _ _ hstart | started _ _ hstart =>
    obtain ⟨_, _, _, _, _, _, _, _, _, rfl, -, -⟩ := startSrv_frame hstart
    exact hd
  | stop _ _ _ hstop | stopped _ _ hstop | destroySrv _ _ _ hstop | stoppedAgain _ _ hstop =>
    obtain ⟨_, _, _, rfl⟩ := stopSrv_frame hstop
    exact hd
  | loop p _ _ hloop =>
    cases checkLoop_cases hloop with
    | check p w' q hcheck =>
      refine checkMtab_listing hcheck hd fun noticeLevel hp ↦ ?_
      rw [State.lists, hpc, hp] at haccepted
      exact haccepted
    | _ => exact hd
  | left _ _ hloop =>
    cases checkLoop_cases hloop with
    | close => exact hd
  | freeEntries => exact nofun
  | _ => exact hd

theorem listing_step {d d' : State} {a : Action} (hd : Listing accepted d.world)
    (hok : ListsAccepted P accepted d a) (h : step P d a = some d') :
    Listing accepted d'.world := by
  cases a with
  | main poll e =>
    obtain ⟨-, -, w, p, hmain, rfl⟩ := step_main h
    exact main_listing hmain hd hok
  | mainHook e =>
    obtain ⟨-, p, w, q, -, hreload, rfl⟩ := step_mainHook h
    obtain ⟨_, _, _, _, _, _, _, _, rfl, -, -⟩ := reload_frame hreload
    exact hd
  | server n e =>
    obtain ⟨-, -, -, w, s, hserve, rfl⟩ := step_server h
    obtain ⟨_, _, _, _, _, _, _, _, _, _, rfl⟩ := serve_frame hserve
    cases s <;> exact hd
  | serverHook n e =>
    obtain ⟨-, p, w, q, -, hreload, rfl⟩ := step_serverHook h
    obtain ⟨_, _, _, _, _, _, _, _, rfl, -, -⟩ := reload_frame hreload
    exact hd
  | hup t =>
    obtain ⟨-, -, rfl⟩ := step_hup h
    cases t <;> exact hd
  | int t =>
    obtain ⟨-, -, rfl⟩ := step_int h
    exact hd

/-- The literal, or the text of a list of accepted mounts. -/
def ListsMounts (P : Platform) (accepted : Mntent → Int32 → Prop) (text : Text) : Prop :=
  text.bytes = ascii "\x7b\x7d" ∨ ∃ mounts : List (Mntent × Int32),
    (∀ m ∈ mounts, accepted m.1 m.2) ∧ text.bytes =
      jsonStringify P.libc (.array (mounts.map fun m ↦ entryNode m.1 m.2)) (ascii " ")

/-- What is published is the literal, or the text of the entries. -/
theorem accepted_of_listing {w : World} (h : Listing accepted w) :
    Accepted P (ListsMounts P accepted) w := by
  rintro ⟨-, ⟨hdata, -⟩ | ⟨hdata, -, ⟨tree, htree, hheap⟩, -⟩⟩ text htext
  · rw [hdata] at htext
    obtain rfl := Option.some.inj htext
    exact .inl rfl
  · rw [hdata, Data.text?, hheap] at htext
    obtain rfl := Option.some.inj htext
    obtain ⟨mounts, hmounts, rfl⟩ := h tree htree
    exact .inr ⟨mounts, hmounts, rfl⟩

/-- The object that a client reads for a mount with its percent: the ill-formed bytes of the mount
point are replaced. -/
def IsMountObject (m : Mntent × Int32) (object : JsonNode) : Prop :=
  object = .object [(ascii "mount_point", .string (repair m.1.mntDir.bytes)),
    (ascii "free_space", .number m.2.toInt)]

/-- The bytes decode to the empty object, or to an array of accepted mounts. -/
def DecodesToMounts (P : Platform) (accepted : Mntent → Int32 → Prop) (bytes : List UInt8) : Prop :=
  jsonDecode P.libc bytes = some (.object []) ∨ ∃ mounts objects,
    (∀ m ∈ mounts, accepted m.1 m.2) ∧ jsonDecode P.libc bytes = some (.array objects) ∧
      List.Forall₂ IsMountObject mounts objects

theorem isMountObject_repair (mounts : List (Mntent × Int32)) :
    List.Forall₂ IsMountObject mounts
      (repairElements (mounts.map fun m ↦ entryNode m.1 m.2)) := by
  induction mounts with
  | nil => exact .nil
  | cons m ms ih =>
    rw [List.map_cons, repairElements]
    exact .cons (repairNode_entryNode m.1 m.2) ih

/-- A text of mounts without the unit separator is decoded. -/
theorem ListsMounts.decodes {text : Text} (h : ListsMounts P accepted text)
    (hclean : ∀ mt percent, accepted mt percent → 0x1F ∉ mt.mntDir.bytes) :
    DecodesToMounts P accepted text.bytes := by
  rcases h with hliteral | ⟨mounts, hmounts, htext⟩
  · rw [hliteral]
    exact .inl rfl
  · refine .inr ⟨mounts, _, hmounts, ?_, isMountObject_repair mounts⟩
    have hreadable := (readableNode_mounts mounts).mpr fun m hm ↦ hclean _ _ (hmounts m hm)
    have hdecode := (jsonDecode_jsonStringify P.libc isSpace_ascii_space
      (intNumbers_mounts mounts)).1 hreadable
    rw [htext, hdecode, repairNode]

/-- The main thread takes each SIGHUP while it may serve, outside of the two windows, and lists only
accepted mounts. -/
def ServesAccepted (P : Platform) (accepted : Mntent → Int32 → Prop) (d : State) (a : Action) :
    Prop :=
  HupsServing d a ∧ ListsAccepted P accepted d a

instance [∀ mt percent, Decidable (accepted mt percent)] (d : State) (a : Action) :
    Decidable (ServesAccepted P accepted d a) := inferInstanceAs (Decidable (_ ∧ _))

end Stored.Daemon
