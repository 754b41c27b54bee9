import Stored.Daemon.Main

/-!
# The objects of the reload hook

The hook is armed before `core_config` and `srv_buff` exist and stays armed when they are gone. An
object goes at the end of `main`, and where a file or a bind address is rejected, before the
process is aborted. The hook uses the objects only while they live if each SIGHUP is taken between
the assignment of `srv_buff` and the first destruction, and no hook runs on another thread when an
object is destroyed.
-/

namespace Stored.Daemon

open Run

variable {P : Platform}

def MainPc.coreConfig : MainPc → Life
  | .demonize | .newConfig | .load _ | .assignConfig => .absent
  | .destroyConfig | .terminated | .exit => .destroyed
  | _ => .live

def MainPc.srvBuff : MainPc → Life
  | .demonize | .newConfig | .load _ | .assignConfig | .initMtabChecker | .initSrv
  | .assignSrvBuff => .absent
  | .freeBuffer | .endmntent | .freeEntries | .destroyCfg | .destroyConfig | .terminated
  | .exit => .destroyed
  | _ => .live

/-- `srv_buff` has been assigned and its mutex has not been destroyed. -/
def MainPc.built (p : MainPc) : Prop := p.coreConfig = .live ∧ p.srvBuff = .live

instance (p : MainPc) : Decidable p.built := inferInstanceAs (Decidable (_ ∧ _))

/-- The pointers of `stored.c` are what the place of the main thread says. -/
def Tracks (w : World) (p : MainPc) : Prop :=
  w.coreConfig = p.coreConfig ∧ w.srvBuff = p.srvBuff

theorem main_tracks {poll : Poll} {e : Env} {w w' : World} {p p' : MainPc}
    (h : main P poll e w p = some (w', p')) (hw : Tracks w p) (hp' : p'.aborting = false) :
    Tracks w' p' := by
  obtain ⟨hconfig, hbuff⟩ := hw
  cases main_cases h with
  | assignConfig | destroyCfg => exact ⟨rfl, hbuff⟩
  | assignSrvBuff | destroyBuffer => exact ⟨hconfig, rfl⟩
  | load _ _ q hload =>
    obtain ⟨_, _, _, rfl, hlife⟩ := loadFromFile_frame hload
    refine ⟨(hlife ?_).trans hconfig, hbuff⟩
    rintro ⟨⟩
    exact Bool.false_ne_true hp'.symm
  | loaded _ _ hload =>
    obtain ⟨_, _, _, rfl, hlife⟩ := loadFromFile_frame hload
    exact ⟨(hlife nofun).trans hconfig, hbuff⟩
  | start _ _ q hstart =>
    obtain ⟨_, _, _, _, _, _, _, _, _, rfl, hlife, -⟩ := startSrv_frame hstart
    refine ⟨hconfig, (hlife ?_).trans hbuff⟩
    rintro ⟨⟩
    exact Bool.false_ne_true hp'.symm
  | started _ _ hstart =>
    obtain ⟨_, _, _, _, _, _, _, _, _, rfl, hlife, -⟩ := startSrv_frame hstart
    exact ⟨hconfig, (hlife nofun).trans hbuff⟩
  | loop _ _ _ hloop | left _ _ hloop =>
    obtain ⟨_, _, _, _, _, _, _, _, rfl, -⟩ := checkLoop_frame hloop
    exact ⟨hconfig, hbuff⟩
  | stop _ _ _ hstop | stopped _ _ hstop | destroySrv _ _ _ hstop | stoppedAgain _ _ hstop =>
    obtain ⟨_, _, _, rfl⟩ := stopSrv_frame hstop
    exact ⟨hconfig, hbuff⟩
  | _ => exact ⟨hconfig, hbuff⟩

theorem main_built {poll : Poll} {e : Env} {w w' : World} {p p' : MainPc}
    (h : main P poll e w p = some (w', p')) (hp : p.built) (hne : p ≠ .destroyBuffer) :
    p'.built := by
  cases main_cases h with
  | destroyBuffer => exact absurd rfl hne
  | demonize | newConfig | load | loaded | assignConfig | initMtabChecker | initSrv
  | assignSrvBuff => exact absurd hp.2 nofun
  | freeBuffer | endmntent | endmntentFails | freeEntries | destroyCfg | destroyConfig
  | terminated | exit => exact absurd hp.2 nofun
  | _ => exact ⟨rfl, rfl⟩

theorem main_created {poll : Poll} {e : Env} {w w' : World} {p p' : MainPc}
    (h : main P poll e w p = some (w', p')) : w.threads.created ≤ w'.threads.created := by
  cases main_cases h with
  | load _ _ _ hload | loaded _ _ hload =>
    obtain ⟨_, _, _, rfl, -⟩ := loadFromFile_frame hload
    exact le_rfl
  | start _ _ _ hstart | started _ _ hstart =>
    obtain ⟨_, _, _, _, _, _, _, _, _, rfl, -, hle⟩ := startSrv_frame hstart
    exact hle
  | loop _ _ _ hloop | left _ _ hloop =>
    obtain ⟨_, _, _, _, _, _, _, _, rfl, -⟩ := checkLoop_frame hloop
    exact le_rfl
  | stop _ _ _ hstop | stopped _ _ hstop | destroySrv _ _ _ hstop | stoppedAgain _ _ hstop =>
    obtain ⟨_, _, _, rfl⟩ := stopSrv_frame hstop
    exact le_rfl
  | _ => exact le_rfl

/-- The step does not accept the file, or what a lookup in it finds. -/
def LoadPc.rejects (e : Env) (w : World) : LoadPc → Bool
  | .read => !e.file.parses
  | .lookup s => w.config.cfg.any fun file ↦ (Daemon.lookup w.config file s).isNone
  | .destroy | .abort => false

/-- The step does not accept the bind address. -/
def StartPc.rejects (w : World) : StartPc → Bool
  | .testAddress => w.srv.address.value = inaddrNone
  | _ => false

def HookPc.rejects (e : Env) (w : World) : HookPc → Bool
  | .load p => p.rejects e w
  | .start p => p.rejects w
  | _ => false

def MainPc.rejects (e : Env) (w : World) : MainPc → Bool
  | .load p => p.rejects e w
  | .start p => p.rejects w
  | _ => false

theorem loadFromFile_aborting {e : Env} {w w' : World} {p : LoadPc}
    (h : loadFromFile e w p = some (w', some .abort)) : p = .abort ∨ p.rejects e w = true := by
  have hcases := loadFromFile_cases h
  generalize hq : some LoadPc.abort = q at hcases
  cases hcases with
  | readFails hfails => exact .inr (by simp [LoadPc.rejects, hfails])
  | lookupFails s file hfile hlookup => exact .inr (by simp [LoadPc.rejects, hfile, hlookup])
  | lookup s => cases s <;> cases hq
  | abort => exact .inl rfl
  | destroy | read => cases hq

theorem startSrv_aborting {t : Tid} {b : Bool} {e : Env} {w w' : World} {p : StartPc}
    (h : startSrv P t b e w p = some (w', some .abort)) : p = .abort ∨ p.rejects w = true := by
  have hcases := startSrv_cases h
  generalize hq : some StartPc.abort = q at hcases
  cases hcases with
  | badAddress hbad => exact .inr (by simp [StartPc.rejects, hbad])
  | abort => exact .inl rfl
  | _ => cases hq

theorem reload_aborting {t : Tid} {e : Env} {w w' : World} {p q : HookPc}
    (h : reload P t e w p = some (w', some q)) (hq : q.aborting = true) :
    p.aborting = true ∨ p.rejects e w = true := by
  cases reload_cases h with
  | load p _ q hload =>
    cases q with
    | abort => exact (loadFromFile_aborting hload).imp_left (by rintro rfl; rfl)
    | destroy | read | lookup => exact absurd hq Bool.false_ne_true
  | start p _ q hstart =>
    cases q with
    | abort => exact (startSrv_aborting hstart).imp_left (by rintro rfl; rfl)
    | _ => exact absurd hq Bool.false_ne_true
  | _ => exact absurd hq Bool.false_ne_true

/-- A hook that is about to abort stays where it is. -/
theorem reload_abort {t : Tid} {e : Env} {w w' : World} {p : HookPc} {q : Option HookPc}
    (h : reload P t e w p = some (w', q)) (hp : p.aborting = true) :
    q.any HookPc.aborting = true := by
  cases p with
  | load p =>
    cases p with
    | abort =>
      obtain ⟨rfl, rfl⟩ := Prod.mk.inj (Option.some.inj h)
      rfl
    | destroy | read | lookup => exact absurd hp Bool.false_ne_true
  | start p =>
    cases p with
    | abort =>
      obtain ⟨rfl, rfl⟩ := Prod.mk.inj (Option.some.inj h)
      rfl
    | _ => exact absurd hp Bool.false_ne_true
  | lockConfig | unlockConfig | stop => exact absurd hp Bool.false_ne_true

theorem main_abort {poll : Poll} {e : Env} {w w' : World} {p p' : MainPc}
    (h : main P poll e w p = some (w', p')) (hp : p.aborting = true) : p'.aborting = true := by
  cases p with
  | load p =>
    cases p with
    | abort =>
      obtain ⟨rfl, rfl⟩ := Prod.mk.inj (Option.some.inj h)
      rfl
    | destroy | read | lookup => exact absurd hp Bool.false_ne_true
  | start p =>
    cases p with
    | abort =>
      obtain ⟨rfl, rfl⟩ := Prod.mk.inj (Option.some.inj h)
      rfl
    | _ => exact absurd hp Bool.false_ne_true
  | _ => exact absurd hp Bool.false_ne_true

theorem main_aborting {poll : Poll} {e : Env} {w w' : World} {p p' : MainPc}
    (h : main P poll e w p = some (w', p')) (hp' : p'.aborting = true) :
    p.aborting = true ∨ p.rejects e w = true := by
  cases main_cases h with
  | load p _ q hload =>
    cases q with
    | abort => exact (loadFromFile_aborting hload).imp_left (by rintro rfl; rfl)
    | destroy | read | lookup => exact absurd hp' Bool.false_ne_true
  | start p _ q hstart =>
    cases q with
    | abort => exact (startSrv_aborting hstart).imp_left (by rintro rfl; rfl)
    | _ => exact absurd hp' Bool.false_ne_true
  | endmntentFails | exit => exact absurd hp' Bool.false_ne_true
  | _ => exact absurd hp' Bool.false_ne_true

/-- The hook is in a call that takes `core_config`, directly or through `config` of `srv.c`, and
has not come to abort. -/
def HookPc.usesCoreConfig : HookPc → Bool
  | .stop _ => false
  | p => !p.aborting

/-- The hook is in a call that takes `srv_buff`, and has not come to abort. -/
def HookPc.usesSrvBuff : HookPc → Bool
  | .stop _ => true
  | .start p => !(HookPc.start p).aborting
  | _ => false

/-- The hook on any thread. -/
def State.hook (d : State) : Tid → Option HookPc
  | .main => d.mainHook
  | .thread n => d.serverHook n

/-- While the process runs, no hook is in a call that takes an object which does not live. -/
def HookUsesLive (d : State) : Prop :=
  d.world.ended = false → ∀ t p, d.hook t = some p →
    (p.usesCoreConfig = true → d.world.coreConfig = .live) ∧
    (p.usesSrvBuff = true → d.world.srvBuff = .live)

/-- A file or an address has been rejected, and the process has not been aborted yet. -/
def State.Aborting (d : State) : Prop :=
  d.main.aborting = true ∨ d.mainHook.any HookPc.aborting = true ∨
    ∃ n < d.world.threads.created, (d.serverHook n).any HookPc.aborting = true

/-- No hook runs on a thread other than `t`. -/
def State.HooksAlone (d : State) (t : Tid) : Prop :=
  (t ≠ .main → d.mainHook = none) ∧
    ∀ n < d.world.threads.created, t ≠ .thread n → d.serverHook n = none

instance (d : State) : Decidable d.Aborting :=
  inferInstanceAs (Decidable (_ ∨ _ ∨ ∃ n < d.world.threads.created, _))

instance (d : State) (t : Tid) : Decidable (d.HooksAlone t) :=
  inferInstanceAs (Decidable (_ ∧ ∀ n < d.world.threads.created, _))

/-- A SIGHUP is taken while main has both objects built and nothing has been rejected, and no hook
runs on another thread when an object is destroyed: when main destroys the buffer, and when a
thread rejects a file or an address. -/
def HupsWhileBuilt (d : State) : Action → Prop
  | .hup _ => d.main.built ∧ ¬d.Aborting
  | .main _ e => d.main = .destroyBuffer ∨ d.main.rejects e d.world = true → d.HooksAlone .main
  | .mainHook e => d.mainHook.any (·.rejects e d.world) = true → d.HooksAlone .main
  | .serverHook n e =>
    (d.serverHook n).any (·.rejects e d.world) = true → d.HooksAlone (.thread n)
  | _ => True

instance (d : State) : (a : Action) → Decidable (HupsWhileBuilt d a)
  | .hup _ => inferInstanceAs (Decidable (_ ∧ ¬d.Aborting))
  | .main _ _ => inferInstanceAs (Decidable (_ ∨ _ → _))
  | .mainHook _ | .serverHook _ _ => inferInstanceAs (Decidable (_ → _))
  | .server _ _ | .int _ => inferInstanceAs (Decidable True)

/-- Hooks run on threads that exist, and only while both objects are built; a thread that is about
to abort is the only one that may be in a hook, and while there is none the pointers are
tracked. -/
structure HooksServed (d : State) : Prop where
  tracks : d.main.aborting = false → (∀ t p, d.hook t = some p → p.aborting = false) →
    Tracks d.world d.main
  created : ∀ n p, d.serverHook n = some p → n < d.world.threads.created
  built : ∀ t p, d.hook t = some p → d.main.built
  noHook : d.main.aborting = true → ∀ t, d.hook t = none
  alone : ∀ t p, d.hook t = some p → p.aborting = true → ∀ u, u ≠ t → d.hook u = none

theorem State.HooksAlone.hook {d : State} {t : Tid} (h : d.HooksAlone t) (hd : HooksServed d)
    (u : Tid) (hu : u ≠ t) : d.hook u = none := by
  cases u with
  | main => exact h.1 hu.symm
  | thread n =>
    by_contra hhook
    obtain ⟨p, hp⟩ := Option.ne_none_iff_exists'.mp hhook
    exact hhook (h.2 n (hd.created n p hp) hu.symm)

/-- A step of the hook on thread `t`. -/
theorem hooksServed_hook {d d' : State} {t : Tid} {e : Env} {p : HookPc} {q : Option HookPc}
    (hd : HooksServed d) (hp : d.hook t = some p)
    (hreload : reload P t e d.world p = some (d'.world, q)) (hq : d'.hook t = q)
    (hmain : d'.main = d.main) (hothers : ∀ u, u ≠ t → d'.hook u = d.hook u)
    (hok : p.rejects e d.world = true → d.HooksAlone t) : HooksServed d' := by
  obtain ⟨_, _, _, _, _, _, _, _, hworld, hlife, hle⟩ := reload_frame hreload
  have hrunning : d.main.aborting = false := by
    by_contra hmain
    exact absurd ((hd.noHook (by simpa using hmain) t).symm.trans hp) (Option.some_ne_none p).symm
  constructor
  · intro _ hnone
    have hq' : q.any HookPc.aborting = false := by
      cases q with
      | none => rfl
      | some q => exact hnone t q hq
    have hp' : p.aborting = false := by
      by_contra hp'
      exact Bool.false_ne_true (hq'.symm.trans (reload_abort hreload (by simpa using hp')))
    have htracks : Tracks d.world d.main := by
      refine hd.tracks hrunning fun u r hr ↦ ?_
      by_cases hu : u = t
      · subst hu
        obtain rfl := Option.some.inj (hp.symm.trans hr)
        exact hp'
      · exact hnone u r ((hothers u hu).trans hr)
    rw [Tracks, hworld, hmain, (hlife hq').1, (hlife hq').2]
    exact htracks
  · intro n r hr
    rw [hworld]
    refine lt_of_lt_of_le ?_ hle
    by_cases hn : Tid.thread n = t
    · subst hn
      exact hd.created n p hp
    · exact hd.created n r ((hothers _ hn).symm.trans hr)
  · exact fun _ _ _ ↦ hmain ▸ hd.built t p hp
  · intro hmain'
    rw [hmain] at hmain'
    exact absurd (hrunning.symm.trans hmain') Bool.false_ne_true
  · intro u r hr haborting v hv
    by_cases hu : u = t
    · subst hu
      rw [hothers v hv]
      obtain rfl : q = some r := hq.symm.trans hr
      rcases reload_aborting hreload haborting with hp' | hrejects
      · exact hd.alone u p hp hp' v hv
      · exact (hok hrejects).hook hd v hv
    · have hnone := hd.alone u r ((hothers u hu).symm.trans hr) haborting t fun ht ↦ hu ht.symm
      exact absurd (hnone.symm.trans hp) (Option.some_ne_none p).symm

/-- A SIGHUP that is taken while both objects are built and nothing has been rejected. -/
theorem hooksServed_hup {d : State} {t : Tid} (hd : HooksServed d) (htakes : d.TakesHup t)
    (hbuilt : d.main.built) (hnone : ¬d.Aborting) : HooksServed (d.deliver t) := by
  have hmain : d.main.aborting = false := by
    by_contra hmain
    exact hnone (.inl (by simpa using hmain))
  have hhook (u : Tid) (p : HookPc) (hp : d.hook u = some p) : p.aborting = false := by
    by_contra haborting
    have haborting : p.aborting = true := by simpa using haborting
    cases u with
    | main => exact hnone (.inr (.inl (by rw [show d.mainHook = some p from hp]; exact haborting)))
    | thread n =>
      refine hnone (.inr (.inr ⟨n, hd.created n p hp, ?_⟩))
      rw [show d.serverHook n = some p from hp]
      exact haborting
  have hworld : (d.deliver t).world = d.world := by cases t <;> rfl
  have hmain' : (d.deliver t).main = d.main := by cases t <;> rfl
  have hdeliver (u : Tid) (p : HookPc) (hp : (d.deliver t).hook u = some p) :
      p = .lockConfig ∨ d.hook u = some p := by
    cases t with
    | main =>
      cases u with
      | main => exact .inl (Option.some.inj hp).symm
      | thread n => exact .inr hp
    | thread n =>
      cases u with
      | main => exact .inr hp
      | thread m =>
        by_cases hm : m = n
        · subst hm
          exact .inl (Option.some.inj ((Function.update_self m _ _).symm.trans hp)).symm
        · exact .inr ((Function.update_of_ne hm _ _).symm.trans hp)
  have hnone' (u : Tid) (p : HookPc) (hp : (d.deliver t).hook u = some p) :
      p.aborting = false := by
    rcases hdeliver u p hp with rfl | hp
    · rfl
    · exact hhook u p hp
  constructor
  · intro _ _
    rw [hworld, hmain']
    exact hd.tracks hmain hhook
  · intro n p hp
    rw [hworld]
    rcases hdeliver (.thread n) p hp with rfl | hp'
    · cases t with
      | main => exact hd.created n _ hp
      | thread m =>
        by_cases hm : n = m
        · exact hm ▸ htakes.1.1
        · exact hd.created n _ ((Function.update_of_ne hm _ _).symm.trans hp)
    · exact hd.created n p hp'
  · exact fun _ _ _ ↦ hmain' ▸ hbuilt
  · intro haborting
    rw [hmain'] at haborting
    exact absurd (hmain.symm.trans haborting) Bool.false_ne_true
  · intro u p hp haborting
    exact absurd ((hnone' u p hp).symm.trans haborting) Bool.false_ne_true

theorem hooksServed_step {d d' : State} {a : Action} (hd : HooksServed d)
    (hok : HupsWhileBuilt d a) (h : step P d a = some d') : HooksServed d' := by
  cases a with
  | main poll e =>
    obtain ⟨-, hhook, w, p, hmain, rfl⟩ := step_main h
    refine ⟨fun hp hnone ↦ ?_, fun n p hp ↦ (hd.created n p hp).trans_le (main_created hmain),
      fun t p hp ↦ ?_, fun hp t ↦ ?_, hd.alone⟩
    · refine main_tracks hmain (hd.tracks ?_ hnone) hp
      by_contra haborting
      exact Bool.false_ne_true (hp.symm.trans (main_abort hmain (by simpa using haborting)))
    · refine main_built hmain (hd.built t p hp) fun hdestroy ↦ ?_
      cases t with
      | main => exact absurd (hhook.symm.trans hp) (Option.some_ne_none p).symm
      | thread n =>
        have hnone := (hok (.inl hdestroy)).2 n (hd.created n p hp) nofun
        exact absurd (hnone.symm.trans hp) (Option.some_ne_none p).symm
    · rcases main_aborting hmain hp with haborting | hrejects
      · exact hd.noHook haborting t
      · by_cases ht : t = .main
        · subst ht
          exact hhook
        · exact (hok (.inr hrejects)).hook hd t ht
  | mainHook e =>
    obtain ⟨-, p, w, q, hp, hreload, rfl⟩ := step_mainHook h
    refine hooksServed_hook (t := .main) hd hp hreload rfl rfl (fun u hu ↦ ?_) fun hrejects ↦ ?_
    · cases u with
      | main => exact absurd rfl hu
      | thread n => rfl
    · exact hok (by rw [hp]; exact hrejects)
  | server n e =>
    obtain ⟨-, -, -, w, s, hserve, rfl⟩ := step_server h
    obtain ⟨_, _, _, _, _, _, _, _, _, _, rfl⟩ := serve_frame hserve
    cases s <;> exact ⟨hd.tracks, hd.created, hd.built, hd.noHook, hd.alone⟩
  | serverHook n e =>
    obtain ⟨-, p, w, q, hp, hreload, rfl⟩ := step_serverHook h
    refine hooksServed_hook (t := .thread n) hd hp hreload (Function.update_self _ _ _) rfl
      (fun u hu ↦ ?_) fun hrejects ↦ ?_
    · cases u with
      | main => rfl
      | thread m =>
        have hm : m ≠ n := fun hm ↦ hu (hm ▸ rfl)
        exact Function.update_of_ne hm _ _
    · exact hok (by rw [hp]; exact hrejects)
  | hup t =>
    obtain ⟨-, htakes, rfl⟩ := step_hup h
    exact hooksServed_hup hd htakes hok.1 hok.2
  | int t =>
    obtain ⟨-, -, rfl⟩ := step_int h
    exact ⟨hd.tracks, hd.created, hd.built, hd.noHook, hd.alone⟩

theorem hookUsesLive_of_served {d : State} (hd : HooksServed d) : HookUsesLive d := by
  intro _ t p hp
  by_cases haborting : p.aborting = true
  · -- a hook that is about to abort uses neither object
    cases p with
    | load q | start q =>
      cases q <;> first | exact absurd haborting Bool.false_ne_true | exact ⟨nofun, nofun⟩
    | lockConfig | unlockConfig | stop => exact absurd haborting Bool.false_ne_true
  · have hmain : d.main.aborting = false := by
      by_contra hmain
      exact absurd ((hd.noHook (by simpa using hmain) t).symm.trans hp) (Option.some_ne_none p).symm
    have hnone (u : Tid) (q : HookPc) (hq : d.hook u = some q) : q.aborting = false := by
      by_contra hq'
      by_cases hu : t = u
      · subst hu
        obtain rfl := Option.some.inj (hp.symm.trans hq)
        exact hq' (by simpa using haborting)
      · have := hd.alone u q hq (by simpa using hq') t hu
        exact absurd (this.symm.trans hp) (Option.some_ne_none p).symm
    obtain ⟨hconfig, hbuff⟩ := hd.built t p hp
    obtain ⟨hwconfig, hwbuff⟩ := hd.tracks hmain hnone
    exact ⟨fun _ ↦ hwconfig.trans hconfig, fun _ ↦ hwbuff.trans hbuff⟩

theorem hooksServed_initial (heap : Addr → Option Text) (sockets : ℤ → Option Socket)
    (arrays : ℕ → Http.Buffers) : HooksServed (.initial heap sockets arrays) where
  tracks _ _ := ⟨rfl, rfl⟩
  created := nofun
  built t p hp := by cases t <;> exact absurd hp (Option.some_ne_none p).symm
  noHook := nofun
  alone t p hp := by cases t <;> exact absurd hp (Option.some_ne_none p).symm

/-- In a run in which each SIGHUP is taken while main has both objects built and nothing has been
rejected, and no object is destroyed while a hook runs on another thread, the hook uses only
objects that live. -/
theorem hookUsesLive_of_hupsWhileBuilt {heap : Addr → Option Text} {sockets : ℤ → Option Socket}
    {arrays : ℕ → Http.Buffers} {d : State}
    (h : Reach (step P) HupsWhileBuilt (.initial heap sockets arrays) d) : HookUsesLive d :=
  hookUsesLive_of_served (h.invariant HooksServed (hooksServed_initial heap sockets arrays)
    fun _ _ _ ↦ hooksServed_step)

/-- A SIGHUP in the first pass of the loop. -/
theorem hookUsesLive_in_loop : ∃ d : State,
    Reach (step samplePlatform) HupsWhileBuilt sampleState d ∧
      d.mainHook = some (.stop (.joining 0)) ∧ HookUsesLive d := by
  have hrun : ∃ d, Reach (step samplePlatform) HupsWhileBuilt sampleState d ∧
      d.mainHook = some (.stop (.joining 0)) :=
    exists_reach_of_runAll (mainSteps 33 ++ .hup .main :: hookSteps 16) (by decide +kernel)
  obtain ⟨d, hreach, hhook⟩ := hrun
  exact ⟨d, hreach, hhook, hookUsesLive_of_hupsWhileBuilt hreach⟩

/-- A SIGHUP before the configuration is read: the hook locks a mutex of a null pointer. -/
theorem not_hookUsesLive_before_config :
    ¬∀ d : State, Reachable (step samplePlatform) sampleState d → HookUsesLive d := by
  intro hclaim
  have hrun : ∃ d, Reachable (step samplePlatform) sampleState d ∧
      (d.world.ended = false ∧ d.mainHook = some .lockConfig ∧ d.world.coreConfig = .absent) :=
    exists_reach_of_runAll [.hup .main] (by decide +kernel)
  obtain ⟨d, hreach, hended, hhook, habsent⟩ := hrun
  have hlive := (hclaim d hreach hended .main _ hhook).1 rfl
  exact absurd (habsent.symm.trans hlive) (by decide)

end Stored.Daemon
