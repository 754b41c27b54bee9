import Stored.Daemon.BindPair

/-!
# Configuration files, accepted and rejected

`load_from_file` destroys the `cfg` that is loaded and overwrites the live configuration field by
field, so that it can fail after any of its writes. It does so in the one critical section that it
is inside of, or before any other thread knows of the configuration, and a place that has rejected
its file does not leave that section: whoever else is inside one finds the settings of the file
accepted last.
-/

namespace Stored.Daemon

open Run

variable {P : Platform}

/-- The daemon with the files accepted so far and the place that has rejected its file, which is
about to call `ST_abort`; the other threads go on until it does. -/
structure Files where
  daemon : State
  accepted : List ConfigFile
  rejecting : Option Place

def Action.place : Action → Option Place
  | .main _ _ => some .main
  | .mainHook _ => some .mainHook
  | .server n _ => some (.server n)
  | .serverHook n _ => some (.serverHook n)
  | .hup _ | .int _ => none

/-- What a step of a place to `d` says about the file that the place loads, if it loads one. -/
def Files.after (s : Files) (c : Place) (d : State) : Files :=
  match s.daemon.phase c with
  | .load p =>
    if d.phase c = .load .abort then { s with daemon := d, rejecting := some c }
    else if p = .lookup .bindAddr then
      { s with daemon := d, accepted := s.accepted ++ d.world.config.cfg.toList }
    else { s with daemon := d }
  | _ => { s with daemon := d }

def stepFiles (P : Platform) (s : Files) (a : Action) : Option Files :=
  (step P s.daemon a).map fun d ↦
    match a.place with
    | none => { s with daemon := d }
    | some c => s.after c d

/-- The daemon when `ST_demonize` has installed the handlers. -/
def Files.initial (heap : Addr → Option Text) (sockets : ℤ → Option Socket)
    (arrays : ℕ → Http.Buffers) : Files := ⟨.initial heap sockets arrays, [], none⟩

/-- The field of a setting is that of the file, read from the `cfg` that is loaded. -/
def Config.Shows (c : Config) (file : ConfigFile) : Setting → Prop
  | .checkIntervalMs => file.core.bind (·.checkIntervalMs) = some c.interval.value ∧
    c.interval.version = c.version
  | .freePercentNotice => file.core.bind (·.freePercentNotice) = some c.noticePercent.value ∧
    c.noticePercent.version = c.version
  | .freePercentWarn => file.core.bind (·.freePercentWarn) = some c.warnPercent.value ∧
    c.warnPercent.version = c.version
  | .freePercentCrit => file.core.bind (·.freePercentCrit) = some c.critPercent.value ∧
    c.critPercent.version = c.version
  | .enabled => file.server.bind (·.enabled) = some c.httpEnabled.value ∧
    c.httpEnabled.version = c.version
  | .port => file.server.bind (·.port) = some c.httpPort.value ∧ c.httpPort.version = c.version
  | .bindAddr => file.server.bind (·.bindAddr) = some c.httpBindAddress.value ∧
    c.httpBindAddress.version = c.version

/-- All fields are those of the file accepted last, which is the one that `cfg` holds. -/
def Files.ShowsLast (s : Files) : Prop :=
  ∃ file, s.accepted.getLast? = some file ∧ s.daemon.world.config.cfg = some file ∧
    ∀ setting, s.daemon.world.config.Shows file setting

/-- The place is inside a critical section of the configuration, and loads no file there. -/
def State.Reads (d : State) (c : Place) : Prop :=
  d.holdsConfig c ∧ ∀ p, d.phase c ≠ .load p

/-- The configuration is the same up to its mutex. -/
def SameConfig (w w' : World) : Prop :=
  ∃ mutex, w'.config = { w.config with mutex := mutex }

/-- `main` has not come to its end, where it destroys the configuration. -/
def BeforeDestroy (s : Files) : Action → Prop
  | .main _ _ => s.daemon.main ≠ .destroyCfg
  | _ => True

instance (s : Files) : (a : Action) → Decidable (BeforeDestroy s a)
  | .main _ _ => inferInstanceAs (Decidable (_ ≠ _))
  | .mainHook _ | .server _ _ | .serverHook _ _ | .hup _ | .int _ =>
    inferInstanceAs (Decidable True)

/-- What is inside a critical section finds the file accepted last, and no step changes it there;
once a file is rejected nothing but the place that loads it is inside of one. -/
structure Observed (P : Platform) (s : Files) : Prop where
  last : ∀ c, s.daemon.Reads c → s.ShowsLast
  stable : ∀ c a s', s.daemon.Reads c → BeforeDestroy s a → stepFiles P s a = some s' →
    s'.accepted = s.accepted ∧ SameConfig s.daemon.world s'.daemon.world
  closed : ∀ c c', s.rejecting = some c → s.daemon.holdsConfig c' → c' = c

/-- The settings looked up before a setting have smaller numbers. -/
def Setting.index : Setting → ℕ
  | .checkIntervalMs => 0
  | .freePercentNotice => 1
  | .freePercentWarn => 2
  | .freePercentCrit => 3
  | .enabled => 4
  | .port => 5
  | .bindAddr => 6

theorem Setting.index_lt_next {s t : Setting} (h : s.next = some t) (r : Setting) :
    r.index < t.index → r.index < s.index ∨ r = s := by
  cases s <;> cases h <;> cases r <;> simp [Setting.index]

theorem Setting.index_lt_of_last {s : Setting} (h : s.next = none) (r : Setting) :
    r.index < s.index ∨ r = s := by
  cases s with
  | bindAddr => cases r <;> simp [Setting.index]
  | _ => exact nomatch h

/-- A lookup shows its setting and leaves those shown before. -/
theorem shows_lookup {c c' : Config} {file : ConfigFile} {s : Setting}
    (h : lookup c file s = some c') : c'.cfg = c.cfg ∧ c'.Shows file s ∧
      ∀ r, c.Shows file r → c'.Shows file r := by
  cases s <;> obtain ⟨v, hv, rfl⟩ := Option.map_eq_some_iff.mp h <;>
    refine ⟨rfl, ⟨hv, rfl⟩, fun r hr ↦ ?_⟩ <;> cases r <;> first | exact hr | exact ⟨hv, rfl⟩

/-- The settings looked up so far in a load are those of the file in `cfg`. -/
def Progress (c : Config) : LoadPc → Prop
  | .lookup s => ∀ file, c.cfg = some file → ∀ r, r.index < s.index → c.Shows file r
  | _ => True

/-- A step of a load rejects the file, goes on to a further step, or finds the last setting. -/
theorem loadFromFile_progress {e : Env} {w w' : World} {p : LoadPc} {q : Option LoadPc}
    (h : loadFromFile e w p = some (w', q)) (hp : Progress w.config p) :
    q = some .abort ∨
      (p ≠ .lookup .bindAddr ∧ ∃ r, q = some r ∧ r ≠ .abort ∧ Progress w'.config r) ∨
      (p = .lookup .bindAddr ∧ q = none ∧
        ∃ file, w'.config.cfg = some file ∧ ∀ setting, w'.config.Shows file setting) := by
  cases loadFromFile_cases h with
  | destroy => exact .inr (.inl ⟨nofun, _, rfl, nofun, trivial⟩)
  | read =>
    exact .inr (.inl ⟨nofun, _, rfl, nofun, fun _ _ r hr ↦ absurd hr (Nat.not_lt_zero _)⟩)
  | readFails | lookupFails | abort => exact .inl rfl
  | lookup s file c hfile hlookup =>
    obtain ⟨hcfg, hshown, hothers⟩ := shows_lookup hlookup
    have hshows (r : Setting) (hr : r.index < s.index ∨ r = s) : c.Shows file r := by
      rcases hr with hr | rfl
      · exact hothers r (hp file hfile r hr)
      · exact hshown
    cases hnext : s.next with
    | some t =>
      refine .inr (.inl ⟨?_, .lookup t, rfl, nofun, fun file' hfile' r hr ↦ ?_⟩)
      · rintro ⟨⟩
        exact nomatch hnext
      · obtain rfl := Option.some.inj ((hcfg.trans hfile).symm.trans hfile')
        exact hshows r (Setting.index_lt_next hnext r hr)
    | none =>
      have hlast : s = .bindAddr := by
        cases s <;> first | rfl | exact nomatch hnext
      refine .inr (.inr ⟨by rw [hlast], rfl, file, hcfg.trans hfile, fun r ↦ ?_⟩)
      exact hshows r (Setting.index_lt_of_last hnext r)

/-- What a step of a place does to the configuration, by what the place loads before and after. -/
inductive PlaceStep (e : Env) (w w' : World) (before after : Phase) : Prop
  | keep (hbefore : ∀ p, before ≠ .load p) (hsame : SameConfig w w')
    (hafter : ∀ p, after ≠ .load p)
  | begin (hbefore : ∀ p, before ≠ .load p) (hsame : SameConfig w w')
    (hafter : after = .load .destroy)
  | load (p : LoadPc) (q : Option LoadPc) (hbefore : before = .load p)
    (hload : loadFromFile e w p = some (w', q)) (hafter : after = q.elim .other .load)

/-- A place that has rejected its file only ends the process. -/
theorem PlaceStep.abort {e : Env} {w w' : World} {before after : Phase}
    (h : PlaceStep e w w' before after) (habort : before = .load .abort) :
    after = .load .abort := by
  cases h with
  | keep hbefore | begin hbefore => exact absurd habort (hbefore _)
  | load p q hbefore hload hafter =>
    obtain rfl := Phase.load.inj (hbefore.symm.trans habort)
    cases loadFromFile_cases hload
    exact hafter

/-- A place that loads nothing, before and after. -/
theorem PlaceStep.other {e : Env} {w w' : World} (hsame : SameConfig w w') :
    PlaceStep e w w' .other .other :=
  .keep nofun hsame nofun

theorem StartPc.phase_ne_load (p : StartPc) (q : LoadPc) : p.phase ≠ .load q := by
  cases p <;> exact nofun

theorem startSrv_placeStep {t : Tid} {b : Bool} {e : Env} {w w' : World} {p : StartPc}
    {q : Option StartPc} (h : startSrv P t b e w p = some (w', q)) :
    PlaceStep e w w' p.phase (q.elim .other StartPc.phase) := by
  obtain ⟨mutex, _, _, _, _, _, _, _, _, rfl, -⟩ := startSrv_frame h
  refine .keep p.phase_ne_load ⟨mutex, rfl⟩ fun r ↦ ?_
  cases q with
  | none => exact nofun
  | some q => exact q.phase_ne_load r

theorem stopSrv_placeStep {t : Tid} {e : Env} {w w' : World} {p : StopPc} {q : Option StopPc}
    (h : stopSrv t w p = some (w', q)) : PlaceStep e w w' .other .other := by
  obtain ⟨_, _, _, rfl⟩ := stopSrv_frame h
  exact .other ⟨_, rfl⟩

theorem reload_placeStep {t : Tid} {e : Env} {w w' : World} {p : HookPc} {q : Option HookPc}
    (h : reload P t e w p = some (w', q)) :
    PlaceStep e w w' p.phase (q.elim .other HookPc.phase) := by
  cases reload_cases h with
  | lockConfig => exact .begin nofun ⟨_, rfl⟩ rfl
  | load p _ q hload => exact .load p (some q) rfl hload rfl
  | loaded p _ hload => exact .load p none rfl hload rfl
  | unlockConfig => exact .other ⟨_, rfl⟩
  | stop _ _ _ hstop | stopped _ _ hstop => exact stopSrv_placeStep hstop
  | start _ _ _ hstart | started _ _ hstart => exact startSrv_placeStep hstart

theorem main_placeStep {poll : Poll} {e : Env} {w w' : World} {p p' : MainPc}
    (h : main P poll e w p = some (w', p')) (hp : p ≠ .destroyCfg) :
    PlaceStep e w w' p.phase p'.phase := by
  cases main_cases h with
  | destroyCfg => exact absurd rfl hp
  | newConfig => exact .begin nofun ⟨_, rfl⟩ rfl
  | load p _ q hload => exact .load p (some q) rfl hload rfl
  | loaded p _ hload => exact .load p none rfl hload rfl
  | start _ _ _ hstart | started _ _ hstart => exact startSrv_placeStep hstart
  | stop _ _ _ hstop | stopped _ _ hstop | destroySrv _ _ _ hstop | stoppedAgain _ _ hstop =>
    exact stopSrv_placeStep hstop
  | loop _ _ _ hloop | left _ _ hloop =>
    obtain ⟨_, _, _, _, _, _, _, _, rfl, -⟩ := checkLoop_frame hloop
    exact .other ⟨_, rfl⟩
  | _ => exact .other ⟨_, rfl⟩

/-- `main` has its configuration. -/
def MainPc.configured : MainPc → Bool
  | .demonize | .newConfig | .load _ => false
  | _ => true

/-- While a place loads, the settings looked up so far are those of its file; while none does, they
are all those of the file accepted last. -/
structure FilesKept (s : Files) : Prop where
  lock : ConfigLock s.daemon
  progress : ∀ c p, s.daemon.phase c = .load p → Progress s.daemon.world.config p
  settled : s.daemon.main.configured = true → ¬s.daemon.Loading → s.ShowsLast
  rejecting : ∀ c, s.rejecting = some c → s.daemon.phase c = .load .abort

theorem progress_same {w w' : World} (h : SameConfig w w') {p : LoadPc}
    (hp : Progress w.config p) : Progress w'.config p := by
  obtain ⟨mutex, heq⟩ := h
  rw [heq]
  cases p with
  | lookup s =>
    intro file hfile r hr
    have hshows := hp file hfile r hr
    cases r <;> exact hshows
  | destroy | read | abort => trivial

theorem showsLast_same {s s' : Files} (h : SameConfig s.daemon.world s'.daemon.world)
    (haccepted : s'.accepted = s.accepted) (hs : s.ShowsLast) : s'.ShowsLast := by
  obtain ⟨mutex, heq⟩ := h
  obtain ⟨file, hlast, hcfg, hshows⟩ := hs
  rw [Files.ShowsLast, heq, haccepted]
  refine ⟨file, hlast, hcfg, fun setting ↦ ?_⟩
  have hsetting := hshows setting
  cases setting <;> exact hsetting

theorem not_loading_of_reads {d : State} (hlock : ConfigLock d) {c : Place} (hc : d.Reads c) :
    ¬d.Loading := by
  rintro ⟨c', p, hc'⟩
  obtain rfl := loading_unique hlock (.inl hc.1) hc'
  exact hc.2 p hc'

/-- A step of a place that does not load: nothing is accepted or rejected. -/
theorem after_of_not_load {s : Files} {c : Place} {d : State}
    (h : ∀ p, s.daemon.phase c ≠ .load p) : s.after c d = { s with daemon := d } := by
  unfold Files.after
  split
  · rename_i p hp
    exact absurd hp (h p)
  · rfl

/-- A step of a place that loads a file: no other place loads one. -/
theorem filesKept_load {s : Files} {c : Place} {d : State} {e : Env} {p : LoadPc}
    {q : Option LoadPc} (hs : FilesKept s) (hlock : ConfigLock d)
    (hphase : ∀ c', c' ≠ c → d.phase c' = s.daemon.phase c')
    (hothers : ∀ c', s.rejecting = some c' → d.phase c' = .load .abort)
    (hbefore : s.daemon.phase c = .load p)
    (hload : loadFromFile e s.daemon.world p = some (d.world, q))
    (hafter : d.phase c = q.elim .other .load) : FilesKept (s.after c d) := by
  have honly {c' : Place} {r : LoadPc} (hc' : d.phase c' = .load r) : c' = c := by
    by_contra hne
    exact hne (loading_unique hs.lock (loading_inside hbefore) ((hphase c' hne).symm.trans hc'))
  have hprogress {r : LoadPc} (hq : q = some r) (hr : Progress d.world.config r) (c' : Place)
      (r' : LoadPc) (hc' : d.phase c' = .load r') : Progress d.world.config r' := by
    obtain rfl := honly hc'
    rw [hq] at hafter
    obtain rfl := Phase.load.inj (hafter.symm.trans hc')
    exact hr
  have hloads {r : LoadPc} (hq : q = some r) : d.phase c = .load r := by
    rw [hafter, hq]
    rfl
  unfold Files.after
  rw [hbefore]
  rcases loadFromFile_progress hload (hs.progress c p hbefore) with
    hq | ⟨hp, r, hq, hne, hr⟩ | ⟨hp, hq, file, hcfg, hshows⟩
  · simp only [hloads hq, if_true]
    refine ⟨hlock, hprogress hq trivial,
      fun _ hnone ↦ absurd ⟨c, .abort, hloads hq⟩ hnone, fun c' hc' ↦ ?_⟩
    obtain rfl := Option.some.inj hc'
    exact hloads hq
  · have hne' : d.phase c ≠ .load .abort := by
      rw [hloads hq]
      exact fun heq ↦ hne (Phase.load.inj heq)
    simp only [if_neg hne', if_neg hp]
    exact ⟨hlock, hprogress hq hr, fun _ hnone ↦ absurd ⟨c, r, hloads hq⟩ hnone, hothers⟩
  · have hne' : d.phase c ≠ .load .abort := by
      rw [hafter, hq]
      exact nofun
    simp only [if_neg hne', if_pos hp]
    refine ⟨hlock, fun c' r' hc' ↦ ?_, fun _ _ ↦ ⟨file, ?_, hcfg, hshows⟩, hothers⟩
    · obtain rfl := honly hc'
      rw [hq] at hafter
      exact nomatch hafter.symm.trans hc'
    · simp [hcfg]

theorem filesKept_after {s : Files} {c : Place} {d : State} {e : Env} (hs : FilesKept s)
    (hlock : ConfigLock d) (hphase : ∀ c', c' ≠ c → d.phase c' = s.daemon.phase c')
    (hconfigured : d.main.configured = true → s.daemon.main.configured = true ∨
      s.daemon.Loading)
    (hstep : PlaceStep e s.daemon.world d.world (s.daemon.phase c) (d.phase c)) :
    FilesKept (s.after c d) := by
  have hothers (c' : Place) (h : s.rejecting = some c') : d.phase c' = .load .abort := by
    have hc' := hs.rejecting c' h
    by_cases hne : c' = c
    · subst hne
      exact hstep.abort hc'
    · exact (hphase c' hne).trans hc'
  cases hstep with
  | keep hbefore hsame hafter =>
    rw [after_of_not_load hbefore]
    refine ⟨hlock, fun c' p hc' ↦ ?_, fun hmain hnone ↦ ?_, hothers⟩
    · have hne : c' ≠ c := by
        rintro rfl
        exact hafter p hc'
      exact progress_same hsame (hs.progress c' p ((hphase c' hne).symm.trans hc'))
    · have hnone' : ¬s.daemon.Loading := by
        rintro ⟨c', p, hc'⟩
        have hne : c' ≠ c := by
          rintro rfl
          exact hbefore p hc'
        exact hnone ⟨c', p, (hphase c' hne).trans hc'⟩
      exact showsLast_same hsame rfl
        (hs.settled ((hconfigured hmain).resolve_right hnone') hnone')
  | begin hbefore hsame hafter =>
    rw [after_of_not_load hbefore]
    refine ⟨hlock, fun c' p hc' ↦ ?_, fun _ hnone ↦ absurd ⟨c, _, hafter⟩ hnone, hothers⟩
    by_cases heq : c' = c
    · subst heq
      obtain rfl := Phase.load.inj (hafter.symm.trans hc')
      trivial
    · exact progress_same hsame (hs.progress c' p ((hphase c' heq).symm.trans hc'))
  | load p q hbefore hload hafter =>
    exact filesKept_load hs hlock hphase hothers hbefore hload hafter

/-- What one step of the daemon with its files can do. -/
inductive FilesStep (P : Platform) (s : Files) (a : Action) : Files → Prop
  | signal (d : State) (hplace : a.place = none) (hstep : step P s.daemon a = some d) :
    FilesStep P s a { s with daemon := d }
  | place (c : Place) (d : State) (hplace : a.place = some c)
    (hstep : step P s.daemon a = some d) : FilesStep P s a (s.after c d)

theorem stepFiles_cases {s s' : Files} {a : Action} (h : stepFiles P s a = some s') :
    FilesStep P s a s' := by
  obtain ⟨d, hstep, rfl⟩ := Option.map_eq_some_iff.mp h
  cases hplace : a.place with
  | none => exact .signal d hplace hstep
  | some c => exact .place c d hplace hstep

theorem main_configured {poll : Poll} {e : Env} {w w' : World} {p p' : MainPc}
    (h : main P poll e w p = some (w', p')) (hp' : p'.configured = true) :
    p.configured = true ∨ ∃ q, p = .load q := by
  cases main_cases h with
  | demonize | newConfig => exact nomatch hp'
  | load p | loaded p => exact .inr ⟨p, rfl⟩
  | _ => exact .inl rfl

/-- A step of a place leaves the other places with what they load. -/
theorem step_place {d d' : State} {a : Action} {c : Place} (hplace : a.place = some c)
    (hmain : c = .main → d.main ≠ .destroyCfg) (h : step P d a = some d') :
    (∀ c', c' ≠ c → d'.phase c' = d.phase c') ∧
      (d'.main.configured = true → d.main.configured = true ∨ d.Loading) ∧
      ∃ e, PlaceStep e d.world d'.world (d.phase c) (d'.phase c) := by
  cases a with
  | hup | int => cases hplace
  | main poll e =>
    obtain rfl := Option.some.inj hplace
    obtain ⟨-, -, w, p, hstep, rfl⟩ := step_main h
    refine ⟨fun c' hc' ↦ ?_, fun hp ↦ (main_configured hstep hp).imp_right ?_, e,
      main_placeStep hstep (hmain rfl)⟩
    · cases c' with
      | main => exact absurd rfl hc'
      | mainHook | server | serverHook => rfl
    · rintro ⟨q, hq⟩
      exact ⟨.main, q, by rw [State.phase, hq]; rfl⟩
  | mainHook e =>
    obtain rfl := Option.some.inj hplace
    obtain ⟨-, p, w, q, hp, hreload, rfl⟩ := step_mainHook h
    have hstep := reload_placeStep hreload
    refine ⟨fun c' hc' ↦ ?_, .inl, e, ?_⟩
    · cases c' with
      | mainHook => exact absurd rfl hc'
      | main | server | serverHook => rfl
    · simpa only [State.phase, hp, Option.elim_some] using hstep
  | server n e =>
    obtain rfl := Option.some.inj hplace
    obtain ⟨-, -, -, w, server, hserve, rfl⟩ := step_server h
    obtain ⟨_, _, _, _, _, _, _, _, _, _, rfl⟩ := serve_frame hserve
    refine ⟨fun c' _ ↦ ?_, ?_, e, ?_⟩
    · cases server <;> cases c' <;> rfl
    · cases server <;> exact .inl
    · cases server <;> exact .other ⟨_, rfl⟩
  | serverHook n e =>
    obtain rfl := Option.some.inj hplace
    obtain ⟨-, p, w, q, hp, hreload, rfl⟩ := step_serverHook h
    have hstep := reload_placeStep hreload
    refine ⟨fun c' hc' ↦ ?_, .inl, e, ?_⟩
    · cases c' with
      | main | mainHook | server => rfl
      | serverHook m =>
        have hmn : m ≠ n := fun hmn ↦ hc' (hmn ▸ rfl)
        simp only [State.phase, Function.update_of_ne hmn]
    · simpa only [State.phase, hp, Option.elim_some, Function.update_self] using hstep

/-- A signal leaves the configuration alone. -/
theorem step_signal {d d' : State} {a : Action} (hplace : a.place = none)
    (h : step P d a = some d') : d'.world.config = d.world.config ∧ d'.phase = d.phase ∧
      d'.main = d.main := by
  cases a with
  | main | mainHook | server | serverHook => exact nomatch hplace
  | hup t =>
    obtain ⟨-, htakes, rfl⟩ := step_hup h
    exact ⟨by cases t <;> rfl, phase_deliver htakes, by cases t <;> rfl⟩
  | int t =>
    obtain ⟨-, -, rfl⟩ := step_int h
    exact ⟨rfl, rfl, rfl⟩

theorem ne_destroyCfg {s : Files} {a : Action} {c : Place} (hok : BeforeDestroy s a)
    (hplace : a.place = some c) (hc : c = .main) : s.daemon.main ≠ .destroyCfg := by
  subst hc
  cases a with
  | main => exact hok
  | mainHook | server | serverHook | hup | int => cases hplace

theorem filesKept_step {s s' : Files} {a : Action} (hs : FilesKept s) (hok : BeforeDestroy s a)
    (h : stepFiles P s a = some s') : FilesKept s' := by
  cases stepFiles_cases h with
  | signal d hplace hstep =>
    obtain ⟨hconfig, hphase, hmain⟩ := step_signal hplace hstep
    refine ⟨configLock_step hs.lock hstep, fun c p ↦ ?_, fun hp hnone ↦ ?_, fun c hc ↦ ?_⟩
    · rw [hphase, hconfig]
      exact hs.progress c p
    · rw [State.Loading, hphase] at hnone
      exact showsLast_same ⟨_, hconfig⟩ rfl (hs.settled (hmain ▸ hp) hnone)
    · rw [hphase]
      exact hs.rejecting c hc
  | place c d hplace hstep =>
    obtain ⟨hphase, hconfigured, e, hplaceStep⟩ :=
      step_place hplace (ne_destroyCfg hok hplace) hstep
    exact filesKept_after hs (configLock_step hs.lock hstep) hphase hconfigured hplaceStep

theorem filesKept_initial (heap : Addr → Option Text) (sockets : ℤ → Option Socket)
    (arrays : ℕ → Http.Buffers) : FilesKept (.initial heap sockets arrays) where
  lock := configLock_initial heap sockets arrays
  progress c _ := by cases c <;> exact nofun
  settled := nofun
  rejecting := nofun

theorem observed_of_filesKept {s : Files} (hs : FilesKept s) : Observed P s where
  last c hc := by
    refine hs.settled ?_ (not_loading_of_reads hs.lock hc)
    by_contra hmain
    have hearly : s.daemon.main.early = true := by
      revert hmain
      cases s.daemon.main <;> simp [MainPc.configured, MainPc.early]
    exact not_holdsConfig_of_early hearly (hs.lock.early hearly) c hc.1
  stable c a s' hc hok h := by
    cases stepFiles_cases h with
    | signal d hplace hstep => exact ⟨rfl, _, (step_signal hplace hstep).1⟩
    | place c' d hplace hstep =>
      obtain ⟨-, -, e, hplaceStep⟩ := step_place hplace (ne_destroyCfg hok hplace) hstep
      cases hplaceStep with
      | keep hbefore hsame | begin hbefore hsame =>
        rw [after_of_not_load hbefore]
        exact ⟨rfl, hsame⟩
      | load p q hbefore =>
        exact absurd ⟨c', p, hbefore⟩ (not_loading_of_reads hs.lock hc)
  closed c c' hc hc' := by
    rcases loading_inside (hs.rejecting c hc) with hin | ⟨-, hearly⟩
    · exact hs.lock.sections.unique c' c hc' hin
    · exact absurd hc' (not_holdsConfig_of_early hearly (hs.lock.early hearly) c')

/-- In every run up to the end of `main`, whatever files are loaded and whenever, a critical section
of the configuration that loads no file finds all settings of the file accepted last, and none is
entered after a file has been rejected. -/
theorem observed_of_reach {heap : Addr → Option Text} {sockets : ℤ → Option Socket}
    {arrays : ℕ → Http.Buffers} {s : Files}
    (h : Reach (stepFiles P) BeforeDestroy (.initial heap sockets arrays) s) : Observed P s :=
  observed_of_filesKept (h.invariant FilesKept (filesKept_initial heap sockets arrays)
    fun _ _ _ ↦ filesKept_step)

def sampleFiles : Files := .initial (fun _ ↦ none) (fun _ ↦ none) fun _ ↦ ⟨[], [], [], []⟩

/-- A server thread reads its port after a reload with another one. -/
theorem observed_after_reload : ∃ s : Files,
    Reach (stepFiles samplePlatform) BeforeDestroy sampleFiles s ∧
      s.accepted = [sampleFile 1 8080 loopback, sampleFile 1 9090 loopback] ∧
      (s.daemon.servers 0).pc = .readPort ∧ Observed samplePlatform s := by
  have hrun : ∃ s, Reach (stepFiles samplePlatform) BeforeDestroy sampleFiles s ∧
      (s.accepted = [sampleFile 1 8080 loopback, sampleFile 1 9090 loopback] ∧
        (s.daemon.servers 0).pc = .readPort) :=
    exists_reach_of_runAll (mainSteps 33 ++ .hup .main ::
      (List.replicate 11 (.mainHook { sampleEnv with file := sampleFile 1 9090 loopback }) ++
        serverSteps 0 2)) (by decide +kernel)
  obtain ⟨s, hreach, haccepted, hpc⟩ := hrun
  exact ⟨s, hreach, haccepted, hpc, observed_of_reach hreach⟩

end Stored.Daemon
