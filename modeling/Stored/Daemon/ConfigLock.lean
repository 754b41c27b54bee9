import Stored.Daemon.Main

/-!
# The lock of the configuration in every run

Each of the main program, the hook on the main thread, the server threads and the hooks on them is
a place that may be inside a critical section of the configuration. Whatever SIGHUPs are taken, a
place that is inside holds the lock, and it is the only one.
-/

namespace Stored.Daemon

open Run

variable {P : Platform}

inductive Place where
  | main
  | mainHook
  | server (n : ℕ)
  | serverHook (n : ℕ)
  deriving DecidableEq

def Place.tid : Place → Tid
  | .main | .mainHook => .main
  | .server n | .serverHook n => .thread n

def MainPc.holdsConfig : MainPc → Bool
  | .start p => p.holdsConfig
  | .loop p => p.holdsConfig
  | _ => false

def State.holdsConfig (d : State) : Place → Prop
  | .main => d.main.holdsConfig = true
  | .mainHook => d.mainHook.any HookPc.holdsConfig = true
  | .server n => d.world.Alive n ∧ (d.servers n).pc.holdsConfig = true
  | .serverHook n => (d.serverHook n).any HookPc.holdsConfig = true

/-- The configuration has not been assigned to `core_config`. -/
def MainPc.early : MainPc → Bool
  | .demonize | .newConfig | .load _ | .assignConfig => true
  | _ => false

/-- Before the assignment of `core_config` there is no server thread, and a hook can do nothing. -/
structure Early (d : State) : Prop where
  coreConfig : d.world.coreConfig ≠ .live
  created : d.world.threads.created = 0
  mainHook : ∀ p, d.mainHook = some p → p = .lockConfig
  serverHook : ∀ n, d.serverHook n = none

structure ConfigLock (d : State) : Prop where
  early : d.main.early = true → Early d
  /-- threads that have not been made yet stand at their beginning -/
  unborn : ∀ n, d.world.threads.created ≤ n →
    (d.servers n).pc = .sigmask ∧ d.serverHook n = none
  sections : d.world.config.mutex.Sections Place.tid d.holdsConfig

theorem main_config {poll : Poll} {e : Env} {w w' : World} {p p' : MainPc}
    (h : main P poll e w p = some (w', p')) (hp : p ≠ .newConfig) :
    ConfigStep w w' .main p.holdsConfig p'.holdsConfig := by
  cases main_cases h with
  | newConfig => exact absurd rfl hp
  | start _ _ _ hstart | started _ _ hstart => exact startSrv_config hstart
  | loop _ _ _ hloop | left _ _ hloop => exact checkLoop_config hloop
  | stop _ _ _ hstop | stopped _ _ hstop | destroySrv _ _ _ hstop | stoppedAgain _ _ hstop =>
    obtain ⟨_, _, _, rfl⟩ := stopSrv_frame hstop
    exact .keep rfl nofun
  | load _ _ _ hload | loaded _ _ hload =>
    obtain ⟨_, _, _, rfl, -⟩ := loadFromFile_frame hload
    exact .keep rfl nofun
  | _ => exact .keep rfl nofun

/-- The main program ends no thread, and makes one only where `ST_start_srv` does. -/
theorem main_threads {poll : Poll} {e : Env} {w w' : World} {p p' : MainPc}
    (h : main P poll e w p = some (w', p')) :
    w'.threads.exited = w.threads.exited ∧ w.threads.created ≤ w'.threads.created ∧
      (p.early = true → w'.threads = w.threads) := by
  cases main_cases h with
  | start _ _ _ hstart | started _ _ hstart =>
    obtain ⟨_, _, _, _, _, _, _, _, _, rfl, -, hle⟩ := startSrv_frame hstart
    exact ⟨rfl, hle, nofun⟩
  | loop _ _ _ hloop | left _ _ hloop =>
    obtain ⟨_, _, _, _, _, _, _, _, rfl, -⟩ := checkLoop_frame hloop
    exact ⟨rfl, le_rfl, fun _ ↦ rfl⟩
  | stop _ _ _ hstop | stopped _ _ hstop | destroySrv _ _ _ hstop | stoppedAgain _ _ hstop =>
    obtain ⟨_, _, _, rfl⟩ := stopSrv_frame hstop
    exact ⟨rfl, le_rfl, fun _ ↦ rfl⟩
  | load _ _ _ hload | loaded _ _ hload =>
    obtain ⟨_, _, _, rfl, -⟩ := loadFromFile_frame hload
    exact ⟨rfl, le_rfl, fun _ ↦ rfl⟩
  | _ => exact ⟨rfl, le_rfl, fun _ ↦ rfl⟩

/-- A load makes no configuration live. -/
theorem loadFromFile_ne_live {e : Env} {w w' : World} {p : LoadPc} {q : Option LoadPc}
    (h : loadFromFile e w p = some (w', q)) (hlive : w.coreConfig ≠ .live) :
    w'.coreConfig ≠ .live := by
  cases loadFromFile_cases h with
  | readFails | lookupFails => exact w.destroyConfig_coreConfig_ne_live
  | _ => exact hlive

/-- Nothing comes back to the time before the assignment of `core_config`. -/
theorem main_early {poll : Poll} {e : Env} {w w' : World} {p p' : MainPc}
    (h : main P poll e w p = some (w', p')) (hp' : p'.early = true) :
    p.early = true ∧ (w.coreConfig ≠ .live → w'.coreConfig ≠ .live) := by
  cases main_cases h with
  | demonize | newConfig => exact ⟨rfl, id⟩
  | load _ _ _ hload | loaded _ _ hload => exact ⟨rfl, loadFromFile_ne_live hload⟩
  | _ => exact nomatch hp'

theorem not_holdsConfig_of_early {d : State} (hearly : d.main.early = true) (hd : Early d)
    (c : Place) : ¬d.holdsConfig c := by
  intro hin
  cases c with
  | main => cases hpc : d.main <;> simp [State.holdsConfig, hpc, MainPc.early,
      MainPc.holdsConfig] at hin hearly
  | mainHook =>
    cases hp : d.mainHook with
    | none => simp [State.holdsConfig, hp] at hin
    | some p =>
      obtain rfl := hd.mainHook p hp
      simp [State.holdsConfig, hp, HookPc.holdsConfig] at hin
  | server n => exact absurd hin.1.1 (by simp [hd.created])
  | serverHook n => simp [State.holdsConfig, hd.serverHook n] at hin

/-- A thread that is alive after a step of another one, and inside its section, was so before. -/
theorem holdsConfig_server {d : State} {w : World} {n : ℕ} (hd : ConfigLock d)
    (hin : w.Alive n ∧ (d.servers n).pc.holdsConfig = true)
    (hexited : w.threads.exited = d.world.threads.exited) : d.holdsConfig (.server n) := by
  refine ⟨⟨?_, hexited ▸ hin.1.2⟩, hin.2⟩
  by_contra hge
  rw [(hd.unborn n (not_lt.mp hge)).1] at hin
  exact nomatch hin.2

/-- A step of the hook on a thread. -/
theorem reload_live {t : Tid} {e : Env} {w w' : World} {p : HookPc} {q : Option HookPc}
    (h : reload P t e w p = some (w', q)) (hp : p = .lockConfig) : w.coreConfig = .live := by
  cases reload_cases h with
  | lockConfig hlive => exact hlive
  | _ => exact nomatch hp

theorem configLock_step {d d' : State} {a : Action} (hd : ConfigLock d)
    (h : step P d a = some d') : ConfigLock d' := by
  cases a with
  | main poll e =>
    obtain ⟨-, hhook, w, p, hmain, rfl⟩ := step_main h
    obtain ⟨hexited, hle, hthreads⟩ := main_threads hmain
    refine ⟨fun hp ↦ ?_, fun n hn ↦ hd.unborn n (hle.trans hn), ?_⟩
    · obtain ⟨hp₀, hlive⟩ := main_early hmain hp
      obtain ⟨hconfig, hcreated, hmainHook, hserverHook⟩ := hd.early hp₀
      exact ⟨hlive hconfig, by simpa [hthreads hp₀] using hcreated, hmainHook, hserverHook⟩
    · by_cases hnew : d.main = .newConfig
      · rw [hnew] at hmain
        obtain ⟨rfl, rfl⟩ := Prod.mk.inj (Option.some.inj hmain)
        have hnone := not_holdsConfig_of_early (by rw [hnew]; rfl) (hd.early (by rw [hnew]; rfl))
        have hafter (c : Place) :
            ¬State.holdsConfig { d with
              world := { d.world with config := { d.world.config with mutex := .free } },
              main := .load .destroy } c := by
          cases c with
          | main => exact nofun
          | mainHook => exact hnone .mainHook
          | server n => exact hnone (.server n)
          | serverHook n => exact hnone (.serverHook n)
        exact ⟨fun c hin ↦ absurd hin (hafter c), fun c _ hin ↦ absurd hin (hafter c)⟩
      · refine hd.sections.step (c := .main) (main_config hmain hnew) fun c hc hin ↦ ?_
        cases c with
        | main => exact absurd rfl hc
        | mainHook => exact hin
        | server n => exact holdsConfig_server hd hin hexited
        | serverHook n => exact hin
  | mainHook e =>
    obtain ⟨-, p, w, q, hp, hreload, rfl⟩ := step_mainHook h
    have hconfig := reload_config hreload
    have hlate : d.main.early = false := by
      by_contra hearly
      have hd' := hd.early (by simpa using hearly)
      exact hd'.coreConfig (reload_live hreload (hd'.mainHook p hp))
    obtain ⟨_, _, _, _, _, _, _, _, rfl, -, hle⟩ := reload_frame hreload
    refine ⟨fun hp ↦ absurd hp (by simp [hlate]), fun n hn ↦ hd.unborn n (hle.trans hn), ?_⟩
    refine hd.sections.step (c := .mainHook) ?_ fun c hc hin ↦ ?_
    · have hbefore : d.holdsConfig .mainHook = (p.holdsConfig = true) := by
        rw [State.holdsConfig, hp, Option.any_some]
      rw [hbefore]
      exact hconfig
    · cases c with
      | main => exact hin
      | mainHook => exact absurd rfl hc
      | server n => exact holdsConfig_server hd hin rfl
      | serverHook n => exact hin
  | server n e =>
    obtain ⟨-, halive, hhook, w, s, hserve, rfl⟩ := step_server h
    have hconfig := serve_config hserve
    have hlate : d.main.early = false := by
      by_contra hearly
      have hd' := hd.early (by simpa using hearly)
      exact absurd halive.1 (by simp [hd'.created])
    have hbefore : d.holdsConfig (.server n) = ((d.servers n).pc.holdsConfig = true) := by
      simp only [State.holdsConfig, halive, true_and]
    obtain ⟨_, _, _, _, _, _, _, _, _, _, rfl⟩ := serve_frame hserve
    cases s with
    | some s =>
      refine ⟨fun hp ↦ absurd hp (by simp [hlate]), fun m hm ↦ ?_, ?_⟩
      · have hmn : m ≠ n := fun hmn ↦ absurd halive.1 (hmn ▸ not_lt.mpr hm)
        simpa only [Function.update_of_ne hmn] using hd.unborn m hm
      refine hd.sections.step (c := .server n) ?_ fun c hc hin ↦ ?_
      · rw [hbefore]
        refine hconfig.congr Iff.rfl ⟨fun hs ↦ ?_, fun hs ↦ ⟨halive, ?_⟩⟩
        · simpa only [Function.update_self, Option.any_some] using hs.2
        · simpa only [Function.update_self, Option.any_some] using hs
      · cases c with
        | main | mainHook | serverHook => exact hin
        | server m =>
          have hmn : m ≠ n := fun hmn ↦ hc (hmn ▸ rfl)
          exact ⟨hin.1, by simpa only [Function.update_of_ne hmn] using hin.2⟩
    | none =>
      refine ⟨fun hp ↦ absurd hp (by simp [hlate]), hd.unborn, ?_⟩
      refine hd.sections.step (c := .server n) ?_ fun c hc hin ↦ ?_
      · rw [hbefore]
        refine hconfig.congr Iff.rfl ⟨fun hs ↦ ?_, fun hs ↦ by cases hs⟩
        exact absurd hs.1.2 (by simp [World.exitThread])
      · cases c with
        | main | mainHook | serverHook => exact hin
        | server m =>
          have hmn : m ≠ n := fun hmn ↦ hc (hmn ▸ rfl)
          refine ⟨⟨hin.1.1, ?_⟩, hin.2⟩
          exact (Function.update_of_ne hmn _ _).symm.trans hin.1.2
  | serverHook n e =>
    obtain ⟨-, p, w, q, hp, hreload, rfl⟩ := step_serverHook h
    have hconfig := reload_config hreload
    have hlate : d.main.early = false := by
      by_contra hearly
      have hd' := hd.early (by simpa using hearly)
      cases (hd'.serverHook n).symm.trans hp
    obtain ⟨_, _, _, _, _, _, _, _, rfl, -, hle⟩ := reload_frame hreload
    refine ⟨fun hp ↦ absurd hp (by simp [hlate]), fun m hm ↦ ?_, ?_⟩
    · have hmn : m ≠ n := by
        rintro rfl
        cases (hd.unborn m (hle.trans hm)).2.symm.trans hp
      simpa only [Function.update_of_ne hmn] using hd.unborn m (hle.trans hm)
    refine hd.sections.step (c := .serverHook n) ?_ fun c hc hin ↦ ?_
    · refine hconfig.congr ?_ ?_
      · rw [State.holdsConfig, hp, Option.any_some]
      · simp only [State.holdsConfig, Function.update_self]
    · cases c with
      | main | mainHook => exact hin
      | server m => exact holdsConfig_server hd hin rfl
      | serverHook m =>
        have hmn : m ≠ n := fun hmn ↦ hc (hmn ▸ rfl)
        simpa only [State.holdsConfig, Function.update_of_ne hmn] using hin
  | hup t =>
    obtain ⟨-, htakes, rfl⟩ := step_hup h
    cases t with
    | main =>
      refine ⟨fun hp ↦ ?_, hd.unborn, hd.sections.mono fun c hin ↦ ?_⟩
      · obtain ⟨hconfig, hcreated, -, hserverHook⟩ := hd.early hp
        exact ⟨hconfig, hcreated, fun p hp ↦ (Option.some.inj hp).symm, hserverHook⟩
      · cases c with
        | mainHook => cases hin
        | main | server | serverHook => exact hin
    | thread n =>
      refine ⟨fun hp ↦ ?_, fun m hm ↦ ?_, hd.sections.mono fun c hin ↦ ?_⟩
      · exact absurd htakes.1.1 (by simp [(hd.early hp).created])
      · have hmn : m ≠ n := fun hmn ↦ absurd htakes.1.1 (hmn ▸ not_lt.mpr hm)
        simpa only [State.deliver, Function.update_of_ne hmn] using hd.unborn m hm
      · cases c with
        | main | mainHook | server => exact hin
        | serverHook m =>
          by_cases hmn : m = n
          · subst hmn
            simp [State.holdsConfig, State.deliver, HookPc.holdsConfig] at hin
          · simpa only [State.holdsConfig, State.deliver, Function.update_of_ne hmn] using hin
  | int t =>
    obtain ⟨-, -, rfl⟩ := step_int h
    refine ⟨fun hp ↦ ?_, hd.unborn, hd.sections⟩
    exact ⟨(hd.early hp).coreConfig, (hd.early hp).created, (hd.early hp).mainHook,
      (hd.early hp).serverHook⟩

theorem configLock_initial (heap : Addr → Option Text) (sockets : ℤ → Option Socket)
    (arrays : ℕ → Http.Buffers) : ConfigLock (.initial heap sockets arrays) where
  early _ := ⟨nofun, rfl, nofun, fun _ ↦ rfl⟩
  unborn _ _ := ⟨rfl, rfl⟩
  sections := by
    have hnone (c : Place) : ¬(State.initial heap sockets arrays).holdsConfig c := by
      cases c with
      | main | mainHook | serverHook => exact nofun
      | server n => exact fun hin ↦ absurd hin.1.1 (Nat.not_lt_zero n)
    exact ⟨fun c hin ↦ absurd hin (hnone c), fun c _ hin ↦ absurd hin (hnone c)⟩

/-- In every run, whatever SIGHUPs are taken, no two places are inside a critical section of the
configuration. -/
theorem configLock_of_reach {ok : State → Action → Prop} {heap : Addr → Option Text}
    {sockets : ℤ → Option Socket} {arrays : ℕ → Http.Buffers} {d : State}
    (h : Reach (step P) ok (.initial heap sockets arrays) d) : ConfigLock d :=
  h.invariant ConfigLock (configLock_initial heap sockets arrays) fun _ _ _ hd _ ↦
    configLock_step hd

end Stored.Daemon
