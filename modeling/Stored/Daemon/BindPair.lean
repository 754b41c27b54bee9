import Stored.Daemon.ConfigLock

/-!
# The address and the port of a server thread

`ST_start_srv` reads the address of a new server thread, and the thread itself reads its port in a
critical section of its own. Both come from one configuration if no reload takes the lock of the
configuration between the two reads, and no start overwrites the static `address` between the
second one and `bind`.
-/

namespace Stored.Daemon

open Run

variable {P : Platform}

/-- What a place other than a server thread does to the pair: it loads a configuration, or it has
read an address and has not made its thread. -/
inductive Phase where
  | load (p : LoadPc)
  | pending
  | other
  deriving DecidableEq

def StartPc.phase : StartPc → Phase
  | .unlockAddress | .testAddress | .lockMxq | .create => .pending
  | _ => .other

def HookPc.phase : HookPc → Phase
  | .load p => .load p
  | .start p => p.phase
  | _ => .other

def MainPc.phase : MainPc → Phase
  | .load p => .load p
  | .start p => p.phase
  | _ => .other

def State.phase (d : State) : Place → Phase
  | .main => d.main.phase
  | .mainHook => d.mainHook.elim .other HookPc.phase
  | .server _ => .other
  | .serverHook n => (d.serverHook n).elim .other HookPc.phase

/-- The thread has not read its port. -/
def ServePc.unread : ServePc → Bool
  | .sigmask | .lockConfig | .readPort => true
  | _ => false

/-- The thread has read its port and has not bound its socket. -/
def ServePc.binding : ServePc → Bool
  | .unlockConfig | .socket | .bind => true
  | _ => false

/-- When a server thread calls `bind`, its address and its port are of one configuration. -/
def PairsBound (d : State) : Prop :=
  ∀ n, d.world.Alive n → (d.servers n).pc = .bind →
    (d.servers n).portno.version = d.world.srv.address.version

/-- No server thread is to read its port: none is made with an address that has been read, and
none has still to read. -/
def NonePending (d : State) : Prop :=
  d.phase .main ≠ .pending ∧ d.phase .mainHook ≠ .pending ∧
    ∀ n < d.world.threads.created, d.phase (.serverHook n) ≠ .pending ∧
      ¬(d.world.Alive n ∧ (d.servers n).pc.unread = true)

/-- No server thread is between the read of its port and `bind`. -/
def NoneBinding (d : State) : Prop :=
  ∀ n < d.world.threads.created, ¬(d.world.Alive n ∧ (d.servers n).pc.binding = true)

instance (d : State) : Decidable (NonePending d) := inferInstanceAs (Decidable (_ ∧ _ ∧ _))

instance (d : State) : Decidable (NoneBinding d) := inferInstanceAs (Decidable (∀ n < _, _))

/-- A hook takes the lock to load while no thread is to read its port, and reads an address while
none is to bind. -/
def HookPaired (d : State) (p : Option HookPc) : Prop :=
  (p = some .lockConfig → NonePending d) ∧ (p = some (.start .readAddress) → NoneBinding d)

def ReadsPaired (d : State) : Action → Prop
  | .main _ _ => d.main = .start .readAddress → NoneBinding d
  | .mainHook _ => HookPaired d d.mainHook
  | .serverHook n _ => HookPaired d (d.serverHook n)
  | _ => True

instance (d : State) (p : Option HookPc) : Decidable (HookPaired d p) :=
  inferInstanceAs (Decidable (_ ∧ _))

instance (d : State) : (a : Action) → Decidable (ReadsPaired d a)
  | .main _ _ => inferInstanceAs (Decidable (_ → NoneBinding d))
  | .mainHook _ | .serverHook _ _ => inferInstanceAs (Decidable (HookPaired d _))
  | .server _ _ | .hup _ | .int _ => inferInstanceAs (Decidable True)

def SameFields (w w' : World) : Prop :=
  w'.config.httpPort = w.config.httpPort ∧ w'.config.httpBindAddress = w.config.httpBindAddress ∧
    w'.config.version = w.config.version

/-- The port and the address of the configuration are of one file. -/
def Settled (w : World) : Prop :=
  w.config.httpPort.version = w.config.httpBindAddress.version

/-- The last lookup of a load finds the port of its file. -/
def LastLookup (w : World) (p : Phase) : Prop :=
  p = .load (.lookup .bindAddr) → w.config.httpPort.version = w.config.version

inductive PairStep (w w' : World) (before after : Phase) : Prop
  | keep (hfields : SameFields w w') (haddress : w'.srv.address = w.srv.address)
    (hcreated : w'.threads.created = w.threads.created) (hbefore : ∀ p, before ≠ .load p)
    (hafter : after = before ∨ after = .other)
  | begin (hfields : SameFields w w') (haddress : w'.srv.address = w.srv.address)
    (hcreated : w'.threads.created = w.threads.created) (hbefore : before = .other)
    (hafter : after = .load .destroy)
  | load (p : LoadPc) (haddress : w'.srv.address = w.srv.address)
    (hcreated : w'.threads.created = w.threads.created) (hbefore : before = .load p)
    (hlast : LastLookup w before → LastLookup w' after)
    (hafter : LastLookup w before → (∀ q, after ≠ .load q) → Settled w') (hother : after ≠ .pending)
  | readAddress (hfields : SameFields w w')
    (haddress : w'.srv.address.version = w.config.httpBindAddress.version)
    (hcreated : w'.threads.created = w.threads.created) (hbefore : before = .other)
    (hafter : after = .pending)
  | create (hfields : SameFields w w') (haddress : w'.srv.address = w.srv.address)
    (hbefore : before = .pending) (hafter : after = .other)

theorem startSrv_pairStep {t : Tid} {b : Bool} {e : Env} {w w' : World} {p : StartPc}
    {q : Option StartPc} (h : startSrv P t b e w p = some (w', q)) :
    PairStep w w' p.phase (q.elim .other StartPc.phase) := by
  have hsame : SameFields w w := ⟨rfl, rfl, rfl⟩
  cases startSrv_cases h with
  | readAddress => exact .readAddress hsame rfl rfl rfl rfl
  | create | createFails => exact .create hsame rfl rfl rfl
  | badAddress => exact .keep hsame rfl rfl nofun (.inr rfl)
  | _ => exact .keep hsame rfl rfl nofun (.inl rfl)

theorem stopSrv_pairStep {t : Tid} {w w' : World} {p : StopPc} {q : Option StopPc}
    (h : stopSrv t w p = some (w', q)) : PairStep w w' .other .other := by
  obtain ⟨_, _, _, rfl⟩ := stopSrv_frame h
  exact .keep ⟨rfl, rfl, rfl⟩ rfl rfl nofun (.inl rfl)

theorem loadFromFile_pairStep {e : Env} {w w' : World} {p : LoadPc} {q : Option LoadPc}
    (h : loadFromFile e w p = some (w', q)) :
    PairStep w w' (.load p) (q.elim .other .load) := by
  cases loadFromFile_cases h with
  | destroy | read | readFails | lookupFails | abort =>
    exact .load _ rfl rfl rfl (fun _ ↦ nofun) (fun _ hq ↦ absurd rfl (hq _)) nofun
  | lookup s file c hfile hlookup =>
    cases s <;> obtain ⟨v, -, rfl⟩ := Option.map_eq_some_iff.mp hlookup
    case port => exact .load _ rfl rfl rfl (fun _ _ ↦ rfl) (fun _ hq ↦ absurd rfl (hq _)) nofun
    case bindAddr => exact .load _ rfl rfl rfl (fun _ ↦ nofun) (fun hlast _ ↦ hlast rfl) nofun
    all_goals exact .load _ rfl rfl rfl (fun _ ↦ nofun) (fun _ hq ↦ absurd rfl (hq _)) nofun

theorem reload_pairStep {t : Tid} {e : Env} {w w' : World} {p : HookPc} {q : Option HookPc}
    (h : reload P t e w p = some (w', q)) :
    PairStep w w' p.phase (q.elim .other HookPc.phase) := by
  cases reload_cases h with
  | lockConfig => exact .begin ⟨rfl, rfl, rfl⟩ rfl rfl rfl rfl
  | load _ _ _ hload | loaded _ _ hload => exact loadFromFile_pairStep hload
  | unlockConfig => exact .keep ⟨rfl, rfl, rfl⟩ rfl rfl nofun (.inl rfl)
  | stop _ _ _ hstop | stopped _ _ hstop => exact stopSrv_pairStep hstop
  | start _ _ _ hstart | started _ _ hstart => exact startSrv_pairStep hstart

theorem main_pairStep {poll : Poll} {e : Env} {w w' : World} {p p' : MainPc}
    (h : main P poll e w p = some (w', p')) : PairStep w w' p.phase p'.phase := by
  cases main_cases h with
  | newConfig => exact .begin ⟨rfl, rfl, rfl⟩ rfl rfl rfl rfl
  | load _ _ _ hload | loaded _ _ hload => exact loadFromFile_pairStep hload
  | start _ _ _ hstart | started _ _ hstart => exact startSrv_pairStep hstart
  | stop _ _ _ hstop | stopped _ _ hstop | destroySrv _ _ _ hstop | stoppedAgain _ _ hstop =>
    exact stopSrv_pairStep hstop
  | loop _ _ _ hloop | left _ _ hloop =>
    obtain ⟨_, _, _, _, _, _, _, _, rfl, -⟩ := checkLoop_frame hloop
    exact .keep ⟨rfl, rfl, rfl⟩ rfl rfl nofun (.inl rfl)
  | _ => exact .keep ⟨rfl, rfl, rfl⟩ rfl rfl nofun (.inl rfl)

/-- A server thread reads its port once, from unread to binding. -/
theorem serve_pair {n : ℕ} {e : Env} {w w' : World} {s s' : Server}
    (h : serve n e w s = some (w', some s')) :
    (s'.pc.unread = true → s.pc.unread = true) ∧
      (s'.pc.binding = true → (s.pc.unread = true ∧ s'.portno = w.config.httpPort) ∨
        (s.pc.binding = true ∧ s'.portno = s.portno)) := by
  cases serve_cases h with
  | sigmask hpc | lockConfig hpc | readPort hpc | unlockConfig hpc | socket hpc =>
    simp [hpc, ServePc.unread, ServePc.binding]
  | abort | headers =>
    exact ⟨id, fun hbinding ↦ .inr ⟨hbinding, rfl⟩⟩
  | request p b held hpc hp =>
    rcases hp with rfl | rfl | rfl <;> exact ⟨nofun, nofun⟩
  | close ok =>
    cases ok <;> exact ⟨nofun, nofun⟩
  | _ =>
    exact ⟨nofun, nofun⟩

/-- A hook that begins loads nothing yet. -/
theorem phase_deliver {d : State} {t : Tid} (htakes : d.TakesHup t) :
    (d.deliver t).phase = d.phase := by
  funext c
  cases t with
  | main =>
    have hnone : d.mainHook = none := htakes
    cases c with
    | mainHook =>
      simp only [State.phase, State.deliver, hnone]
      rfl
    | main | server | serverHook => rfl
  | thread n =>
    cases c with
    | main | mainHook | server => rfl
    | serverHook m =>
      by_cases hmn : m = n
      · subst hmn
        simp only [State.phase, State.deliver, Function.update_self, htakes.2.1]
        rfl
      · simp only [State.phase, State.deliver, Function.update_of_ne hmn]

def State.Unread (d : State) (n : ℕ) : Prop := d.world.Alive n ∧ (d.servers n).pc.unread = true

def State.Binding (d : State) (n : ℕ) : Prop := d.world.Alive n ∧ (d.servers n).pc.binding = true

/-- Some thread is to read its port. -/
def State.Pending (d : State) : Prop := (∃ c, d.phase c = .pending) ∨ ∃ n, d.Unread n

def State.Loading (d : State) : Prop := ∃ c p, d.phase c = .load p

structure Paired (d : State) : Prop where
  settled : ¬d.Loading → Settled d.world
  last : ∀ c, LastLookup d.world (d.phase c)
  pending : d.Pending → ¬d.Loading ∧
    d.world.srv.address.version = d.world.config.httpPort.version
  binding : ∀ n, d.Binding n → (d.servers n).portno.version = d.world.srv.address.version

theorem not_pending_of_nonePending {d : State} (hlock : ConfigLock d) (h : NonePending d) :
    ¬d.Pending := by
  obtain ⟨hmain, hhook, hthreads⟩ := h
  rintro (⟨c, hc⟩ | ⟨n, hn⟩)
  · cases c with
    | main => exact hmain hc
    | mainHook => exact hhook hc
    | server n => exact nomatch hc
    | serverHook n =>
      by_cases hlt : n < d.world.threads.created
      · exact (hthreads n hlt).1 hc
      · simp [State.phase, (hlock.unborn n (not_lt.mp hlt)).2] at hc
  · exact (hthreads n hn.1.1).2 hn

/-- A place that loads a configuration is the only one, or `main` before there is another one. -/
theorem loading_inside {d : State} {c : Place} {p : LoadPc}
    (hc : d.phase c = .load p) : d.holdsConfig c ∨ (c = .main ∧ d.main.early = true) := by
  cases c with
  | main =>
    refine .inr ⟨rfl, ?_⟩
    cases hmain : d.main with
    | load => rfl
    | start q => cases q <;> simp [State.phase, hmain, MainPc.phase, StartPc.phase] at hc
    | _ => simp [State.phase, hmain, MainPc.phase] at hc
  | mainHook =>
    cases hhook : d.mainHook with
    | none => simp [State.phase, hhook] at hc
    | some q =>
      cases q with
      | load => simp [State.holdsConfig, hhook, HookPc.holdsConfig]
      | start q => cases q <;> simp [State.phase, hhook, HookPc.phase, StartPc.phase] at hc
      | _ => simp [State.phase, hhook, HookPc.phase] at hc
  | server n => cases hc
  | serverHook n =>
    cases hhook : d.serverHook n with
    | none => simp [State.phase, hhook] at hc
    | some q =>
      cases q with
      | load => simp [State.holdsConfig, hhook, HookPc.holdsConfig]
      | start q => cases q <;> simp [State.phase, hhook, HookPc.phase, StartPc.phase] at hc
      | _ => simp [State.phase, hhook, HookPc.phase] at hc

/-- A place that loads a configuration, or is inside a section of it, is the only one that loads. -/
theorem loading_unique {d : State} (hlock : ConfigLock d) {c c' : Place} {p : LoadPc}
    (hc : d.holdsConfig c ∨ (c = .main ∧ d.main.early = true)) (hc' : d.phase c' = .load p) :
    c' = c := by
  rcases hc with hin | ⟨rfl, hearly⟩ <;>
    rcases loading_inside hc' with hin' | ⟨rfl, hearly'⟩
  · exact hlock.sections.unique _ _ hin' hin
  · exact absurd hin (not_holdsConfig_of_early hearly' (hlock.early hearly') c)
  · exact absurd hin' (not_holdsConfig_of_early hearly (hlock.early hearly) c')
  · rfl

/-- A step of a place other than a server thread. -/
theorem paired_place {d d' : State} {c : Place} (hd : Paired d) (hlock : ConfigLock d)
    (hphase : ∀ c', c' ≠ c → d'.phase c' = d.phase c') (hservers : d'.servers = d.servers)
    (hexited : d'.world.threads.exited = d.world.threads.exited)
    (hstep : PairStep d.world d'.world (d.phase c) (d'.phase c))
    (hbegin : d.phase c = .other → d'.phase c = .load .destroy → ¬d.Pending)
    (hread : d.phase c = .other → d'.phase c = .pending → NoneBinding d ∧ ¬d.Loading) :
    Paired d' := by
  have halive (n : ℕ) (hn : d'.world.Alive n) :
      d.world.Alive n ∨ (d'.servers n).pc = .sigmask := by
    by_cases hlt : n < d.world.threads.created
    · exact .inl ⟨hlt, hexited ▸ hn.2⟩
    · exact .inr (hservers ▸ (hlock.unborn n (not_lt.mp hlt)).1)
  have halive' (hcreated : d'.world.threads.created = d.world.threads.created) (n : ℕ)
      (hn : d'.world.Alive n) : d.world.Alive n := ⟨hcreated ▸ hn.1, hexited ▸ hn.2⟩
  have hbinding (haddress : d'.world.srv.address = d.world.srv.address) (n : ℕ)
      (hn : d'.Binding n) : (d'.servers n).portno.version = d'.world.srv.address.version := by
    rcases halive n hn.1 with hn' | hpc
    · rw [hservers, haddress]
      exact hd.binding n ⟨hn', hservers ▸ hn.2⟩
    · exact absurd hn.2 (by simp [hpc, ServePc.binding])
  have hlast (hfields : SameFields d.world d'.world) (c' : Place) (hc : c' ≠ c) :
      LastLookup d'.world (d'.phase c') := by
    intro hlookup
    rw [hfields.1, hfields.2.2]
    exact hd.last c' (hphase c' hc ▸ hlookup)
  have hsettled (hfields : SameFields d.world d'.world) (h : Settled d.world) :
      Settled d'.world := by
    rw [Settled, hfields.1, hfields.2.1]
    exact h
  have hnoload (hafter : ∀ p, d'.phase c ≠ .load p) (h : ¬d.Loading) : ¬d'.Loading := by
    rintro ⟨c', p, hc'⟩
    by_cases hcc : c' = c
    · exact hafter p (hcc ▸ hc')
    · exact h ⟨c', p, hphase c' hcc ▸ hc'⟩
  cases hstep with
  | keep hfields haddress hcreated hbefore hafter =>
    have hafter' (p : LoadPc) : d'.phase c ≠ .load p := by
      rcases hafter with h | h <;> rw [h]
      · exact hbefore p
      · exact nofun
    refine ⟨fun hload ↦ hsettled hfields (hd.settled ?_), fun c' ↦ ?_, ?_, hbinding haddress⟩
    · rintro ⟨c', p, hc'⟩
      by_cases hcc : c' = c
      · exact hbefore p (hcc ▸ hc')
      · exact hload ⟨c', p, (hphase c' hcc).trans hc'⟩
    · by_cases hcc : c' = c
      · exact fun h ↦ absurd (hcc ▸ h) (hafter' _)
      · exact hlast hfields c' hcc
    · intro hpending
      have hpending' : d.Pending := by
        rcases hpending with ⟨c', hc'⟩ | ⟨n, hn⟩
        · by_cases hcc : c' = c
          · subst hcc
            rcases hafter with h | h
            · exact .inl ⟨c', h ▸ hc'⟩
            · exact nomatch h.symm.trans hc'
          · exact .inl ⟨c', hphase c' hcc ▸ hc'⟩
        · exact .inr ⟨n, halive' hcreated n hn.1, hservers ▸ hn.2⟩
      obtain ⟨hload, heq⟩ := hd.pending hpending'
      exact ⟨hnoload hafter' hload, by rw [haddress, hfields.1, heq]⟩
  | begin hfields haddress hcreated hbefore hafter =>
    refine ⟨fun hload ↦ absurd ⟨c, _, hafter⟩ hload, fun c' ↦ ?_, fun hpending ↦ ?_,
      hbinding haddress⟩
    · by_cases hcc : c' = c
      · subst hcc
        rw [hafter]
        exact nofun
      · exact hlast hfields c' hcc
    · refine absurd ?_ (hbegin hbefore hafter)
      rcases hpending with ⟨c', hc'⟩ | ⟨n, hn⟩
      · by_cases hcc : c' = c
        · subst hcc
          exact nomatch hafter.symm.trans hc'
        · exact .inl ⟨c', hphase c' hcc ▸ hc'⟩
      · exact .inr ⟨n, halive' hcreated n hn.1, hservers ▸ hn.2⟩
  | load p haddress hcreated hbefore hlast' hafter hother =>
    have honly {c' : Place} {q : LoadPc} (hc' : d.phase c' = .load q) : c' = c :=
      loading_unique hlock (loading_inside hbefore) hc'
    refine ⟨fun hload ↦ hafter (hd.last c) fun q hq ↦ hload ⟨c, q, hq⟩, fun c' ↦ ?_,
      fun hpending ↦ ?_, hbinding haddress⟩
    · by_cases hcc : c' = c
      · exact hcc ▸ hlast' (hd.last c)
      · exact fun h ↦ absurd (honly (hphase c' hcc ▸ h)) hcc
    · have hpending' : d.Pending := by
        rcases hpending with ⟨c', hc'⟩ | ⟨n, hn⟩
        · by_cases hcc : c' = c
          · exact absurd (hcc ▸ hc') hother
          · exact .inl ⟨c', hphase c' hcc ▸ hc'⟩
        · exact .inr ⟨n, halive' hcreated n hn.1, hservers ▸ hn.2⟩
      exact absurd ⟨c, p, hbefore⟩ (hd.pending hpending').1
  | readAddress hfields haddress hcreated hbefore hafter =>
    obtain ⟨hnone, hload⟩ := hread hbefore hafter
    have hload' : ¬d'.Loading := hnoload (by rw [hafter]; exact nofun) hload
    refine ⟨fun _ ↦ hsettled hfields (hd.settled hload), fun c' hc' ↦ absurd ⟨c', _, hc'⟩ hload',
      fun _ ↦ ⟨hload', ?_⟩, fun n hn ↦ ?_⟩
    · rw [haddress, hfields.1]
      exact (hd.settled hload).symm
    · have hn' := halive' hcreated n hn.1
      exact absurd ⟨hn', hservers ▸ hn.2⟩ (hnone n hn'.1)
  | create hfields haddress hbefore hafter =>
    obtain ⟨hload, heq⟩ := hd.pending (.inl ⟨c, hbefore⟩)
    have hload' : ¬d'.Loading := hnoload (by rw [hafter]; exact nofun) hload
    exact ⟨fun _ ↦ hsettled hfields (hd.settled hload), fun c' hc' ↦ absurd ⟨c', _, hc'⟩ hload',
      fun _ ↦ ⟨hload', by rw [haddress, hfields.1, heq]⟩, hbinding haddress⟩

theorem startSrv_reads {t : Tid} {b : Bool} {e : Env} {w w' : World} {p q : StartPc}
    (h : startSrv P t b e w p = some (w', some q)) (hp : p.phase = .other)
    (hq : q.phase = .pending) : p = .readAddress := by
  cases startSrv_cases h with
  | readAddress => rfl
  | unlockAddress | badAddress | testAddress | lockMxq | create | createFails => exact nomatch hp
  | _ =>
    exact nomatch hq

theorem reload_begins {t : Tid} {e : Env} {w w' : World} {p : HookPc} {q : Option HookPc}
    (h : reload P t e w p = some (w', q)) (hp : p.phase = .other) :
    (q.elim .other HookPc.phase = .load .destroy → p = .lockConfig) ∧
      (q.elim .other HookPc.phase = .pending → p = .start .readAddress) := by
  cases reload_cases h with
  | lockConfig => exact ⟨fun _ ↦ rfl, nofun⟩
  | load | loaded => exact nomatch hp
  | start _ _ q hstart =>
    refine ⟨fun hq ↦ ?_, fun hq ↦ congrArg _ (startSrv_reads hstart hp hq)⟩
    cases q <;> exact nomatch hq
  | _ => exact ⟨nofun, nofun⟩

theorem main_begins {poll : Poll} {e : Env} {w w' : World} {p p' : MainPc}
    (h : main P poll e w p = some (w', p')) (hp : p.phase = .other) :
    (p'.phase = .load .destroy → p.early = true) ∧
      (p'.phase = .pending → p = .start .readAddress) := by
  constructor
  · intro hp'
    refine (main_early h ?_).1
    cases p' with
    | load => rfl
    | start q => cases q <;> exact nomatch hp'
    | _ => exact nomatch hp'
  · intro hp'
    cases main_cases h with
    | start _ _ _ hstart => exact congrArg _ (startSrv_reads hstart hp hp')
    | load => exact nomatch hp
    | _ => exact nomatch hp'

theorem not_pending_of_early {d : State} (hd : Early d) (hmain : d.main.phase = .other) :
    ¬d.Pending := by
  rintro (⟨c, hc⟩ | ⟨n, hn⟩)
  · cases c with
    | main => exact nomatch hmain.symm.trans hc
    | mainHook =>
      cases hhook : d.mainHook with
      | none => simp [State.phase, hhook] at hc
      | some p =>
        obtain rfl := hd.mainHook p hhook
        simp [State.phase, hhook, HookPc.phase] at hc
    | server n => exact nomatch hc
    | serverHook n => simp [State.phase, hd.serverHook n] at hc
  · exact absurd hn.1.1 (by simp [hd.created])

/-- Nothing loads while a place that does not load is inside a section. -/
theorem not_loading_of_inside {d : State} (hlock : ConfigLock d) {c : Place}
    (hin : d.holdsConfig c) (hc : d.phase c = .other) : ¬d.Loading := by
  rintro ⟨c', p, hc'⟩
  obtain rfl := loading_unique hlock (.inl hin) hc'
  exact nomatch hc.symm.trans hc'

theorem paired_server {d : State} {n : ℕ} {e : Env} {w : World} {s : Server} (hd : Paired d)
    (halive : d.world.Alive n) (h : serve n e d.world (d.servers n) = some (w, some s)) :
    Paired { d with world := w, servers := Function.update d.servers n s } := by
  obtain ⟨hunread, hbinding⟩ := serve_pair h
  obtain ⟨_, _, _, _, _, _, _, _, _, _, rfl⟩ := serve_frame h
  refine ⟨hd.settled, hd.last, fun hpending ↦ hd.pending ?_, fun m hm ↦ ?_⟩
  · rcases hpending with hc | ⟨m, hm⟩
    · exact .inl hc
    · by_cases hmn : m = n
      · subst hmn
        refine .inr ⟨m, halive, hunread ?_⟩
        simpa only [State.Unread, Function.update_self] using hm.2
      · refine .inr ⟨m, hm.1, ?_⟩
        simpa only [State.Unread, Function.update_of_ne hmn] using hm.2
  · by_cases hmn : m = n
    · subst hmn
      have hpc : s.pc.binding = true := by
        simpa only [State.Binding, Function.update_self] using hm.2
      simp only [Function.update_self]
      rcases hbinding hpc with ⟨hbefore, hport⟩ | ⟨hbefore, hport⟩
      · rw [hport]
        exact (hd.pending (.inr ⟨m, halive, hbefore⟩)).2.symm
      · rw [hport]
        exact hd.binding m ⟨halive, hbefore⟩
    · simp only [Function.update_of_ne hmn]
      refine hd.binding m ⟨hm.1, ?_⟩
      simpa only [State.Binding, Function.update_of_ne hmn] using hm.2

theorem paired_step {d d' : State} {a : Action} (hlock : ConfigLock d) (hd : Paired d)
    (hok : ReadsPaired d a) (h : step P d a = some d') : Paired d' := by
  cases a with
  | main poll e =>
    obtain ⟨-, hhook, w, p, hmain, rfl⟩ := step_main h
    refine paired_place (c := .main) hd hlock (fun c hc ↦ ?_) rfl (main_threads hmain).1
      (main_pairStep hmain) (fun hother hload ↦ ?_) fun hother hpending ↦ ?_
    · cases c with
      | main => exact absurd rfl hc
      | mainHook | server | serverHook => rfl
    · exact not_pending_of_early (hlock.early ((main_begins hmain hother).1 hload)) hother
    · have hread := (main_begins hmain hother).2 hpending
      refine ⟨hok hread, not_loading_of_inside (c := .main) hlock ?_ hother⟩
      rw [State.holdsConfig, hread]
      rfl
  | mainHook e =>
    obtain ⟨-, p, w, q, hp, hreload, rfl⟩ := step_mainHook h
    have hphase : d.phase .mainHook = p.phase := by rw [State.phase, hp]; rfl
    have hstep := reload_pairStep hreload
    rw [← hphase] at hstep
    have hexited : w.threads.exited = d.world.threads.exited := reload_exited hreload
    refine paired_place (c := .mainHook) hd hlock (fun c hc ↦ ?_) rfl hexited hstep
      (fun hother hload ↦ ?_) fun hother hpending ↦ ?_
    · cases c with
      | mainHook => exact absurd rfl hc
      | main | server | serverHook => rfl
    · have hbegin := (reload_begins hreload (hphase ▸ hother)).1 hload
      exact not_pending_of_nonePending hlock (hok.1 (hbegin ▸ hp))
    · have hread := (reload_begins hreload (hphase ▸ hother)).2 hpending
      refine ⟨hok.2 (hread ▸ hp), not_loading_of_inside (c := .mainHook) hlock ?_ hother⟩
      rw [State.holdsConfig, hp, hread]
      rfl
  | serverHook n e =>
    obtain ⟨-, p, w, q, hp, hreload, rfl⟩ := step_serverHook h
    have hphase : d.phase (.serverHook n) = p.phase := by rw [State.phase, hp]; rfl
    have hstep := reload_pairStep hreload
    rw [← hphase] at hstep
    have hexited : w.threads.exited = d.world.threads.exited := reload_exited hreload
    refine paired_place (c := .serverHook n) hd hlock (fun c hc ↦ ?_) rfl hexited ?_
      (fun hother hload ↦ ?_) fun hother hpending ↦ ?_
    · cases c with
      | main | mainHook | server => rfl
      | serverHook m =>
        have hmn : m ≠ n := fun hmn ↦ hc (hmn ▸ rfl)
        simp only [State.phase, Function.update_of_ne hmn]
    · simpa only [State.phase, Function.update_self] using hstep
    · simp only [State.phase, Function.update_self] at hload
      have hbegin := (reload_begins hreload (hphase ▸ hother)).1 hload
      exact not_pending_of_nonePending hlock (hok.1 (hbegin ▸ hp))
    · simp only [State.phase, Function.update_self] at hpending
      have hread := (reload_begins hreload (hphase ▸ hother)).2 hpending
      refine ⟨hok.2 (hread ▸ hp), not_loading_of_inside (c := .serverHook n) hlock ?_ hother⟩
      rw [State.holdsConfig, hp, hread]
      rfl
  | server n e =>
    obtain ⟨-, halive, -, w, s, hserve, rfl⟩ := step_server h
    cases s with
    | some s => exact paired_server hd halive hserve
    | none =>
      obtain ⟨_, _, _, _, _, _, _, _, _, _, rfl⟩ := serve_frame hserve
      refine ⟨hd.settled, hd.last, fun hpending ↦ hd.pending ?_, fun m hm ↦ ?_⟩
      · rcases hpending with hc | ⟨m, hm⟩
        · exact .inl hc
        · exact .inr ⟨m, (World.alive_exitThread_iff.mp hm.1).1, hm.2⟩
      · exact hd.binding m ⟨(World.alive_exitThread_iff.mp hm.1).1, hm.2⟩
  | hup t =>
    obtain ⟨-, htakes, rfl⟩ := step_hup h
    have hphase := phase_deliver htakes
    have hworld : (d.deliver t).world = d.world ∧ (d.deliver t).servers = d.servers := by
      cases t <;> exact ⟨rfl, rfl⟩
    refine ⟨?_, ?_, ?_, ?_⟩
    · simpa only [State.Loading, hphase, hworld.1] using hd.settled
    · simpa only [hphase, hworld.1] using hd.last
    · simpa only [State.Pending, State.Loading, State.Unread, hphase, hworld.1, hworld.2]
        using hd.pending
    · simpa only [State.Binding, hworld.1, hworld.2] using hd.binding
  | int t =>
    obtain ⟨-, -, rfl⟩ := step_int h
    exact ⟨hd.settled, hd.last, hd.pending, hd.binding⟩

theorem paired_initial (heap : Addr → Option Text) (sockets : ℤ → Option Socket)
    (arrays : ℕ → Http.Buffers) : Paired (.initial heap sockets arrays) where
  settled _ := rfl
  last c := by cases c <;> exact nofun
  pending h := by
    refine absurd h (not_pending_of_early ?_ rfl)
    exact (configLock_initial heap sockets arrays).early rfl
  binding n hn := absurd hn.1.1 (Nat.not_lt_zero n)

/-- In a run in which no hook takes the lock to load while a server thread is to read its port, and
no start reads its address while a server thread is to bind, every `bind` uses an address and a
port of one configuration. -/
theorem pairsBound_of_readsPaired {heap : Addr → Option Text} {sockets : ℤ → Option Socket}
    {arrays : ℕ → Http.Buffers} {d : State}
    (h : Reach (step P) ReadsPaired (.initial heap sockets arrays) d) : PairsBound d := by
  have hd := h.invariant_of ConfigLock Paired (fun _ ↦ configLock_of_reach)
    (paired_initial heap sockets arrays) fun _ _ _ hlock hd hok hstep ↦
      paired_step hlock hd hok hstep
  intro n halive hpc
  exact hd.binding n ⟨halive, by rw [hpc]; rfl⟩

/-- Two reloads in the loop, the second after the thread of the first has read its port. -/
theorem pairsBound_after_reload : ∃ d : State,
    Reach (step samplePlatform) ReadsPaired sampleState d ∧
      (d.servers 1).pc = .bind ∧ PairsBound d := by
  have hrun : ∃ d, Reach (step samplePlatform) ReadsPaired sampleState d ∧
      (d.servers 1).pc = .bind :=
    exists_reach_of_runAll (mainSteps 33 ++ serverSteps 0 7 ++ .hup .main :: (hookSteps 16 ++
      serverSteps 0 2 ++ hookSteps 15 ++
      List.replicate 5 (.server 1 { sampleEnv with fd := 6 }))) (by decide +kernel)
  obtain ⟨d, hreach, hpc⟩ := hrun
  exact ⟨d, hreach, hpc, pairsBound_of_readsPaired hreach⟩

/-- A reload that loads the second file before the thread of `main` has read its port: the thread
binds the address of the first file to the port of the second. -/
theorem not_pairsBound_reload_between :
    ¬∀ d : State, Reachable (step samplePlatform) sampleState d → PairsBound d := by
  intro hclaim
  have hrun : ∃ d, Reachable (step samplePlatform) sampleState d ∧
      (d.world.Alive 0 ∧ (d.servers 0).pc = .bind ∧
        (d.servers 0).portno.version ≠ d.world.srv.address.version) :=
    exists_reach_of_runAll (mainSteps 33 ++ .hup .main :: (hookSteps 16 ++ serverSteps 0 5))
      (by decide +kernel)
  obtain ⟨d, hreach, halive, hpc, hne⟩ := hrun
  exact hne (hclaim d hreach 0 halive hpc)

end Stored.Daemon
