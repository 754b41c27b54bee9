import Stored.Lib.Ledger
import Stored.Daemon.Reports

/-!
# The report texts of the daemon

A report is on the heap as the text of the entries, which each scan frees and replaces, and as the
copy that a server thread makes for a connection. If the main thread takes each SIGHUP while it
may serve, outside of the two windows, there is at most one text of each kind at a time, what is
freed is alive, and the program frees all of them before it exits. The strings inside of the JSON
tree belong to its nodes and are not on this heap.
-/

namespace Stored.Daemon

open Json Http Run Ledger

variable {P : Platform} {initial : Addr → Option Text}

/-- The text of the entries has been made and not been freed. -/
def MainPc.hasText : MainPc → Bool
  | .demonize | .newConfig | .load _ | .assignConfig | .initMtabChecker | .loop (.check .stringify)
  | .destroyCfg | .destroyConfig | .terminated | .exit => false
  | _ => true

/-- The text that the main thread will free. -/
def MainPc.text? (w : World) (p : MainPc) : Option Addr :=
  if p.hasText then some w.entries.textural else none

/-- The text that a server thread will free. -/
def ServePc.copy? (w : World) (p : ServePc) : Option Addr :=
  if p.hasCopy then w.srv.contentBuffer else none

def State.owns (d : State) : Tid → Option Addr
  | .main => d.main.text? d.world
  | .thread n => if d.world.Alive n then (d.servers n).pc.copy? d.world else none

theorem checkMtab_cell {t : Tid} {e : Env} {w w' : World} {p : MtabPc} {q : Option MtabPc}
    (h : checkMtab P t e w p = some (w', q)) :
    CellStep w.heap w'.heap (MainPc.text? w (.loop (.check p)))
      (MainPc.text? w' (.loop (q.elim .assignData .check))) := by
  cases checkMtab_cases h with
  | free => exact .release w.entries.textural rfl rfl rfl
  | stringify tree htree hfresh => exact .alloc e.addr _ rfl rfl hfresh rfl
  | _ => exact .keep rfl rfl

theorem main_cell {poll : Poll} {e : Env} {w w' : World} {p p' : MainPc}
    (h : main P poll e w p = some (w', p')) :
    CellStep w.heap w'.heap (p.text? w) (p'.text? w') := by
  cases main_cases h with
  | load _ _ _ hload | loaded _ _ hload =>
    obtain ⟨_, _, _, rfl, -⟩ := loadFromFile_frame hload
    exact .keep rfl rfl
  | initMtabChecker hfresh => exact .alloc e.addr _ rfl rfl hfresh rfl
  | start _ _ _ hstart | started _ _ hstart =>
    obtain ⟨_, _, _, _, _, _, _, _, _, rfl, -, -⟩ := startSrv_frame hstart
    exact .keep rfl rfl
  | loop _ _ _ hloop =>
    cases checkLoop_cases hloop with
    | check p w' q hcheck => exact checkMtab_cell hcheck
    | test => split_ifs <;> exact .keep rfl rfl
    | _ => exact .keep rfl rfl
  | left _ _ hloop =>
    cases checkLoop_cases hloop with
    | close => exact .keep rfl rfl
  | stop _ _ _ hstop | stopped _ _ hstop | destroySrv _ _ _ hstop | stoppedAgain _ _ hstop =>
    obtain ⟨_, _, _, rfl⟩ := stopSrv_frame hstop
    exact .keep rfl rfl
  | freeEntries => exact .release w.entries.textural rfl rfl rfl
  | _ => exact .keep rfl rfl

theorem serve_cell {n : ℕ} {e : Env} {w w' : World} {s : Server} {s' : Option Server}
    (h : serve n e w s = some (w', s')) :
    CellStep w.heap w'.heap (s.pc.copy? w) (s'.bind (·.pc.copy? w')) := by
  have hbefore (p : ServePc) (hpc : s.pc = p) : s.pc.copy? w = p.copy? w := by rw [hpc]
  cases serve_cases h with
  | strdup text hpc htext hfresh => exact .alloc e.addr text (hbefore _ hpc) rfl hfresh rfl
  | free a hpc hcopy => exact .release a ((hbefore _ hpc).trans hcopy) rfl rfl
  | freeNull hpc hcopy => exact .keep ((hbefore _ hpc).trans hcopy).symm rfl
  | abort | headers => exact .keep rfl rfl
  | request p b held hpc hp => rcases hp with rfl | rfl | rfl <;> exact .keep (hbefore _ hpc).symm rfl
  | fclose ok hpc | close ok hpc => cases ok <;> exact .keep (hbefore _ hpc).symm rfl
  | sigmask hpc | lockConfig hpc | readPort hpc | unlockConfig hpc | socket hpc | bind hpc
  | listen hpc | quit hpc | goOn hpc | unlockMxq hpc | accept hpc | accepted _ hpc | refused _ hpc
  | fdopen hpc | lockBuffer hpc | unlockBuffer hpc | respond _ _ _ hpc | fflush _ _ _ hpc =>
    exact .keep (hbefore _ hpc).symm rfl

theorem owns_none_of_sigmask {d : State} {n : ℕ} (hpc : (d.servers n).pc = .sigmask) :
    d.owns (.thread n) = none := by
  rw [State.owns, hpc]
  split_ifs <;> rfl

/-- What a server thread has does not change when another thread is made or takes a step. -/
theorem owns_thread_congr {d d' : State} {n : ℕ} (hservers : d'.servers n = d.servers n)
    (halive : (d.servers n).pc ≠ .sigmask → (d'.world.Alive n ↔ d.world.Alive n))
    (hcopy : d'.world.srv.contentBuffer = d.world.srv.contentBuffer) :
    d'.owns (.thread n) = d.owns (.thread n) := by
  by_cases hpc : (d.servers n).pc = .sigmask
  · rw [owns_none_of_sigmask hpc, owns_none_of_sigmask (hservers ▸ hpc)]
  · simp only [State.owns, hservers, halive hpc, ServePc.copy?, hcopy]

/-- Threads that have begun are alive after a step that ends none as they were before it. -/
theorem alive_iff_of_begun {d : State} (hlock : ConfigLock d) {w : World}
    (hexited : w.threads.exited = d.world.threads.exited)
    (hcreated : d.world.threads.created ≤ w.threads.created) {n : ℕ}
    (hpc : (d.servers n).pc ≠ .sigmask) : w.Alive n ↔ d.world.Alive n :=
  ⟨fun halive ↦ alive_of_begun hlock hexited halive hpc,
    fun halive ↦ ⟨halive.1.trans_le hcreated, hexited ▸ halive.2⟩⟩

theorem balanced_server {d d' : State} {n : ℕ} {e : Env} (hone : OneAlive d)
    (hd : Balanced initial d.world.heap d.owns) (h : step P d (.server n e) = some d') :
    Balanced initial d'.world.heap d'.owns := by
  obtain ⟨-, halive, -, w, s, hserve, rfl⟩ := step_server h
  have hcell := serve_cell hserve
  have hframe : w.entries = d.world.entries ∧ w.threads = d.world.threads := by
    obtain ⟨_, _, _, _, _, _, _, _, _, _, rfl⟩ := serve_frame hserve
    exact ⟨rfl, rfl⟩
  obtain ⟨hentries, hthreads⟩ := hframe
  have hbefore : d.owns (.thread n) = (d.servers n).pc.copy? d.world := if_pos halive
  have hmain : d.main.text? w = d.main.text? d.world := by
    rw [MainPc.text?, hentries, MainPc.text?]
  -- no other thread is alive
  have hother (m : ℕ) (hm : m ≠ n) : ¬d.world.Alive m := fun hm' ↦
    hm (Option.some.inj ((hone.named m hm').symm.trans (hone.named n halive)))
  cases s with
  | some s =>
    have hafter (m : ℕ) : w.Alive m ↔ d.world.Alive m := by rw [World.Alive, hthreads]; rfl
    refine hd.step (o := .thread n) ?_ fun t ht ↦ ?_
    · rw [hbefore]
      simpa only [State.owns, Function.update_self, if_pos ((hafter n).mpr halive),
        Option.bind_some] using hcell
    · cases t with
      | main => exact hmain
      | thread m =>
        have hm := hother m fun heq ↦ ht (congrArg Tid.thread heq)
        simp only [State.owns, if_neg hm, if_neg (hm ∘ (hafter m).mp)]
  | none =>
    have hdead (m : ℕ) : ¬(w.exitThread n).Alive m := by
      intro hm
      obtain ⟨hm, hmn⟩ := World.alive_exitThread_iff.mp hm
      exact hother m hmn (by rwa [World.Alive, hthreads] at hm)
    refine hd.step (o := .thread n) ?_ fun t ht ↦ ?_
    · rw [hbefore, State.owns, if_neg (hdead n)]
      exact hcell
    · cases t with
      | main => exact hmain
      | thread m =>
        have hm := hother m fun heq ↦ ht (congrArg Tid.thread heq)
        simp only [State.owns, if_neg hm, if_neg (hdead m)]

theorem balanced_step {d d' : State} {a : Action} (hlock : ConfigLock d) (hone : OneAlive d)
    (hd : Balanced initial d.world.heap d.owns) (h : step P d a = some d') :
    Balanced initial d'.world.heap d'.owns := by
  cases a with
  | main poll e =>
    obtain ⟨-, -, w, p, hmain, rfl⟩ := step_main h
    obtain ⟨hexited, hcreated, -⟩ := main_threads hmain
    refine hd.step (o := .main) (main_cell hmain) fun t ht ↦ ?_
    cases t with
    | main => exact absurd rfl ht
    | thread n =>
      exact owns_thread_congr rfl (alive_iff_of_begun hlock hexited hcreated) (main_served hmain).2
  | mainHook e =>
    obtain ⟨-, p, w, q, -, hreload, rfl⟩ := step_mainHook h
    have hthread (n : ℕ) : State.owns { d with world := w, mainHook := q } (.thread n) =
        d.owns (.thread n) := by
      refine owns_thread_congr rfl (alive_iff_of_begun hlock (reload_exited hreload) ?_)
        (reload_served hreload).2
      obtain ⟨_, _, _, _, _, _, _, _, rfl, -, hcreated⟩ := reload_frame hreload
      exact hcreated
    obtain ⟨_, _, _, _, _, _, _, _, rfl, -, -⟩ := reload_frame hreload
    refine hd.congr fun t ↦ ?_
    cases t with
    | main => rfl
    | thread n => exact hthread n
  | server n e => exact balanced_server hone hd h
  | serverHook n e =>
    obtain ⟨-, p, w, q, hp, -, -⟩ := step_serverHook h
    exact nomatch (hone.serverHook n).symm.trans hp
  | hup t =>
    obtain ⟨-, -, rfl⟩ := step_hup h
    cases t <;> exact hd.congr fun u ↦ by cases u <;> rfl
  | int t =>
    obtain ⟨-, -, rfl⟩ := step_int h
    exact hd.congr fun u ↦ by cases u <;> rfl

theorem balanced_of_reach {sockets : ℤ → Option Socket} {arrays : ℕ → Buffers} {d : State}
    (h : Reach (step P) HupsServing (.initial initial sockets arrays) d) :
    Balanced initial d.world.heap d.owns := by
  refine h.invariant_of (fun d ↦ ConfigLock d ∧ OneAlive d)
    (fun d ↦ Balanced initial d.world.heap d.owns)
    (fun _ ht ↦ ⟨configLock_of_reach ht, oneAlive_of_reach ht⟩) (balanced_initial fun t ↦ ?_)
    fun _ _ _ hinv hd _ ↦ balanced_step hinv.1 hinv.2 hd
  cases t with
  | main => rfl
  | thread n =>
    have hnone : ¬(World.initial initial sockets).Alive n := fun halive ↦ Nat.not_lt_zero n halive.1
    rw [State.owns, State.initial, if_neg hnone]

/-- The texts that were not there at first are those that the main thread and one server thread
have yet to free; they are alive and apart, and there is none when the program exits. -/
structure NoLeak (initial : Addr → Option Text) (d : State) : Prop where
  balanced : Balanced initial d.world.heap d.owns
  copied : ∀ n, d.world.Alive n → (d.servers n).pc.hasCopy = true → (d.owns (.thread n)).isSome
  bounded : ∃ l : List Addr, l.length ≤ 2 ∧ ∀ a, d.world.heap a ≠ initial a → a ∈ l
  exit : d.main = .exit → d.world.heap = initial

/-- In a run in which the main thread takes each SIGHUP while it may serve, outside of the two
windows, no report text is lost, however often the server is restarted and the table is scanned. -/
theorem noLeak_of_hupsServing {sockets : ℤ → Option Socket} {arrays : ℕ → Buffers} {d : State}
    (h : Reach (step P) HupsServing (.initial initial sockets arrays) d) : NoLeak initial d := by
  have hone := oneAlive_of_reach h
  have hd := serving_of_reach h
  have hbalanced := balanced_of_reach h
  refine ⟨hbalanced, fun n halive hpc ↦ ?_, ?_, fun hexit ↦ hbalanced.eq_initial fun t ↦ ?_⟩
  · obtain ⟨a, text, ha, -⟩ := hd.copied n halive hpc
    rw [State.owns, if_pos halive, ServePc.copy?, if_pos hpc, ha]
    rfl
  · -- the address of the text, and that of the copy
    refine ⟨[d.world.entries.textural, d.world.srv.contentBuffer.getD 0], le_rfl, fun a ha ↦ ?_⟩
    by_contra hout
    refine ha (hbalanced.rest a fun t howns ↦ hout ?_)
    cases t with
    | main =>
      rw [State.owns, MainPc.text?] at howns
      split_ifs at howns
      rw [← Option.some.inj howns]
      exact List.mem_cons_self
    | thread n =>
      rw [State.owns, ServePc.copy?] at howns
      split_ifs at howns
      rw [howns]
      exact List.mem_cons_of_mem _ List.mem_cons_self
  · cases t with
    | main => rw [State.owns, hexit]; rfl
    | thread n => exact if_neg (hd.gone (by rw [hexit]; rfl) n)

/-- The steps of `reloadSteps`, a SIGINT, and those that end the program. -/
theorem noLeak_after_stop : ∃ d : State,
    Reach (step samplePlatform) HupsServing sampleState d ∧
      (d.main = .exit ∧ d.world.threads.created = 2) ∧ NoLeak (fun _ ↦ none) d := by
  have hrun : ∃ d, Reach (step samplePlatform) HupsServing sampleState d ∧
      (d.main = .exit ∧ d.world.threads.created = 2) :=
    exists_reach_of_runAll (reloadSteps ++ .int .main :: mainSteps 8 ++
      .server 1 { sampleEnv with ok := false } :: mainSteps 11) (by decide +kernel)
  obtain ⟨d, hreach, hrun⟩ := hrun
  exact ⟨d, hreach, hrun, noLeak_of_hupsServing hreach⟩

end Stored.Daemon
