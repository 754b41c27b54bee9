import Stored.Daemon.World

/-!
# Steps of `ST_start_srv` and `ST_stop_srv`
-/

namespace Stored.Daemon

open Bytes Json Mtab Http

/-- Where a call of `ST_start_srv` stands, with its local `enabled`. -/
inductive StartPc where
  | checkBuffer
  | lockConfig
  | readEnabled
  | unlockConfig (enabled : Int32)
  | test (enabled : Int32)
  | initMxq
  | lockAddress
  | readAddress
  | unlockAddress
  | testAddress
  /-- the buffer has been freed for an incorrect address -/
  | abort
  | lockMxq
  | create
  | setStopped
  deriving DecidableEq

/-- One step of a call on thread `t`, which has SIGHUP blocked or not. -/
def startSrv (P : Platform) (t : Tid) (hupBlocked : Bool) (e : Env) (w : World) :
    StartPc → Option (World × Option StartPc)
  | .checkBuffer =>
    some (if w.srvBuff = .absent then (w.abort, some .checkBuffer) else (w, some .lockConfig))
  | .lockConfig => (w.lockConfig t).map (·, some .readEnabled)
  | .readEnabled => some (w, some (.unlockConfig w.config.httpEnabled.value))
  | .unlockConfig enabled => some (w.unlockConfig, some (.test enabled))
  | .test enabled => some (w, if w.srv.stopped ∧ enabled ≠ 0 then some .initMxq else none)
  | .initMxq => some ({ w with srv := { w.srv with mxq := Mutex.free } }, some .lockAddress)
  | .lockAddress => (w.lockConfig t).map (·, some .readAddress)
  | .readAddress =>
    let bindAddress := w.config.httpBindAddress
    some ({ w with srv := { w.srv with
      address := ⟨P.inetAddr bindAddress.value, bindAddress.version⟩ } }, some .unlockAddress)
  | .unlockAddress => some (w.unlockConfig, some .testAddress)
  | .testAddress =>
    some (if w.srv.address.value = inaddrNone then
      ({ w with srvBuff := .destroyed }, some .abort)
    else (w, some .lockMxq))
  | .abort => some (w.abort, some .abort)
  | .lockMxq => (w.lockMxq t).map (·, some .create)
  | .create => some (if e.ok then w.create hupBlocked else w, some .setStopped)
  | .setStopped => some ({ w with srv := { w.srv with stopped := false } }, none)

/-- Where a call of `ST_stop_srv` stands; a call of `pthread_join` knows the thread it waits for. -/
inductive StopPc where
  | test
  | shutdownChild
  | shutdownParent
  | unlockMxq
  | join
  | joining (n : ℕ)
  | setStopped
  deriving DecidableEq

/-- One step of a call on thread `t`. To join the calling thread fails at once, as it does for a
`srv_thread` that was never written. -/
def stopSrv (t : Tid) (w : World) : StopPc → Option (World × Option StopPc)
  | .test => some (w, if w.srv.stopped then none else some .shutdownChild)
  | .shutdownChild => some (w.shutdown w.srv.childfd, some .shutdownParent)
  | .shutdownParent => some (w.shutdown w.srv.parentfd, some .unlockMxq)
  | .unlockMxq => some (w.unlockMxq, some .join)
  | .join =>
    match w.srv.srvThread with
    | none => some (w, some .setStopped)
    | some n => some (w, some (if t = .thread n then .setStopped else .joining n))
  | .joining n => if w.threads.exited n then some (w, some .setStopped) else none
  | .setStopped => some ({ w with srv := { w.srv with stopped := true } }, none)

/-- What one step of a stop can do. -/
inductive StopStep (t : Tid) (w : World) : StopPc → World → Option StopPc → Prop
  | stopped (hstopped : w.srv.stopped = true) : StopStep t w .test w none
  | running (hrunning : w.srv.stopped = false) : StopStep t w .test w (some .shutdownChild)
  | shutdownChild :
    StopStep t w .shutdownChild (w.shutdown w.srv.childfd) (some .shutdownParent)
  | shutdownParent : StopStep t w .shutdownParent (w.shutdown w.srv.parentfd) (some .unlockMxq)
  | unlockMxq : StopStep t w .unlockMxq w.unlockMxq (some .join)
  | noThread (hnone : w.srv.srvThread = none) : StopStep t w .join w (some .setStopped)
  | self (n : ℕ) (hthread : w.srv.srvThread = some n) (hself : t = .thread n) :
    StopStep t w .join w (some .setStopped)
  | join (n : ℕ) (hthread : w.srv.srvThread = some n) : StopStep t w .join w (some (.joining n))
  | joined (n : ℕ) (hexited : w.threads.exited n = true) :
    StopStep t w (.joining n) w (some .setStopped)
  | setStopped : StopStep t w .setStopped { w with srv := { w.srv with stopped := true } } none

theorem stopSrv_cases {t : Tid} {w w' : World} {p : StopPc} {q : Option StopPc}
    (h : stopSrv t w p = some (w', q)) : StopStep t w p w' q := by
  cases p with
  | shutdownChild | shutdownParent | unlockMxq | setStopped =>
    obtain ⟨rfl, rfl⟩ := Prod.mk.inj (Option.some.inj h)
    constructor
  | test =>
    obtain ⟨rfl, rfl⟩ := Prod.mk.inj (Option.some.inj h)
    split_ifs with hstopped
    · exact .stopped hstopped
    · exact .running (Bool.eq_false_iff.mpr hstopped)
  | join =>
    simp only [stopSrv] at h
    split at h <;> obtain ⟨rfl, rfl⟩ := Prod.mk.inj (Option.some.inj h)
    · rename_i hnone
      exact .noThread hnone
    · rename_i n hthread
      split_ifs with hself
      · exact .self n hthread hself
      · exact .join n hthread
  | joining n =>
    simp only [stopSrv] at h
    split_ifs at h with hexited
    obtain ⟨rfl, rfl⟩ := Prod.mk.inj (Option.some.inj h)
    exact .joined n hexited

/-- A stop writes of the statics `mxq` and `stopped`. -/
theorem stopSrv_frame {t : Tid} {w w' : World} {p : StopPc} {q : Option StopPc}
    (h : stopSrv t w p = some (w', q)) :
    ∃ mxq stopped sockets, w' = { w with
      srv := { w.srv with mxq := mxq, stopped := stopped }, sockets := sockets } := by
  cases stopSrv_cases h with
  | shutdownChild =>
    obtain ⟨sockets, heq⟩ := w.shutdown_frame w.srv.childfd
    exact ⟨_, _, _, heq⟩
  | shutdownParent =>
    obtain ⟨sockets, heq⟩ := w.shutdown_frame w.srv.parentfd
    exact ⟨_, _, _, heq⟩
  | _ => exact ⟨_, _, _, rfl⟩

/-- What one step of a start can do. -/
inductive StartStep (P : Platform) (t : Tid) (hupBlocked : Bool) (w : World) :
    StartPc → World → Option StartPc → Prop
  | noBuffer (habsent : w.srvBuff = .absent) :
    StartStep P t hupBlocked w .checkBuffer w.abort (some .checkBuffer)
  | checkBuffer (hpresent : w.srvBuff ≠ .absent) :
    StartStep P t hupBlocked w .checkBuffer w (some .lockConfig)
  | lockConfig (hfree : w.config.mutex.owner = none) :
    StartStep P t hupBlocked w .lockConfig
      { w with config := { w.config with mutex := ⟨some t⟩ } } (some .readEnabled)
  | readEnabled :
    StartStep P t hupBlocked w .readEnabled w (some (.unlockConfig w.config.httpEnabled.value))
  | unlockConfig (enabled : Int32) :
    StartStep P t hupBlocked w (.unlockConfig enabled) w.unlockConfig (some (.test enabled))
  | enabled (enabled : Int32) (hstopped : w.srv.stopped = true) (henabled : enabled ≠ 0) :
    StartStep P t hupBlocked w (.test enabled) w (some .initMxq)
  | disabled (enabled : Int32) (hno : ¬(w.srv.stopped = true ∧ enabled ≠ 0)) :
    StartStep P t hupBlocked w (.test enabled) w none
  | initMxq :
    StartStep P t hupBlocked w .initMxq { w with srv := { w.srv with mxq := Mutex.free } }
      (some .lockAddress)
  | lockAddress (hfree : w.config.mutex.owner = none) :
    StartStep P t hupBlocked w .lockAddress
      { w with config := { w.config with mutex := ⟨some t⟩ } } (some .readAddress)
  | readAddress :
    StartStep P t hupBlocked w .readAddress
      { w with srv := { w.srv with
        address := ⟨P.inetAddr w.config.httpBindAddress.value, w.config.httpBindAddress.version⟩ } }
      (some .unlockAddress)
  | unlockAddress :
    StartStep P t hupBlocked w .unlockAddress w.unlockConfig (some .testAddress)
  | badAddress (hbad : w.srv.address.value = inaddrNone) :
    StartStep P t hupBlocked w .testAddress { w with srvBuff := .destroyed } (some .abort)
  | abort : StartStep P t hupBlocked w .abort w.abort (some .abort)
  | testAddress (hgood : w.srv.address.value ≠ inaddrNone) :
    StartStep P t hupBlocked w .testAddress w (some .lockMxq)
  | lockMxq (hfree : w.srv.mxq.owner = none) :
    StartStep P t hupBlocked w .lockMxq { w with srv := { w.srv with mxq := ⟨some t⟩ } }
      (some .create)
  | create : StartStep P t hupBlocked w .create (w.create hupBlocked) (some .setStopped)
  | createFails : StartStep P t hupBlocked w .create w (some .setStopped)
  | setStopped :
    StartStep P t hupBlocked w .setStopped { w with srv := { w.srv with stopped := false } } none

theorem startSrv_cases {P : Platform} {t : Tid} {hupBlocked : Bool} {e : Env} {w w' : World}
    {p : StartPc} {q : Option StartPc} (h : startSrv P t hupBlocked e w p = some (w', q)) :
    StartStep P t hupBlocked w p w' q := by
  cases p with
  | readEnabled | unlockConfig | initMxq | readAddress | unlockAddress | abort | setStopped =>
    obtain ⟨rfl, rfl⟩ := Prod.mk.inj (Option.some.inj h)
    constructor
  | checkBuffer =>
    simp only [startSrv, Option.some.injEq] at h
    split_ifs at h with habsent <;> obtain ⟨rfl, rfl⟩ := Prod.mk.inj h
    · exact .noBuffer habsent
    · exact .checkBuffer habsent
  | test enabled =>
    obtain ⟨rfl, rfl⟩ := Prod.mk.inj (Option.some.inj h)
    split_ifs with htest
    · exact .enabled enabled htest.1 htest.2
    · exact .disabled enabled htest
  | testAddress =>
    simp only [startSrv, Option.some.injEq] at h
    split_ifs at h with hbad <;> obtain ⟨rfl, rfl⟩ := Prod.mk.inj h
    · exact .badAddress hbad
    · exact .testAddress hbad
  | create =>
    simp only [startSrv, Option.some.injEq] at h
    split_ifs at h <;> obtain ⟨rfl, rfl⟩ := Prod.mk.inj h
    · exact .create
    · exact .createFails
  | lockConfig =>
    simp only [startSrv, Option.map_eq_some_iff, World.lockConfig_eq_some_iff] at h
    obtain ⟨w₁, ⟨hfree, rfl⟩, h⟩ := h
    obtain ⟨rfl, rfl⟩ := Prod.mk.inj h
    exact .lockConfig hfree
  | lockAddress =>
    simp only [startSrv, Option.map_eq_some_iff, World.lockConfig_eq_some_iff] at h
    obtain ⟨w₁, ⟨hfree, rfl⟩, h⟩ := h
    obtain ⟨rfl, rfl⟩ := Prod.mk.inj h
    exact .lockAddress hfree
  | lockMxq =>
    simp only [startSrv, Option.map_eq_some_iff, World.lockMxq_eq_some_iff] at h
    obtain ⟨w₁, ⟨hfree, rfl⟩, h⟩ := h
    obtain ⟨rfl, rfl⟩ := Prod.mk.inj h
    exact .lockMxq hfree

/-- A start takes the configuration lock, and writes of the statics `mxq`, `address`, `srv_thread`
and `stopped`; it destroys the buffer only when it comes to abort. -/
theorem startSrv_frame {P : Platform} {t : Tid} {hupBlocked : Bool} {e : Env} {w w' : World}
    {p : StartPc} {q : Option StartPc} (h : startSrv P t hupBlocked e w p = some (w', q)) :
    ∃ mutex mxq address srvThread stopped created blocked srvBuff ended, w' = { w with
      config := { w.config with mutex := mutex },
      srv := { w.srv with
        mxq := mxq, address := address, srvThread := srvThread, stopped := stopped },
      threads := { w.threads with created := created, hupBlocked := blocked },
      srvBuff := srvBuff, ended := ended } ∧
      (q ≠ some .abort → srvBuff = w.srvBuff) ∧ w.threads.created ≤ created := by
  cases startSrv_cases h with
  | badAddress => exact ⟨_, _, _, _, _, _, _, _, _, rfl, fun hq ↦ absurd rfl hq, le_rfl⟩
  | create => exact ⟨_, _, _, _, _, _, _, _, _, rfl, fun _ ↦ rfl, Nat.le_succ _⟩
  | _ => exact ⟨_, _, _, _, _, _, _, _, _, rfl, fun _ ↦ rfl, le_rfl⟩

/-- Threads are made by the one step `create`, with `mxq` locked, and `stopped` is cleared by the
step after it. -/
theorem startSrv_create_cases {P : Platform} {t : Tid} {hupBlocked : Bool} {e : Env} {w w' : World}
    {p : StartPc} {q : Option StartPc} (h : startSrv P t hupBlocked e w p = some (w', q)) :
    (p = .create ∧ q = some .setStopped ∧ w' = if e.ok then w.create hupBlocked else w) ∨
      (p = .setStopped ∧ q = none ∧ w' = { w with srv := { w.srv with stopped := false } }) ∨
      (p ≠ .create ∧ p ≠ .setStopped ∧ q ≠ some .setStopped ∧ w'.threads = w.threads ∧
        w'.srv.srvThread = w.srv.srvThread ∧ w'.srv.stopped = w.srv.stopped ∧
        (q = some .create → w'.srv.mxq.owner = some t)) := by
  by_cases hcreate : p = .create
  · subst hcreate
    obtain ⟨rfl, rfl⟩ := Prod.mk.inj (Option.some.inj h)
    exact .inl ⟨rfl, rfl, rfl⟩
  cases startSrv_cases h with
  | create | createFails => exact absurd rfl hcreate
  | setStopped => exact .inr (.inl ⟨rfl, rfl, rfl⟩)
  | lockMxq => exact .inr (.inr ⟨nofun, nofun, nofun, rfl, rfl, rfl, fun _ ↦ rfl⟩)
  | _ => exact .inr (.inr ⟨nofun, nofun, nofun, rfl, rfl, rfl, nofun⟩)

def StartPc.holdsConfig : StartPc → Bool
  | .readEnabled | .unlockConfig _ | .readAddress | .unlockAddress => true
  | _ => false

theorem startSrv_config {P : Platform} {t : Tid} {hupBlocked : Bool} {e : Env} {w w' : World}
    {p : StartPc} {q : Option StartPc} (h : startSrv P t hupBlocked e w p = some (w', q)) :
    ConfigStep w w' t p.holdsConfig (q.any StartPc.holdsConfig) := by
  cases startSrv_cases h with
  | lockConfig hfree | lockAddress hfree => exact .lock (Mutex.lock_eq_some_iff.mpr ⟨hfree, rfl⟩)
  | unlockConfig | unlockAddress => exact .unlock rfl nofun rfl
  | readEnabled | readAddress => exact .keep rfl fun _ ↦ rfl
  | _ => exact .keep rfl nofun

end Stored.Daemon
