import Stored.Daemon.Service

/-!
# The descriptors of the server

`srv.c` opens a listening socket for each server thread and a connection for each `accept`. The
connection is closed with its stream and once more by its number, listening sockets are never
closed, and a stop shuts down whatever its two statics name.
-/

namespace Stored.Daemon

open Http Run

variable {P : Platform}

/-- The descriptor that a step closes or shuts down. -/
def Service.applied (s : Service) : ServiceAction → Option ℤ
  | .server n _ => match (s.servers n).pc with
    | .fclose _ => some (s.servers n).stream
    | .close _ => some s.world.srv.childfd
    | _ => none
  | .caller _ => match s.caller with
    | some (.stop .shutdownChild _) => some s.world.srv.childfd
    | some (.stop .shutdownParent _) => some s.world.srv.parentfd
    | _ => none
  | _ => none

/-- The thread that a step joins. -/
def Service.joined (s : Service) : ServiceAction → Option ℕ
  | .caller _ => match s.caller with
    | some (.stop (.joining n) _) => some n
    | _ => none
  | _ => none

/-- A step closes and shuts down only what `srv.c` has opened and not closed since, and joins only
a thread that has nothing open. -/
structure StepOwned (s : Service) (a : ServiceAction) : Prop where
  owned : ∀ fd, s.applied a = some fd → s.openedBy fd ≠ none
  closed : ∀ n, s.joined a = some n → ∀ fd, s.openedBy fd ≠ some n

/-- Every step of a run does so. -/
def DescriptorsOwned (P : Platform) : Service → List ServiceAction → Prop :=
  AllSteps (stepService P) StepOwned

/-- What a server thread has open, by the place where it stands; `closed` is the place between the
`fclose` of a connection and the `close` of its number. -/
inductive Opened where
  | nothing
  | listener
  | connection
  | stream
  | closed
  deriving DecidableEq

def ServePc.opened : ServePc → Opened
  | .sigmask | .lockConfig | .readPort | .unlockConfig | .socket => .nothing
  | .bind | .listen | .trylockMxq | .unlockMxq | .accept | .accepting _ | .free => .listener
  | .fdopen => .connection
  | .request | .headers | .lockBuffer | .strdup | .unlockBuffer | .respond | .fflush _ _
  | .fclose _ => .stream
  | .close _ => .closed

def Service.opened (s : Service) (n : ℕ) : Opened := (s.servers n).pc.opened

/-- A connection of server `n` is between `accept` and `fclose`. -/
def Service.Connected (s : Service) (n : ℕ) : Prop :=
  s.opened n = .connection ∨ s.opened n = .stream

/-- The descriptor is a socket on which some server thread listens, or did. -/
def isListener : Option Socket → Bool
  | some .unbound | some .bound | some .listening | some .shut => true
  | _ => false

/-- The descriptor is a connection. -/
def isClient : Option Socket → Bool
  | some .client | some .clientShut => true
  | _ => false

/-- No connection is closed by its number; the first shutdown of a stop is done while a connection
is open, or by chance on a listening socket, the second one after a server thread has opened its
socket; and no thread is joined. -/
def KeepsDescriptors (s : Service) : ServiceAction → Prop
  | .server n _ => s.opened n ≠ .closed
  | .caller _ => match s.caller with
    | some (.stop .shutdownChild _) =>
      (∃ n, s.Connected n) ∨ isListener (s.world.sockets s.world.srv.childfd) = true
    | some (.stop .shutdownParent _) => ∃ n, s.opened n ≠ .nothing
    | some (.stop (.joining _) _) => False
    | _ => True
  | _ => True

/-- The record of descriptors and the table of the kernel agree, every server thread that has come
so far has its listening socket open, and the one connection is that of the thread that runs. -/
structure Owned (s : Service) : Prop where
  own : ∀ fd, s.openedBy fd ≠ none ↔
    isListener (s.world.sockets fd) = true ∨ isClient (s.world.sockets fd) = true
  opener : ∀ fd n, s.openedBy fd = some n → s.opened n ≠ .nothing
  listener : ∀ n, s.opened n ≠ .nothing →
    ∃ fd, s.openedBy fd = some n ∧ isListener (s.world.sockets fd) = true
  parent : ∀ n, s.opened n ≠ .nothing →
    isListener (s.world.sockets s.world.srv.parentfd) = true
  client : ∀ fd, isClient (s.world.sockets fd) = true →
    fd = s.world.srv.childfd ∧ ∃ n, s.Connected n
  child : ∀ n, s.Connected n →
    s.world.Alive n ∧ isClient (s.world.sockets s.world.srv.childfd) = true
  stream : ∀ n, s.opened n = .stream → (s.servers n).stream = s.world.srv.childfd
  closed : ∀ n, s.opened n = .closed →
    s.world.Alive n ∧ s.openedBy s.world.srv.childfd = none
  exited : ∀ n, s.world.threads.exited n = true → s.opened n = .listener

theorem owned_initial (heap : Addr → Option Text) (open' : ℤ → Bool) (arrays : ℕ → Buffers) :
    Owned (.initial heap open' arrays) where
  own fd := by
    refine iff_of_false (fun hne ↦ hne rfl) ?_
    change ¬(isListener (if open' fd then some .foreign else none) = true ∨
      isClient (if open' fd then some Socket.foreign else none) = true)
    split_ifs <;> simp [isListener, isClient]
  opener _ _ := nofun
  listener _ hne := absurd rfl hne
  parent _ hne := absurd rfl hne
  client fd hclient := by
    change isClient (if open' fd then some Socket.foreign else none) = true at hclient
    split_ifs at hclient <;> cases hclient
  child _ hconnected := hconnected.elim nofun nofun
  stream _ := nofun
  closed _ := nofun
  exited _ := nofun

/-- The sockets of `srv.c` are the same ones, up to what they are ready for. -/
structure SameSockets (w w' : World) : Prop where
  listener : ∀ fd, isListener (w'.sockets fd) = isListener (w.sockets fd)
  client : ∀ fd, isClient (w'.sockets fd) = isClient (w.sockets fd)
  childfd : w'.srv.childfd = w.srv.childfd
  parentfd : w'.srv.parentfd = w.srv.parentfd

theorem sameSockets_update (w : World) {fd : ℤ} {k : Option Socket}
    (hlistener : isListener k = isListener (w.sockets fd))
    (hclient : isClient k = isClient (w.sockets fd)) : SameSockets w (w.setSocket fd k) := by
  refine ⟨fun fd' ↦ ?_, fun fd' ↦ ?_, rfl, rfl⟩
  · by_cases heq : fd' = fd
    · rw [heq, World.sockets_setSocket, Function.update_self, hlistener]
    · rw [World.sockets_setSocket, Function.update_of_ne heq]
  · by_cases heq : fd' = fd
    · rw [heq, World.sockets_setSocket, Function.update_self, hclient]
    · rw [World.sockets_setSocket, Function.update_of_ne heq]

theorem sameSockets_shutdown (w : World) (fd : ℤ) : SameSockets w (w.shutdown fd) := by
  rcases w.shutdown_cases fd with ⟨hlistening, heq⟩ | ⟨hclient, heq⟩ | ⟨-, -, heq⟩ <;> rw [heq]
  · exact sameSockets_update w (by rw [hlistening]; rfl) (by rw [hlistening]; rfl)
  · exact sameSockets_update w (by rw [hclient]; rfl) (by rw [hclient]; rfl)
  · exact ⟨fun _ ↦ rfl, fun _ ↦ rfl, rfl, rfl⟩

theorem Owned.congr {s s' : Service} (hs : Owned s) (hsockets : SameSockets s.world s'.world)
    (halive : ∀ n, s.world.Alive n → s'.world.Alive n)
    (hexited : ∀ n, s'.world.threads.exited n = true → s.world.threads.exited n = true)
    (hopened : ∀ n, s'.opened n = s.opened n)
    (hstream : ∀ n, s'.opened n = .stream → (s'.servers n).stream = (s.servers n).stream)
    (hopenedBy : s'.openedBy = s.openedBy) : Owned s' := by
  have hconnected (n : ℕ) : s'.Connected n ↔ s.Connected n := by
    unfold Service.Connected
    rw [hopened]
  constructor
  · intro fd
    rw [hopenedBy, hsockets.listener, hsockets.client]
    exact hs.own fd
  · intro fd n
    rw [hopenedBy, hopened]
    exact hs.opener fd n
  · intro n
    simp only [hopenedBy, hopened, hsockets.listener]
    exact hs.listener n
  · intro n
    rw [hopened, hsockets.parentfd, hsockets.listener]
    exact hs.parent n
  · intro fd
    simp only [hsockets.client, hsockets.childfd, hconnected]
    exact hs.client fd
  · intro n
    rw [hconnected, hsockets.childfd, hsockets.client]
    exact fun hn ↦ (hs.child n hn).imp_left (halive n)
  · intro n hn
    rw [hstream n hn, hsockets.childfd]
    exact hs.stream n ((hopened n).symm.trans hn)
  · intro n
    rw [hopened, hopenedBy, hsockets.childfd]
    exact fun hn ↦ (hs.closed n hn).imp_left (halive n)
  · intro n hn
    rw [hopened]
    exact hs.exited n (hexited n hn)

/-! ## Steps of a server thread -/

/-- The service after a step of server thread `n`. -/
def Service.withServer (s : Service) (n : ℕ) (w : World) (server : Server)
    (openedBy : ℤ → Option ℕ) : Service :=
  { s with world := w, servers := Function.update s.servers n server, openedBy := openedBy }

section

variable {s : Service} {n : ℕ} {w : World} {server : Server} {openedBy : ℤ → Option ℕ}

theorem servers_withServer (m : ℕ) : (s.withServer n w server openedBy).servers m =
    if m = n then server else s.servers m :=
  Function.update_apply _ _ _ _

theorem opened_withServer (m : ℕ) : (s.withServer n w server openedBy).opened m =
    if m = n then server.pc.opened else s.opened m := by
  unfold Service.opened
  rw [servers_withServer]
  split_ifs <;> rfl

theorem connected_withServer (m : ℕ) : (s.withServer n w server openedBy).Connected m ↔
    if m = n then server.pc.opened = .connection ∨ server.pc.opened = .stream
      else s.Connected m := by
  unfold Service.Connected
  rw [opened_withServer]
  split_ifs <;> rfl

/-- A step after which the thread has at least its listening socket open, no other thread being
alive. -/
theorem Owned.withServer (hs : Owned s) (halive : s.world.Alive n)
    (honly : ∀ m, s.world.Alive m → m = n) (hthreads : w.threads = s.world.threads)
    (hopened : server.pc.opened ≠ .nothing)
    (hown : ∀ fd, openedBy fd ≠ none ↔
      isListener (w.sockets fd) = true ∨ isClient (w.sockets fd) = true)
    (hopener : ∀ fd m, openedBy fd = some m → m = n ∨ s.openedBy fd = some m)
    (hlisteners : ∀ fd m, s.openedBy fd = some m → isListener (s.world.sockets fd) = true →
      openedBy fd = some m ∧ isListener (w.sockets fd) = true)
    (hlistener : ∃ fd, openedBy fd = some n ∧ isListener (w.sockets fd) = true)
    (hparent : isListener (w.sockets w.srv.parentfd) = true)
    (hclient : ∀ fd, isClient (w.sockets fd) = true → fd = w.srv.childfd ∧
      (server.pc.opened = .connection ∨ server.pc.opened = .stream))
    (hchild : server.pc.opened = .connection ∨ server.pc.opened = .stream →
      isClient (w.sockets w.srv.childfd) = true)
    (hstream : server.pc.opened = .stream → server.stream = w.srv.childfd)
    (hclosed : server.pc.opened = .closed → openedBy w.srv.childfd = none) :
    Owned (s.withServer n w server openedBy) := by
  have halive' : w.Alive n := by
    unfold World.Alive
    rwa [hthreads]
  have hother (m : ℕ) (hm : m ≠ n) : ¬s.Connected m ∧ s.opened m ≠ .closed :=
    ⟨fun hc ↦ hm (honly m (hs.child m hc).1), fun hc ↦ hm (honly m (hs.closed m hc).1)⟩
  constructor
  · exact hown
  · intro fd m hm
    rw [opened_withServer]
    split_ifs with hmn
    · exact hopened
    · exact hs.opener fd m ((hopener fd m hm).resolve_left hmn)
  · intro m hm
    rw [opened_withServer] at hm
    split_ifs at hm with hmn
    · exact hmn ▸ hlistener
    · obtain ⟨fd, hfd, hkind⟩ := hs.listener m hm
      exact ⟨fd, hlisteners fd m hfd hkind⟩
  · exact fun _ _ ↦ hparent
  · intro fd hfd
    obtain ⟨heq, hconnected⟩ := hclient fd hfd
    exact ⟨heq, n, (connected_withServer n).mpr (by rwa [if_pos rfl])⟩
  · intro m hm
    rw [connected_withServer] at hm
    split_ifs at hm with hmn
    · exact ⟨hmn ▸ halive', hchild hm⟩
    · exact absurd hm (hother m hmn).1
  · intro m hm
    rw [opened_withServer] at hm
    rw [servers_withServer]
    split_ifs at hm ⊢ with hmn
    · exact hstream hm
    · exact absurd (.inr hm) (hother m hmn).1
  · intro m hm
    rw [opened_withServer] at hm
    split_ifs at hm with hmn
    · exact ⟨hmn ▸ halive', hclosed hm⟩
    · exact absurd hm (hother m hmn).2
  · intro m hm
    have hexited : s.world.threads.exited m = true := by rwa [← hthreads]
    rw [opened_withServer, if_neg fun hmn ↦ nomatch (hmn ▸ hexited).symm.trans halive.2]
    exact hs.exited m hexited

/-- A step that leaves the thread with what it had open. -/
theorem Owned.keep (hs : Owned s) (hsockets : SameSockets s.world w)
    (hthreads : w.threads = s.world.threads) (hopened : server.pc.opened = s.opened n)
    (hstream : server.stream = (s.servers n).stream) :
    Owned (s.withServer n w server s.openedBy) := by
  refine hs.congr hsockets (fun m hm ↦ ?_) (fun m hm ↦ ?_) (fun m ↦ ?_) (fun m _ ↦ ?_) rfl
  · change m < w.threads.created ∧ w.threads.exited m = false
    rwa [hthreads]
  · rwa [← hthreads]
  · rw [opened_withServer]
    split_ifs with hmn
    · rw [hmn, hopened]
    · rfl
  · rw [servers_withServer]
    split_ifs with hmn
    · rw [hmn, hstream]
    · rfl

variable {fd : ℤ} {k : Option Socket} {o : Option ℕ}

theorem own_update (hs : Owned s) (hk : o ≠ none ↔ isListener k = true ∨ isClient k = true)
    (fd' : ℤ) : Function.update s.openedBy fd o fd' ≠ none ↔
      isListener (Function.update s.world.sockets fd k fd') = true ∨
        isClient (Function.update s.world.sockets fd k fd') = true := by
  by_cases heq : fd' = fd
  · rw [heq, Function.update_self, Function.update_self]
    exact hk
  · rw [Function.update_of_ne heq, Function.update_of_ne heq]
    exact hs.own fd'

theorem opener_update (ho : ∀ m, o = some m → m = n) (fd' : ℤ) (m : ℕ)
    (hm : Function.update s.openedBy fd o fd' = some m) : m = n ∨ s.openedBy fd' = some m := by
  by_cases heq : fd' = fd
  · rw [heq, Function.update_self] at hm
    exact .inl (ho m hm)
  · rw [Function.update_of_ne heq] at hm
    exact .inr hm

/-- A listening socket is another descriptor than one that is no listening socket. -/
theorem ne_of_isListener (hfd : isListener (s.world.sockets fd) ≠ true) {fd' : ℤ}
    (hfd' : isListener (s.world.sockets fd') = true) : fd' ≠ fd := fun heq ↦ hfd (heq ▸ hfd')

theorem not_isListener {k : Option Socket} (h : isClient k = true) : isListener k ≠ true := by
  rcases k with _ | k
  · cases h
  · cases k <;> first | exact Bool.false_ne_true | cases h

theorem listener_update (hfd : isListener (s.world.sockets fd) ≠ true) (fd' : ℤ) (m : ℕ)
    (hm : s.openedBy fd' = some m) (hfd' : isListener (s.world.sockets fd') = true) :
    Function.update s.openedBy fd o fd' = some m ∧
      isListener (Function.update s.world.sockets fd k fd') = true := by
  have hne := ne_of_isListener hfd hfd'
  rw [Function.update_of_ne hne, Function.update_of_ne hne]
  exact ⟨hm, hfd'⟩

theorem exists_listener_update (hs : Owned s) (hn : s.opened n ≠ .nothing)
    (hfd : isListener (s.world.sockets fd) ≠ true) :
    ∃ fd', Function.update s.openedBy fd o fd' = some n ∧
      isListener (Function.update s.world.sockets fd k fd') = true := by
  obtain ⟨fd', hfd', hkind⟩ := hs.listener n hn
  exact ⟨fd', listener_update hfd fd' n hfd' hkind⟩

theorem parent_update (hs : Owned s) (hn : s.opened n ≠ .nothing)
    (hfd : isListener (s.world.sockets fd) ≠ true) :
    isListener (Function.update s.world.sockets fd k s.world.srv.parentfd) = true := by
  rw [Function.update_of_ne (ne_of_isListener hfd (hs.parent n hn))]
  exact hs.parent n hn

/-- No connection is open while the thread that runs has none. -/
theorem ne_client (hs : Owned s) (honly : ∀ m, s.world.Alive m → m = n) (hn : ¬s.Connected n)
    (fd' : ℤ) : isClient (s.world.sockets fd') ≠ true := by
  intro hclient
  obtain ⟨-, m, hm⟩ := hs.client fd' hclient
  exact hn (honly m (hs.child m hm).1 ▸ hm)

/-- Nothing is a connection once the only one has another kind. -/
theorem not_client_update {fd' : ℤ}
    (hclient : isClient (Function.update s.world.sockets fd k fd') = true) (hk : isClient k ≠ true)
    (hnone : ∀ fd', fd' ≠ fd → isClient (s.world.sockets fd') ≠ true) : False := by
  by_cases heq : fd' = fd
  · rw [heq, Function.update_self] at hclient
    exact hk hclient
  · rw [Function.update_of_ne heq] at hclient
    exact hnone fd' heq hclient

theorem owned_socket (hs : Owned s) (halive : s.world.Alive n)
    (honly : ∀ m, s.world.Alive m → m = n) (hn : s.opened n = .nothing)
    (hfree : s.world.sockets fd = none) (hserver : server.pc.opened = .listener) :
    Owned (s.withServer n
      { s.world.setSocket fd (some .unbound) with srv := { s.world.srv with parentfd := fd } }
      server (Function.update s.openedBy fd (some n))) := by
  have hfd : isListener (s.world.sockets fd) ≠ true := by rw [hfree]; nofun
  have hnone := ne_client hs honly fun hc ↦ hc.elim (by rw [hn]; nofun) (by rw [hn]; nofun)
  apply hs.withServer halive honly
  · rfl
  · rw [hserver]
    nofun
  · exact own_update hs (by simp [isListener])
  · exact opener_update fun m hm ↦ (Option.some.inj hm).symm
  · exact listener_update hfd
  · refine ⟨fd, Function.update_self _ _ _, ?_⟩
    rw [World.sockets_setSocket, Function.update_self]
    rfl
  · rw [World.sockets_setSocket, Function.update_self]
    rfl
  · intro fd' hclient
    rw [World.sockets_setSocket] at hclient
    exact (not_client_update hclient nofun fun fd' _ ↦ hnone fd').elim
  · rw [hserver]
    rintro ⟨⟩ <;> contradiction
  · rw [hserver]
    nofun
  · rw [hserver]
    nofun

/-- A thread that has its listening socket opens or closes a descriptor that is no listening
socket. -/
theorem Owned.update (hs : Owned s) (halive : s.world.Alive n)
    (honly : ∀ m, s.world.Alive m → m = n) (hn : s.opened n ≠ .nothing)
    (hfd : isListener (s.world.sockets fd) ≠ true)
    (hk : o ≠ none ↔ isListener k = true ∨ isClient k = true) (ho : ∀ m, o = some m → m = n)
    (hthreads : w.threads = s.world.threads)
    (hsockets : w.sockets = Function.update s.world.sockets fd k)
    (hparentfd : w.srv.parentfd = s.world.srv.parentfd) (hopened : server.pc.opened ≠ .nothing)
    (hclient : ∀ fd', isClient (Function.update s.world.sockets fd k fd') = true →
      fd' = w.srv.childfd ∧ (server.pc.opened = .connection ∨ server.pc.opened = .stream))
    (hchild : server.pc.opened = .connection ∨ server.pc.opened = .stream →
      isClient (Function.update s.world.sockets fd k w.srv.childfd) = true)
    (hstream : server.pc.opened = .stream → server.stream = w.srv.childfd)
    (hclosed : server.pc.opened = .closed →
      Function.update s.openedBy fd o w.srv.childfd = none) :
    Owned (s.withServer n w server (Function.update s.openedBy fd o)) := by
  apply hs.withServer halive honly hthreads hopened
  · rw [hsockets]
    exact own_update hs hk
  · exact opener_update ho
  · rw [hsockets]
    exact listener_update hfd
  · rw [hsockets]
    exact exists_listener_update hs hn hfd
  · rw [hsockets, hparentfd]
    exact parent_update hs hn hfd
  · rwa [hsockets]
  · rwa [hsockets]
  · exact hstream
  · exact hclosed

theorem owned_accepted (hs : Owned s) (halive : s.world.Alive n)
    (honly : ∀ m, s.world.Alive m → m = n) (hn : s.opened n = .listener)
    (hfree : s.world.sockets fd = none) (hserver : server.pc.opened = .connection) :
    Owned (s.withServer n
      { s.world.setSocket fd (some .client) with srv := { s.world.srv with childfd := fd } }
      server (Function.update s.openedBy fd (some n))) := by
  have hnone := ne_client hs honly fun hc ↦ hc.elim (by rw [hn]; nofun) (by rw [hn]; nofun)
  apply hs.update (k := some .client) halive honly
  · rw [hn]
    nofun
  · rw [hfree]
    nofun
  · simp [isClient]
  · exact fun m hm ↦ (Option.some.inj hm).symm
  · rfl
  · rfl
  · rfl
  · rw [hserver]
    nofun
  · intro fd' hclient
    by_cases heq : fd' = fd
    · exact ⟨heq, .inl hserver⟩
    · rw [Function.update_of_ne heq] at hclient
      exact absurd hclient (hnone fd')
  · exact fun _ ↦ congrArg isClient (Function.update_self fd _ s.world.sockets)
  · rw [hserver]
    nofun
  · rw [hserver]
    nofun

theorem owned_fdopen (hs : Owned s) (halive : s.world.Alive n)
    (honly : ∀ m, s.world.Alive m → m = n) (hn : s.opened n = .connection)
    (hserver : server.pc.opened = .stream) (hstream : server.stream = s.world.srv.childfd) :
    Owned (s.withServer n s.world server s.openedBy) := by
  have hsome : s.opened n ≠ .nothing := by rw [hn]; nofun
  apply hs.withServer halive honly
  · rfl
  · rw [hserver]
    nofun
  · exact hs.own
  · exact fun _ _ ↦ .inr
  · exact fun _ _ hm hfd ↦ ⟨hm, hfd⟩
  · exact hs.listener n hsome
  · exact hs.parent n hsome
  · exact fun fd' hclient ↦ ⟨(hs.client fd' hclient).1, .inr hserver⟩
  · exact fun _ ↦ (hs.child n (.inl hn)).2
  · exact fun _ ↦ hstream
  · rw [hserver]
    nofun

theorem owned_fclose (hs : Owned s) (halive : s.world.Alive n)
    (honly : ∀ m, s.world.Alive m → m = n) (hn : s.opened n = .stream)
    (hserver : server.pc.opened = .closed) :
    Owned (s.withServer n (s.world.setSocket (s.servers n).stream none) server
      (Function.update s.openedBy (s.servers n).stream none)) := by
  have hstream := hs.stream n hn
  have hnone (fd' : ℤ) (hne : fd' ≠ (s.servers n).stream) : isClient (s.world.sockets fd') ≠ true :=
    fun hclient ↦ hne ((hs.client fd' hclient).1.trans hstream.symm)
  apply hs.update (k := none) halive honly
  · rw [hn]
    nofun
  · rw [hstream]
    exact not_isListener (hs.child n (.inr hn)).2
  · simp [isListener, isClient]
  · nofun
  · rfl
  · rfl
  · rfl
  · rw [hserver]
    nofun
  · exact fun fd' hclient ↦ (not_client_update hclient nofun hnone).elim
  · rw [hserver]
    rintro ⟨⟩ <;> contradiction
  · rw [hserver]
    nofun
  · intro _
    rw [hstream]
    exact Function.update_self _ _ _

/-- The second close of a connection: its number is that of another part of the process, or of no
descriptor. -/
theorem owned_close (hs : Owned s) (halive : s.world.Alive n)
    (honly : ∀ m, s.world.Alive m → m = n) (hn : s.opened n = .closed)
    (hserver : server.pc.opened = .listener) :
    Owned (s.withServer n (s.world.setSocket s.world.srv.childfd none) server
      (Function.update s.openedBy s.world.srv.childfd none)) := by
  have hnone := ne_client hs honly fun hc ↦ hc.elim (by rw [hn]; nofun) (by rw [hn]; nofun)
  apply hs.update (k := none) halive honly
  · rw [hn]
    nofun
  · exact fun hlistener ↦ (hs.own _).mpr (.inl hlistener) (hs.closed n hn).2
  · simp [isListener, isClient]
  · nofun
  · rfl
  · rfl
  · rfl
  · rw [hserver]
    nofun
  · exact fun fd' hclient ↦ (not_client_update hclient nofun fun fd' _ ↦ hnone fd').elim
  · rw [hserver]
    rintro ⟨⟩ <;> contradiction
  · rw [hserver]
    nofun
  · rw [hserver]
    nofun

theorem owned_server {e : Env} (hs : Owned s) (hrunning : s.world.ended = false)
    (halive : s.world.Alive n) (honly : ∀ m, s.world.Alive m → m = n)
    (h : serve n e s.world (s.servers n) = some (w, some server)) :
    Owned (s.withServer n w server
      (openedAfter n e s.world w (s.servers n) s.openedBy)) := by
  have hopened (p : ServePc) (hpc : (s.servers n).pc = p) : s.opened n = p.opened :=
    congrArg ServePc.opened hpc
  have hsame (w : World) (hsockets : w.sockets = s.world.sockets)
      (hchild : w.srv.childfd = s.world.srv.childfd)
      (hparent : w.srv.parentfd = s.world.srv.parentfd) : SameSockets s.world w :=
    ⟨fun _ ↦ by rw [hsockets], fun _ ↦ by rw [hsockets], hchild, hparent⟩
  cases serve_cases h with
  | sigmask hpc | lockConfig hpc | readPort hpc | unlockConfig hpc | quit hpc | goOn hpc
  | accept hpc | headers hpc | lockBuffer hpc | strdup _ hpc | unlockBuffer hpc
  | respond _ _ _ hpc | fflush _ _ _ hpc | freeNull hpc | free _ hpc =>
    rw [openedAfter, hpc]
    exact hs.keep (hsame _ rfl rfl rfl) rfl (by simp [hopened _ hpc, hpc, ServePc.opened]) rfl
  | abort hpc =>
    have hkeep : Owned (s.withServer n s.world.abort (s.servers n) s.openedBy) :=
      hs.keep (hsame _ rfl rfl rfl) rfl rfl rfl
    rcases hpc with hpc | hpc | hpc <;> rw [openedAfter, hpc] <;> exact hkeep
  | request p b held hpc hp =>
    rw [openedAfter, hpc]
    refine hs.keep (hsame _ rfl rfl rfl) rfl ?_ rfl
    rw [hopened _ hpc]
    rcases hp with rfl | rfl | rfl <;> rfl
  | bind hpc hunbound =>
    rw [openedAfter, hpc]
    refine hs.keep (sameSockets_update _ ?_ ?_) rfl (hopened _ hpc).symm rfl <;> rw [hunbound] <;> rfl
  | listen hpc hbound =>
    rw [openedAfter, hpc]
    refine hs.keep (sameSockets_update _ ?_ ?_) rfl (hopened _ hpc).symm rfl <;> rw [hbound] <;> rfl
  | socket hpc hfree =>
    rw [openedAfter, hpc]
    change Owned (s.withServer n _ _ (if s.world.ended then _ else _))
    rw [hrunning]
    exact owned_socket hs halive honly (hopened _ hpc) hfree rfl
  | accepted fd hpc hlistening hfree hfd hok =>
    rw [openedAfter, hpc]
    simp only [hok, if_true]
    exact owned_accepted hs halive honly (hopened _ hpc) hfree rfl
  | fdopen hpc =>
    rw [openedAfter, hpc]
    exact owned_fdopen hs halive honly (hopened _ hpc) rfl rfl
  | fclose ok hpc =>
    rw [openedAfter, hpc]
    exact owned_fclose hs halive honly (hopened _ hpc) rfl
  | close ok hpc =>
    rw [openedAfter, hpc]
    exact owned_close hs halive honly (hopened _ hpc) (by cases ok <;> rfl)

theorem owned_exit {e : Env} (hs : Owned s) (honly : ∀ m, s.world.Alive m → m = n)
    (h : serve n e s.world (s.servers n) = some (w, none)) :
    Owned { s with
      world := w.exitThread n
      openedBy := openedAfter n e s.world w (s.servers n) s.openedBy } := by
  have hleaves : s.opened n = .listener ∧ w.sockets = s.world.sockets ∧
      w.srv.parentfd = s.world.srv.parentfd ∧ w.threads = s.world.threads ∧
      openedAfter n e s.world w (s.servers n) s.openedBy = s.openedBy := by
    cases serve_cases h with
    | unlockMxq hpc =>
      refine ⟨congrArg ServePc.opened hpc, rfl, rfl, rfl, ?_⟩
      rw [openedAfter, hpc]
    | refused fd hpc hfails =>
      refine ⟨congrArg ServePc.opened hpc, rfl, rfl, rfl, ?_⟩
      rw [openedAfter, hpc]
      simp [hfails]
  obtain ⟨hn, hsockets, hparent, hthreads, hopenedBy⟩ := hleaves
  have hconnected : ¬s.Connected n := by
    rintro (hc | hc) <;> exact nomatch hn.symm.trans hc
  have hidle (m : ℕ) : ¬s.Connected m := fun hm ↦ hconnected (honly m (hs.child m hm).1 ▸ hm)
  rw [hopenedBy]
  constructor
  · change ∀ fd, s.openedBy fd ≠ none ↔ isListener (w.sockets fd) = true ∨
      isClient (w.sockets fd) = true
    rw [hsockets]
    exact hs.own
  · exact hs.opener
  · change ∀ m, s.opened m ≠ .nothing →
      ∃ fd, s.openedBy fd = some m ∧ isListener (w.sockets fd) = true
    rw [hsockets]
    exact hs.listener
  · change ∀ m, s.opened m ≠ .nothing → isListener (w.sockets w.srv.parentfd) = true
    rw [hsockets, hparent]
    exact hs.parent
  · intro fd hclient
    change isClient (w.sockets fd) = true at hclient
    rw [hsockets] at hclient
    exact absurd hclient (ne_client hs honly hconnected fd)
  · exact fun m hm ↦ absurd hm (hidle m)
  · exact fun m hm ↦ absurd (.inr hm) (hidle m)
  · intro m hm
    obtain rfl := honly m (hs.closed m hm).1
    exact nomatch hn.symm.trans hm
  · intro m hm
    by_cases hmn : m = n
    · rw [hmn]
      exact hn
    · refine hs.exited m (Eq.trans ?_ hm)
      change s.world.threads.exited m = Function.update w.threads.exited n true m
      rw [Function.update_of_ne hmn, hthreads]

end

theorem owned_step {s s' : Service} {a : ServiceAction} (hhandled : Handled s.world s.caller)
    (hs : Owned s) (h : stepService P s a = some s') : Owned s' := by
  have honly {n : ℕ} (halive : s.world.Alive n) (m : ℕ) (hm : s.world.Alive m) : m = n :=
    Option.some.inj ((hhandled.current m hm).symm.trans (hhandled.current n halive))
  have hrunning := running_of_stepService h
  cases stepService_cases h with
  | begin | others =>
    exact hs.congr ⟨fun _ ↦ rfl, fun _ ↦ rfl, rfl, rfl⟩ (fun _ ↦ id) (fun _ ↦ id)
      (fun _ ↦ rfl) (fun _ _ ↦ rfl) rfl
  | start e p w q hcaller hstart =>
    obtain ⟨_, _, _, _, _, _, _, _, _, rfl, -, hle⟩ := startSrv_frame hstart
    exact hs.congr ⟨fun _ ↦ rfl, fun _ ↦ rfl, rfl, rfl⟩ (fun n hn ↦ ⟨hn.1.trans_le hle, hn.2⟩)
      (fun _ ↦ id) (fun _ ↦ rfl) (fun _ _ ↦ rfl) rfl
  | stop e p restart w q hcaller hstop =>
    have hsockets : SameSockets s.world w := by
      cases stopSrv_cases hstop with
      | shutdownChild | shutdownParent => exact sameSockets_shutdown _ _
      | _ => exact ⟨fun _ ↦ rfl, fun _ ↦ rfl, rfl, rfl⟩
    obtain ⟨_, _, _, rfl⟩ := stopSrv_frame hstop
    exact hs.congr hsockets (fun _ ↦ id) (fun _ ↦ id) (fun _ ↦ rfl) (fun _ _ ↦ rfl) rfl
  | server n e w server halive hserve =>
    exact owned_server hs hrunning halive (honly halive) hserve
  | exit n e w halive hserve => exact owned_exit hs (honly halive) hserve
  | foreignOpen fd hfree =>
    refine hs.congr (sameSockets_update _ ?_ ?_) (fun _ ↦ id) (fun _ ↦ id) (fun _ ↦ rfl)
      (fun _ _ ↦ rfl) rfl <;> rw [hfree] <;> rfl
  | foreignClose fd hforeign =>
    refine hs.congr (sameSockets_update _ ?_ ?_) (fun _ ↦ id) (fun _ ↦ id) (fun _ ↦ rfl)
      (fun _ _ ↦ rfl) rfl <;> rw [hforeign] <;> rfl

theorem owned_of_reach {heap : Addr → Option Text} {open' : ℤ → Bool} {arrays : ℕ → Buffers}
    {s : Service} (h : Reachable (stepService P) (.initial heap open' arrays) s) : Owned s :=
  h.invariant_of (fun s ↦ Handled s.world s.caller) Owned (fun _ ↦ handled_of_reach)
    (owned_initial heap open' arrays) fun _ _ _ hhandled hs _ ↦ owned_step hhandled hs

theorem stepOwned_of_applied_none {s : Service} {a : ServiceAction} (happlied : s.applied a = none)
    (hjoined : s.joined a = none) : StepOwned s a :=
  ⟨fun _ h ↦ absurd (happlied.symm.trans h) nofun, fun _ h ↦ absurd (hjoined.symm.trans h) nofun⟩

theorem stepOwned_iff_of_applied {s : Service} {a : ServiceAction} {fd : ℤ}
    (happlied : s.applied a = some fd) (hjoined : s.joined a = none) :
    StepOwned s a ↔ s.openedBy fd ≠ none := by
  constructor
  · exact fun h ↦ h.owned fd happlied
  · intro h
    refine ⟨fun fd' hfd' ↦ ?_, fun _ hn ↦ nomatch hjoined.symm.trans hn⟩
    rwa [← Option.some.inj (happlied.symm.trans hfd')]

theorem stepOwned_server_iff {s : Service} (hs : Owned s) (n : ℕ) (e : Env) :
    StepOwned s (.server n e) ↔ s.opened n ≠ .closed := by
  have hopened : s.opened n = (s.servers n).pc.opened := rfl
  cases hpc : (s.servers n).pc with
  | fclose ok =>
    have hstream : s.opened n = .stream := hopened.trans (by rw [hpc]; rfl)
    have happlied : s.applied (.server n e) = some (s.servers n).stream := by
      simp only [Service.applied, hpc]
    rw [stepOwned_iff_of_applied happlied rfl, hs.stream n hstream]
    refine iff_of_true ((hs.own _).mpr (.inr (hs.child n (.inr hstream)).2)) ?_
    rw [hstream]
    nofun
  | close ok =>
    have hclosed : s.opened n = .closed := hopened.trans (by rw [hpc]; rfl)
    have happlied : s.applied (.server n e) = some s.world.srv.childfd := by
      simp only [Service.applied, hpc]
    rw [stepOwned_iff_of_applied happlied rfl]
    exact iff_of_false (fun hne ↦ hne (hs.closed n hclosed).2) fun hne ↦ hne hclosed
  | _ =>
    refine iff_of_true (stepOwned_of_applied_none (by simp only [Service.applied, hpc]) rfl) ?_
    rw [hopened, hpc]
    nofun

/-- For every step that any run leads to, what it closes and shuts down is a descriptor that
`srv.c` has open, and a thread that it joins has nothing open, if and only if it is no `close` by
number, no shutdown of a stop without a connection or a listening socket to meet, and no join. -/
theorem stepOwned_iff {heap : Addr → Option Text} {open' : ℤ → Bool} {arrays : ℕ → Buffers}
    {s s' : Service} {a : ServiceAction}
    (h : Reachable (stepService P) (.initial heap open' arrays) s)
    (hstep : stepService P s a = some s') : StepOwned s a ↔ KeepsDescriptors s a := by
  have hs := owned_of_reach h
  cases stepService_cases hstep with
  | begin | foreignOpen | foreignClose | others =>
    exact iff_of_true (stepOwned_of_applied_none rfl rfl) trivial
  | server n e w server halive hserve => exact stepOwned_server_iff hs n e
  | exit n e w halive hserve => exact stepOwned_server_iff hs n e
  | start e p w q hcaller hstart =>
    have hnone : s.applied (.caller e) = none := by simp only [Service.applied, hcaller]
    have hjoined : s.joined (.caller e) = none := by simp only [Service.joined, hcaller]
    have hkeeps : KeepsDescriptors s (.caller e) := by simp only [KeepsDescriptors, hcaller]
    exact iff_of_true (stepOwned_of_applied_none hnone hjoined) hkeeps
  | stop e p restart w q hcaller hstop =>
    cases p with
    | test | unlockMxq | join | setStopped =>
      have hnone : s.applied (.caller e) = none := by simp only [Service.applied, hcaller]
      have hjoined : s.joined (.caller e) = none := by simp only [Service.joined, hcaller]
      have hkeeps : KeepsDescriptors s (.caller e) := by simp only [KeepsDescriptors, hcaller]
      exact iff_of_true (stepOwned_of_applied_none hnone hjoined) hkeeps
    | shutdownChild =>
      have happlied : s.applied (.caller e) = some s.world.srv.childfd := by
        simp only [Service.applied, hcaller]
      have hjoined : s.joined (.caller e) = none := by simp only [Service.joined, hcaller]
      simp only [stepOwned_iff_of_applied happlied hjoined, hs.own, KeepsDescriptors, hcaller]
      constructor
      · rintro (hlistener | hclient)
        · exact .inr hlistener
        · exact .inl (hs.client _ hclient).2
      · rintro (⟨n, hn⟩ | hlistener)
        · exact .inr (hs.child n hn).2
        · exact .inl hlistener
    | shutdownParent =>
      have happlied : s.applied (.caller e) = some s.world.srv.parentfd := by
        simp only [Service.applied, hcaller]
      have hjoined : s.joined (.caller e) = none := by simp only [Service.joined, hcaller]
      simp only [stepOwned_iff_of_applied happlied hjoined, KeepsDescriptors, hcaller]
      constructor
      · intro hne
        obtain ⟨n, hn⟩ := Option.ne_none_iff_exists'.mp hne
        exact ⟨n, hs.opener _ n hn⟩
      · rintro ⟨n, hn⟩
        exact (hs.own _).mpr (.inl (hs.parent n hn))
    | joining n =>
      have hjoined : s.joined (.caller e) = some n := by simp only [Service.joined, hcaller]
      simp only [KeepsDescriptors, hcaller, iff_false]
      cases stopSrv_cases hstop with
      | joined _ hexited =>
        -- The listening socket of the thread is still open.
        obtain ⟨fd, hfd, -⟩ := hs.listener n (by rw [hs.exited n hexited]; nofun)
        exact fun hclosed ↦ hclosed.closed n hjoined fd hfd

/-- For every run of the server and of the thread that starts and stops it, `srv.c` closes and
shuts down only what it has open, and leaves nothing open at a join, if and only if each step of
the run keeps to the descriptors. -/
theorem descriptorsOwned_iff (heap : Addr → Option Text) (open' : ℤ → Bool)
    (arrays : ℕ → Buffers) (actions : List ServiceAction) :
    DescriptorsOwned P (.initial heap open' arrays) actions ↔
      AllSteps (stepService P) KeepsDescriptors (.initial heap open' arrays) actions :=
  allSteps_iff (fun _ _ _ hreach hstep ↦ stepOwned_iff hreach hstep) actions .refl

/-- The server closes a connection with its stream, and another part of the process opens a
descriptor and gets the same number. -/
def reopened : List ServiceAction :=
  serviceStarted ++ .server 0 { sampleEnv with fd := 6 } :: serviceServerSteps 3 ++
    [.foreignOpen 6]

/-- The `close` by number closes the descriptor of the other part. -/
theorem not_descriptorsOwned_reopened :
    ¬DescriptorsOwned samplePlatform sampleService (reopened ++ [.server 0 sampleEnv]) := by
  refine not_allSteps_of_runAll (q := fun s ↦ s.applied (.server 0 sampleEnv) = some 6 ∧
    s.world.sockets 6 = some .foreign ∧ s.openedBy 6 = none) _ ?_ _ (by decide +kernel)
  rintro s s' ⟨happlied, -, hnone⟩ - h
  exact h.owned 6 happlied hnone

end Stored.Daemon
