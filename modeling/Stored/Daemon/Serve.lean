import Stored.Daemon.World

/-!
# Steps of `serve`
-/

namespace Stored.Daemon

open Bytes Json Mtab Http

/-- Where a server thread stands. The steps that close a connection are passed on the way of the
501 response and on that of the 200 response. -/
inductive ServePc where
  | sigmask
  | lockConfig
  | readPort
  | unlockConfig
  | socket
  | bind
  | listen
  | trylockMxq
  | unlockMxq
  | accept
  | accepting (fd : ℤ)
  | fdopen
  | request
  /-- the header loop of a client that sends no empty line -/
  | headers
  | lockBuffer
  | strdup
  | unlockBuffer
  | respond
  /-- the last flush of a 200 response of which some bytes are out -/
  | fflush (report : Text) (sent : ℕ)
  | fclose (ok : Bool)
  | close (ok : Bool)
  | free
  deriving DecidableEq

/-- A server thread with its locals: `portno`, the descriptor behind `stream`, the arrays, and
whether `stream` holds input that is unread, so that nothing can be written to it. -/
structure Server where
  pc : ServePc
  portno : Loaded Int32
  stream : ℤ
  buffers : Buffers
  held : Bool
  deriving DecidableEq

/-- The text that `srv_buff->data` points at; no value is a pointer that is not valid. -/
def Data.text? (heap : Addr → Option Text) : Data → Option Text
  | .unset => none
  | .literal => some Data.initial
  | .text a => heap a

/-- The accept loop, from the first quit check on. -/
def ServePc.inLoop : ServePc → Bool
  | .sigmask | .lockConfig | .readPort | .unlockConfig | .socket | .bind | .listen => false
  | _ => true

/-- A server thread between `accept` and the close of the connection. -/
def ServePc.hasChild : ServePc → Bool
  | .fdopen | .request | .headers | .lockBuffer | .strdup | .unlockBuffer | .respond
  | .fflush _ _ | .fclose _ | .close _ => true
  | _ => false

/-- A server thread between `fdopen` and `fclose`. -/
def ServePc.hasStream : ServePc → Bool
  | .request | .headers | .lockBuffer | .strdup | .unlockBuffer | .respond | .fflush _ _
  | .fclose _ => true
  | _ => false

/-- One step of server thread `n`; no place to go on is the end of the thread. -/
def serve (n : ℕ) (e : Env) (w : World) (s : Server) : Option (World × Option Server) :=
  match s.pc with
  | .sigmask => some (w, some { s with pc := .lockConfig })
  | .lockConfig => (w.lockConfig (.thread n)).map (·, some { s with pc := .readPort })
  | .readPort => some (w, some { s with pc := .unlockConfig, portno := w.config.httpPort })
  | .unlockConfig => some (w.unlockConfig, some { s with pc := .socket })
  | .socket =>
    if e.fd < 0 then some (w.abort, some s)
    else if w.sockets e.fd = none then
      some ({ w.setSocket e.fd (some .unbound) with srv := { w.srv with parentfd := e.fd } },
        some { s with pc := .bind })
    else none
  | .bind =>
    if e.ok ∧ w.sockets w.srv.parentfd = some .unbound then
      some (w.setSocket w.srv.parentfd (some .bound), some { s with pc := .listen })
    else some (w.abort, some s)
  | .listen =>
    if e.ok ∧ w.sockets w.srv.parentfd = some .bound then
      some (w.setSocket w.srv.parentfd (some .listening), some { s with pc := .trylockMxq })
    else some (w.abort, some s)
  | .trylockMxq =>
    match w.lockMxq (.thread n) with
    | some w => some (w, some { s with pc := .unlockMxq })
    | none => some (w, some { s with pc := .accept })
  | .unlockMxq => some (w.unlockMxq, none)
  | .accept => some (w, some { s with pc := .accepting w.srv.parentfd })
  | .accepting fd =>
    if e.ok then
      if w.sockets fd = some .listening ∧ 0 ≤ e.fd ∧ w.sockets e.fd = none then
        some ({ w.setSocket e.fd (some .client) with srv := { w.srv with childfd := e.fd } },
          some { s with pc := .fdopen })
      else none
    else some ({ w with srv := { w.srv with childfd := -1 } }, none)
  | .fdopen => some (w, some { s with pc := .request, stream := w.srv.childfd })
  | .request =>
    match serveConnection s.buffers (.ofSegments e.stream) with
    | none => some (w, some { s with pc := .headers })
    | some (.notGet _, b, _) => some (w, some { s with pc := .fclose false, buffers := b })
    | some (.get, b, stream) =>
      some (w, some { s with pc := .lockBuffer, buffers := b, held := ¬stream.Writable })
  | .headers => some (w, some s)
  | .lockBuffer => (w.lockBuffer (.thread n)).map (·, some { s with pc := .strdup })
  | .strdup =>
    (w.buffer.data.text? w.heap).bind fun text ↦ (w.alloc e.addr text).map fun w ↦
      ({ w with srv := { w.srv with contentBuffer := some e.addr } },
        some { s with pc := .unlockBuffer })
  | .unlockBuffer => some (w.unlockBuffer, some { s with pc := .respond })
  | .respond =>
    w.srv.contentBuffer.bind fun a ↦ (w.heap a).map fun text ↦
      (w, some { s with
        pc := .fflush text (if w.sockets s.stream = some .client then e.written else 0) })
  | .fflush report sent =>
    some (if s.held then w else w.send s.stream report sent, some { s with pc := .fclose true })
  | .fclose ok => some (w.setSocket s.stream none, some { s with pc := .close ok })
  | .close ok =>
    some (w.setSocket w.srv.childfd none, some { s with pc := if ok then .free else .trylockMxq })
  | .free =>
    match w.srv.contentBuffer with
    | none => some (w, some { s with pc := .trylockMxq })
    | some a => (w.heap a).map fun _ ↦ (w.release a, some { s with pc := .trylockMxq })

/-- What one step of a server thread can do. -/
inductive ServeStep (n : ℕ) (e : Env) (w : World) (s : Server) : World → Option Server → Prop
  | sigmask (hpc : s.pc = .sigmask) : ServeStep n e w s w (some { s with pc := .lockConfig })
  | lockConfig (hpc : s.pc = .lockConfig) (hfree : w.config.mutex.owner = none) :
    ServeStep n e w s { w with config := { w.config with mutex := ⟨some (.thread n)⟩ } }
      (some { s with pc := .readPort })
  | readPort (hpc : s.pc = .readPort) :
    ServeStep n e w s w (some { s with pc := .unlockConfig, portno := w.config.httpPort })
  | unlockConfig (hpc : s.pc = .unlockConfig) :
    ServeStep n e w s w.unlockConfig (some { s with pc := .socket })
  | abort (hpc : s.pc = .socket ∨ s.pc = .bind ∨ s.pc = .listen) :
    ServeStep n e w s w.abort (some s)
  | socket (hpc : s.pc = .socket) (hfree : w.sockets e.fd = none) (hfd : 0 ≤ e.fd) :
    ServeStep n e w s
      { w.setSocket e.fd (some .unbound) with srv := { w.srv with parentfd := e.fd } }
      (some { s with pc := .bind })
  | bind (hpc : s.pc = .bind) (hunbound : w.sockets w.srv.parentfd = some .unbound) :
    ServeStep n e w s (w.setSocket w.srv.parentfd (some .bound)) (some { s with pc := .listen })
  | listen (hpc : s.pc = .listen) (hbound : w.sockets w.srv.parentfd = some .bound) :
    ServeStep n e w s (w.setSocket w.srv.parentfd (some .listening))
      (some { s with pc := .trylockMxq })
  | quit (hpc : s.pc = .trylockMxq) (hfree : w.srv.mxq.owner = none) :
    ServeStep n e w s { w with srv := { w.srv with mxq := ⟨some (.thread n)⟩ } }
      (some { s with pc := .unlockMxq })
  | goOn (hpc : s.pc = .trylockMxq) (hheld : w.srv.mxq.owner ≠ none) :
    ServeStep n e w s w (some { s with pc := .accept })
  | unlockMxq (hpc : s.pc = .unlockMxq) : ServeStep n e w s w.unlockMxq none
  | accept (hpc : s.pc = .accept) :
    ServeStep n e w s w (some { s with pc := .accepting w.srv.parentfd })
  | accepted (fd : ℤ) (hpc : s.pc = .accepting fd) (hlistening : w.sockets fd = some .listening)
    (hfree : w.sockets e.fd = none) (hfd : 0 ≤ e.fd) (hok : e.ok = true) :
    ServeStep n e w s { w.setSocket e.fd (some .client) with srv := { w.srv with childfd := e.fd } }
      (some { s with pc := .fdopen })
  | refused (fd : ℤ) (hpc : s.pc = .accepting fd) (hfails : e.ok = false) :
    ServeStep n e w s { w with srv := { w.srv with childfd := -1 } } none
  | fdopen (hpc : s.pc = .fdopen) :
    ServeStep n e w s w (some { s with pc := .request, stream := w.srv.childfd })
  | request (p : ServePc) (b : Buffers) (held : Bool) (hpc : s.pc = .request)
    (hp : p = .headers ∨ p = .fclose false ∨ p = .lockBuffer) :
    ServeStep n e w s w (some { s with pc := p, buffers := b, held := held })
  | headers (hpc : s.pc = .headers) : ServeStep n e w s w (some s)
  | lockBuffer (hpc : s.pc = .lockBuffer) (hfree : w.buffer.mutex.owner = none) :
    ServeStep n e w s { w with buffer := { w.buffer with mutex := ⟨some (.thread n)⟩ } }
      (some { s with pc := .strdup })
  | strdup (text : Text) (hpc : s.pc = .strdup) (htext : w.buffer.data.text? w.heap = some text)
    (hfresh : w.heap e.addr = none) :
    ServeStep n e w s
      { w with
        heap := Function.update w.heap e.addr (some text)
        srv := { w.srv with contentBuffer := some e.addr } } (some { s with pc := .unlockBuffer })
  | unlockBuffer (hpc : s.pc = .unlockBuffer) :
    ServeStep n e w s w.unlockBuffer (some { s with pc := .respond })
  | respond (a : Addr) (text : Text) (sent : ℕ) (hpc : s.pc = .respond)
    (hcopy : w.srv.contentBuffer = some a) (htext : w.heap a = some text) :
    ServeStep n e w s w (some { s with pc := .fflush text sent })
  | fflush (report : Text) (sent : ℕ) (served : List Served) (hpc : s.pc = .fflush report sent)
    (hserved : served = w.served ∨
      ∃ cut, served = w.served ++ [⟨report, okResponse report.bytes, cut⟩] ∧
        (w.sockets s.stream = some .client → cut = none)) :
    ServeStep n e w s { w with served := served } (some { s with pc := .fclose true })
  | fclose (ok : Bool) (hpc : s.pc = .fclose ok) :
    ServeStep n e w s (w.setSocket s.stream none) (some { s with pc := .close ok })
  | close (ok : Bool) (hpc : s.pc = .close ok) :
    ServeStep n e w s (w.setSocket w.srv.childfd none)
      (some { s with pc := if ok then .free else .trylockMxq })
  | freeNull (hpc : s.pc = .free) (hcopy : w.srv.contentBuffer = none) :
    ServeStep n e w s w (some { s with pc := .trylockMxq })
  | free (a : Addr) (hpc : s.pc = .free) (hcopy : w.srv.contentBuffer = some a) :
    ServeStep n e w s (w.release a) (some { s with pc := .trylockMxq })

theorem serve_cases {n : ℕ} {e : Env} {w w' : World} {s : Server} {s' : Option Server}
    (h : serve n e w s = some (w', s')) : ServeStep n e w s w' s' := by
  cases hpc : s.pc with
  | sigmask | readPort | unlockConfig | unlockMxq | accept | fdopen | unlockBuffer | fclose
  | close =>
    simp only [serve, hpc, Option.some.injEq, Prod.mk.injEq] at h
    obtain ⟨rfl, rfl⟩ := h
    constructor
    exact hpc
  | headers =>
    simp only [serve, hpc, Option.some.injEq, Prod.mk.injEq] at h
    obtain ⟨rfl, rfl⟩ := h
    exact .headers hpc
  | lockConfig =>
    simp only [serve, hpc, Option.map_eq_some_iff, World.lockConfig_eq_some_iff] at h
    obtain ⟨w₁, ⟨hfree, rfl⟩, h⟩ := h
    obtain ⟨rfl, rfl⟩ := Prod.mk.inj h
    exact .lockConfig hpc hfree
  | lockBuffer =>
    simp only [serve, hpc, Option.map_eq_some_iff, World.lockBuffer_eq_some_iff] at h
    obtain ⟨w₁, ⟨hfree, rfl⟩, h⟩ := h
    obtain ⟨rfl, rfl⟩ := Prod.mk.inj h
    exact .lockBuffer hpc hfree
  | socket =>
    simp only [serve, hpc] at h
    split_ifs at h with hfd hfree <;> obtain ⟨rfl, rfl⟩ := Prod.mk.inj (Option.some.inj h)
    · exact .abort (.inl hpc)
    · exact .socket hpc hfree (not_lt.mp hfd)
  | bind =>
    simp only [serve, hpc] at h
    split_ifs at h with hok <;> obtain ⟨rfl, rfl⟩ := Prod.mk.inj (Option.some.inj h)
    · exact .bind hpc hok.2
    · exact .abort (.inr (.inl hpc))
  | listen =>
    simp only [serve, hpc] at h
    split_ifs at h with hok <;> obtain ⟨rfl, rfl⟩ := Prod.mk.inj (Option.some.inj h)
    · exact .listen hpc hok.2
    · exact .abort (.inr (.inr hpc))
  | trylockMxq =>
    simp only [serve, hpc] at h
    split at h
    · rename_i w₁ hlock
      obtain ⟨hfree, rfl⟩ := World.lockMxq_eq_some_iff.mp hlock
      obtain ⟨rfl, rfl⟩ := Prod.mk.inj (Option.some.inj h)
      exact .quit hpc hfree
    · rename_i hlock
      obtain ⟨rfl, rfl⟩ := Prod.mk.inj (Option.some.inj h)
      refine .goOn hpc fun hfree ↦ ?_
      exact nomatch hlock.symm.trans (World.lockMxq_eq_some_iff.mpr ⟨hfree, rfl⟩)
  | accepting fd =>
    simp only [serve, hpc] at h
    split_ifs at h with hok hready <;> obtain ⟨rfl, rfl⟩ := Prod.mk.inj (Option.some.inj h)
    · exact .accepted fd hpc hready.1 hready.2.2 hready.2.1 hok
    · exact .refused fd hpc (Bool.eq_false_iff.mpr hok)
  | request =>
    simp only [serve, hpc] at h
    split at h <;> obtain ⟨rfl, rfl⟩ := Prod.mk.inj (Option.some.inj h)
    · exact .request .headers s.buffers s.held hpc (.inl rfl)
    · exact .request (.fclose false) _ s.held hpc (.inr (.inl rfl))
    · exact .request .lockBuffer _ _ hpc (.inr (.inr rfl))
  | strdup =>
    simp only [serve, hpc, Option.bind_eq_some_iff, Option.map_eq_some_iff,
      World.alloc_eq_some_iff] at h
    obtain ⟨text, htext, w₁, ⟨hfresh, rfl⟩, h⟩ := h
    obtain ⟨rfl, rfl⟩ := Prod.mk.inj h
    exact .strdup text hpc htext hfresh
  | respond =>
    simp only [serve, hpc, Option.bind_eq_some_iff, Option.map_eq_some_iff] at h
    obtain ⟨a, hcopy, text, htext, h⟩ := h
    obtain ⟨rfl, rfl⟩ := Prod.mk.inj h
    exact .respond a text _ hpc hcopy htext
  | fflush report sent =>
    simp only [serve, hpc, Option.some.injEq, Prod.mk.injEq] at h
    obtain ⟨rfl, rfl⟩ := h
    split_ifs
    · exact .fflush report sent w.served hpc (.inl rfl)
    · obtain ⟨served, heq, hserved⟩ := w.send_cases s.stream report sent
      rw [heq]
      exact .fflush report sent served hpc hserved
  | free =>
    simp only [serve, hpc] at h
    split at h
    · rename_i hcopy
      obtain ⟨rfl, rfl⟩ := Prod.mk.inj (Option.some.inj h)
      exact .freeNull hpc hcopy
    · rename_i a hcopy
      obtain ⟨text, -, h⟩ := Option.map_eq_some_iff.mp h
      obtain ⟨rfl, rfl⟩ := Prod.mk.inj h
      exact .free a hpc hcopy

/-- A server thread takes the configuration lock and the lock of the buffer, and writes of the
statics those of its descriptors and its copy. -/
theorem serve_frame {n : ℕ} {e : Env} {w w' : World} {s : Server} {s' : Option Server}
    (h : serve n e w s = some (w', s')) :
    ∃ config heap buffer mxq parentfd childfd contentBuffer sockets served ended, w' = { w with
      config := { w.config with mutex := config }, heap := heap,
      buffer := { w.buffer with mutex := buffer },
      srv := { w.srv with
        mxq := mxq, parentfd := parentfd, childfd := childfd, contentBuffer := contentBuffer },
      sockets := sockets, served := served, ended := ended } := by
  cases serve_cases h <;> exact ⟨_, _, _, _, _, _, _, _, _, _, rfl⟩

/-- A server thread gives no mutex to another thread. -/
theorem serve_owner {n : ℕ} {e : Env} {w w' : World} {s : Server} {s' : Option Server}
    (h : serve n e w s = some (w', s')) {t : Tid} (ht : t ≠ .thread n) :
    (w'.config.mutex.owner = some t → w.config.mutex.owner = some t) ∧
      (w'.buffer.mutex.owner = some t → w.buffer.mutex.owner = some t) ∧
      (w'.srv.mxq.owner = some t → w.srv.mxq.owner = some t) := by
  have hlocked : ((⟨some (.thread n)⟩ : Mutex Tid).owner = some t) → False := by
    rintro ⟨⟩
    exact ht rfl
  cases serve_cases h with
  | lockConfig => exact ⟨fun ho ↦ (hlocked ho).elim, id, id⟩
  | unlockConfig => exact ⟨nofun, id, id⟩
  | lockBuffer => exact ⟨id, fun ho ↦ (hlocked ho).elim, id⟩
  | unlockBuffer => exact ⟨id, nofun, id⟩
  | quit => exact ⟨id, id, fun ho ↦ (hlocked ho).elim⟩
  | unlockMxq => exact ⟨id, id, nofun⟩
  | _ => exact ⟨id, id, id⟩

def ServePc.holdsConfig : ServePc → Bool
  | .readPort | .unlockConfig => true
  | _ => false

theorem serve_config {n : ℕ} {e : Env} {w w' : World} {s : Server} {s' : Option Server}
    (h : serve n e w s = some (w', s')) :
    ConfigStep w w' (.thread n) s.pc.holdsConfig (s'.any (·.pc.holdsConfig)) := by
  cases serve_cases h with
  | lockConfig hpc hfree => exact .lock (Mutex.lock_eq_some_iff.mpr ⟨hfree, rfl⟩)
  | unlockConfig hpc => exact .unlock (by rw [hpc]; rfl) nofun rfl
  | readPort hpc => exact .keep rfl fun _ ↦ by rw [hpc]; rfl
  | abort | headers => exact .keep rfl id
  | request p b held hpc hp => rcases hp with rfl | rfl | rfl <;> exact .keep rfl nofun
  | close ok => cases ok <;> exact .keep rfl nofun
  | _ => exact .keep rfl nofun

/-- A server thread in `accept` or about to call it. -/
def ServePc.inAccept : ServePc → Bool
  | .accept | .accepting _ => true
  | _ => false

/-- A quit check of a free `mxq` reports true. -/
theorem serve_quit {n : ℕ} {e : Env} {w : World} {s : Server} (hpc : s.pc = .trylockMxq)
    (hfree : w.srv.mxq.owner = none) :
    ∃ w', serve n e w s = some (w', some { s with pc := .unlockMxq }) := by
  have hlock : w.lockMxq (.thread n) = some _ := World.lockMxq_eq_some_iff.mpr ⟨hfree, rfl⟩
  simp only [serve, hpc, hlock, Option.some.injEq, Prod.mk.injEq, and_true]
  exact ⟨_, rfl⟩

/-- A thread that goes on was not about to leave the loop. -/
theorem serve_ne_unlockMxq {n : ℕ} {e : Env} {w w' : World} {s s' : Server}
    (h : serve n e w s = some (w', some s')) : s.pc ≠ .unlockMxq := by
  intro hpc
  simp [serve, hpc] at h

/-- What a step has to do with `mxq` and `accept`. -/
theorem serve_quit_cases {n : ℕ} {e : Env} {w w' : World} {s s' : Server}
    (h : serve n e w s = some (w', some s')) :
    (s.pc = .trylockMxq ∧ w.srv.mxq.owner = none ∧ s'.pc = .unlockMxq ∧
        w'.srv.mxq.owner = some (.thread n)) ∨
      (s.pc = .trylockMxq ∧ w.srv.mxq.owner ≠ none ∧ s'.pc = .accept ∧ w' = w) ∨
      (s.pc = .accept ∧ s'.pc.inAccept = true ∧ w' = w) ∨
      (s'.pc.inAccept = false ∧ s'.pc ≠ .unlockMxq ∧ w'.srv.mxq = w.srv.mxq) := by
  cases serve_cases h with
  | quit hpc hfree =>
    exact .inl ⟨hpc, hfree, rfl, rfl⟩
  | goOn hpc hheld =>
    exact .inr (.inl ⟨hpc, hheld, rfl, rfl⟩)
  | accept hpc =>
    exact .inr (.inr (.inl ⟨hpc, rfl, rfl⟩))
  | abort hpc =>
    rcases hpc with hpc | hpc | hpc <;> rw [hpc] <;> exact .inr (.inr (.inr ⟨rfl, nofun, rfl⟩))
  | headers hpc =>
    rw [hpc]
    exact .inr (.inr (.inr ⟨rfl, nofun, rfl⟩))
  | request p b held hpc hp =>
    rcases hp with rfl | rfl | rfl <;> exact .inr (.inr (.inr ⟨rfl, nofun, rfl⟩))
  | close ok =>
    cases ok <;> exact .inr (.inr (.inr ⟨rfl, nofun, rfl⟩))
  | _ =>
    exact .inr (.inr (.inr ⟨rfl, nofun, rfl⟩))

end Stored.Daemon
