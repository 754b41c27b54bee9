import Stored.Http.HeaderLoop

/-!
# Answers after a history of connections

The arrays of `serve` are not cleared between connections. The answer to a client is the same
after every history exactly if its first line names a method, so that `sscanf` writes `method`
before it is read, or if nothing can be sent: neither the request line nor the empty line after it
ends a segment.
-/

namespace Stored.Http

open Bytes

/-- The arrays after connections whose clients sent `history`, each handled to its close. -/
def afterHistory (b : Buffers) (history : List (List Segment)) : Option Buffers :=
  history.foldlM (fun b client ↦ (serveConnection b (.ofSegments client)).map (·.2.1)) b

/-- Each answer, or its absence, is the same after every two histories. -/
def HistoryIndependent (report : List UInt8) (b : Buffers) (client : List Segment) : Prop :=
  ∀ h₁ h₂ b₁ b₂, afterHistory b h₁ = some b₁ → afterHistory b h₂ = some b₂ →
    answer report b₁ client = answer report b₂ client

/-- All bytes of a client. -/
def sent (client : List Segment) : List UInt8 := client.flatMap Segment.bytes

/-- The first line of the client has a byte before any NUL that is not white space. -/
def NamesMethod (client : List Segment) : Prop :=
  ∃ c ∈ cstr (takeLine (bufsize - 1) (sent client)), isspace c = false

instance (client : List Segment) : Decidable (NamesMethod client) :=
  inferInstanceAs (Decidable (∃ c ∈ _, _))

/-- The bytes are those of the last segments of a client. -/
def WholeSegments (client : List Segment) (rest : List UInt8) : Prop :=
  ∃ segments, segments <:+ client ∧ rest = sent segments

/-- What follows the first string that is the empty line. -/
def afterEmptyLine (stream : List UInt8) : Option (List UInt8) :=
  if _ : stream = [] then none
  else if (fgets [] stream).1 = crlf then some (fgets [] stream).2
  else afterEmptyLine (fgets [] stream).2
termination_by stream.length
decreasing_by exact length_fgets_lt ‹_›

/-- Nothing is sent to the client if its request line is blank: the segment that ends the request
line goes on, and so does the one that ends the empty line, if there is one. -/
def Unanswered (client : List Segment) : Prop :=
  ¬WholeSegments client (afterRequestLine (sent client)) ∧
    ∀ rest, afterEmptyLine (afterRequestLine (sent client)) = some rest →
      ¬WholeSegments client rest

/-- A stream that has come to a place of a client: of the segment before those to come, a proper
tail is unread. -/
def Behind (client : List Segment) (s : Stream) : Prop :=
  s.segments <:+ client ∧
    (s.buffer = [] ∨ ∃ segment, (segment :: s.segments) <:+ client ∧
      s.buffer.length < segment.bytes.length)

theorem behind_getc {client : List Segment} {s s' : Stream} {c : UInt8} (hs : Behind client s)
    (h : s.getc = some (c, s')) : Behind client s' := by
  obtain ⟨buffer, segments⟩ := s
  obtain ⟨hsuffix, hbuffer⟩ := hs
  cases buffer with
  | cons c buffer =>
    obtain ⟨rfl, rfl⟩ := Prod.mk.inj (Option.some.inj h)
    obtain ⟨segment, hsegment, hlt⟩ := hbuffer.resolve_left (List.cons_ne_nil _ _)
    exact ⟨hsuffix, .inr ⟨segment, hsegment, (Nat.lt_succ_self _).trans hlt⟩⟩
  | nil =>
    cases segments with
    | nil => cases h
    | cons segment segments =>
      obtain ⟨rfl, rfl⟩ := Prod.mk.inj (Option.some.inj h)
      refine ⟨(List.suffix_cons segment segments).trans hsuffix, .inr ⟨segment, hsuffix, ?_⟩⟩
      rw [List.length_tail]
      exact Nat.sub_one_lt (List.length_pos_iff.mpr segment.nonempty).ne'

theorem behind_getLine {client : List Segment} (n : ℕ) {s : Stream} (hs : Behind client s) :
    Behind client (s.getLine n).2 := by
  induction n generalizing s with
  | zero => exact hs
  | succ n ih =>
    rw [Stream.getLine]
    split
    · exact hs
    · rename_i c s' hsome
      have hs' := behind_getc hs hsome
      split_ifs
      · exact hs'
      · exact ih hs'

theorem behind_fgets {client : List Segment} {s : Stream} (hs : Behind client s)
    (buf : List UInt8) : Behind client (s.fgets buf).2 := behind_getLine _ hs

theorem behind_readHeaders {client : List Segment} {fuel : ℕ} {buf : List UInt8} {s : Stream}
    {r : List UInt8 × Stream} (hs : Behind client s)
    (hend : readHeaders Stream.fgets fuel buf s = some r) : Behind client r.2 := by
  induction fuel generalizing buf s with
  | zero => cases hend
  | succ fuel ih =>
    rw [readHeaders] at hend
    split_ifs at hend
    · obtain rfl := Option.some.inj hend
      exact hs
    · exact ih (behind_fgets hs buf) hend

/-- The buffer is empty exactly if what is unread are whole segments. -/
theorem writable_iff {client : List Segment} {s : Stream} (hs : Behind client s) :
    s.Writable ↔ WholeSegments client s.bytes := by
  obtain ⟨hsuffix, hbuffer⟩ := hs
  constructor
  · intro hempty
    refine ⟨s.segments, hsuffix, ?_⟩
    rw [Stream.bytes, show s.buffer = [] from hempty]
    rfl
  · rintro ⟨segments, hsegments, hbytes⟩
    rcases hbuffer with hempty | ⟨segment, hsegment, hlt⟩
    · exact hempty
    have hlength : s.buffer.length + (sent s.segments).length = (sent segments).length := by
      rw [← hbytes, Stream.bytes, List.length_append]
      rfl
    rcases List.suffix_or_suffix_of_suffix hsegments hsegment with hle | hle
    · rcases List.suffix_cons_iff.mp hle with rfl | hle
      · -- the whole segment before those to come would be unread
        rw [sent, sent, List.flatMap_cons, List.length_append] at hlength
        omega
      · obtain ⟨before, hbefore⟩ := hle
        rw [← hbefore, sent, sent, List.flatMap_append, List.length_append] at hlength
        exact List.length_eq_zero_iff.mp (by omega)
    · obtain ⟨before, rfl⟩ := hle
      rw [sent, sent, List.flatMap_append, List.flatMap_cons, List.length_append,
        List.length_append] at hlength
      omega

theorem afterEmptyLine_nil : afterEmptyLine [] = none := by
  rw [afterEmptyLine, dif_pos rfl]

theorem not_stopsAt_nil {buf : List UInt8} (hbuf : buf ≠ crlf) (rest : List UInt8) :
    ¬StopsAt buf [] rest := by
  rintro ⟨fuel, hend⟩
  rw [readHeaders_nil, if_neg fun h ↦ hbuf h.2] at hend
  cases hend

/-- The header loop that begins where a line follows stops behind the empty line. -/
theorem readsTo_iff_afterEmptyLine {stream rest : List UInt8} (hne : stream ≠ []) :
    ReadsTo stream rest ↔ afterEmptyLine stream = some rest := by
  generalize hlength : stream.length = n
  induction n using Nat.strong_induction_on generalizing stream with
  | h n ih =>
    rw [afterEmptyLine, dif_neg hne, ReadsTo]
    split_ifs with hcrlf
    · rw [hcrlf, stopsAt_crlf, Option.some.injEq]
    by_cases hrest : (fgets [] stream).2 = []
    · rw [hrest, afterEmptyLine_nil]
      exact iff_of_false (not_stopsAt_nil hcrlf rest) (Option.some_ne_none rest).symm
    · have hlt : (fgets [] stream).2.length < stream.length := length_fgets_lt hne
      rw [stopsAt_iff_readsTo hcrlf hrest]
      exact ih _ (hlength ▸ hlt) hrest rfl

theorem behind_ofSegments (client : List Segment) : Behind client (.ofSegments client) :=
  ⟨List.suffix_rfl, .inl rfl⟩

/-- A header loop that begins where a line follows ends with an empty buffer exactly if the empty
line ends a segment. -/
theorem exists_writable_iff {client : List Segment} {s : Stream} (hs : Behind client s)
    (hne : s.bytes ≠ []) (buf : List UInt8) :
    (∃ fuel r, readHeaders Stream.fgets fuel (s.fgets buf).1 (s.fgets buf).2 = some r ∧
        r.2.Writable) ↔
      ∃ rest, afterEmptyLine s.bytes = some rest ∧ WholeSegments client rest := by
  have hbytes (fuel : ℕ) : readHeaders fgets fuel (fgets [] s.bytes).1 (fgets [] s.bytes).2 =
      (readHeaders Stream.fgets fuel (s.fgets buf).1 (s.fgets buf).2).map
        fun r ↦ (r.1, r.2.bytes) := by
    rw [← fgets_of_ne_nil hne buf, ← Stream.fgets_bytes]
    exact readHeaders_map Stream.fgets_bytes fuel _ _
  have hbehind {fuel : ℕ} {r : List UInt8 × Stream}
      (hend : readHeaders Stream.fgets fuel (s.fgets buf).1 (s.fgets buf).2 = some r) :
      r.2.Writable ↔ WholeSegments client r.2.bytes :=
    writable_iff (behind_readHeaders (behind_fgets hs buf) hend)
  constructor
  · rintro ⟨fuel, r, hend, hwritable⟩
    have hflat := hbytes fuel
    rw [hend, Option.map_some] at hflat
    refine ⟨r.2.bytes, ?_, (hbehind hend).mp hwritable⟩
    have hcrlf : r.1 = crlf := readHeaders_fst hflat
    rw [hcrlf] at hflat
    exact (readsTo_iff_afterEmptyLine hne).mp ⟨fuel, hflat⟩
  · rintro ⟨rest, hrest, hwhole⟩
    obtain ⟨fuel, hflat⟩ := (readsTo_iff_afterEmptyLine hne).mpr hrest
    rw [hbytes] at hflat
    obtain ⟨r, hend, hr⟩ := Option.map_eq_some_iff.mp hflat
    obtain rfl := (Prod.mk.inj hr).2
    exact ⟨fuel, r, hend, (hbehind hend).mpr hwhole⟩

theorem answer_eq_some_iff {report : List UInt8} {b : Buffers} {client : List Segment}
    {a : Response} : answer report b client = some a ↔
      ∃ fuel r, readRequest Stream.fgets fuel b (.ofSegments client) = some r ∧ r.2.2.Writable ∧
        respond report r.1 = a := by
  constructor
  · intro h
    obtain ⟨r, hr, h⟩ := Option.bind_eq_some_iff.mp h
    split_ifs at h with hwritable
    exact ⟨_, r, hr, hwritable, Option.some.inj h⟩
  · rintro ⟨fuel, r, hr, hwritable, rfl⟩
    rw [answer, serveConnection_eq_some_iff.mpr ⟨fuel, hr⟩, Option.bind_some, if_pos hwritable]

/-- The read of the request line. -/
theorem fgets_ofSegments (b : Buffers) (client : List Segment) :
    ((Stream.ofSegments client).fgets b.buf).1 = requestLine b (sent client) ∧
      ((Stream.ofSegments client).fgets b.buf).2.bytes = afterRequestLine (sent client) :=
  Prod.mk.inj ((Stream.fgets_bytes b.buf _).trans (fgets_eq_requestLine b (sent client)))

/-- A request that is no GET is answered if its line ends a segment. -/
theorem answer_of_notGet (report : List UInt8) {b : Buffers} {client : List Segment}
    (hmethod : strcasecmp (requestMethod b (sent client)) (ascii "GET") = false) (a : Response) :
    answer report b client = some a ↔ WholeSegments client (afterRequestLine (sent client)) ∧
      respond report (.notGet (requestMethod b (sent client))) = a := by
  obtain ⟨hline, hrest⟩ := fgets_ofSegments b client
  have hwritable := writable_iff (behind_fgets (behind_ofSegments client) b.buf)
  have hreads (fuel : ℕ) : readRequest Stream.fgets fuel b (.ofSegments client) =
      some (.notGet (requestMethod b (sent client)), scanned b (requestLine b (sent client)),
        ((Stream.ofSegments client).fgets b.buf).2) := by
    rw [readRequest_eq, hline, scanned_method, hmethod]
    rfl
  rw [hrest] at hwritable
  simp only [answer_eq_some_iff, hreads, Option.some.injEq, exists_eq_left', hwritable, exists_const]

/-- A GET request is answered if its header loop ends with an empty buffer. -/
theorem answer_of_get (report : List UInt8) {b : Buffers} {client : List Segment}
    (hmethod : strcasecmp (requestMethod b (sent client)) (ascii "GET") = true) (a : Response) :
    answer report b client = some a ↔
      (∃ fuel r, readHeaders Stream.fgets fuel
        (((Stream.ofSegments client).fgets b.buf).2.fgets (requestLine b (sent client))).1
        (((Stream.ofSegments client).fgets b.buf).2.fgets (requestLine b (sent client))).2 = some r ∧
          r.2.Writable) ∧ respond report .get = a := by
  obtain ⟨hline, -⟩ := fgets_ofSegments b client
  rw [answer_eq_some_iff]
  simp only [readRequest_eq, hline, scanned_method, hmethod, if_true]
  constructor
  · rintro ⟨fuel, r, hr, hwritable, rfl⟩
    obtain ⟨r', hend, rfl⟩ := Option.map_eq_some_iff.mp hr
    exact ⟨⟨fuel, r', hend, hwritable⟩, rfl⟩
  · rintro ⟨⟨fuel, r, hend, hwritable⟩, rfl⟩
    exact ⟨fuel, _, by rw [hend, Option.map_some], hwritable, rfl⟩

theorem answer_of_get_iff (report : List UInt8) {b : Buffers} {client : List Segment}
    (hmethod : strcasecmp (requestMethod b (sent client)) (ascii "GET") = true)
    (hne : afterRequestLine (sent client) ≠ []) (a : Response) :
    answer report b client = some a ↔
      (∃ rest, afterEmptyLine (afterRequestLine (sent client)) = some rest ∧
        WholeSegments client rest) ∧ respond report .get = a := by
  obtain ⟨-, hrest⟩ := fgets_ofSegments b client
  rw [answer_of_get report hmethod,
    exists_writable_iff (behind_fgets (behind_ofSegments client) b.buf) (hrest ▸ hne), hrest]

theorem sent_ne_nil_of_namesMethod {client : List Segment} (h : NamesMethod client) :
    sent client ≠ [] := by
  intro hnil
  obtain ⟨c, hc, -⟩ := h
  rw [hnil] at hc
  cases hc

/-- Two connections that send the same bytes and name a method are answered alike. -/
theorem answer_eq_of_namesMethod {client : List Segment} (h : NamesMethod client)
    (report : List UInt8) (b₁ b₂ : Buffers) : answer report b₁ client = answer report b₂ client := by
  have hne := sent_ne_nil_of_namesMethod h
  have hline (b : Buffers) : requestLine b (sent client) =
      cstr (takeLine (bufsize - 1) (sent client)) := by
    rw [requestLine, if_neg hne]
  obtain ⟨word, rest, hword⟩ := scanWord_of_mem h
  have hmethod (b : Buffers) : requestMethod b (sent client) = word := by
    rw [requestMethod, hline, hword]
  apply Option.ext
  intro a
  cases hget : strcasecmp word (ascii "GET") with
  | false =>
    rw [answer_of_notGet report ((congrArg (strcasecmp · _) (hmethod b₁)).trans hget),
      answer_of_notGet report ((congrArg (strcasecmp · _) (hmethod b₂)).trans hget),
      hmethod, hmethod]
  | true =>
    rw [answer_of_get report ((congrArg (strcasecmp · _) (hmethod b₁)).trans hget),
      answer_of_get report ((congrArg (strcasecmp · _) (hmethod b₂)).trans hget), hline, hline]
    rfl

/-- The arrays that a `GET` and a `POST` request leave behind. -/
def getRequest : Segment := ⟨ascii "GET / HTTP/1.0\r\n\r\n", by decide⟩
def postRequest : Segment := ⟨ascii "POST / HTTP/1.0\r\n", by decide⟩
def afterGet : Buffers := ⟨crlf, ascii "GET", ascii "/", ascii "HTTP/1.0"⟩
def afterPost : Buffers :=
  ⟨ascii "POST / HTTP/1.0\r\n", ascii "POST", ascii "/", ascii "HTTP/1.0"⟩

theorem afterHistory_getRequest (b : Buffers) :
    afterHistory b [[getRequest]] = some afterGet := rfl

theorem afterHistory_postRequest (b : Buffers) :
    afterHistory b [[postRequest]] = some afterPost := rfl

theorem respond_get_ne (report method : List UInt8) :
    respond report .get ≠ respond report (.notGet method) := by
  intro h
  have hstatus : (200 : ℕ) = 501 := congrArg Response.status h
  exact absurd hstatus (by decide)

theorem requestMethod_afterGet {client : List Segment} (h : ¬NamesMethod client) :
    requestMethod afterGet (sent client) = ascii "GET" := by
  have hscan : scanWord (requestLine afterGet (sent client)) = none := by
    rw [requestLine]
    split_ifs
    · rfl
    · exact scanWord_of_not_mem h
  rw [requestMethod, hscan]
  rfl

/-- A client that sends nothing is answered from the request line of the client before it. -/
theorem requestMethod_afterPost {client : List Segment} (h : ¬NamesMethod client) :
    requestMethod afterPost (sent client) = ascii "POST" := by
  by_cases hnil : sent client = []
  · rw [hnil]
    rfl
  · have hscan : scanWord (requestLine afterPost (sent client)) = none := by
      rw [requestLine, if_neg hnil]
      exact scanWord_of_not_mem h
    rw [requestMethod, hscan]
    rfl

theorem wholeSegments_nil (client : List Segment) : WholeSegments client [] :=
  ⟨[], List.nil_suffix, rfl⟩

theorem answers_differ {client : List Segment} (hnames : ¬NamesMethod client)
    (hunanswered : ¬Unanswered client) (report : List UInt8) :
    answer report afterGet client ≠ answer report afterPost client := by
  have hget : strcasecmp (requestMethod afterGet (sent client)) (ascii "GET") = true := by
    rw [requestMethod_afterGet hnames]
    rfl
  have hpost : strcasecmp (requestMethod afterPost (sent client)) (ascii "GET") = false := by
    rw [requestMethod_afterPost hnames]
    rfl
  intro heq
  by_cases hwhole : WholeSegments client (afterRequestLine (sent client))
  · have hanswer := (answer_of_notGet report hpost _).mpr ⟨hwhole, rfl⟩
    obtain ⟨-, hrespond⟩ := (answer_of_get report hget _).mp (heq.trans hanswer)
    exact respond_get_ne _ _ hrespond
  · have hrest : ∃ rest, afterEmptyLine (afterRequestLine (sent client)) = some rest ∧
        WholeSegments client rest := by
      by_contra hrest
      exact hunanswered ⟨hwhole, fun rest hempty hwhole ↦ hrest ⟨rest, hempty, hwhole⟩⟩
    have hne : afterRequestLine (sent client) ≠ [] := fun hnil ↦
      hwhole (hnil ▸ wholeSegments_nil client)
    have hanswer := (answer_of_get_iff report hget hne _).mpr ⟨hrest, rfl⟩
    exact hwhole ((answer_of_notGet report hpost _).mp (heq.symm.trans hanswer)).1

theorem answer_of_unanswered {client : List Segment} (h : Unanswered client) (report : List UInt8)
    (b : Buffers) : answer report b client = none := by
  obtain ⟨hwhole, hrest⟩ := h
  by_contra hsome
  obtain ⟨a, ha⟩ := Option.ne_none_iff_exists'.mp hsome
  cases hmethod : strcasecmp (requestMethod b (sent client)) (ascii "GET") with
  | false => exact hwhole ((answer_of_notGet report hmethod a).mp ha).1
  | true =>
    have hne : afterRequestLine (sent client) ≠ [] := fun hnil ↦
      hwhole (hnil ▸ wholeSegments_nil client)
    obtain ⟨⟨rest, hempty, hends⟩, -⟩ := (answer_of_get_iff report hmethod hne a).mp ha
    exact hrest rest hempty hends

/-- The answer to a client depends on that client alone exactly if its request line names a
method, or if nothing can be sent to it, whatever the arrays held when the server thread began. -/
theorem historyIndependent_iff (report : List UInt8) (b : Buffers) (client : List Segment) :
    HistoryIndependent report b client ↔ NamesMethod client ∨ Unanswered client := by
  constructor
  · intro hind
    by_contra h
    obtain ⟨hnames, hunanswered⟩ := not_or.mp h
    exact answers_differ hnames hunanswered report (hind _ _ _ _ (afterHistory_getRequest b)
      (afterHistory_postRequest b))
  · rintro (h | h) h₁ h₂ b₁ b₂ - -
    · exact answer_eq_of_namesMethod h report b₁ b₂
    · rw [answer_of_unanswered h, answer_of_unanswered h]

/-- A client that sends nothing gets the report after a `GET` client, and a 501 after a `POST`
client. -/
theorem not_historyIndependent_nil :
    ¬HistoryIndependent (ascii "\x7b\x7d") ⟨[], [], [], []⟩ [] := by
  intro hind
  have hnames : ¬NamesMethod [] := by decide
  have hunanswered : ¬Unanswered [] := fun h ↦ h.1 (wholeSegments_nil [])
  exact answers_differ hnames hunanswered _ (hind _ _ _ _ (afterHistory_getRequest _)
    (afterHistory_postRequest _))

end Stored.Http
