import Stored.Http.Request

/-!
# The header loop

The loop of `serve` that reads the headers compares what `fgets` has left in `buf` with the empty
line. `fgets` cuts a line after 1023 bytes, and leaves `buf` alone at the end of the stream. So the
loop never ends where no string that it reads is the empty line, and it takes the last piece of a
cut line for one where only the CRLF is left for it.
-/

namespace Stored.Http

open Bytes

theorem fgets_of_ne_nil {stream : List UInt8} (hne : stream ≠ []) (buf : List UInt8) :
    fgets buf stream = fgets [] stream := by
  rw [fgets, fgets, if_neg hne, if_neg hne]

/-- The strings that calls of `fgets` read from a stream, in order. -/
def pieces (stream : List UInt8) : List (List UInt8) :=
  if _ : stream = [] then []
  else (fgets [] stream).1 :: pieces (fgets [] stream).2
termination_by stream.length
decreasing_by exact length_fgets_lt ‹_›

theorem pieces_nil : pieces [] = [] := by
  rw [pieces, dif_pos rfl]

theorem pieces_of_ne_nil {stream : List UInt8} (hne : stream ≠ []) :
    pieces stream = (fgets [] stream).1 :: pieces (fgets [] stream).2 := by
  rw [pieces, dif_neg hne]

/-- The loop ends with `rest` unread. -/
def StopsAt (buf stream rest : List UInt8) : Prop :=
  ∃ fuel, readHeaders fgets fuel buf stream = some (crlf, rest)

theorem stopsAt_crlf {stream rest : List UInt8} : StopsAt crlf stream rest ↔ stream = rest := by
  constructor
  · rintro ⟨fuel, hend⟩
    cases fuel with
    | zero => exact nomatch hend
    | succ fuel =>
      rw [readHeaders, if_pos rfl] at hend
      exact (Prod.mk.inj (Option.some.inj hend)).2
  · rintro rfl
    exact ⟨1, by rw [readHeaders, if_pos rfl]⟩

theorem stopsAt_of_ne {buf stream rest : List UInt8} (hne : buf ≠ crlf) :
    StopsAt buf stream rest ↔ StopsAt (fgets buf stream).1 (fgets buf stream).2 rest := by
  constructor
  · rintro ⟨fuel, hend⟩
    cases fuel with
    | zero => exact nomatch hend
    | succ fuel =>
      rw [readHeaders, if_neg hne] at hend
      exact ⟨fuel, hend⟩
  · rintro ⟨fuel, hend⟩
    exact ⟨fuel + 1, by rw [readHeaders, if_neg hne, hend]⟩

/-- The loop ends exactly if what it looks at is the empty line at some time. -/
theorem exists_stopsAt_iff (buf stream : List UInt8) :
    (∃ rest, StopsAt buf stream rest) ↔ buf = crlf ∨ crlf ∈ pieces stream := by
  generalize hlength : stream.length = n
  induction n using Nat.strong_induction_on generalizing buf stream with
  | h n ih =>
    by_cases hbuf : buf = crlf
    · subst hbuf
      simp only [stopsAt_crlf, exists_eq', true_or]
    by_cases hstream : stream = []
    · subst hstream
      have hnever (rest : List UInt8) : ¬StopsAt buf [] rest := by
        rintro ⟨fuel, hend⟩
        rw [readHeaders_nil, if_neg fun h ↦ hbuf h.2] at hend
        exact nomatch hend
      simp only [hnever, exists_false, hbuf, pieces_nil, List.not_mem_nil, or_self]
    · have hlt : (fgets [] stream).2.length < stream.length := length_fgets_lt hstream
      simp only [stopsAt_of_ne hbuf, fgets_of_ne_nil hstream buf]
      rw [ih _ (hlength ▸ hlt) _ _ rfl, pieces_of_ne_nil hstream, List.mem_cons,
        eq_comm (a := crlf), or_iff_right hbuf]

/-- The loop is left with the empty line in `buf`. -/
theorem readHeaders_fst {fuel : ℕ} {buf stream : List UInt8} {r : List UInt8 × List UInt8}
    (hend : readHeaders fgets fuel buf stream = some r) : r.1 = crlf := by
  induction fuel generalizing buf stream with
  | zero => exact nomatch hend
  | succ fuel ih =>
    rw [readHeaders] at hend
    split_ifs at hend with hbuf
    · obtain rfl := Option.some.inj hend
      exact hbuf
    · exact ih hend

theorem exists_readHeaders_iff (buf stream : List UInt8) :
    (∃ fuel r, readHeaders fgets fuel buf stream = some r) ↔ ∃ rest, StopsAt buf stream rest := by
  constructor
  · rintro ⟨fuel, r, hend⟩
    exact ⟨r.2, fuel, by rw [hend, ← readHeaders_fst hend]⟩
  · rintro ⟨rest, fuel, hend⟩
    exact ⟨fuel, _, hend⟩

theorem exists_map_snd_iff {buf stream rest : List UInt8} :
    (∃ fuel, (readHeaders fgets fuel buf stream).map Prod.snd = some rest) ↔
      StopsAt buf stream rest := by
  constructor
  · rintro ⟨fuel, hend⟩
    obtain ⟨r, hr, rfl⟩ := Option.map_eq_some_iff.mp hend
    exact ⟨fuel, by rw [hr, ← readHeaders_fst hr]⟩
  · rintro ⟨fuel, hend⟩
    exact ⟨fuel, by rw [hend, Option.map_some]⟩

/-- The handling of a connection reaches its close. -/
def Finishes (b : Buffers) (stream : List UInt8) : Prop :=
  ∃ fuel r, readRequest fgets fuel b stream = some r

/-- The request is no GET, or a string that is read after the request line is the empty line, or
nothing follows a request line that is the empty line. -/
def EndsHeaders (b : Buffers) (stream : List UInt8) : Prop :=
  strcasecmp (requestMethod b stream) (ascii "GET") = false ∨
    crlf ∈ pieces (afterRequestLine stream) ∨
    (afterRequestLine stream = [] ∧ requestLine b stream = crlf)

/-- For every sequence of bytes that a client sends and every content of the arrays, the handling
of the connection ends if and only if the request is no GET or the empty line is read. -/
theorem finishes_iff_endsHeaders (b : Buffers) (stream : List UInt8) :
    Finishes b stream ↔ EndsHeaders b stream := by
  unfold Finishes EndsHeaders
  simp only [readRequest_eq, fgets_eq_requestLine b stream, scanned_method]
  cases hget : strcasecmp (requestMethod b stream) (ascii "GET") with
  | false => simp
  | true =>
    have hheaders := exists_readHeaders_iff
      (fgets (requestLine b stream) (afterRequestLine stream)).1
      (fgets (requestLine b stream) (afterRequestLine stream)).2
    have hloop : (∃ fuel r, readHeaders fgets fuel
        (fgets (requestLine b stream) (afterRequestLine stream)).1
        (fgets (requestLine b stream) (afterRequestLine stream)).2 = some r) ↔
        crlf ∈ pieces (afterRequestLine stream) ∨
          (afterRequestLine stream = [] ∧ requestLine b stream = crlf) := by
      rw [hheaders, exists_stopsAt_iff]
      by_cases hnil : afterRequestLine stream = []
      · simp [hnil, fgets_nil, pieces_nil]
      · rw [fgets_of_ne_nil hnil, pieces_of_ne_nil hnil, List.mem_cons, eq_comm (a := crlf)]
        simp [hnil]
    rw [or_iff_right (by decide), ← hloop]
    constructor
    · rintro ⟨fuel, r, hend⟩
      rw [if_pos rfl] at hend
      obtain ⟨r', hend, -⟩ := Option.map_eq_some_iff.mp hend
      exact ⟨fuel, r', hend⟩
    · rintro ⟨fuel, r, hend⟩
      exact ⟨fuel, _, by rw [if_pos rfl, hend, Option.map_some]⟩

/-- A request line and no empty line after it. -/
theorem not_finishes_withoutEmptyLine :
    ¬Finishes ⟨[], [], [], []⟩ (ascii "GET / HTTP/1.1\r\n") := by
  rintro ⟨fuel, r, hend⟩
  have hnone : readRequest fgets 17 ⟨[], [], [], []⟩ (ascii "GET / HTTP/1.1\r\n") = none := by
    decide +kernel
  have hbound : (ascii "GET / HTTP/1.1\r\n").length < 17 := by decide +kernel
  exact nomatch hnone.symm.trans (readRequest_of_some hend hbound)

/-- Text without NUL, CR and LF. -/
def Clean (text : List UInt8) : Prop := ∀ c ∈ text, c ≠ 0 ∧ c ≠ 0x0D ∧ c ≠ 0x0A

/-- A line that is not empty. -/
structure Line where
  bytes : List UInt8
  nonempty : bytes ≠ []
  clean : Clean bytes

def Line.sent (l : Line) : List UInt8 := l.bytes ++ crlf

/-- The head of a GET request: what follows the method on the request line, and the headers. -/
structure Head where
  target : List UInt8
  clean : Clean target
  headers : List Line

theorem clean_get : Clean (ascii "GET ") := by
  unfold Clean
  decide +kernel

def Head.requestLine (h : Head) : Line where
  bytes := ascii "GET " ++ h.target
  nonempty := nofun
  clean := List.forall_mem_append.mpr ⟨clean_get, h.clean⟩

/-- The request line and the headers. -/
def Head.lines (h : Head) : List Line := h.requestLine :: h.headers

def Head.bytes (h : Head) : List UInt8 := h.lines.flatMap Line.sent ++ crlf

/-- What the reads of `serve` leave of a stream; no value is a header loop that takes more than
`fuel` rounds. -/
def unread (fuel : ℕ) (b : Buffers) (stream : List UInt8) : Option (List UInt8) :=
  (readRequest fgets fuel b stream).map (·.2.2)

/-- The reads consume the head and nothing else. -/
def HeadConsumed (b : Buffers) (h : Head) (rest : List UInt8) : Prop :=
  ∃ fuel, unread fuel b (h.bytes ++ rest) = some rest

theorem takeLine_append {line : List UInt8} (hline : ∀ c ∈ line, c ≠ 0x0A) (n : ℕ)
    (s : List UInt8) : takeLine n (line ++ s) = line.take n ++ takeLine (n - line.length) s := by
  induction line generalizing n with
  | nil => simp
  | cons c line ih =>
    obtain ⟨hc, hline⟩ := List.forall_mem_cons.mp hline
    cases n with
    | zero => simp [takeLine]
    | succ n => simp [takeLine, hc, ih hline]

theorem takeLine_crlf {n : ℕ} (hn : 2 ≤ n) (s : List UInt8) : takeLine n (crlf ++ s) = crlf := by
  obtain ⟨n, rfl⟩ := Nat.exists_eq_add_of_le' hn
  rfl

theorem cstr_of_nulFree {s : List UInt8} (h : ∀ c ∈ s, c ≠ 0) : cstr s = s := by
  apply List.takeWhile_eq_self_iff.mpr
  intro c hc
  exact decide_eq_true (h c hc)

/-- The first piece of a line. -/
theorem fgets_line {line : List UInt8} (hline : Clean line) (buf s : List UInt8) :
    fgets buf (line ++ crlf ++ s) =
      if line.length + 2 ≤ 1023 then (line ++ crlf, s)
      else if line.length = 1022 then (line ++ [0x0D], 0x0A :: s)
      else (line.take 1023, line.drop 1023 ++ crlf ++ s) := by
  have hne : line ++ crlf ++ s ≠ [] := by simp [crlf]
  have hnul : ∀ c ∈ line, c ≠ 0 := fun c hc ↦ (hline c hc).1
  have hcut : takeLine 1023 (line ++ crlf ++ s) =
      line.take 1023 ++ takeLine (1023 - line.length) (crlf ++ s) := by
    rw [List.append_assoc, takeLine_append fun c hc ↦ (hline c hc).2.2]
  rw [fgets, if_neg hne]
  change (cstr (takeLine 1023 _), List.drop (takeLine 1023 _).length _) = _
  rw [hcut]
  split_ifs with hshort hone
  · rw [List.take_of_length_le (by omega), takeLine_crlf (by omega), List.drop_left]
    rw [cstr_of_nulFree (List.forall_mem_append.mpr ⟨hnul, by decide +kernel⟩)]
  · have hcr : takeLine (1023 - line.length) (crlf ++ s) = [0x0D] := by
      rw [hone]
      rfl
    rw [hcr, List.take_of_length_le (by omega)]
    rw [cstr_of_nulFree (List.forall_mem_append.mpr ⟨hnul, by decide +kernel⟩)]
    have hsplit : line ++ crlf ++ s = line ++ [0x0D] ++ (0x0A :: s) := by simp [crlf]
    rw [hsplit, List.drop_left]
  · have hzero : 1023 - line.length = 0 := by omega
    have hnul' : ∀ c ∈ line.take 1023, c ≠ 0 := fun c hc ↦ hnul c (List.mem_of_mem_take hc)
    rw [hzero, takeLine, List.append_nil, cstr_of_nulFree hnul', List.length_take,
      Nat.min_eq_left (by omega), List.append_assoc, List.append_assoc,
      List.drop_append_of_le_length (by omega)]

/-- The loop goes on at `stream` and ends with `rest` unread. -/
def ReadsTo (stream rest : List UInt8) : Prop :=
  StopsAt (fgets [] stream).1 (fgets [] stream).2 rest

/-- A piece that is not the empty line is read over. -/
theorem stopsAt_iff_readsTo {buf stream rest : List UInt8} (hbuf : buf ≠ crlf)
    (hstream : stream ≠ []) : StopsAt buf stream rest ↔ ReadsTo stream rest := by
  rw [stopsAt_of_ne hbuf, fgets_of_ne_nil hstream, ReadsTo]

theorem append_ne_crlf {line s : List UInt8} (hline : Clean line) (hne : line ≠ []) :
    line ++ s ≠ crlf := by
  obtain ⟨c, line, rfl⟩ := List.exists_cons_of_ne_nil hne
  intro heq
  exact (hline c List.mem_cons_self).2.1 (List.cons.inj heq).1

theorem readsTo_crlf (s rest : List UInt8) : ReadsTo (crlf ++ s) rest ↔ s = rest := by
  have hnil : Clean [] := nofun
  have hread : fgets [] (crlf ++ s) = (crlf, s) := fgets_line hnil [] s
  rw [ReadsTo, hread, stopsAt_crlf]

/-- A line is read over, unless the cuts leave only its CRLF for the last piece: there the loop
ends. -/
theorem readsTo_line {line : List UInt8} (hline : Clean line) {s : List UInt8} (hs : s ≠ [])
    (rest : List UInt8) : ReadsTo (line ++ crlf ++ s) rest ↔
      if 1023 ∣ line.length then s = rest else ReadsTo s rest := by
  generalize hlength : line.length = n
  induction n using Nat.strong_induction_on generalizing line with
  | h n ih =>
    by_cases hnil : line = []
    · subst hnil
      obtain rfl : 0 = n := hlength
      rw [List.nil_append, readsTo_crlf, if_pos (dvd_zero 1023)]
    rw [ReadsTo, fgets_line hline]
    have hpos : 0 < n := hlength ▸ List.length_pos_iff.mpr hnil
    by_cases hshort : n + 2 ≤ 1023
    · have hdvd : ¬1023 ∣ n := fun hdvd ↦ absurd (Nat.le_of_dvd hpos hdvd) (by omega)
      rw [hlength, if_pos hshort, if_neg hdvd]
      exact stopsAt_iff_readsTo (append_ne_crlf hline hnil) hs
    by_cases hone : n = 1022
    · -- the CR is the last byte of one piece, and the LF is the next one
      have hdvd : ¬1023 ∣ n := fun hdvd ↦ absurd (Nat.le_of_dvd hpos hdvd) (by omega)
      rw [hlength, if_neg hshort, if_pos hone, if_neg hdvd]
      rw [stopsAt_iff_readsTo (append_ne_crlf hline hnil) (List.cons_ne_nil _ _)]
      have hlf : fgets [] (0x0A :: s) = ([0x0A], s) := rfl
      have hne : [0x0A] ≠ crlf := by decide
      rw [ReadsTo, hlf]
      exact stopsAt_iff_readsTo hne hs
    · have hclean : Clean (line.drop 1023) := fun c hc ↦ hline c (List.mem_of_mem_drop hc)
      have hrest : (line.drop 1023).length = n - 1023 := by rw [List.length_drop, hlength]
      have htake : line.take 1023 ≠ crlf := by
        intro heq
        have h := congrArg List.length heq
        rw [List.length_take, hlength, Nat.min_eq_left (by omega)] at h
        exact absurd h (by decide)
      have hdvd : 1023 ∣ n - 1023 ↔ 1023 ∣ n := by omega
      rw [hlength, if_neg hshort, if_neg hone]
      rw [stopsAt_iff_readsTo htake (by simp [crlf]), ih (n - 1023) (by omega) hclean hrest]
      simp only [hdvd]

/-- The loop reads over all lines up to the empty one exactly if no cut leaves only a CRLF. -/
theorem readsTo_lines (lines : List Line) (rest : List UInt8) :
    ReadsTo (lines.flatMap Line.sent ++ crlf ++ rest) rest ↔
      ∀ l ∈ lines, ¬bufsize - 1 ∣ l.bytes.length := by
  induction lines with
  | nil =>
    simp [readsTo_crlf]
  | cons l lines ih =>
    have hne : lines.flatMap Line.sent ++ crlf ++ rest ≠ [] := by simp [crlf]
    have hlonger : lines.flatMap Line.sent ++ crlf ++ rest ≠ rest := by
      intro heq
      have h := congrArg List.length heq
      simp only [crlf, List.length_append, List.length_cons] at h
      omega
    have hsplit : (l :: lines).flatMap Line.sent ++ crlf ++ rest =
        l.bytes ++ crlf ++ (lines.flatMap Line.sent ++ crlf ++ rest) := by
      simp [Line.sent]
    rw [hsplit, readsTo_line l.clean hne, List.forall_mem_cons, ← ih]
    change _ ↔ ¬1023 ∣ _ ∧ _
    split_ifs with hdvd
    · exact iff_of_false hlonger fun h ↦ h.1 hdvd
    · exact (and_iff_right hdvd).symm

/-- What `buf` holds after the read of the request line begins with the method and a space. -/
theorem requestLine_get (b : Buffers) (target s : List UInt8) :
    ∃ tail, requestLine b (ascii "GET " ++ target ++ s) = ascii "GET " ++ tail := by
  have hlf : ∀ c ∈ ascii "GET ", c ≠ 0x0A := fun c hc ↦ (clean_get c hc).2.2
  have htake : (ascii "GET ").take 1023 = ascii "GET " := rfl
  rw [requestLine, if_neg nofun, List.append_assoc]
  change ∃ tail, cstr (takeLine 1023 _) = _
  rw [takeLine_append hlf, htake]
  refine ⟨cstr (takeLine (1023 - (ascii "GET ").length) (target ++ s)), ?_⟩
  exact List.takeWhile_append_of_pos fun c hc ↦ decide_eq_true (clean_get c hc).1

theorem requestMethod_head (b : Buffers) (h : Head) (rest : List UInt8) :
    requestMethod b (h.bytes ++ rest) = ascii "GET" := by
  have hsplit : h.bytes ++ rest =
      ascii "GET " ++ h.target ++ (crlf ++ h.headers.flatMap Line.sent ++ crlf ++ rest) := by
    simp [Head.bytes, Head.lines, Head.requestLine, Line.sent]
  obtain ⟨tail, htail⟩ := requestLine_get b h.target
    (crlf ++ h.headers.flatMap Line.sent ++ crlf ++ rest)
  rw [requestMethod, hsplit, htail]
  rfl

/-- The head is consumed exactly if the loop, begun at the request line, reads over all lines. -/
theorem headConsumed_iff_readsTo (b : Buffers) (h : Head) (rest : List UInt8) :
    HeadConsumed b h rest ↔ ReadsTo (h.bytes ++ rest) rest := by
  have hsplit : h.bytes ++ rest = h.requestLine.bytes ++ crlf ++
      (h.headers.flatMap Line.sent ++ crlf ++ rest) := by
    simp [Head.bytes, Head.lines, Line.sent]
  have hmore : h.headers.flatMap Line.sent ++ crlf ++ rest ≠ [] := by simp [crlf]
  have hne : h.bytes ++ rest ≠ [] := by simp [Head.bytes, crlf]
  have hmethod : (scanned b (fgets b.buf (h.bytes ++ rest)).1).method = ascii "GET" := by
    rw [fgets_eq_requestLine]
    exact (scanned_method b _).trans (requestMethod_head b h rest)
  have hget : strcasecmp (ascii "GET") (ascii "GET") = true := rfl
  have hfirst : (fgets [] (h.bytes ++ rest)).1 ≠ crlf ∧ (fgets [] (h.bytes ++ rest)).2 ≠ [] := by
    rw [hsplit, fgets_line h.requestLine.clean]
    split_ifs
    · exact ⟨append_ne_crlf h.requestLine.clean h.requestLine.nonempty, hmore⟩
    · exact ⟨append_ne_crlf h.requestLine.clean h.requestLine.nonempty, List.cons_ne_nil _ _⟩
    · refine ⟨fun heq ↦ ?_, by simp [crlf]⟩
      have hlength := congrArg List.length heq
      rw [List.length_take, Nat.min_eq_left (by omega)] at hlength
      exact absurd hlength (by decide)
  have hreads (fuel : ℕ) : unread fuel b (h.bytes ++ rest) =
      (readHeaders fgets fuel
        (fgets (fgets b.buf (h.bytes ++ rest)).1 (fgets b.buf (h.bytes ++ rest)).2).1
        (fgets (fgets b.buf (h.bytes ++ rest)).1 (fgets b.buf (h.bytes ++ rest)).2).2).map
          Prod.snd := by
    rw [unread, readRequest_eq, hmethod, if_pos hget, Option.map_map]
    rfl
  simp only [HeadConsumed, hreads, exists_map_snd_iff]
  rw [ReadsTo, stopsAt_iff_readsTo hfirst.1 hfirst.2, fgets_of_ne_nil hne b.buf,
    fgets_of_ne_nil hfirst.2]
  rfl

/-- For every GET request head, whatever follows it and whatever the arrays hold, the reads
consume the head and nothing else if and only if the length of no line is a multiple of 1023. -/
theorem headConsumed_iff (b : Buffers) (h : Head) (rest : List UInt8) :
    HeadConsumed b h rest ↔ ∀ l ∈ h.lines, ¬bufsize - 1 ∣ l.bytes.length := by
  rw [headConsumed_iff_readsTo, Head.bytes, readsTo_lines]

/-- A head with one header of 1023 bytes. -/
def longHeader : Head where
  target := ascii "/ HTTP/1.1"
  clean := by
    unfold Clean
    decide +kernel
  headers := [⟨List.replicate 1023 0x61, nofun, fun c hc ↦ by
    rw [List.eq_of_mem_replicate hc]
    decide⟩]

theorem not_headConsumed_longHeader : ¬HeadConsumed ⟨[], [], [], []⟩ longHeader (ascii "x") := by
  rw [headConsumed_iff_readsTo, Head.bytes, readsTo_lines]
  intro h
  refine h _ (List.mem_cons_of_mem _ (List.mem_singleton.mpr rfl)) ?_
  rw [List.length_replicate]
  exact dvd_rfl

end Stored.Http
