import Mathlib.Data.List.TakeWhile
import Stored.Http.Stream

/-!
# One connection of the server

What `serve` reads from an accepted connection and what it sends back. A character array is the
string up to its first NUL.
-/

namespace Stored.Http

open Bytes

/-- The arrays of `serve` that outlive a connection. -/
structure Buffers where
  buf : List UInt8
  method : List UInt8
  uri : List UInt8
  version : List UInt8
  deriving DecidableEq

def isspace (c : UInt8) : Bool := c = 0x20 || (0x09 ≤ c && c ≤ 0x0D)

/-- The conversion `%s`. -/
def scanWord (s : List UInt8) : Option (List UInt8 × List UInt8) :=
  match s.dropWhile isspace with
  | [] => none
  | c :: s => some ((c :: s).takeWhile (!isspace ·), (c :: s).dropWhile (!isspace ·))

/-- `sscanf(buf, "%s %s %s\n", method, uri, version)` -/
def sscanf (b : Buffers) : Buffers :=
  match scanWord b.buf with
  | none => b
  | some (method, s) =>
    match scanWord s with
    | none => { b with method := method }
    | some (uri, s) =>
      match scanWord s with
      | none => { b with method := method, uri := uri }
      | some (version, _) => { b with method := method, uri := uri, version := version }

def tolower (c : UInt8) : UInt8 := if 0x41 ≤ c ∧ c ≤ 0x5A then c + 0x20 else c

/-- `!strcasecmp(s, t)` -/
def strcasecmp (s t : List UInt8) : Bool := s.map tolower == t.map tolower

/-- `int len = strlen(s)` -/
def strlen (s : List UInt8) : Int32 := Int32.ofNat s.length

/-- `fwrite(s, 1, len, stream)` with `len` converted to `size_t`; no value is a read behind the
end of the string. -/
def fwrite (s : List UInt8) (len : Int32) : Option (List UInt8) :=
  let count := (len.toInt % 2 ^ 64).toNat
  if count ≤ s.length then some (s.take count) else none

def cerror (cause err shortmsg _longmsg : List UInt8) : List UInt8 :=
  ascii "HTTP/1.1 " ++ err ++ ascii " " ++ shortmsg ++ ascii "\n" ++
  ascii "Content-type: text/html\n" ++
  ascii "\n" ++
  ascii "<html><title>Stored error</title>" ++
  ascii "<body bgcolor=ffffff>\n" ++
  err ++ ascii ": " ++ shortmsg ++ ascii "\n" ++
  ascii "<p>blah: " ++ cause ++ ascii "\n" ++
  ascii "<hr><em>(_|_)</em>\n"

def notImplemented (method : List UInt8) : List UInt8 :=
  cerror method (ascii "501") (ascii "Not Implemented")
    (ascii "Stored does not implement this method")

def okHead (len : Int32) : List UInt8 :=
  ascii "HTTP/1.1 200 OK\n" ++
  ascii "Server: stored daemon\n" ++
  ascii "Content-length: " ++ decimal len.toInt ++ ascii "\n" ++
  ascii "Content-type: text/json\n" ++
  ascii "\r\n"

/-- The 200 response that carries `content`, with the length that it announces. -/
structure OkResponse where
  contentLength : Int32
  body : Option (List UInt8)
  deriving DecidableEq

def okResponse (content : List UInt8) : OkResponse where
  contentLength := strlen content
  body := fwrite content (strlen content)

def OkResponse.bytes (r : OkResponse) : Option (List UInt8) :=
  r.body.map (okHead r.contentLength ++ ·)

/-- The response carries the whole of `content` and announces its length. -/
def OkResponse.Whole (r : OkResponse) (content : List UInt8) : Prop :=
  r.contentLength.toInt = content.length ∧ r.body = some content

instance (r : OkResponse) (content : List UInt8) : Decidable (r.Whole content) :=
  inferInstanceAs (Decidable (_ ∧ _))

def crlf : List UInt8 := [0x0D, 0x0A]

inductive Request where
  | notGet (method : List UInt8)
  | get
  deriving DecidableEq

section

variable {σ : Type} (gets : List UInt8 → σ → List UInt8 × σ)

/-- `while (strcmp(buf, "\r\n")) fgets(buf, BUFSIZE, stream);` with the calls of `fgets` as
`gets`. No value is a loop that takes more than `fuel` rounds. -/
def readHeaders : ℕ → List UInt8 → σ → Option (List UInt8 × σ)
  | 0, _, _ => none
  | fuel + 1, buf, stream =>
    if buf = crlf then some (buf, stream)
    else readHeaders fuel (gets buf stream).1 (gets buf stream).2

/-- The reads of `serve` on one connection, with the arrays and the stream afterwards. -/
def readRequest (fuel : ℕ) (b : Buffers) (stream : σ) : Option (Request × Buffers × σ) :=
  let line := gets b.buf stream
  let b := sscanf { b with buf := line.1 }
  if strcasecmp b.method (ascii "GET") then
    let first := gets b.buf line.2
    (readHeaders gets fuel first.1 first.2).map fun r ↦ (.get, { b with buf := r.1 }, r.2)
  else some (.notGet b.method, b, line.2)

variable {gets}

theorem readHeaders_mono {m n : ℕ} (hmn : m ≤ n) {buf : List UInt8} {stream : σ}
    {r : List UInt8 × σ} (hend : readHeaders gets m buf stream = some r) :
    readHeaders gets n buf stream = some r := by
  induction m generalizing n buf stream with
  | zero => cases hend
  | succ m ih =>
    obtain ⟨n, rfl⟩ := Nat.exists_eq_add_of_le' hmn
    rw [← add_assoc, readHeaders]
    rw [readHeaders] at hend
    split_ifs at hend ⊢ with hcrlf
    · exact hend
    · exact ih (Nat.le_add_left m n) hend

theorem readRequest_mono {m n : ℕ} (hmn : m ≤ n) {b : Buffers} {stream : σ}
    {r : Request × Buffers × σ} (hend : readRequest gets m b stream = some r) :
    readRequest gets n b stream = some r := by
  simp only [readRequest] at hend ⊢
  split_ifs at hend ⊢ with hget
  · obtain ⟨r', hheaders, rfl⟩ := Option.map_eq_some_iff.mp hend
    exact Option.map_eq_some_iff.mpr ⟨r', readHeaders_mono hmn hheaders, rfl⟩
  · exact hend

variable {τ : Type} {gets' : List UInt8 → τ → List UInt8 × τ} {f : σ → τ}

/-- The loop on two representations of a stream. -/
theorem readHeaders_map
    (hgets : ∀ buf stream, ((gets buf stream).1, f (gets buf stream).2) = gets' buf (f stream))
    (fuel : ℕ) (buf : List UInt8) (stream : σ) : readHeaders gets' fuel buf (f stream) =
      (readHeaders gets fuel buf stream).map fun r ↦ (r.1, f r.2) := by
  induction fuel generalizing buf stream with
  | zero => rfl
  | succ fuel ih =>
    rw [readHeaders, readHeaders, ← hgets]
    split_ifs
    · rfl
    · exact ih _ _

theorem readRequest_map
    (hgets : ∀ buf stream, ((gets buf stream).1, f (gets buf stream).2) = gets' buf (f stream))
    (fuel : ℕ) (b : Buffers) (stream : σ) : readRequest gets' fuel b (f stream) =
      (readRequest gets fuel b stream).map fun r ↦ (r.1, r.2.1, f r.2.2) := by
  simp only [readRequest, ← hgets, readHeaders_map hgets]
  split_ifs
  · simp only [Option.map_map, Function.comp_def]
  · rfl

end

/-- One connection handled with as many rounds as can matter; no value is a header loop that never
ends. -/
def serveConnection (b : Buffers) (stream : Stream) : Option (Request × Buffers × Stream) :=
  readRequest Stream.fgets (stream.bytes.length + 1) b stream

/-- What is sent back: the status and the bytes. -/
structure Response where
  status : ℕ
  bytes : Option (List UInt8)
  deriving DecidableEq

def respond (report : List UInt8) : Request → Response
  | .notGet method => ⟨501, some (notImplemented method)⟩
  | .get => ⟨200, (okResponse report).bytes⟩

/-- The answer to a client. No value is a connection on which nothing is sent: its header loop
never ends, or input is left unread where the response is written. -/
def answer (report : List UInt8) (b : Buffers) (client : List Segment) : Option Response :=
  (serveConnection b (.ofSegments client)).bind fun r ↦
    if r.2.2.Writable then some (respond report r.1) else none

/-- At the end of the stream the loop ends at once or never. -/
theorem readHeaders_nil (fuel : ℕ) (buf : List UInt8) :
    readHeaders fgets fuel buf [] = if fuel ≠ 0 ∧ buf = crlf then some (buf, []) else none := by
  induction fuel with
  | zero => rfl
  | succ fuel ih =>
    rw [readHeaders, fgets_nil, ih]
    by_cases hcrlf : buf = crlf <;> simp [hcrlf]

/-- The loop ends within one round for each byte, or never. -/
theorem readHeaders_of_some {fuel : ℕ} {buf stream : List UInt8} {r : List UInt8 × List UInt8}
    (hend : readHeaders fgets fuel buf stream = some r) {bound : ℕ}
    (hbound : stream.length < bound) : readHeaders fgets bound buf stream = some r := by
  induction fuel generalizing buf stream bound with
  | zero => exact nomatch hend
  | succ fuel ih =>
    obtain ⟨bound, rfl⟩ : ∃ n, bound = n + 1 := ⟨bound - 1, by omega⟩
    by_cases hstream : stream = []
    · subst hstream
      rw [readHeaders_nil] at hend ⊢
      simpa using hend
    · rw [readHeaders] at hend ⊢
      split_ifs at hend ⊢ with hcrlf
      · exact hend
      · have hlt : (fgets buf stream).2.length < stream.length := length_fgets_lt hstream
        exact ih hend (by omega)

theorem readRequest_of_some {fuel : ℕ} {b : Buffers} {stream : List UInt8}
    {r : Request × Buffers × List UInt8} (hend : readRequest fgets fuel b stream = some r)
    {bound : ℕ} (hbound : stream.length < bound) : readRequest fgets bound b stream = some r := by
  simp only [readRequest] at hend ⊢
  have hrest : ∀ buf stream', (fgets buf stream').2.length ≤ stream'.length := by
    intro buf stream'
    by_cases hne : stream' = []
    · rw [hne, fgets_nil]
    · exact (length_fgets_lt hne).le
  split_ifs at hend ⊢ with hget
  · obtain ⟨r', hheaders, rfl⟩ := Option.map_eq_some_iff.mp hend
    refine Option.map_eq_some_iff.mpr ⟨r', readHeaders_of_some hheaders ?_, rfl⟩
    exact ((hrest _ _).trans (hrest _ _)).trans_lt hbound
  · exact hend

/-- The reads of a stream are those of its bytes. -/
theorem readRequest_bytes (fuel : ℕ) (b : Buffers) (stream : Stream) :
    readRequest fgets fuel b stream.bytes =
      (readRequest Stream.fgets fuel b stream).map fun r ↦ (r.1, r.2.1, r.2.2.bytes) :=
  readRequest_map Stream.fgets_bytes fuel b stream

/-- `serveConnection` has a value exactly if some number of rounds is enough. -/
theorem serveConnection_eq_some_iff {b : Buffers} {stream : Stream}
    {r : Request × Buffers × Stream} :
    serveConnection b stream = some r ↔ ∃ fuel, readRequest Stream.fgets fuel b stream = some r := by
  constructor
  · exact fun h ↦ ⟨_, h⟩
  · rintro ⟨fuel, hfuel⟩
    have hbytes : readRequest fgets fuel b stream.bytes = some (r.1, r.2.1, r.2.2.bytes) := by
      rw [readRequest_bytes, hfuel, Option.map_some]
    have hbound := readRequest_of_some hbytes (Nat.lt_succ_self _)
    rw [readRequest_bytes] at hbound
    obtain ⟨r', hr', -⟩ := Option.map_eq_some_iff.mp hbound
    have hle := readRequest_mono (le_max_left fuel (stream.bytes.length + 1)) hfuel
    have hle' := readRequest_mono (le_max_right fuel (stream.bytes.length + 1)) hr'
    rw [Option.some.inj (hle.symm.trans hle')]
    exact hr'

theorem scanWord_of_mem {s : List UInt8} (h : ∃ c ∈ s, isspace c = false) :
    ∃ word rest, scanWord s = some (word, rest) := by
  obtain ⟨c, hc, hspace⟩ := h
  unfold scanWord
  split
  · rename_i hnil
    rw [List.dropWhile_eq_nil_iff] at hnil
    rw [hnil c hc] at hspace
    exact nomatch hspace
  · exact ⟨_, _, rfl⟩

theorem scanWord_of_not_mem {s : List UInt8} (h : ¬∃ c ∈ s, isspace c = false) :
    scanWord s = none := by
  have hspace : s.dropWhile isspace = [] := by
    rw [List.dropWhile_eq_nil_iff]
    intro c hc
    simpa using fun hc' ↦ h ⟨c, hc, hc'⟩
  rw [scanWord, hspace]

/-- The method that `sscanf` writes does not depend on what the arrays held. -/
theorem sscanf_method {b : Buffers} {word rest : List UInt8}
    (h : scanWord b.buf = some (word, rest)) : (sscanf b).method = word := by
  unfold sscanf
  rw [h]
  dsimp only
  split
  · rfl
  · split <;> rfl

theorem sscanf_buf (b : Buffers) : (sscanf b).buf = b.buf := by
  unfold sscanf
  split
  · rfl
  · split
    · rfl
    · split <;> rfl

theorem sscanf_of_none {b : Buffers} (h : scanWord b.buf = none) : sscanf b = b := by
  rw [sscanf, h]

/-- What `buf` holds after the read of the request line. -/
def requestLine (b : Buffers) (stream : List UInt8) : List UInt8 :=
  if stream = [] then b.buf else cstr (takeLine (bufsize - 1) stream)

/-- What the client sent after the request line. -/
def afterRequestLine (stream : List UInt8) : List UInt8 :=
  stream.drop (takeLine (bufsize - 1) stream).length

/-- The first word of the request line, or the method of an earlier connection if it is blank. -/
def requestMethod (b : Buffers) (stream : List UInt8) : List UInt8 :=
  match scanWord (requestLine b stream) with
  | some (word, _) => word
  | none => b.method

theorem fgets_eq_requestLine (b : Buffers) (stream : List UInt8) :
    fgets b.buf stream = (requestLine b stream, afterRequestLine stream) := by
  unfold fgets requestLine afterRequestLine
  split_ifs with hnil
  · rw [hnil, List.drop_nil]
  · rfl

/-- The arrays when the request line has been read and scanned. -/
def scanned (b : Buffers) (line : List UInt8) : Buffers := sscanf { b with buf := line }

theorem scanned_buf (b : Buffers) (line : List UInt8) : (scanned b line).buf = line := sscanf_buf _

theorem scanned_method (b : Buffers) (stream : List UInt8) :
    (scanned b (requestLine b stream)).method = requestMethod b stream := by
  rw [requestMethod]
  cases hword : scanWord (requestLine b stream) with
  | none => rw [scanned, sscanf_of_none hword]
  | some r => exact sscanf_method hword

/-- The reads of a connection, by the method of its request line. -/
theorem readRequest_eq {σ : Type} (gets : List UInt8 → σ → List UInt8 × σ) (fuel : ℕ) (b : Buffers)
    (stream : σ) : readRequest gets fuel b stream =
      if strcasecmp (scanned b (gets b.buf stream).1).method (ascii "GET") then
        (readHeaders gets fuel (gets (gets b.buf stream).1 (gets b.buf stream).2).1
          (gets (gets b.buf stream).1 (gets b.buf stream).2).2).map fun r ↦
            (.get, { scanned b (gets b.buf stream).1 with buf := r.1 }, r.2)
      else some (.notGet (scanned b (gets b.buf stream).1).method,
        scanned b (gets b.buf stream).1, (gets b.buf stream).2) := by
  rw [readRequest, ← scanned]
  dsimp only
  rw [scanned_buf]

theorem strlen_toInt {s : List UInt8} (hshort : s.length < 2 ^ 31) :
    (strlen s).toInt = s.length := by
  rw [strlen, Int32.toInt_ofNat_of_lt hshort]

/-- The length is truncated to an `int`: a response is whole exactly if it fits. -/
theorem okResponse_whole_iff (content : List UInt8) :
    (okResponse content).Whole content ↔ content.length < 2 ^ 31 := by
  constructor
  · rintro ⟨hlength, -⟩
    have hle := (okResponse content).contentLength.toInt_lt
    omega
  · intro hshort
    have hlen := strlen_toInt hshort
    have hcount : ((content.length : ℤ) % 2 ^ 64).toNat = content.length := by omega
    refine ⟨hlen, ?_⟩
    simp only [okResponse, fwrite, hlen, hcount, le_refl, if_true, List.take_length]

end Stored.Http
