import Stored.Lib.Bytes

/-!
# The stream of a connection

A client's bytes arrive in segments, each of which one `read` puts into the buffer of the stream.
What `fgets` reads depends on the bytes alone. What it leaves in the buffer depends on the
segments, and decides whether the stream can be written: to write after a read, the C library
seeks back over what is unread, and a socket cannot be sought.
-/

namespace Stored.Http

open Bytes

def bufsize : ℕ := 1024

/-- The first line of a stream, its newline included, cut after `n` bytes. -/
def takeLine : ℕ → List UInt8 → List UInt8
  | 0, _ => []
  | _ + 1, [] => []
  | n + 1, c :: s => if c = 0x0A then [c] else c :: takeLine n s

def cstr (s : List UInt8) : List UInt8 := s.takeWhile (· ≠ 0)

/-- `fgets(buf, BUFSIZE, stream)` on the bytes of a stream: the array afterwards and the rest. At
the end of the stream the array keeps what it held. -/
def fgets (buf stream : List UInt8) : List UInt8 × List UInt8 :=
  if stream = [] then (buf, [])
  else
    let line := takeLine (bufsize - 1) stream
    (cstr line, stream.drop line.length)

/-- What one `read` returns before the end of the connection. -/
structure Segment where
  bytes : List UInt8
  nonempty : bytes ≠ []
  deriving DecidableEq

/-- What is unread in the buffer, and the segments that further reads will return. -/
structure Stream where
  buffer : List UInt8
  segments : List Segment
  deriving DecidableEq

namespace Stream

/-- A stream that `fdopen` has made. -/
def ofSegments (segments : List Segment) : Stream := ⟨[], segments⟩

def bytes (s : Stream) : List UInt8 := s.buffer ++ s.segments.flatMap Segment.bytes

/-- The next byte; the buffer is filled when it is empty. -/
def getc : Stream → Option (UInt8 × Stream)
  | ⟨c :: buffer, segments⟩ => some (c, ⟨buffer, segments⟩)
  | ⟨[], s :: segments⟩ => some (s.bytes.head s.nonempty, ⟨s.bytes.tail, segments⟩)
  | ⟨[], []⟩ => none

/-- The bytes up to a newline, at most `n`, and the stream behind them. -/
def getLine : ℕ → Stream → List UInt8 × Stream
  | 0, s => ([], s)
  | n + 1, s =>
    match s.getc with
    | none => ([], s)
    | some (c, s) => if c = 0x0A then ([c], s) else (c :: (getLine n s).1, (getLine n s).2)

/-- `fgets(buf, BUFSIZE, stream)` -/
def fgets (buf : List UInt8) (s : Stream) : List UInt8 × Stream :=
  let line := s.getLine (bufsize - 1)
  (if line.1 = [] then buf else cstr line.1, line.2)

/-- The buffer holds nothing that is unread: what is written will be sent. -/
def Writable (s : Stream) : Prop := s.buffer = []

instance (s : Stream) : Decidable s.Writable := inferInstanceAs (Decidable (_ = _))

theorem getc_of_some {s s' : Stream} {c : UInt8} (h : s.getc = some (c, s')) :
    s.bytes = c :: s'.bytes := by
  obtain ⟨buffer, segments⟩ := s
  cases buffer with
  | cons c buffer =>
    obtain ⟨rfl, rfl⟩ := Prod.mk.inj (Option.some.inj h)
    rfl
  | nil =>
    cases segments with
    | nil => cases h
    | cons s segments =>
      obtain ⟨rfl, rfl⟩ := Prod.mk.inj (Option.some.inj h)
      simp only [bytes, List.nil_append, List.flatMap_cons, ← List.cons_append]
      rw [List.cons_head_tail s.nonempty]

theorem getc_of_none {s : Stream} (h : s.getc = none) : s.bytes = [] := by
  obtain ⟨buffer, segments⟩ := s
  cases buffer with
  | cons => cases h
  | nil =>
    cases segments with
    | nil => rfl
    | cons => cases h

/-- The line that is read, and what is left, are those of the bytes. -/
theorem getLine_bytes (n : ℕ) (s : Stream) :
    (s.getLine n).1 = takeLine n s.bytes ∧
      (s.getLine n).2.bytes = s.bytes.drop (takeLine n s.bytes).length := by
  induction n generalizing s with
  | zero => exact ⟨rfl, rfl⟩
  | succ n ih =>
    rw [getLine]
    split
    · rename_i hnone
      rw [getc_of_none hnone]
      exact ⟨rfl, rfl⟩
    · rename_i c s' hsome
      obtain ⟨hline, hrest⟩ := ih s'
      rw [getc_of_some hsome, takeLine]
      split_ifs
      · exact ⟨rfl, rfl⟩
      · exact ⟨congrArg (c :: ·) hline, hrest⟩

end Stream

theorem takeLine_ne_nil {n : ℕ} {stream : List UInt8} (hne : stream ≠ []) :
    takeLine (n + 1) stream ≠ [] := by
  obtain ⟨c, s, rfl⟩ := List.exists_cons_of_ne_nil hne
  rw [takeLine]
  split_ifs <;> exact List.cons_ne_nil _ _

theorem fgets_nil (buf : List UInt8) : fgets buf [] = (buf, []) := rfl

/-- A read of the stream is a read of its bytes. -/
theorem Stream.fgets_bytes (buf : List UInt8) (s : Stream) :
    ((s.fgets buf).1, (s.fgets buf).2.bytes) = Http.fgets buf s.bytes := by
  obtain ⟨hline, hrest⟩ := s.getLine_bytes (bufsize - 1)
  simp only [Stream.fgets, hline, hrest]
  by_cases hnil : s.bytes = []
  · rw [hnil]
    rfl
  · have hline : takeLine (bufsize - 1) s.bytes ≠ [] := takeLine_ne_nil (n := 1022) hnil
    rw [Http.fgets, if_neg hnil, if_neg hline]

theorem length_fgets_lt {buf stream : List UInt8} (hne : stream ≠ []) :
    (fgets buf stream).2.length < stream.length := by
  have hline : 0 < (takeLine (bufsize - 1) stream).length :=
    List.length_pos_iff.mpr (takeLine_ne_nil (n := 1022) hne)
  have hstream : 0 < stream.length := List.length_pos_iff.mpr hne
  simp only [fgets, if_neg hne, List.length_drop]
  omega

end Stored.Http
