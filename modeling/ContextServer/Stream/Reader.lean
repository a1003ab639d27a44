import ContextServer.Stream.Source
import ContextServer.Stream.Framing

/-!
Envelopes read off a stream. A frame that is no envelope is reported and the stream goes on behind
it; every other fault leaves the stream where it stands. Reading is a function of what has arrived:
where that does not settle the outcome, the reader waits and no byte is used up.
-/

namespace ContextServer

/-- A fault of the stream itself. -/
inductive TransportError
  | io (message : String)
  | messageTooLarge (limit : Nat)
  | missingContentLength
  | invalidHeader (line : String)
  deriving DecidableEq, Repr, Inhabited

def TransportError.message : TransportError → String
  | io m => "transport i/o failed: " ++ m
  | messageTooLarge limit =>
    "message exceeds the " ++ String.ofList (Text.decimal limit) ++ " byte frame limit"
  | missingContentLength => "missing Content-Length header"
  | invalidHeader line => "invalid header line: " ++ line

/-- What one read gives. -/
inductive Reading
  | envelope (e : Envelope)
  | malformed (cause : EnvelopeError)
  | ended
  | failed (cause : TransportError)
  deriving Repr, Inhabited

/-- Whether the stream is still in step after a fault, so that the next read may succeed. -/
def Reading.isRecoverable : Reading → Bool
  | malformed _ => true
  | _ => false

namespace Reader

/-- A result and the stream behind it, or the need to wait for more. -/
abbrev Progress (α : Type) := Option (Except TransportError α × Source)

/-- What lies before the first occurrence of `a`, and what lies behind it. -/
def splitAt? {α : Type} [DecidableEq α] (a : α) (as : List α) : Option (List α × List α) :=
  match as.dropWhile (· ≠ a) with
  | [] => none
  | _ :: rest => some (as.takeWhile (· ≠ a), rest)

theorem eq_of_splitAt? {α : Type} [DecidableEq α] {a : α} {as l r : List α}
    (h : splitAt? a as = some (l, r)) : as = l ++ a :: r := by
  unfold splitAt? at h
  split at h
  · cases h
  · rename_i b rest hd
    simp only [Option.some.injEq, Prod.mk.injEq] at h
    have hb := List.head?_dropWhile_not (· ≠ a) as
    rw [hd] at hb
    have hb : b = a := by simpa using hb
    rw [← h.1, ← h.2, ← hd.trans (congrArg (· :: rest) hb), List.takeWhile_append_dropWhile]

/-- One carriage return at the end does not belong to a line. -/
def stripReturn (line : List UInt8) : List UInt8 :=
  if line.getLast? = some Framing.carriageReturn then line.dropLast else line

/-- What the buffer makes of a line. -/
inductive LineScan
  | complete (part rest : List UInt8)
  | tooLong
  | unfinished

/-- Looks for the end of a line that has room for so many bytes more. -/
def scanLine (room : Nat) (buffer : List UInt8) : LineScan :=
  match splitAt? Framing.newline buffer with
  | some (l, r) => if room < l.length then .tooLong else .complete l r
  | none => if room < buffer.length then .tooLong else .unfinished

theorem eq_of_scanLine {room : Nat} {buffer l r : List UInt8}
    (h : scanLine room buffer = .complete l r) : buffer = l ++ Framing.newline :: r := by
  unfold scanLine at h
  split at h
  · rename_i hs
    split at h
    · cases h
    · cases h
      exact eq_of_splitAt? hs
  · split at h <;> cases h

/-- Reads a line on from the bytes `acc` that earlier buffers held, latest first, when there is
`room` left below the limit. Of a buffer that takes the line over the limit nothing is used up. At
the end of the stream what is left is a line, unless nothing is. -/
def line? (limit room : Nat) (acc : List UInt8) (s : Source) : Progress (Option (List UInt8)) :=
  match scanLine room s.buffer with
  | .complete l r => some (.ok (some (stripReturn (acc.reverse ++ l))), { s with buffer := r })
  | .tooLong => some (.error (.messageTooLarge limit), s)
  | .unfinished =>
    match h : s.refill Source.capacity with
    | some t =>
      have := Source.unread_refill_lt h
      line? limit (room - s.buffer.length) (s.buffer.reverseAux acc) t
    | none =>
      match s.rest with
      | .wait => none
      | .fault m t => some (.error (.io m), t)
      | .ended t =>
        let l := stripReturn (acc.reverse ++ s.buffer)
        some (.ok (if l.isEmpty then none else some l), t)
termination_by s.unread.length

/-- A line uses up a byte at least, be it read now or have it been held before. -/
theorem size_lt_of_line? {limit room : Nat} {acc l : List UInt8} {s t : Source}
    (h : line? limit room acc s = some (.ok (some l), t)) : t.size < acc.length + s.size := by
  fun_induction line? limit room acc s with
  | case1 room acc s part rest hs =>
    cases h
    simp only [Source.size, eq_of_scanLine hs, List.length_append, List.length_cons]
    omega
  | case2 => cases h
  | case3 room acc s hs u hu _ ih =>
    have := ih h
    simp only [Source.size_refill hu, List.reverseAux_eq, List.length_append,
      List.length_reverse] at this
    have : s.size = s.buffer.length + s.unread.length := rfl
    omega
  | case4 => cases h
  | case5 => cases h
  | case6 room acc s hs hn u hu =>
    cases h' : acc.reverse ++ s.buffer with
    | nil => simp [h', stripReturn] at h
    | cons b bs =>
      simp only [Option.some.injEq, Prod.mk.injEq] at h
      rw [← h.2, Source.size_of_rest_ended hu]
      have := congrArg List.length h'
      simp only [List.length_append, List.length_reverse, List.length_cons] at this
      simp only [Source.size]
      omega

def nextLine (limit : Nat) (s : Source) : Progress (Option (List UInt8)) := line? limit limit [] s

theorem size_lt_of_nextLine {limit : Nat} {l : List UInt8} {s t : Source}
    (h : nextLine limit s = some (.ok (some l), t)) : t.size < s.size := by
  simpa using size_lt_of_line? h

def earlyEnd : TransportError := .io "early eof"

/-- Reads `n` bytes on from those that earlier buffers held, latest first. What is still to come of
a body that is longer than a buffer holds is read past it. -/
def body? (n : Nat) (acc : List UInt8) (s : Source) : Progress (List UInt8) :=
  if n ≤ s.buffer.length then
    some (.ok (acc.reverse ++ s.buffer.take n), { s with buffer := s.buffer.drop n })
  else
    match h : s.refill (max Source.capacity (n - s.buffer.length)) with
    | some t =>
      have := Source.unread_refill_lt h
      body? (n - s.buffer.length) (s.buffer.reverseAux acc) t
    | none =>
      match s.rest with
      | .wait => none
      | .fault m t => some (.error (.io m), t)
      | .ended t => some (.error earlyEnd, t)
termination_by s.unread.length

def nextBody (n : Nat) (s : Source) : Progress (List UInt8) := body? n [] s

inductive HeaderLine
  | blank
  | length (n : Nat)
  | other
  | invalid (line : String)
  deriving DecidableEq, Repr

def contentLength : List Char := "content-length".toList

def headerLine (bs : List UInt8) : HeaderLine :=
  let t := Text.trim (Text.Utf8.decodeLossy bs)
  if t.isEmpty then .blank
  else
    match splitAt? ':' t with
    | none => .invalid (String.ofList t)
    | some (name, value) =>
      if Text.lower (Text.trim name) = contentLength then
        match Text.word? (Text.trim value) with
        | some n => .length n
        | none => .invalid (String.ofList t)
      else .other

def endInHeaders : TransportError := .io "connection closed while reading headers"

/-- Reads header lines up to a blank one; of several lengths the last counts. A stream that ends
before the first line of a header has ended cleanly. -/
def contentLength? (limit : Nat) (started : Bool) (length : Option Nat) (s : Source) :
    Progress (Option Nat) :=
  match h : nextLine limit s with
  | none => none
  | some (.error e, t) => some (.error e, t)
  | some (.ok none, t) => some (if started then .error endInHeaders else .ok none, t)
  | some (.ok (some l), t) =>
    have := size_lt_of_nextLine h
    match headerLine l with
    | .blank =>
      match length with
      | some n => some (.ok (some n), t)
      | none => some (.error .missingContentLength, t)
    | .length n => contentLength? limit true (some n) t
    | .other => contentLength? limit true length t
    | .invalid line => some (.error (.invalidHeader line), t)
termination_by s.size

def readingOf (bs : List UInt8) : Reading :=
  match Envelope.ofBytes bs with
  | .ok e => .envelope e
  | .error e => .malformed e

/-- Reads the next line that is not blank. -/
def readLine (limit : Nat) (s : Source) : Option (Reading × Source) :=
  match h : nextLine limit s with
  | none => none
  | some (.error e, t) => some (.failed e, t)
  | some (.ok none, t) => some (.ended, t)
  | some (.ok (some l), t) =>
    have := size_lt_of_nextLine h
    if l.all Text.isBlankByte then readLine limit t else some (readingOf l, t)
termination_by s.size

/-- Reads a header and a body of the length that it tells. Memory is taken to be large enough: a
body that no memory could hold, under a limit that lets it pass, is waited for as any other is. -/
def readHeader (limit : Nat) (s : Source) : Option (Reading × Source) :=
  match contentLength? limit false none s with
  | none => none
  | some (.error e, s) => some (.failed e, s)
  | some (.ok none, s) => some (.ended, s)
  | some (.ok (some n), s) =>
    if limit < n then some (.failed (.messageTooLarge limit), s)
    else
      match nextBody n s with
      | none => none
      | some (.error e, s) => some (.failed e, s)
      | some (.ok bs, s) => some (readingOf bs, s)

/-- One read. -/
def read (framing : Framing) (limit : Nat) (s : Source) : Option (Reading × Source) :=
  match framing with
  | .line => readLine limit s
  | .header => readHeader limit s

/-- Successive reads up to the end of the stream, and at most `n`. A fault of the stream ends them
as well, unless reading is to go on `past` it. -/
def readings (framing : Framing) (limit : Nat) (past : Bool) : Nat → Source → List Reading
  | 0, _ => []
  | n + 1, s =>
    match read framing limit s with
    | none => []
    | some (.ended, _) => [.ended]
    | some (.failed e, s) =>
      .failed e :: if past then readings framing limit past n s else []
    | some (r, s) => r :: readings framing limit past n s

end Reader

end ContextServer
