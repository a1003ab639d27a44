import ContextServer.Proofs.Stream.Ending
import ContextServer.Proofs.Stream.RoundTrip

/-!
Frames whose headers have other fields than the length of the body as well. One lemma says what
the reader makes of a header line (`contentLength?_of_line`); over a header it passes the fields
that have another name, keeps the length, and stops behind the empty line. The body is then counted
off, so nothing that it holds is taken for a header (`read_of_headerFrame`).
-/

namespace ContextServer

namespace Framing

/-- What a line has before its newline: a carriage return, or nothing. -/
def lineEnd (hasReturn : Bool) : List UInt8 := if hasReturn then [carriageReturn] else []

/-- A line of a header, parted at its first colon. -/
structure HeaderField where
  name : List UInt8
  value : List UInt8
  hasReturn : Bool
  colon_notMem : colon ∉ name
  newline_notMem : newline ∉ name ++ value

/-- The bytes of the line before its newline. -/
def HeaderField.line (f : HeaderField) : List UInt8 :=
  f.name ++ colon :: (f.value ++ lineEnd f.hasReturn)

/-- A header and a body. One field of the header tells the length of the body, and the others, in
whatever order, are named otherwise; an empty line ends the header. -/
structure HeaderFrame where
  before : List HeaderField
  length : HeaderField
  after : List HeaderField
  hasReturn : Bool
  body : List UInt8
  named : NamesLength length.name
  tells : Tells body.length length.value
  others : ∀ f ∈ before ++ after, ¬ NamesLength f.name

def headerLines (fields : List HeaderField) : List UInt8 :=
  fields.flatMap fun f => f.line ++ [newline]

def HeaderFrame.bytes (f : HeaderFrame) : List UInt8 :=
  headerLines (f.before ++ f.length :: f.after) ++ lineEnd f.hasReturn ++ newline :: f.body

/-- Each line of the header, its carriage return included, and the body are within the limit. -/
structure HeaderFrame.Within (limit : Nat) (f : HeaderFrame) : Prop where
  fields : ∀ g ∈ f.before ++ f.length :: f.after, g.line.length ≤ limit
  body : f.body.length ≤ limit

variable {limit : Nat}

theorem newline_notMem_lineEnd (hasReturn : Bool) : newline ∉ lineEnd hasReturn := by
  cases hasReturn <;> decide

theorem HeaderField.newline_notMem_line (f : HeaderField) : newline ∉ f.line := by
  have hsplit := f.newline_notMem
  have hcolon : newline ≠ colon := by decide
  simp only [line, List.mem_append, List.mem_cons, not_or] at hsplit ⊢
  exact ⟨hsplit.1, hcolon, hsplit.2, newline_notMem_lineEnd _⟩

theorem HeaderField.length_line_pos (f : HeaderField) : 0 < f.line.length := by
  simp [line]

theorem length_lineEnd_le (hasReturn : Bool) : (lineEnd hasReturn).length ≤ 1 := by
  cases hasReturn <;> decide

theorem headerLines_cons (f : HeaderField) (fs : List HeaderField) (r : List UInt8) :
    headerLines (f :: fs) ++ r = f.line ++ newline :: (headerLines fs ++ r) := by
  simp [headerLines]

theorem headerLines_append (fs gs : List HeaderField) :
    headerLines (fs ++ gs) = headerLines fs ++ headerLines gs := List.flatMap_append

end Framing

namespace Reader

open Framing

variable {limit : Nat} {s : Source} {r : List UInt8}

/-- A carriage return at the end is trimmed off the value. -/
theorem headerLine_line (f : HeaderField) :
    headerLine f.line = headerLine (f.name ++ colon :: f.value) := by
  cases h : f.hasReturn with
  | false => simp [HeaderField.line, lineEnd, h]
  | true =>
    rw [← headerLine_concat_return (f.name ++ colon :: f.value)]
    simp [HeaderField.line, lineEnd, h]

/-- The fields that do not tell the length are passed, and do not change what has been told. The
induction is on the fields that are left. -/
theorem contentLength?_of_others {fs : List HeaderField} (started : Bool) (length : Option Nat)
    (hs : s.bytes = headerLines fs ++ r)
    (ho : ∀ f ∈ fs, ¬ NamesLength f.name) (hl : ∀ f ∈ fs, f.line.length ≤ limit) :
    ∃ begun t, t.whole = { s.whole with buffer := r } ∧
      contentLength? limit started length s = contentLength? limit begun length t := by
  induction fs generalizing s started with
  | nil => exact ⟨started, s, by rw [← show s.bytes = r from hs]; rfl, rfl⟩
  | cons f fs ih =>
    have hother : headerLine f.line = .other := by
      rw [headerLine_line, headerLine_of_not_namesLength _ f.colon_notMem (ho f (by simp))]
    rw [headerLines_cons] at hs
    obtain ⟨t, ht, hread⟩ := contentLength?_of_line started length hs f.newline_notMem_line
      (hl f (by simp))
    obtain ⟨begun, u, hu, hrest⟩ := ih true (bytes_of_whole_eq ht)
      (fun g hg => ho g (by simp [hg])) (fun g hg => hl g (by simp [hg]))
    refine ⟨begun, u, by rw [hu, ht], ?_⟩
    rw [hread, hother]
    exact hrest

theorem contentLength?_of_blank {hasReturn : Bool} (started : Bool) (n : Nat)
    (hs : s.bytes = lineEnd hasReturn ++ newline :: r) (hl : 1 ≤ limit) :
    ∃ t, t.whole = { s.whole with buffer := r } ∧
      contentLength? limit started (some n) s = some (.ok (some n), t) := by
  have hblank : headerLine (lineEnd hasReturn) = .blank := by cases hasReturn <;> rfl
  obtain ⟨t, ht, hread⟩ := contentLength?_of_line started (some n) hs
    (newline_notMem_lineEnd hasReturn) (Nat.le_trans (length_lineEnd_le hasReturn) hl)
  refine ⟨t, ht, ?_⟩
  rw [hread, hblank]
  rfl

/-- The length is found wherever it stands in the header. -/
theorem contentLength?_of_frame {f : HeaderFrame} (hs : s.bytes = f.bytes ++ r)
    (hw : limit < Text.wordBound) (hf : f.Within limit) :
    ∃ t, t.whole = { s.whole with buffer := f.body ++ r } ∧
      contentLength? limit false none s = some (.ok (some f.body.length), t) := by
  have hlength : headerLine f.length.line = .length f.body.length := by
    rw [headerLine_line]
    exact headerLine_of_tells f.length.colon_notMem f.named f.tells
      (Nat.lt_of_le_of_lt hf.body hw)
  have hfields := hf.fields
  have hlimit := hfields f.length (by simp)
  have hothers := f.others
  have hbytes : s.bytes = headerLines f.before ++ (f.length.line ++ newline ::
      (headerLines f.after ++ (lineEnd f.hasReturn ++ newline :: (f.body ++ r)))) := by
    rw [hs, HeaderFrame.bytes, headerLines_append, ← headerLines_cons]
    simp only [List.append_assoc, List.cons_append]
  obtain ⟨begun, t, ht, hbefore⟩ := contentLength?_of_others false none hbytes
    (fun g hg => hothers g (by simp [hg])) (fun g hg => hfields g (by simp [hg]))
  obtain ⟨u, hu, hread⟩ := contentLength?_of_line begun none (bytes_of_whole_eq ht)
    f.length.newline_notMem_line hlimit
  obtain ⟨past, v, hv, hafter⟩ := contentLength?_of_others true (some f.body.length)
    (bytes_of_whole_eq hu)
    (fun g hg => hothers g (by simp [hg])) (fun g hg => hfields g (by simp [hg]))
  obtain ⟨w, hw, hblank⟩ := contentLength?_of_blank past f.body.length (bytes_of_whole_eq hv)
    (Nat.le_trans f.length.length_line_pos hlimit)
  refine ⟨w, by rw [hw, hv, hu, ht], ?_⟩
  rw [hbefore, hread, hlength]
  exact hafter.trans hblank

/-- A read takes one frame, whatever its body holds, and leaves what comes behind it. -/
theorem read_of_headerFrame {f : HeaderFrame} (hs : s.bytes = f.bytes ++ r)
    (hw : limit < Text.wordBound) (hf : f.Within limit) :
    ∃ t, read .header limit s = some (readingOf f.body, t) ∧
      t.whole = { s.whole with buffer := r } := by
  obtain ⟨t, ht, hlength⟩ := contentLength?_of_frame hs hw hf
  obtain ⟨u, hbody, hu⟩ := nextBody_of_bytes (bytes_of_whole_eq ht)
  refine ⟨u, ?_, by rw [hu, ht]⟩
  rw [read, readHeader, hlength]
  simp only [if_neg (Nat.not_lt.mpr hf.body), hbody]

/-- Frame by frame, the reads give what the bodies are parsed to, and then the end of the stream.
A body that is no envelope is a fault that can be recovered from, since its frame, like each other
one, is used up and nothing behind it is. -/
theorem readings_of_headerFrames {fs : List HeaderFrame} (past : Bool)
    (hw : limit < Text.wordBound) (hf : ∀ f ∈ fs, f.Within limit)
    (hs : s.Holds (fs.flatMap HeaderFrame.bytes)) :
    (∀ n, readings .header limit past n s =
      (fs.map (readingOf ∘ HeaderFrame.body) ++ [Reading.ended]).take n) ∧
    ∀ f ∈ fs,
      (∀ {u : Source} {r : List UInt8}, u.bytes = f.bytes ++ r →
        ∃ v, read .header limit u = some (readingOf f.body, v) ∧ v.bytes = r) ∧
      ((∃ e, Envelope.ofBytes f.body = .ok e ∧ readingOf f.body = .envelope e) ∨
        ∃ cause, Envelope.ofBytes f.body = .error cause ∧
          readingOf f.body = .malformed cause ∧ (readingOf f.body).isRecoverable = true) := by
  constructor
  · intro n
    induction fs generalizing s n with
    | nil =>
      obtain ⟨t, ht⟩ := read_end .header limit hs
      cases n with
      | zero => rfl
      | succ n => simp [readings, ht]
    | cons f fs ih =>
      rw [List.flatMap_cons] at hs
      obtain ⟨t, ht, hrest⟩ := read_of_headerFrame hs.bytes hw (hf f (by simp))
      cases n with
      | zero => rfl
      | succ n =>
        rw [readings_of_not_isLast ht (isLast_readingOf f.body),
          ih (fun g hg => hf g (by simp [hg])) (holds_of_whole_eq hs hrest)]
        rfl
  · intro f hm
    refine ⟨fun hu => ?_, ?_⟩
    · obtain ⟨v, hv, hrest⟩ := read_of_headerFrame hu hw (hf f hm)
      exact ⟨v, hv, bytes_of_whole_eq hrest⟩
    · cases h : Envelope.ofBytes f.body with
      | ok e => exact .inl ⟨e, rfl, by rw [readingOf, h]⟩
      | error cause =>
        exact .inr ⟨cause, rfl, by rw [readingOf, h], (isRecoverable_readingOf _).mpr ⟨cause, h⟩⟩

/-- Its body is no envelope, but would be a frame. -/
def decoy : HeaderFrame where
  before := [⟨[88], [255, 58, 32], true, by decide, by decide⟩]
  length := ⟨Text.Utf8.encode " CONTENT-length\t".toList, Text.Utf8.encode "\t0023 ".toList, false,
    by decide, by decide⟩
  after := [⟨Text.Utf8.encode "Content-Lengthy".toList, Text.Utf8.encode "5".toList, true,
    by decide, by decide⟩]
  hasReturn := true
  body := Text.Utf8.encode "Content-Length: 2\r\n\r\n\x7b\x7d".toList
  named := ⟨"CONTENT-length".toList, by decide, [' '], ['\t'], rfl,
    List.forall_mem_singleton.mpr rfl, List.forall_mem_singleton.mpr rfl⟩
  tells := ⟨"0023".toList, ⟨_, .inl rfl, by decide, List.all_eq_true.mp rfl, by decide⟩, ['\t'],
    [' '], rfl, List.forall_mem_singleton.mpr rfl, List.forall_mem_singleton.mpr rfl⟩
  others := by decide +kernel

def plain : HeaderFrame where
  before := []
  length := ⟨Text.Utf8.encode lengthName, Text.Utf8.encode "+40".toList, false, by decide,
    by decide⟩
  after := []
  hasReturn := false
  body := ping.toBytes
  named := ⟨lengthName, by decide, [], [], rfl, nofun, nofun⟩
  tells := ⟨"+40".toList, ⟨"40".toList, .inr rfl, by decide, List.all_eq_true.mp rfl,
    by decide +kernel⟩, [], [], rfl, nofun, nofun⟩
  others := nofun

/-- It gives one byte at first, and then seven at a time. -/
def decoyed : Source := ⟨[], [decoy, plain].flatMap HeaderFrame.bytes, [1, 7], none, true⟩

theorem readings_of_headerFrames_decoyed :
    Envelope.ofBytes decoy.body = .error .malformed ∧
      ∀ n, readings .header 64 false n decoyed =
        [.malformed .malformed, .envelope ping, .ended].take n := by
  have hwithin : ∀ f ∈ [decoy, plain], f.Within 64 := by
    rw [List.forall_mem_cons, List.forall_mem_singleton]
    exact ⟨⟨by decide +kernel, by decide +kernel⟩, ⟨by decide +kernel, by decide +kernel⟩⟩
  have hmalformed : Json.ofBytes? decoy.body = none := by decide +kernel
  have hcause : Envelope.ofBytes decoy.body = .error .malformed := by
    rw [Envelope.ofBytes, hmalformed]
  have hping : Envelope.ofBytes plain.body = .ok ping := ofBytes_ping
  have hs : decoyed.Holds ([decoy, plain].flatMap HeaderFrame.bytes) := ⟨rfl, rfl, rfl⟩
  refine ⟨hcause, fun n => ?_⟩
  have hreadings := (readings_of_headerFrames false (by decide) hwithin hs).1 n
  have hbodies : [decoy, plain].map (readingOf ∘ HeaderFrame.body) =
      [.malformed .malformed, .envelope ping] := by
    simp only [List.map_cons, List.map_nil, Function.comp_apply, readingOf, hcause, hping]
  rw [hbodies] at hreadings
  exact hreadings

end Reader

end ContextServer
