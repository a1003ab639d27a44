import ContextServer.Proofs.Envelope.RoundTrip
import ContextServer.Proofs.Stream.HeaderLine
import ContextServer.Proofs.Stream.Writing

/-!
What is written to a stream is read off it again. Each read takes the first frame and leaves the
rest, because a body holds no newline where lines are the frames, and is passed over by its length
where headers are.
-/

namespace ContextServer

/-! ### Bodies -/

namespace Envelope

theorem print_eq (e : Envelope) : ∃ cs, e.print = '{' :: (cs ++ ['}']) := ⟨_, rfl⟩

/-- A body opens and closes with a brace. -/
theorem toBytes_eq (e : Envelope) : ∃ bs, e.toBytes = 123 :: (bs ++ [125]) := by
  obtain ⟨cs, h⟩ := e.print_eq
  refine ⟨Text.Utf8.encode cs, ?_⟩
  rw [toBytes, h, Text.Utf8.encode_cons, Text.Utf8.encode_append]
  rfl

/-- A body holds no control byte. -/
theorem notMem_toBytes {e : Envelope} {b : UInt8} (h : e.Integral) (hb : b.toNat < 32) :
    b ∉ e.toBytes := by
  intro hm
  obtain ⟨c, hc, hcb⟩ := List.mem_flatMap.mp hm
  have hnat := Text.Utf8.mem_encodeChar hcb (by omega)
  have hle : 32 ≤ c.toNat := Json.le_of_mem_print h hc
  omega

theorem newline_notMem {e : Envelope} (h : e.Integral) : Framing.newline ∉ e.toBytes :=
  notMem_toBytes h (by decide)

end Envelope

namespace Framing

def lengthName : List Char := "Content-Length".toList

/-- The text of the first header line, without its carriage return. -/
def lengthText (n : Nat) : List Char := lengthName ++ ':' :: ' ' :: Text.decimal n

def lengthLine (n : Nat) : List UInt8 := Text.Utf8.encode (lengthText n ++ ['\r'])

theorem lengthLine_eq_cons (n : Nat) : ∃ bs, lengthLine n = 67 :: bs := ⟨_, rfl⟩

theorem length_lengthLine_pos (n : Nat) : 0 < (lengthLine n).length := Nat.succ_pos _

/-- The body, and with a header the line of its length as well, is within the limit. -/
def Fits (framing : Framing) (limit : Nat) (e : Envelope) : Prop :=
  e.toBytes.length ≤ limit ∧
    (framing = header → (lengthLine e.toBytes.length).length ≤ limit)

theorem headerBytes_eq (n : Nat) :
    headerBytes n = lengthLine n ++ newline :: carriageReturn :: newline :: [] := by
  have hname : "Content-Length: ".toList = lengthName ++ [':', ' '] := by decide
  have htext : "Content-Length: ".toList ++ Text.decimal n ++ ['\r', '\n', '\r', '\n'] =
      (lengthText n ++ ['\r']) ++ ['\n', '\r', '\n'] := by
    rw [hname, lengthText]
    simp only [List.append_assoc, List.cons_append, List.nil_append]
  rw [headerBytes, htext, Text.Utf8.encode_append]
  rfl

theorem mem_lengthText {n : Nat} {c : Char} (h : c ∈ lengthText n) :
    32 ≤ c.toNat := by
  have hname : lengthName.all (fun c => 32 ≤ c.toNat) = true := by decide
  simp only [lengthText, List.mem_append, List.mem_cons] at h
  rcases h with h | rfl | rfl | h
  · simpa using List.all_eq_true.mp hname c h
  · decide
  · decide
  · have := Text.toNat_of_isDigit (Text.isDigit_of_mem_decimal h)
    omega

theorem newline_notMem_lengthLine (n : Nat) : newline ∉ lengthLine n := by
  intro hm
  obtain ⟨c, hc, hb⟩ := List.mem_flatMap.mp hm
  have hnat := Text.Utf8.mem_encodeChar hb (by decide)
  rcases List.mem_append.mp hc with hc | hc
  · have hle := mem_lengthText hc
    rw [hnat] at hle
    exact absurd hle (by decide)
  · rw [List.mem_singleton.mp hc] at hnat
    exact absurd hnat (by decide)

end Framing

namespace Reader

open Framing

theorem stripReturn_concat (bs : List UInt8) : stripReturn (bs ++ [carriageReturn]) = bs := by
  simp [stripReturn]

theorem stripReturn_of_getLast? {bs : List UInt8} (h : bs.getLast? ≠ some carriageReturn) :
    stripReturn bs = bs := if_neg h

/-- The line that tells a length is read as that length. -/
theorem headerLine_lengthText {n : Nat} (h : n < Text.wordBound) :
    headerLine (Text.Utf8.encode (lengthText n)) = .length n := by
  have hname : NamesLength (Text.Utf8.encode lengthName) :=
    ⟨lengthName, by decide, [], [], by simp, nofun, nofun⟩
  have hvalue : Tells n (Text.Utf8.encode (' ' :: Text.decimal n)) :=
    ⟨Text.decimal n, Text.isNumeral_decimal n, [' '], [], by simp,
      List.forall_mem_singleton.mpr rfl, nofun⟩
  rw [lengthText, Text.Utf8.encode_append, Text.Utf8.encode_cons]
  exact headerLine_of_tells (by decide) hname hvalue h

theorem headerLine_lengthLine {n : Nat} (h : n < Text.wordBound) :
    headerLine (lengthLine n) = .length n := by
  rw [lengthLine, Text.Utf8.encode_append]
  exact (headerLine_concat_return _).trans (headerLine_lengthText h)

end Reader

/-! ### One frame off a stream -/

/-- The stream has these bytes left and ends behind them. -/
structure Source.Holds (s : Source) (bs : List UInt8) : Prop where
  bytes : s.bytes = bs
  fault : s.fault = none
  ended : s.ended = true

namespace Source

variable {s : Source} {bs : List UInt8}

theorem holds_iff : s.Holds bs ↔ s.whole = ⟨bs, [], [], none, true⟩ := by
  constructor
  · intro h
    rw [whole, h.bytes, h.fault, h.ended]
  · intro h
    simp only [whole, Source.mk.injEq] at h
    exact ⟨h.1, h.2.2.2.1, h.2.2.2.2⟩

end Source

namespace Reader

open Framing

variable {limit : Nat} {s : Source} {l bs r : List UInt8}

theorem bytes_of_whole_eq {t : Source} (h : t.whole = { s.whole with buffer := r }) :
    t.bytes = r := by
  rw [← Source.bytes_whole, h]
  exact List.append_nil r

theorem holds_of_whole_eq {t : Source} (hs : s.Holds bs)
    (h : t.whole = { s.whole with buffer := r }) : t.Holds r := by
  rw [Source.holds_iff] at hs ⊢
  rw [h, hs]

/-- What comes behind the line does not matter, be it more bytes, a fault or the end. -/
theorem nextLine_of_bytes (hs : s.bytes = l ++ newline :: r) (hn : newline ∉ l)
    (hl : l.length ≤ limit) :
    ∃ t, nextLine limit s = some (.ok (some (stripReturn l)), t) ∧
      t.whole = { s.whole with buffer := r } := by
  have hbuffer : s.whole.buffer = l ++ newline :: r := hs
  refine seen_eq_ok.mp ?_
  rw [seen_nextLine, lineIn, hbuffer, scanLine_line limit r hn, if_neg (Nat.not_lt.mpr hl)]

theorem nextLine_of_holds (hs : s.Holds (l ++ newline :: r)) (hn : newline ∉ l)
    (hl : l.length ≤ limit) :
    ∃ t, nextLine limit s = some (.ok (some (stripReturn l)), t) ∧ t.Holds r := by
  obtain ⟨t, ht, hw⟩ := nextLine_of_bytes hs.bytes hn hl
  exact ⟨t, ht, holds_of_whole_eq hs hw⟩

theorem nextLine_of_holds_nil (limit : Nat) (hs : s.Holds []) :
    ∃ t, nextLine limit s = some (.ok none, t) := by
  have hseen : seen (nextLine limit s) = some (.ok (none, ⟨[], [], [], none, true⟩)) := by
    rw [seen_nextLine, Source.holds_iff.mp hs, lineIn,
      scanLine_piece limit List.not_mem_nil, if_neg (by simp)]
    rfl
  obtain ⟨t, ht, -⟩ := seen_eq_ok.mp hseen
  exact ⟨t, ht⟩

theorem nextBody_of_bytes (hs : s.bytes = bs ++ r) :
    ∃ t, nextBody bs.length s = some (.ok bs, t) ∧ t.whole = { s.whole with buffer := r } := by
  have hbuffer : s.whole.buffer = bs ++ r := hs
  refine seen_eq_ok.mp ?_
  rw [seen_nextBody, bodyIn, hbuffer, if_pos (by simp), List.take_left, List.drop_left]

theorem nextBody_of_holds (hs : s.Holds (bs ++ r)) :
    ∃ t, nextBody bs.length s = some (.ok bs, t) ∧ t.Holds r := by
  obtain ⟨t, ht, hw⟩ := nextBody_of_bytes hs.bytes
  exact ⟨t, ht, holds_of_whole_eq hs hw⟩

/-- A body on a line of its own is read as it is, if it is not blank and keeps its last byte. -/
theorem readLine_of_holds (hs : s.Holds (frameOf .line bs ++ r)) (hn : newline ∉ bs)
    (hr : bs.getLast? ≠ some carriageReturn) (hb : bs.all Text.isBlankByte = false)
    (hl : bs.length ≤ limit) :
    ∃ t, readLine limit s = some (readingOf bs, t) ∧ t.Holds r := by
  have hframe : frameOf .line bs ++ r = bs ++ newline :: r := by simp [frameOf, pieces]
  obtain ⟨t, ht, hrest⟩ := nextLine_of_holds (hframe ▸ hs) hn hl
  refine ⟨t, ?_, hrest⟩
  rw [readLine_eq, ht, stripReturn_of_getLast? hr]
  simp only [hb, Bool.false_eq_true, if_false]

/-- One line of a header is used up, whatever comes of it. -/
theorem contentLength?_of_line (started : Bool) (length : Option Nat)
    (hs : s.bytes = l ++ newline :: r) (hn : newline ∉ l) (hl : l.length ≤ limit) :
    ∃ t, t.whole = { s.whole with buffer := r } ∧
      contentLength? limit started length s =
        match headerLine l with
        | .blank => some (length.elim (.error .missingContentLength) (.ok ∘ some), t)
        | .length n => contentLength? limit true (some n) t
        | .other => contentLength? limit true length t
        | .invalid told => some (.error (.invalidHeader told), t) := by
  obtain ⟨t, ht, hw⟩ := nextLine_of_bytes hs hn hl
  refine ⟨t, hw, ?_⟩
  rw [contentLength?_eq, ht]
  simp only [headerLine_stripReturn]
  cases headerLine l <;> cases length <;> rfl

/-- The header that is written for a body tells its length. -/
theorem contentLength?_of_bytes {n : Nat} (hs : s.bytes = headerBytes n ++ r)
    (hn : n < Text.wordBound) (hl : (lengthLine n).length ≤ limit) :
    ∃ t, contentLength? limit false none s = some (.ok (some n), t) ∧
      t.whole = { s.whole with buffer := r } := by
  have hlines : s.bytes = lengthLine n ++ newline :: ([carriageReturn] ++ newline :: r) := by
    simp [hs, headerBytes_eq]
  have hpos : 1 ≤ limit := Nat.le_trans (length_lengthLine_pos n) hl
  obtain ⟨t, hrest, ht⟩ := contentLength?_of_line false none hlines (newline_notMem_lengthLine n) hl
  obtain ⟨u, hlast, hu⟩ :=
    contentLength?_of_line true (some n) (bytes_of_whole_eq hrest) (by decide) hpos
  refine ⟨u, ?_, by rw [hlast, hrest]⟩
  rw [ht, headerLine_lengthLine hn]
  exact hu

theorem contentLength?_of_holds {n : Nat} (hs : s.Holds (headerBytes n ++ r))
    (hn : n < Text.wordBound) (hl : (lengthLine n).length ≤ limit) :
    ∃ t, contentLength? limit false none s = some (.ok (some n), t) ∧ t.Holds r := by
  obtain ⟨t, ht, hw⟩ := contentLength?_of_bytes hs.bytes hn hl
  exact ⟨t, ht, holds_of_whole_eq hs hw⟩

/-- A body behind its header is read as it is, whatever its bytes are. -/
theorem readHeader_of_holds (hs : s.Holds (frameOf .header bs ++ r))
    (hw : limit < Text.wordBound) (hl : bs.length ≤ limit)
    (hh : (lengthLine bs.length).length ≤ limit) :
    ∃ t, readHeader limit s = some (readingOf bs, t) ∧ t.Holds r := by
  have hframe : frameOf .header bs ++ r = headerBytes bs.length ++ (bs ++ r) := by
    simp [frameOf, pieces]
  obtain ⟨t, ht, hrest⟩ :=
    contentLength?_of_holds (hframe ▸ hs) (Nat.lt_of_le_of_lt hl hw) hh
  obtain ⟨u, hu, hrest⟩ := nextBody_of_holds hrest
  refine ⟨u, ?_, hrest⟩
  rw [readHeader, ht]
  simp only [if_neg (Nat.not_lt.mpr hl), hu]

theorem read_frame {framing : Framing} {e : Envelope} (hs : s.Holds (framing.frame e ++ r))
    (hw : limit < Text.wordBound) (hf : framing.Fits limit e) (hi : e.Integral)
    (he : Envelope.ofBytes e.toBytes = .ok e) :
    ∃ t, read framing limit s = some (.envelope e, t) ∧ t.Holds r := by
  have hreading : readingOf e.toBytes = .envelope e := by rw [readingOf, he]
  cases framing with
  | line =>
    obtain ⟨bs, hbs⟩ := e.toBytes_eq
    obtain ⟨t, ht, hrest⟩ := readLine_of_holds hs (Envelope.newline_notMem hi)
      (by rw [hbs, ← List.cons_append, List.getLast?_concat]; decide)
      (by rw [hbs]; rfl) hf.1
    exact ⟨t, hreading ▸ ht, hrest⟩
  | header =>
    obtain ⟨t, ht, hrest⟩ := readHeader_of_holds hs hw hf.1 (hf.2 rfl)
    exact ⟨t, hreading ▸ ht, hrest⟩

theorem read_end (framing : Framing) (limit : Nat) (hs : s.Holds []) :
    ∃ t, read framing limit s = some (.ended, t) := by
  obtain ⟨t, ht⟩ := nextLine_of_holds_nil limit hs
  cases framing with
  | line => exact ⟨t, by rw [read, readLine_eq, ht]⟩
  | header =>
    refine ⟨t, ?_⟩
    rw [read, readHeader, contentLength?_eq, ht]
    rfl

/-! ### All that was written -/

/-- The reads take one frame after the other; the induction is on the frames that are left. -/
theorem readings_frames {framing : Framing} {es : List Envelope} {past : Bool} {n : Nat}
    (hw : limit < Text.wordBound) (hf : ∀ e ∈ es, framing.Fits limit e)
    (hi : ∀ e ∈ es, e.Integral) (he : ∀ e ∈ es, Envelope.ofBytes e.toBytes = .ok e)
    (hs : s.Holds (es.flatMap framing.frame)) (hn : es.length < n) :
    readings framing limit past n s = es.map .envelope ++ [.ended] := by
  induction es generalizing s n with
  | nil =>
    obtain ⟨n, rfl⟩ : ∃ k, n = k + 1 := ⟨n - 1, by simp at hn; omega⟩
    obtain ⟨t, ht⟩ := read_end framing limit hs
    simp only [readings, ht, List.map_nil, List.nil_append]
  | cons e es ih =>
    obtain ⟨n, rfl⟩ : ∃ k, n = k + 1 := ⟨n - 1, by simp at hn; omega⟩
    obtain ⟨t, ht, hrest⟩ := read_frame hs hw (hf e (by simp)) (hi e (by simp)) (he e (by simp))
    simp only [readings, ht, List.map_cons, List.cons_append]
    rw [ih (fun d hd => hf d (by simp [hd])) (fun d hd => hi d (by simp [hd]))
      (fun d hd => he d (by simp [hd])) hrest (by simpa using hn)]

/-- In whatever parts the stream takes the frames and in whatever parts it gives them back, what is
read is what was written, and then the end. -/
theorem readings_written {framing : Framing} {es : List Envelope} {past : Bool} {n : Nat}
    {c : Channel} (hparsed : ∀ e ∈ es, ∃ bs, Envelope.ofBytes bs = .ok e)
    (hi : ∀ e ∈ es, e.Integral) (hw : limit < Text.wordBound)
    (hf : ∀ e ∈ es, framing.Fits limit e) (hc : Channel.Written framing .empty es c)
    (hs : s.Holds c.sent) (hn : es.length < n) :
    readings framing limit past n s = es.map .envelope ++ [.ended] ∧
      Channel.Written framing .empty es (Channel.writeAll framing .empty es) ∧
      ∀ e ∈ es, Envelope.ofBytes e.toBytes = .ok e ∧
        ∃ bs, Framing.line.frame e = bs ++ [newline] ∧ newline ∉ bs := by
  have he : ∀ e ∈ es, Envelope.ofBytes e.toBytes = .ok e := by
    intro e hm
    obtain ⟨bs, hbs⟩ := hparsed e hm
    exact Envelope.ofBytes_toBytes hbs (hi e hm)
  have hsent : c.sent = es.flatMap framing.frame :=
    Channel.sent_of_written (fun _ h => absurd h List.not_mem_nil) hc
  refine ⟨readings_frames hw hf hi he (hsent ▸ hs) hn, Channel.written_writeAll rfl rfl es,
    fun e hm => ⟨he e hm, e.toBytes, ?_, Envelope.newline_notMem (hi e hm)⟩⟩
  exact List.append_nil _

/-- The moves of a stream that takes the header of a frame of 62 bytes in two parts. -/
def partMoves : List Channel.Move :=
  [.acquire 0, .accept 0 5, .accept 0 17, .accept 0 40, .finish 0]

def ping : Envelope := .request (.number (.int 1 (by decide))) "ping" none

theorem integral_ping : ping.Integral := ⟨trivial, trivial, trivial, trivial⟩

theorem ofBytes_ping : Envelope.ofBytes ping.toBytes = .ok ping :=
  Envelope.ofBytes_toBytes_of_tidy ⟨nofun, nofun, nofun⟩ integral_ping

theorem fits_ping : Framing.header.Fits 64 ping := by
  refine ⟨?_, fun _ => ?_⟩
  · decide +kernel
  · decide +kernel

/-- A request goes over a stream in parts, and the stream gives one byte of it at first. -/
theorem readings_written_parts :
    ∃ c s, Channel.Written .header .empty [ping] c ∧ s.bytes = c.sent ∧ s.unread.length = 62 ∧
      readings .header 64 false 2 s = [.envelope ping, .ended] := by
  have hrun : ((Channel.empty.submit (Framing.header.pieces ping.toBytes)).1.run partMoves).any
      (fun c => c.writes[0]? == some .done && c.sent.length == 62) = true := by
    decide +kernel
  obtain ⟨c, hr, hc⟩ := (Option.any_eq_true _ _).mp hrun
  simp only [Bool.and_eq_true, beq_iff_eq] at hc
  have hwritten : Channel.Written .header .empty [ping] c := .cons ⟨_, hr, hc.1⟩ (.nil c)
  refine ⟨c, ⟨[], c.sent, [1, 7], none, true⟩, hwritten, rfl, hc.2, ?_⟩
  exact (readings_written (by simpa using ⟨_, ofBytes_ping⟩) (by simpa using integral_ping)
    (by decide) (by simpa using fits_ping) hwritten ⟨rfl, rfl, rfl⟩ (by decide)).1

end Reader

end ContextServer
