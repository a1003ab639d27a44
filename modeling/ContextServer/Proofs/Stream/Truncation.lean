import ContextServer.Proofs.Json.Prefix
import ContextServer.Proofs.Stream.Ending
import ContextServer.Proofs.Stream.RoundTrip

/-!
A stream that breaks off. What is left of the frames is read as it was written, and of the frame
that is torn nothing is taken for an envelope: a header is not over before its blank line, a body is
not over before all of its bytes, and no beginning of a body is itself a body.
-/

namespace ContextServer

namespace Framing

/-- How many bytes at the end of a frame its reader can do without when the stream ends there. -/
def spare : Framing → Nat
  | line => 1
  | header => 0

/-- How many bytes the first `i` frames take up. -/
def boundary (framing : Framing) (es : List Envelope) (i : Nat) : Nat :=
  ((es.take i).flatMap framing.frame).length

/-- The first `m` frames, and no others, are within the first `k` bytes, up to what their reader
can do without. -/
structure Reaches (framing : Framing) (es : List Envelope) (k m : Nat) : Prop where
  le : m ≤ es.length
  iff : ∀ i < es.length, i < m ↔ framing.boundary es (i + 1) ≤ k + framing.spare

/-- A stream that ends behind `k` bytes ends between two frames. -/
def Clean (framing : Framing) (es : List Envelope) (k : Nat) : Prop :=
  ∃ i ≤ es.length, k ≤ framing.boundary es i ∧ framing.boundary es i ≤ k + framing.spare

/-- What the reads give of a torn frame. -/
inductive Torn : Framing → List Reading → Prop
  | line : Torn line [.malformed .malformed, .ended]
  | header (e : TransportError) : Torn header [.failed e]

variable {framing : Framing} {e : Envelope} {es : List Envelope} {k m : Nat}

theorem clean_iff : framing.Clean es k ↔ ∃ i ≤ es.length, framing.boundary es i = k ∨
    (framing = line ∧ framing.boundary es i = k + 1) := by
  constructor
  · rintro ⟨i, hi, hle, hge⟩
    refine ⟨i, hi, ?_⟩
    cases framing with
    | line =>
      simp only [spare, true_and] at hge ⊢
      omega
    | header => exact .inl (Nat.le_antisymm hge hle)
  · rintro ⟨i, hi, rfl | ⟨rfl, hb⟩⟩
    · exact ⟨i, hi, Nat.le_refl _, Nat.le_add_right _ _⟩
    · exact ⟨i, hi, by omega, Nat.le_of_eq hb⟩

@[simp] theorem boundary_zero (framing : Framing) (es : List Envelope) :
    framing.boundary es 0 = 0 := rfl

@[simp] theorem boundary_succ (framing : Framing) (e : Envelope) (es : List Envelope) (i : Nat) :
    framing.boundary (e :: es) (i + 1) = (framing.frame e).length + framing.boundary es i := by
  simp [boundary]

theorem frame_line (e : Envelope) : line.frame e = e.toBytes ++ [newline] := List.append_nil _

theorem frame_header (e : Envelope) :
    header.frame e = headerBytes e.toBytes.length ++ e.toBytes := by
  simp [frame, frameOf, pieces]

/-- A frame is more than what can be done without. -/
theorem spare_lt_length_frame (framing : Framing) (e : Envelope) :
    framing.spare < (framing.frame e).length := by
  obtain ⟨bs, hbs⟩ := e.toBytes_eq
  cases framing with
  | line => simp [frame_line, spare, hbs]
  | header => simp [frame_header, spare, hbs]

theorem spare_lt_boundary {i : Nat} (hi : i < es.length) :
    framing.spare < framing.boundary es (i + 1) := by
  match es with
  | [] => cases hi
  | e :: es =>
    rw [boundary_succ]
    exact Nat.lt_add_right _ (spare_lt_length_frame framing e)

theorem Torn.ne_ended {rs : List Reading} (h : framing.Torn rs) : rs ≠ [.ended] := by
  cases h with
  | line | header => nofun

/-- The readings `rs` of a stream that ends behind `k` bytes: the envelopes that it reaches, and
then the end of the stream or what is left of a frame. -/
def CutAt (framing : Framing) (es : List Envelope) (k : Nat) (rs : List Reading) : Prop :=
  ∃ m tail, rs = (es.take m).map .envelope ++ tail ∧ framing.Reaches es k m ∧
    (tail = [.ended] ↔ framing.Clean es k) ∧ (¬ framing.Clean es k → framing.Torn tail)

theorem cutAt_zero (framing : Framing) (es : List Envelope) : framing.CutAt es 0 [.ended] := by
  have hclean : framing.Clean es 0 := ⟨0, Nat.zero_le _, Nat.le_refl _, Nat.zero_le _⟩
  refine ⟨0, [.ended], rfl, ⟨Nat.zero_le _, fun i hi => ⟨nofun, fun hle => ?_⟩⟩,
    ⟨fun _ => hclean, fun _ => rfl⟩, fun h => absurd hclean h⟩
  have hpos : framing.spare < framing.boundary es (i + 1) := spare_lt_boundary hi
  omega

/-- Of a torn frame, and of all that would have come behind it, nothing is reached. -/
theorem cutAt_torn {rs : List Reading} (h0 : 0 < k)
    (hk : k + framing.spare < (framing.frame e).length) (h : framing.Torn rs) :
    framing.CutAt (e :: es) k rs := by
  have hclean : ¬ framing.Clean (e :: es) k := by
    rintro ⟨i, -, hle, hge⟩
    match i with
    | 0 =>
      rw [boundary_zero] at hle
      omega
    | i + 1 =>
      rw [boundary_succ] at hge
      omega
  refine ⟨0, rs, rfl, ⟨Nat.zero_le _, fun i _ => ⟨nofun, fun hle => ?_⟩⟩,
    ⟨fun heq => absurd heq h.ne_ended, fun hc => absurd hc hclean⟩, fun _ => h⟩
  rw [boundary_succ] at hle
  omega

theorem clean_cons (hk : (framing.frame e).length ≤ k + framing.spare) :
    framing.Clean (e :: es) k ↔ framing.Clean es (k - (framing.frame e).length) := by
  have hpos := spare_lt_length_frame framing e
  constructor
  · rintro ⟨i, hi, hle, hge⟩
    match i with
    | 0 =>
      rw [boundary_zero] at hle
      omega
    | i + 1 =>
      rw [boundary_succ] at hle hge
      exact ⟨i, Nat.le_of_succ_le_succ hi, by omega, by omega⟩
  · rintro ⟨i, hi, hle, hge⟩
    refine ⟨i + 1, Nat.succ_le_succ hi, ?_⟩
    rw [boundary_succ]
    match i with
    | 0 =>
      rw [boundary_zero] at hle ⊢
      omega
    | i + 1 =>
      -- a frame behind the first is reached only when all of the first is there
      have hreached : framing.spare < framing.boundary es (i + 1) := spare_lt_boundary hi
      omega

theorem reaches_cons (hk : (framing.frame e).length ≤ k + framing.spare)
    (h : framing.Reaches es (k - (framing.frame e).length) m) :
    framing.Reaches (e :: es) k (m + 1) := by
  refine ⟨Nat.succ_le_succ h.le, fun i hi => ?_⟩
  rw [boundary_succ]
  match i with
  | 0 => simpa using hk
  | i + 1 =>
    have hi : i < es.length := Nat.lt_of_succ_lt_succ hi
    have hpos : framing.spare < framing.boundary es (i + 1) := spare_lt_boundary hi
    rw [Nat.add_lt_add_iff_right, h.iff i hi]
    omega

/-- A frame that is whole comes before the others, and the rest is as if they came first. -/
theorem cutAt_cons {rs : List Reading} (hk : (framing.frame e).length ≤ k + framing.spare)
    (h : framing.CutAt es (k - (framing.frame e).length) rs) :
    framing.CutAt (e :: es) k (.envelope e :: rs) := by
  obtain ⟨m, tail, rfl, hreaches, hended, htorn⟩ := h
  rw [← clean_cons hk] at hended htorn
  exact ⟨m + 1, tail, rfl, reaches_cons hk hreaches, hended, htorn⟩

end Framing

namespace Reader

open Framing

variable {limit k n : Nat} {s : Source} {e : Envelope} {bs r : List UInt8}

/-! ### The last line of a stream -/

theorem stripReturn_ne_nil {b : UInt8} (hb : b ≠ carriageReturn) (bs : List UInt8) :
    stripReturn (b :: bs) ≠ [] := by
  unfold stripReturn
  split
  · rename_i hlast
    cases bs with
    | nil => exact absurd (Option.some.inj hlast) hb
    | cons c bs => nofun
  · nofun

theorem nextLine_of_holds_last (hs : s.Holds bs) (hn : newline ∉ bs) (hl : bs.length ≤ limit) :
    ∃ t, nextLine limit s = some (.ok (if (stripReturn bs).isEmpty then none
      else some (stripReturn bs)), t) ∧ t.Holds [] := by
  obtain ⟨t, ht, hrest⟩ := nextLine_of_carries_last ⟨hs.bytes, hs.fault, hs.ended⟩ hn hl
  exact ⟨t, ht, hrest.bytes, hrest.fault, hrest.ended⟩

theorem nextLine_of_holds_line (hs : s.Holds bs) (hn : newline ∉ bs) (hl : bs.length ≤ limit)
    (hne : stripReturn bs ≠ []) :
    ∃ t, nextLine limit s = some (.ok (some (stripReturn bs)), t) ∧ t.Holds [] := by
  obtain ⟨t, ht, hrest⟩ := nextLine_of_holds_last hs hn hl
  rw [List.isEmpty_eq_false_iff.mpr hne] at ht
  exact ⟨t, ht, hrest⟩

theorem nextLine_of_holds_blank (hs : s.Holds bs) (hn : newline ∉ bs) (hl : bs.length ≤ limit)
    (hb : stripReturn bs = []) : ∃ t, nextLine limit s = some (.ok none, t) := by
  obtain ⟨t, ht, -⟩ := nextLine_of_holds_last hs hn hl
  rw [hb] at ht
  exact ⟨t, ht⟩

/-! ### A torn line -/

/-- A line that lacks its newline is read as it is. -/
theorem readLine_of_holds_last (hs : s.Holds bs) (hn : newline ∉ bs)
    (hr : bs.getLast? ≠ some carriageReturn) (hb : bs.all Text.isBlankByte = false)
    (hl : bs.length ≤ limit) :
    ∃ t, readLine limit s = some (readingOf bs, t) ∧ t.Holds [] := by
  have hstrip := stripReturn_of_getLast? hr
  have hne : stripReturn bs ≠ [] := by
    rw [hstrip]
    rintro rfl
    cases hb
  obtain ⟨t, ht, hrest⟩ := nextLine_of_holds_line hs hn hl hne
  refine ⟨t, ?_, hrest⟩
  rw [readLine_eq, ht, hstrip]
  simp only [hb, Bool.false_eq_true, if_false]

/-- The beginning of a body is a line of its own when the stream ends behind it. -/
theorem readLine_of_holds_take (hs : s.Holds (e.toBytes.take k)) (h0 : 0 < k) (hi : e.Integral)
    (hl : e.toBytes.length ≤ limit) :
    ∃ t, readLine limit s = some (readingOf (e.toBytes.take k), t) ∧ t.Holds [] := by
  have hsub {b : UInt8} (hb : b.toNat < 32) : b ∉ e.toBytes.take k :=
    fun h => Envelope.notMem_toBytes hi hb (List.mem_of_mem_take h)
  refine readLine_of_holds_last hs (hsub (by decide)) ?_ ?_ ?_
  · exact fun h => hsub (by decide) (List.mem_of_getLast? h)
  · obtain ⟨bs, hbs⟩ := e.toBytes_eq
    obtain ⟨k, rfl⟩ : ∃ j, k = j + 1 := ⟨k - 1, by omega⟩
    rw [hbs]
    rfl
  · exact Nat.le_trans (List.length_take_le' k _) hl

/-! ### A torn header or body -/

/-- A stream that ends within a header has failed. -/
theorem contentLength?_of_holds_blank (length : Option Nat) (hs : s.Holds bs) (hn : newline ∉ bs)
    (hl : bs.length ≤ limit) (hb : stripReturn bs = []) :
    ∃ t, contentLength? limit true length s = some (.error endInHeaders, t) := by
  obtain ⟨t, ht⟩ := nextLine_of_holds_blank hs hn hl hb
  exact ⟨t, by rw [contentLength?_eq, ht]; rfl⟩

/-- Whatever is read in the first line of a header that ends with it. -/
theorem contentLength?_of_holds_line (hs : s.Holds bs) (hn : newline ∉ bs)
    (hl : bs.length ≤ limit) (hne : stripReturn bs ≠ []) :
    ∃ cause t, contentLength? limit false none s = some (.error cause, t) := by
  obtain ⟨t, ht, hrest⟩ := nextLine_of_holds_line hs hn hl hne
  have hend (length : Option Nat) :
      ∃ u, contentLength? limit true length t = some (.error endInHeaders, u) :=
    contentLength?_of_holds_blank length hrest List.not_mem_nil (Nat.zero_le _) rfl
  rw [contentLength?_eq, ht]
  simp only
  cases headerLine (stripReturn bs) with
  | blank => exact ⟨_, _, rfl⟩
  | invalid line => exact ⟨_, _, rfl⟩
  | length n =>
    obtain ⟨u, hu⟩ := hend (some n)
    exact ⟨_, u, hu⟩
  | other =>
    obtain ⟨u, hu⟩ := hend none
    exact ⟨_, u, hu⟩

theorem contentLength?_of_holds_lengthLine (hs : s.Holds (lengthLine n ++ newline :: bs))
    (hw : n < Text.wordBound) (hh : (lengthLine n).length ≤ limit) (hn : newline ∉ bs)
    (hl : bs.length ≤ limit) (hb : stripReturn bs = []) :
    ∃ t, contentLength? limit false none s = some (.error endInHeaders, t) := by
  obtain ⟨t, hrest, ht⟩ :=
    contentLength?_of_line false none hs.bytes (newline_notMem_lengthLine n) hh
  obtain ⟨u, hu⟩ := contentLength?_of_holds_blank (some n) (holds_of_whole_eq hs hrest) hn hl hb
  refine ⟨u, ?_⟩
  rw [ht, headerLine_lengthLine hw]
  exact hu

theorem nextBody_of_holds_short (hs : s.Holds bs) (hn : bs.length < n) :
    ∃ t, nextBody n s = some (.error earlyEnd, t) := by
  refine seen_eq_error.mp ?_
  rw [seen_nextBody, Source.holds_iff.mp hs, bodyIn, if_neg (Nat.not_le.mpr hn)]
  rfl

/-- Where the frame of a body can be torn: in the line of the length or right behind it, in the
blank line, in the body. -/
theorem take_frameOf_header (bs : List UInt8) {k : Nat}
    (hk : k < (frameOf .header bs).length) :
    (frameOf .header bs).take k = (lengthLine bs.length).take k ∨
      (∃ v, newline ∉ v ∧ v.length ≤ 1 ∧ stripReturn v = [] ∧
        (frameOf .header bs).take k = lengthLine bs.length ++ newline :: v) ∨
      ∃ c, c.length < bs.length ∧ (frameOf .header bs).take k = headerBytes bs.length ++ c := by
  have hframe : frameOf .header bs = headerBytes bs.length ++ bs := by simp [frameOf, pieces]
  have hlines : frameOf .header bs =
      lengthLine bs.length ++ newline :: carriageReturn :: newline :: bs := by
    rw [hframe, headerBytes_eq, List.append_assoc]
    rfl
  rcases Nat.lt_or_ge (lengthLine bs.length).length k with h | h
  · obtain ⟨j, rfl⟩ : ∃ j, k = (lengthLine bs.length).length + (j + 1) :=
      ⟨k - (lengthLine bs.length).length - 1, by omega⟩
    rcases j with _ | _ | j
    · refine .inr (.inl ⟨[], List.not_mem_nil, Nat.zero_le _, rfl, ?_⟩)
      rw [hlines, List.take_length_add_append]
      rfl
    · refine .inr (.inl ⟨[carriageReturn], by decide, Nat.le_refl _, rfl, ?_⟩)
      rw [hlines, List.take_length_add_append]
      rfl
    · have hlen : (lengthLine bs.length).length + (j + 1 + 1 + 1) =
          (headerBytes bs.length).length + j := by
        simp [headerBytes_eq]
        omega
      rw [hlen, hframe, List.length_append] at hk
      refine .inr (.inr ⟨bs.take j, ?_, ?_⟩)
      · rw [List.length_take]
        omega
      · rw [hlen, hframe, List.take_length_add_append]
  · left
    rw [hlines, List.take_append_of_le_length h]

theorem readHeader_of_holds_take (hs : s.Holds ((frameOf .header bs).take k)) (h0 : 0 < k)
    (hk : k < (frameOf .header bs).length) (hw : limit < Text.wordBound) (hl : bs.length ≤ limit)
    (hh : (lengthLine bs.length).length ≤ limit) :
    ∃ cause t, readHeader limit s = some (.failed cause, t) := by
  have hword := Nat.lt_of_le_of_lt hl hw
  obtain ⟨l, hline⟩ := lengthLine_eq_cons bs.length
  rcases take_frameOf_header bs hk with htake | ⟨v, hn, hv, hb, htake⟩ | ⟨c, hc, htake⟩
  · rw [htake] at hs
    have hnl : newline ∉ (lengthLine bs.length).take k :=
      fun h => newline_notMem_lengthLine _ (List.mem_of_mem_take h)
    have hne : stripReturn ((lengthLine bs.length).take k) ≠ [] := by
      obtain ⟨k, rfl⟩ : ∃ j, k = j + 1 := ⟨k - 1, by omega⟩
      rw [hline, List.take_succ_cons]
      exact stripReturn_ne_nil (by decide) _
    obtain ⟨cause, t, ht⟩ :=
      contentLength?_of_holds_line hs hnl (Nat.le_trans (List.length_take_le' k _) hh) hne
    exact ⟨cause, t, by rw [readHeader, ht]⟩
  · have hpos : 1 ≤ limit := Nat.le_trans (length_lengthLine_pos _) hh
    obtain ⟨t, ht⟩ := contentLength?_of_holds_lengthLine (htake ▸ hs) hword hh hn
      (Nat.le_trans hv hpos) hb
    exact ⟨endInHeaders, t, by rw [readHeader, ht]⟩
  · obtain ⟨t, ht, hrest⟩ := contentLength?_of_holds (htake ▸ hs) hword hh
    obtain ⟨u, hu⟩ := nextBody_of_holds_short hrest hc
    refine ⟨earlyEnd, u, ?_⟩
    rw [readHeader, ht]
    simp only [if_neg (Nat.not_lt.mpr hl), hu]

/-! ### One frame of a stream that breaks off -/

/-- A frame that is whole up to what can be done without is read as it was written. -/
theorem read_frame_take {framing : Framing}
    (hs : s.Holds ((framing.frame e ++ r).take k))
    (hk : (framing.frame e).length ≤ k + framing.spare) (hw : limit < Text.wordBound)
    (hf : framing.Fits limit e) (hi : e.Integral) (he : Envelope.ofBytes e.toBytes = .ok e) :
    ∃ t, read framing limit s = some (.envelope e, t) ∧
      t.Holds (r.take (k - (framing.frame e).length)) := by
  rcases Nat.lt_or_ge k (framing.frame e).length with h | h
  · cases framing with
    | header => exact absurd hk (Nat.not_le.mpr h)
    | line =>
      have hlen : k = e.toBytes.length := by
        simp only [frame_line, List.length_append, List.length_cons, List.length_nil, spare] at h hk
        omega
      have hbytes : (line.frame e ++ r).take k = e.toBytes.take k := by
        rw [frame_line, List.append_assoc, List.take_append_of_le_length (Nat.le_of_eq hlen)]
      have hpos : 0 < k := by
        obtain ⟨bs, hbs⟩ := e.toBytes_eq
        rw [hlen, hbs]
        exact Nat.succ_pos _
      obtain ⟨t, ht, hrest⟩ := readLine_of_holds_take (hbytes ▸ hs) hpos hi hf.1
      refine ⟨t, ?_, ?_⟩
      · rw [read, ht, List.take_of_length_le (Nat.le_of_eq hlen.symm), readingOf, he]
      · rwa [Nat.sub_eq_zero_of_le (Nat.le_of_lt h), List.take_zero]
  · rw [List.take_append, List.take_of_length_le h] at hs
    exact read_frame hs hw hf hi he

/-- Of a torn frame nothing is read but that it is torn. -/
theorem readings_torn {framing : Framing} (hs : s.Holds ((framing.frame e).take k)) (h0 : 0 < k)
    (hk : k + framing.spare < (framing.frame e).length) (hw : limit < Text.wordBound)
    (hf : framing.Fits limit e) (hi : e.Integral) (ht : e.parts.Tidy 125) (hn : 1 < n) :
    framing.Torn (readings framing limit false n s) := by
  obtain ⟨n, rfl⟩ : ∃ j, n = j + 1 + 1 := ⟨n - 2, by omega⟩
  cases framing with
  | line =>
    have hlt : k < e.toBytes.length := by
      simp only [frame_line, List.length_append, List.length_cons, List.length_nil, spare] at hk
      omega
    rw [frame_line, List.take_append_of_le_length (Nat.le_of_lt hlt)] at hs
    obtain ⟨t, hread, hrest⟩ := readLine_of_holds_take hs h0 hi hf.1
    have hmalformed : readingOf (e.toBytes.take k) = .malformed .malformed := by
      rw [readingOf, Envelope.ofBytes_of_toBytes_eq_append ht hi (List.take_append_drop k _).symm]
      intro hdrop
      have := List.drop_eq_nil_iff.mp hdrop
      omega
    have hfirst : read .line limit s = some (.malformed .malformed, t) := hmalformed ▸ hread
    obtain ⟨u, hend⟩ := read_end .line limit hrest
    rw [readings_of_not_isLast hfirst rfl, readings_of_isLast hend rfl]
    exact .line
  | header =>
    obtain ⟨cause, t, hread⟩ := readHeader_of_holds_take hs h0 hk hw hf.1 (hf.2 rfl)
    have hfirst : read .header limit s = some (.failed cause, t) := hread
    rw [readings_of_isLast hfirst rfl]
    exact .header cause

/-! ### All frames of a stream that breaks off -/

/-- The reads take one frame after the other up to the one that is torn; the induction is on the
frames that are left. -/
theorem readings_take {framing : Framing} {es : List Envelope} (hw : limit < Text.wordBound)
    (hf : ∀ e ∈ es, framing.Fits limit e) (hi : ∀ e ∈ es, e.Integral)
    (ht : ∀ e ∈ es, e.parts.Tidy 125) (hs : s.Holds ((es.flatMap framing.frame).take k))
    (hk : k ≤ (es.flatMap framing.frame).length) (hn : es.length < n) :
    framing.CutAt es k (readings framing limit false n s) := by
  induction es generalizing s k n with
  | nil =>
    obtain ⟨n, rfl⟩ : ∃ j, n = j + 1 := ⟨n - 1, by omega⟩
    obtain rfl : k = 0 := Nat.le_zero.mp hk
    obtain ⟨t, hend⟩ := read_end framing limit hs
    rw [readings_of_isLast hend rfl]
    exact cutAt_zero framing []
  | cons e es ih =>
    have he := List.forall_mem_cons.mp hf
    have hie := List.forall_mem_cons.mp hi
    have hte := List.forall_mem_cons.mp ht
    rw [List.flatMap_cons] at hs hk
    rcases Nat.lt_or_ge (k + framing.spare) (framing.frame e).length with hcut | hcut
    · have hle : k ≤ (framing.frame e).length := by omega
      rw [List.take_append_of_le_length hle] at hs
      rcases Nat.eq_zero_or_pos k with rfl | h0
      · obtain ⟨n, rfl⟩ : ∃ j, n = j + 1 := ⟨n - 1, by omega⟩
        obtain ⟨t, hend⟩ := read_end framing limit hs
        rw [readings_of_isLast hend rfl]
        exact cutAt_zero framing (e :: es)
      · have h1 : 1 < n := by
          rw [List.length_cons] at hn
          omega
        exact cutAt_torn h0 hcut (readings_torn hs h0 hcut hw he.1 hie.1 hte.1 h1)
    · obtain ⟨n, rfl⟩ : ∃ j, n = j + 1 := ⟨n - 1, by omega⟩
      obtain ⟨t, hread, hrest⟩ := read_frame_take hs hcut hw he.1 hie.1
        (Envelope.ofBytes_toBytes_of_tidy hte.1 hie.1)
      rw [readings_of_not_isLast hread rfl]
      refine cutAt_cons hcut (ih he.2 hie.2 hte.2 hrest ?_ (Nat.lt_of_succ_lt_succ hn))
      rw [List.length_append] at hk
      omega

/-- Of envelopes that have been written to a stream those are read whose frames are whole where it
breaks off, and no other. The reads come to a clean end if the stream breaks off between two
frames; a torn frame is reported, as a fault of the stream where headers are the frames and as one
malformed line where lines are. -/
theorem readings_cut {framing : Framing} {es : List Envelope} {c : Channel}
    (hparsed : ∀ e ∈ es, ∃ bs, Envelope.ofBytes bs = .ok e) (hi : ∀ e ∈ es, e.Integral)
    (hw : limit < Text.wordBound) (hf : ∀ e ∈ es, framing.Fits limit e)
    (hc : Channel.Written framing .empty es c) (hk : k ≤ c.sent.length)
    (hs : s.Holds (c.sent.take k)) (hn : es.length < n) :
    ∃ m tail, readings framing limit false n s = (es.take m).map .envelope ++ tail ∧
      (m ≤ es.length ∧
        ∀ i < es.length, i < m ↔ framing.boundary es (i + 1) ≤ k + framing.spare) ∧
      (tail = [.ended] ↔ framing.Clean es k) ∧ (¬ framing.Clean es k → framing.Torn tail) := by
  have hsent : c.sent = es.flatMap framing.frame :=
    Channel.sent_of_written (fun _ h => absurd h List.not_mem_nil) hc
  have ht : ∀ e ∈ es, e.parts.Tidy 125 := by
    intro e he
    obtain ⟨bs, hbs⟩ := hparsed e he
    exact Envelope.tidy_of_ofBytes hbs
  rw [hsent] at hk hs
  obtain ⟨m, tail, hrs, hreaches, hended, htorn⟩ := readings_take hw hf hi ht hs hk hn
  exact ⟨m, tail, hrs, ⟨hreaches.le, hreaches.iff⟩, hended, htorn⟩

/-- Two requests of 62 bytes each are written, and the stream breaks off behind 83 bytes, between
the carriage return and the newline of the second header. -/
theorem readings_cut_between :
    ∃ c s, Channel.Written .header .empty [ping, ping] c ∧ s.Holds (c.sent.take 83) ∧
      ∃ cause, readings .header 64 false 3 s = [.envelope ping, .failed cause] := by
  have hframe : (Framing.header.frame ping).length = 62 := by decide +kernel
  have hfirst : header.boundary [ping, ping] 1 = 62 := by simp [hframe]
  have hsecond : header.boundary [ping, ping] 2 = 124 := by simp [hframe]
  have hwritten : Channel.Written .header .empty [ping, ping]
      (Channel.writeAll .header .empty [ping, ping]) := Channel.written_writeAll rfl rfl _
  have hsent : (Channel.writeAll .header .empty [ping, ping]).sent.length = 124 := by
    rw [Channel.sent_of_written (fun _ h => absurd h List.not_mem_nil) hwritten]
    exact hsecond
  have hholds : Source.Holds ⟨[], (Channel.writeAll .header .empty [ping, ping]).sent.take 83, [],
      none, true⟩ ((Channel.writeAll .header .empty [ping, ping]).sent.take 83) := ⟨rfl, rfl, rfl⟩
  obtain ⟨m, tail, hrs, ⟨hle, hreaches⟩, -, htorn⟩ := readings_cut
    (by simpa using ⟨_, ofBytes_ping⟩) (by simpa using integral_ping)
    (show 64 < Text.wordBound by decide) (by simpa using fits_ping) hwritten (by omega) hholds
    (show [ping, ping].length < 3 by decide)
  have hclean : ¬ header.Clean [ping, ping] 83 := by
    rw [clean_iff]
    rintro ⟨i, hi, hb | ⟨hline, -⟩⟩
    · match i with
      | 0 => cases hb
      | 1 => omega
      | 2 => omega
    · cases hline
  have hm : m = 1 := by
    have h0 := hreaches 0 (by decide)
    have h1 := hreaches 1 (by decide)
    rw [hfirst] at h0
    rw [hsecond] at h1
    simp only [spare] at h0 h1
    omega
  subst hm
  refine ⟨_, _, hwritten, hholds, ?_⟩
  cases htorn hclean with
  | header cause => exact ⟨cause, hrs⟩

end Reader

end ContextServer
