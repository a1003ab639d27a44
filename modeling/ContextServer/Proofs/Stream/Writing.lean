import ContextServer.Stream.Writer

/-!
Envelopes written one after the other. In whatever parts the stream takes a frame, it has taken the
whole of it when the writer is done; and a stream that works takes every frame.
-/

namespace ContextServer.Channel

variable {c : Channel} {i : Nat}

theorem run_cons (c : Channel) (m : Move) (ms : List Move) :
    c.run (m :: ms) = (c.step m).bind (run · ms) := rfl

theorem run_append (c : Channel) (ms ns : List Move) :
    c.run (ms ++ ns) = (c.run ms).bind (run · ns) := by
  induction ms generalizing c with
  | nil => rfl
  | cons m ms ih =>
    rw [List.cons_append, run_cons, run_cons]
    cases c.step m with
    | none => rfl
    | some d => exact ih d

/-- The pieces that are offered are accepted one after the other, each of them whole. -/
theorem run_accept (ps : List (List UInt8)) (hb : c.broken = false)
    (hi : c.writes[i]? = some (.sending (offer ps))) :
    c.run ((ps.filter (! ·.isEmpty)).map fun p => .accept i p.length) =
      some { c.set i (.sending []) with sent := c.sent ++ ps.flatten } := by
  induction ps generalizing c with
  | nil =>
    obtain ⟨hlt, hget⟩ := List.getElem?_eq_some_iff.mp hi
    have hset : c.writes.set i (.sending []) = c.writes := by
      rw [← show c.writes[i] = WriteState.sending [] from hget]
      exact List.set_getElem_self hlt
    simp [run, set, hset]
  | cons p ps ih =>
    by_cases hp : p = []
    · subst hp
      exact ih hb hi
    · have hne : p.isEmpty = false := List.isEmpty_eq_false_iff.mpr hp
      have hoffer : offer (p :: ps) = p :: ps := by simp [offer, hne]
      have hlt : i < c.writes.length := (List.getElem?_eq_some_iff.mp hi).1
      rw [hoffer] at hi
      -- after the piece the empty ones behind it are passed over as well
      have hrest : offer ([] :: ps) = offer ps := rfl
      have hstep : c.step (.accept i p.length) =
          some { c.set i (.sending (offer ps)) with sent := c.sent ++ p } := by
        have hpos : 0 < p.length := List.length_pos_iff.mpr hp
        simp [step, hi, hb, hpos, hrest]
      rw [List.filter_cons_of_pos (by simp [hne]), List.map_cons, run_cons, hstep, Option.bind_some,
        ih (by simpa [set] using hb) (by simp [set, hlt])]
      simp [set]

theorem run_aloneMoves (ps : List (List UInt8)) (hb : c.broken = false) (hh : c.holder = none)
    (hi : c.writes[i]? = some (.waiting ps)) :
    c.run (aloneMoves i ps) = some { c.set i .done with sent := c.sent ++ ps.flatten } := by
  have hlt : i < c.writes.length := (List.getElem?_eq_some_iff.mp hi).1
  have hacquire : c.step (.acquire i) =
      some { c.set i (.sending (offer ps)) with holder := some i } := by
    simp [step, hh, hi]
  have haccept := run_accept (c := { c.set i (.sending (offer ps)) with holder := some i })
    (i := i) ps hb (by simp [set, hlt])
  rw [aloneMoves, List.cons_append, run_cons, hacquire, Option.bind_some, run_append, haccept,
    Option.bind_some, run_cons]
  simp [step, set, hlt, hb, hh, run]

theorem run_submit (hb : c.broken = false) (hh : c.holder = none) (frame : List (List UInt8)) :
    (c.submit frame).1.run (aloneMoves c.writes.length frame) =
      some { c with sent := c.sent ++ frame.flatten, writes := c.writes ++ [.done] } := by
  have hrun := run_aloneMoves (c := (c.submit frame).1) (i := c.writes.length) frame hb hh
    (by simp [submit])
  simpa [submit, set] using hrun

/-- The channel after a write that nobody disturbs. -/
theorem write_alone (hb : c.broken = false) (hh : c.holder = none) (frame : List (List UInt8)) :
    c.write frame =
      ({ c with sent := c.sent ++ frame.flatten, writes := c.writes ++ [.done] }, true) := by
  have hrun := run_submit hb hh frame
  simp only [submit] at hrun
  rw [write]
  simp only [submit, hrun]
  rw [if_neg (by rw [hb]; nofun)]

/-- The frame has been written: it was handed over, the stream took it in parts of whatever sizes,
and its writer was told that all of it is on the stream. -/
def Delivered (c : Channel) (frame : List (List UInt8)) (d : Channel) : Prop :=
  ∃ ms, (c.submit frame).1.run ms = some d ∧ d.writes[c.writes.length]? = some .done

/-- Envelopes have been written one after the other, each as one frame. -/
inductive Written (framing : Framing) : Channel → List Envelope → Channel → Prop
  | nil (c : Channel) : Written framing c [] c
  | cons {c d d' : Channel} {e : Envelope} {es : List Envelope}
      (head : c.Delivered (framing.pieces e.toBytes) d) (tail : Written framing d es d') :
      Written framing c (e :: es) d'

/-- How far the write of `frame` has come since `c`, when it is the only one that is not done. What
the stream has taken and what is still pending make up the frame. -/
def Underway (c : Channel) (frame : List (List UInt8)) (d : Channel) : Prop :=
  ∃ w, d.writes = c.writes ++ [w] ∧
    match w with
    | .waiting ps => d.sent = c.sent ∧ ps = frame
    | .sending ps => d.sent ++ ps.flatten = c.sent ++ frame.flatten
    | .done => d.sent = c.sent ++ frame.flatten
    | .failed => True

def Settled (c : Channel) : Prop := ∀ w ∈ c.writes, w = .done

theorem flatten_offer (ps : List (List UInt8)) : (offer ps).flatten = ps.flatten := by
  induction ps with
  | nil => rfl
  | cons p ps ih =>
    cases p with
    | nil => exact ih
    | cons b bs => rfl

theorem underway_submit (c : Channel) (frame : List (List UInt8)) :
    c.Underway frame (c.submit frame).1 :=
  ⟨.waiting frame, rfl, rfl, rfl⟩

/-- Only the write that is not done can be moved. -/
theorem eq_of_getElem? {d : Channel} {v w : WriteState} (hc : c.Settled)
    (hd : d.writes = c.writes ++ [w]) (hi : d.writes[i]? = some v) (hv : v ≠ .done) :
    i = c.writes.length ∧ v = w := by
  rw [hd] at hi
  rcases Nat.lt_trichotomy i c.writes.length with h | rfl | h
  · rw [List.getElem?_append_left h] at hi
    exact absurd (hc v (List.mem_of_getElem? hi)) hv
  · simp at hi
    exact ⟨rfl, hi.symm⟩
  · rw [List.getElem?_eq_none (by simp; omega)] at hi
    cases hi

theorem writes_set {d : Channel} {w : WriteState} (hd : d.writes = c.writes ++ [w])
    (v : WriteState) : (d.set c.writes.length v).writes = c.writes ++ [v] := by
  simp [set, hd]

theorem underway_step {d d' : Channel} {frame : List (List UInt8)} {m : Move} (hc : c.Settled)
    (hu : c.Underway frame d) (hs : d.step m = some d') : c.Underway frame d' := by
  obtain ⟨w, hd, hw⟩ := hu
  cases m with
  | acquire i =>
    simp only [step] at hs
    split at hs
    · rename_i ps hh hi
      obtain ⟨rfl, rfl⟩ := eq_of_getElem? hc hd hi nofun
      cases hs
      refine ⟨_, writes_set hd _, ?_⟩
      simp only [flatten_offer, hw.2]
      exact congrArg (· ++ frame.flatten) hw.1
    · cases hs
  | accept i n =>
    simp only [step] at hs
    split at hs
    · rename_i p ps hi
      obtain ⟨rfl, rfl⟩ := eq_of_getElem? hc hd hi nofun
      split at hs
      · cases hs
        refine ⟨_, writes_set hd _, ?_⟩
        simp only [flatten_offer, List.flatten_cons] at hw ⊢
        -- the part that is taken moves from the front of the pending bytes to the stream
        rw [← hw, List.append_assoc, ← List.append_assoc (p.take n), List.take_append_drop]
      · cases hs
    · cases hs
  | finish i =>
    simp only [step] at hs
    split at hs
    · rename_i hi
      obtain ⟨rfl, rfl⟩ := eq_of_getElem? hc hd hi nofun
      split at hs
      · cases hs
      · cases hs
        exact ⟨_, writes_set hd _, by simpa [set] using hw⟩
    · cases hs
  | refuse i =>
    simp only [step] at hs
    split at hs
    · rename_i hi
      obtain ⟨rfl, rfl⟩ := eq_of_getElem? hc hd hi nofun
      split at hs
      · cases hs
        exact ⟨_, writes_set hd _, trivial⟩
      · cases hs
    · cases hs
  | snap =>
    cases hs
    exact ⟨w, hd, hw⟩

theorem underway_run {d d' : Channel} {frame : List (List UInt8)} {ms : List Move}
    (hc : c.Settled) (hu : c.Underway frame d) (hr : d.run ms = some d') :
    c.Underway frame d' := by
  induction ms generalizing d with
  | nil => exact Option.some_inj.mp hr ▸ hu
  | cons m ms ih =>
    obtain ⟨b, hb, hr⟩ := Option.bind_eq_some_iff.mp hr
    exact ih (underway_step hc hu hb) hr

/-- In whatever parts a frame is taken, it is on the stream when its writer is done. -/
theorem sent_of_delivered {d : Channel} {frame : List (List UInt8)} (hc : c.Settled)
    (h : c.Delivered frame d) : d.sent = c.sent ++ frame.flatten ∧ d.Settled := by
  obtain ⟨ms, hr, hdone⟩ := h
  obtain ⟨w, hd, hw⟩ := underway_run hc (underway_submit c frame) hr
  obtain rfl : w = .done := by simpa [hd] using hdone
  refine ⟨hw, ?_⟩
  intro v hv
  rw [hd, List.mem_append, List.mem_singleton] at hv
  exact hv.elim (hc v) id

/-- The stream holds the frames of the envelopes in order, and nothing else. -/
theorem sent_of_written {framing : Framing} {es : List Envelope} {d : Channel} (hc : c.Settled)
    (h : Written framing c es d) : d.sent = c.sent ++ es.flatMap framing.frame := by
  induction h with
  | nil => simp
  | cons head tail ih =>
    obtain ⟨hsent, hsettled⟩ := sent_of_delivered hc head
    rw [ih hsettled, hsent, List.flatMap_cons, List.append_assoc]
    rfl

/-- Writes envelopes with nobody else at the stream. -/
def writeAll (framing : Framing) (c : Channel) (es : List Envelope) : Channel :=
  es.foldl (fun c e => (c.write (framing.pieces e.toBytes)).1) c

theorem delivered_write (hb : c.broken = false) (hh : c.holder = none)
    (frame : List (List UInt8)) : c.Delivered frame (c.write frame).1 := by
  rw [write_alone hb hh]
  exact ⟨aloneMoves c.writes.length frame, run_submit hb hh frame, by simp⟩

/-- A stream that works takes all that is written. -/
theorem written_writeAll {framing : Framing} (hb : c.broken = false) (hh : c.holder = none)
    (es : List Envelope) : Written framing c es (c.writeAll framing es) := by
  induction es generalizing c with
  | nil => exact .nil c
  | cons e es ih =>
    have hw := write_alone hb hh (framing.pieces e.toBytes)
    exact .cons (delivered_write hb hh _) (ih (by rw [hw]; exact hb) (by rw [hw]; exact hh))

end ContextServer.Channel
