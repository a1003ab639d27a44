import Mathlib.Algebra.Ring.Nat
import Mathlib.Data.List.Nodup
import ContextServer.Proofs.Stream.Writing

/-!
Writers that share a stream. Each of them takes the lock once, and what the stream takes of its
frame it takes while the writer holds the lock. So the stream holds, in the order of the turns, what
it has taken in each turn (`Shared.sent`); and since nothing is taken in a turn before the frames of
all earlier turns are complete (`Shared.ordered`), that is whole frames and at most one that is not.
The invariant is kept by every move, so all this holds of every interleaving (`serial_of_run`).
-/

namespace ContextServer.Channel

/-- A channel to which the frames have been submitted, each by a writer of its own. -/
def offered (frames : List (List (List UInt8))) : Channel :=
  { empty with writes := frames.map .waiting }

namespace Move

/-- The writer whose turn a move begins. -/
def turn? : Move → Option Nat
  | acquire i => some i
  | _ => none

/-- How many bytes of writer `i` the stream takes. -/
def taken (i : Nat) : Move → Nat
  | accept j n => if j = i then n else 0
  | _ => 0

end Move

/-- The writers in the order in which they have taken the lock. -/
def turns (ms : List Move) : List Nat := ms.filterMap Move.turn?

/-- How many bytes of writer `i` the stream has taken. -/
def taken (i : Nat) (ms : List Move) : Nat := (ms.map (Move.taken i)).sum

/-- The bytes that writer `i` has to get through. -/
def frameAt (frames : List (List (List UInt8))) (i : Nat) : List UInt8 :=
  (frames[i]?.getD []).flatten

/-- Whether all bytes of writer `i` have been taken. -/
def isThrough (frames : List (List (List UInt8))) (ms : List Move) (i : Nat) : Bool :=
  taken i ms == (frameAt frames i).length

variable {frames : List (List (List UInt8))} {ms : List Move} {m : Move} {c d : Channel} {i j : Nat}

theorem turns_append (ms ns : List Move) : turns (ms ++ ns) = turns ms ++ turns ns :=
  List.filterMap_append

theorem turns_concat (h : m.turn? = none) (ms : List Move) : turns (ms ++ [m]) = turns ms := by
  rw [turns_append, show turns [m] = [] by simp [turns, h], List.append_nil]

theorem taken_concat (i : Nat) (ms : List Move) (m : Move) :
    taken i (ms ++ [m]) = taken i ms + m.taken i := by
  simp [taken]

theorem taken_concat_of_zero (h : m.taken i = 0) (ms : List Move) :
    taken i (ms ++ [m]) = taken i ms := by
  rw [taken_concat, h, Nat.add_zero]

/-- How far writer `i` has come after the moves `ms`, by its state. -/
def Stands (frames : List (List (List UInt8))) (ms : List Move) (c : Channel) (i : Nat) :
    WriteState → Prop
  | .waiting ps => frames[i]? = some ps ∧ i ∉ turns ms ∧ taken i ms = 0
  | .sending ps => c.holder = some i ∧ i ∈ turns ms ∧ taken i ms ≤ (frameAt frames i).length ∧
      (frameAt frames i).drop (taken i ms) = ps.flatten
  | .done => i ∈ turns ms ∧ isThrough frames ms i = true
  | .failed => i ∈ turns ms ∧ taken i ms ≤ (frameAt frames i).length ∧ c.broken = true

/-- What holds of a channel with these frames after the moves `ms`. -/
structure Shared (frames : List (List (List UInt8))) (ms : List Move) (c : Channel) : Prop where
  stands : ∀ i w, c.writes[i]? = some w → Stands frames ms c i w
  length : c.writes.length = frames.length
  known : ∀ i ∈ turns ms, i < frames.length
  nodup : (turns ms).Nodup
  sent : c.sent = (turns ms).flatMap fun i => (frameAt frames i).take (taken i ms)
  /-- While the stream works, every turn but that of the holder has come to its end. -/
  settled : c.broken = false →
    ∃ before, turns ms = before ++ c.holder.toList ∧ ∀ i ∈ before, isThrough frames ms i = true
  /-- Nothing is taken in a turn before the earlier ones are through. -/
  ordered : (turns ms).Pairwise fun i j => isThrough frames ms i = true ∨ taken j ms = 0

theorem shared_offered (frames : List (List (List UInt8))) : Shared frames [] (offered frames) where
  stands i w h := by
    rw [offered, List.getElem?_map, Option.map_eq_some_iff] at h
    obtain ⟨ps, hps, rfl⟩ := h
    exact ⟨hps, List.not_mem_nil, rfl⟩
  length := by simp [offered]
  known := nofun
  nodup := .nil
  sent := rfl
  settled _ := ⟨[], rfl, nofun⟩
  ordered := .nil

/-! ### One move -/

/-- The write of a channel after one of its writes has moved. -/
theorem getElem?_set {w v : WriteState} (h : (c.set i w).writes[j]? = some v) :
    (j = i ∧ v = w) ∨ (j ≠ i ∧ c.writes[j]? = some v) := by
  by_cases hj : j = i
  · subst hj
    rw [set, List.getElem?_set_self (by simpa [set] using (List.getElem?_eq_some_iff.mp h).1)] at h
    exact .inl ⟨rfl, (Option.some_inj.mp h).symm⟩
  · rw [set, List.getElem?_set_ne (Ne.symm hj)] at h
    exact .inr ⟨hj, h⟩

theorem isThrough_congr {ns : List Move} (h : taken i ns = taken i ms) :
    isThrough frames ns i = isThrough frames ms i := by
  rw [isThrough, isThrough, h]

/-- A writer that a move does not concern stands where it stood. -/
theorem Stands.aside {w : WriteState} (h : Stands frames ms c i w)
    (hturns : ∀ k, m.turn? = some k → k ≠ i) (htaken : m.taken i = 0)
    (hholder : c.holder = some i → d.holder = some i)
    (hbroken : c.broken = true → d.broken = true) : Stands frames (ms ++ [m]) d i w := by
  have hmem : i ∈ turns (ms ++ [m]) ↔ i ∈ turns ms := by
    rw [turns_append, List.mem_append, or_iff_left]
    intro hi
    simp only [turns, List.mem_filterMap, List.mem_singleton] at hi
    obtain ⟨_, rfl, hi⟩ := hi
    exact hturns i hi rfl
  have hk := taken_concat_of_zero htaken ms
  cases w with
  | waiting ps => exact ⟨h.1, hmem.not.mpr h.2.1, hk.trans h.2.2⟩
  | sending ps => exact ⟨hholder h.1, hmem.mpr h.2.1, hk ▸ h.2.2.1, hk ▸ h.2.2.2⟩
  | done => exact ⟨hmem.mpr h.1, (isThrough_congr hk).trans h.2⟩
  | failed => exact ⟨hmem.mpr h.1, hk ▸ h.2.1, hbroken h.2.2⟩

/-- The holder of the lock is the only writer that is sending. -/
theorem Shared.eq_of_sending {ps : List (List UInt8)} (hs : Shared frames ms c)
    (hi : c.writes[i]? = some (.sending ps)) (hj : c.holder = some j) : j = i :=
  Option.some_inj.mp (hj.symm.trans (hs.stands i _ hi).1)

/-- What a move that takes nothing and begins no turn has to keep. -/
theorem Shared.aside (hs : Shared frames ms c) (hturn : m.turn? = none)
    (htaken : ∀ i, m.taken i = 0) (hsent : d.sent = c.sent)
    (hlength : d.writes.length = c.writes.length)
    (hstands : ∀ i w, d.writes[i]? = some w → Stands frames (ms ++ [m]) d i w)
    (hsettled : d.broken = false → ∃ before, turns ms = before ++ d.holder.toList ∧
      ∀ i ∈ before, isThrough frames ms i = true) : Shared frames (ms ++ [m]) d where
  stands := hstands
  length := hlength.trans hs.length
  known := by rw [turns_concat hturn]; exact hs.known
  nodup := by rw [turns_concat hturn]; exact hs.nodup
  sent := by
    rw [turns_concat hturn, hsent, hs.sent]
    simp only [taken_concat_of_zero (htaken _)]
  settled hb := by
    rw [turns_concat hturn]
    simpa only [isThrough, taken_concat_of_zero (htaken _)] using hsettled hb
  ordered := by
    rw [turns_concat hturn]
    simpa only [isThrough, taken_concat_of_zero (htaken _)] using hs.ordered

theorem shared_acquire {ps : List (List UInt8)} (hs : Shared frames ms c) (hh : c.holder = none)
    (hi : c.writes[i]? = some (.waiting ps)) :
    Shared frames (ms ++ [.acquire i]) { c.set i (.sending (offer ps)) with holder := some i } := by
  obtain ⟨hframe, hnot, hzero⟩ := hs.stands i _ hi
  have hturns : turns (ms ++ [.acquire i]) = turns ms ++ [i] := turns_append ms _
  have hk (j : Nat) : taken j (ms ++ [.acquire i]) = taken j ms := taken_concat_of_zero rfl ms
  have hlt : i < frames.length := (List.getElem?_eq_some_iff.mp hframe).1
  constructor
  · intro j w hj
    rcases getElem?_set hj with ⟨rfl, rfl⟩ | ⟨hne, hj⟩
    · refine ⟨rfl, by simp [hturns], by rw [hk, hzero]; exact Nat.zero_le _, ?_⟩
      rw [hk, hzero, List.drop_zero, flatten_offer, frameAt, hframe, Option.getD_some]
    · refine (hs.stands j w hj).aside (fun k hk => ?_) rfl (fun h => ?_) id
      · cases hk
        exact hne.symm
      · rw [hh] at h
        cases h
  · simpa [set] using hs.length
  · intro j hj
    rw [hturns, List.mem_append, List.mem_singleton] at hj
    rcases hj with hj | rfl
    · exact hs.known j hj
    · exact hlt
  · rw [hturns]
    exact hs.nodup.append (List.nodup_singleton i) (by simpa using hnot)
  · simp only [hturns, hk, List.flatMap_append, List.flatMap_singleton, hzero, List.take_zero,
      List.append_nil]
    exact hs.sent
  · intro hb
    obtain ⟨before, hbefore, hall⟩ := hs.settled hb
    rw [hh, Option.toList_none, List.append_nil] at hbefore
    exact ⟨before, by rw [hturns, hbefore]; rfl, by simpa only [isThrough, hk] using hall⟩
  · rw [hturns, List.pairwise_append]
    refine ⟨by simpa only [isThrough, hk] using hs.ordered, List.pairwise_singleton _ _, ?_⟩
    intro j _ k hk'
    rw [List.mem_singleton] at hk'
    exact .inr (by rw [hk, hk', hzero])

theorem shared_accept {p : List UInt8} {ps : List (List UInt8)} {n : Nat}
    (hs : Shared frames ms c) (hi : c.writes[i]? = some (.sending (p :: ps)))
    (hb : c.broken = false) (hn : n ≤ p.length) :
    Shared frames (ms ++ [.accept i n])
      { c.set i (.sending (offer (p.drop n :: ps))) with sent := c.sent ++ p.take n } := by
  obtain ⟨hholder, hmem, hle, hrest⟩ := hs.stands i _ hi
  obtain ⟨before, hbefore, hall⟩ := hs.settled hb
  rw [hholder, Option.toList_some] at hbefore
  have hturns : turns (ms ++ [.accept i n]) = turns ms := turns_concat rfl ms
  have hki : taken i (ms ++ [.accept i n]) = taken i ms + n := by simp [taken_concat, Move.taken]
  have hkj {j : Nat} (hj : j ≠ i) : taken j (ms ++ [.accept i n]) = taken j ms :=
    taken_concat_of_zero (by simp [Move.taken, hj.symm]) ms
  have hnot : ∀ j ∈ before, j ≠ i := by
    have := hs.nodup
    rw [hbefore] at this
    rintro j hj rfl
    exact (List.disjoint_of_nodup_append this) hj (List.mem_singleton_self _)
  have hthrough : ∀ j ∈ before, isThrough frames (ms ++ [.accept i n]) j = true := fun j hj => by
    rw [isThrough_congr (hkj (hnot j hj))]
    exact hall j hj
  -- what is left of the frame begins with the piece that is offered
  have hlen : (p :: ps).flatten.length = (frameAt frames i).length - taken i ms := by
    rw [← hrest, List.length_drop]
  rw [List.flatten_cons, List.length_append] at hlen
  constructor
  · intro j w hj
    rcases getElem?_set hj with ⟨rfl, rfl⟩ | ⟨hne, hj⟩
    · refine ⟨hholder, hturns ▸ hmem, by rw [hki]; omega, ?_⟩
      rw [hki, ← List.drop_drop, hrest, flatten_offer, List.flatten_cons, List.flatten_cons,
        List.drop_append_of_le_length hn]
    · exact (hs.stands j w hj).aside nofun (by simp [Move.taken, hne.symm]) id id
  · simpa [set] using hs.length
  · rw [hturns]
    exact hs.known
  · rw [hturns]
    exact hs.nodup
  · have hearlier : (before.flatMap fun j => (frameAt frames j).take (taken j ms)) =
        before.flatMap fun j => (frameAt frames j).take (taken j (ms ++ [.accept i n])) :=
      List.flatMap_congr fun j hj => by rw [hkj (hnot j hj)]
    have hpiece : ((frameAt frames i).drop (taken i ms)).take n = p.take n := by
      rw [hrest, List.flatten_cons, List.take_append_of_le_length hn]
    rw [hturns, hbefore, List.flatMap_append, List.flatMap_singleton, hki, List.take_add, hpiece,
      ← hearlier, ← List.append_assoc]
    refine congrArg (· ++ p.take n) ?_
    rw [hs.sent, hbefore, List.flatMap_append, List.flatMap_singleton]
  · intro _
    exact ⟨before, by rw [hturns, hbefore]; simp [set, hholder], hthrough⟩
  · rw [hturns, hbefore, List.pairwise_append]
    refine ⟨?_, List.pairwise_singleton _ _, fun j hj _ _ => .inl (hthrough j hj)⟩
    exact List.pairwise_of_forall_mem_list fun j hj k _ => .inl (hthrough j hj)

theorem shared_finish (hs : Shared frames ms c) (hi : c.writes[i]? = some (.sending [])) :
    Shared frames (ms ++ [.finish i]) { c.set i .done with holder := none } := by
  obtain ⟨hholder, hmem, hle, hrest⟩ := hs.stands i _ hi
  have hthrough : isThrough frames ms i = true := by
    rw [List.flatten_nil, List.drop_eq_nil_iff] at hrest
    exact beq_iff_eq.mpr (Nat.le_antisymm hle hrest)
  refine hs.aside rfl (fun _ => rfl) rfl (by simp [set]) ?_ ?_
  · intro j w hj
    rcases getElem?_set hj with ⟨rfl, rfl⟩ | ⟨hne, hj⟩
    · exact ⟨by rwa [turns_concat rfl],
        (isThrough_congr (taken_concat_of_zero rfl ms)).trans hthrough⟩
    · refine (hs.stands j w hj).aside (by simp [Move.turn?]) rfl (fun h => ?_) id
      exact absurd (hs.eq_of_sending hi h) hne
  · intro hb
    obtain ⟨before, hbefore, hall⟩ := hs.settled hb
    rw [hholder, Option.toList_some] at hbefore
    refine ⟨before ++ [i], by simpa using hbefore, ?_⟩
    intro j hj
    rw [List.mem_append, List.mem_singleton] at hj
    rcases hj with hj | rfl
    · exact hall j hj
    · exact hthrough

theorem shared_refuse {ps : List (List UInt8)} (hs : Shared frames ms c)
    (hi : c.writes[i]? = some (.sending ps)) (hb : c.broken = true) :
    Shared frames (ms ++ [.refuse i]) { c.set i .failed with holder := none } := by
  obtain ⟨hholder, hmem, hle, -⟩ := hs.stands i _ hi
  refine hs.aside rfl (fun _ => rfl) rfl (by simp [set]) ?_ ?_
  · intro j w hj
    rcases getElem?_set hj with ⟨rfl, rfl⟩ | ⟨hne, hj⟩
    · exact ⟨by rwa [turns_concat rfl], by rwa [taken_concat_of_zero rfl], hb⟩
    · refine (hs.stands j w hj).aside (by simp [Move.turn?]) rfl (fun h => ?_) id
      exact absurd (hs.eq_of_sending hi h) hne
  · intro h
    rw [show c.broken = false from h] at hb
    cases hb

theorem shared_snap (hs : Shared frames ms c) :
    Shared frames (ms ++ [.snap]) { c with broken := true } :=
  hs.aside rfl (fun _ => rfl) rfl rfl
    (fun i w hi => (hs.stands i w hi).aside nofun rfl id fun _ => rfl) nofun

theorem shared_step (hs : Shared frames ms c) (h : c.step m = some d) :
    Shared frames (ms ++ [m]) d := by
  cases m with
  | acquire i =>
    simp only [step] at h
    split at h
    · rename_i ps hh hi
      cases h
      exact shared_acquire hs hh hi
    · cases h
  | accept i n =>
    simp only [step] at h
    split at h
    · rename_i p ps hi
      split at h
      · rename_i hn
        cases h
        exact shared_accept hs hi hn.1 hn.2.2
      · cases h
    · cases h
  | finish i =>
    simp only [step] at h
    split at h
    · rename_i hi
      split at h
      · cases h
      · cases h
        exact shared_finish hs hi
    · cases h
  | refuse i =>
    simp only [step] at h
    split at h
    · rename_i ps hi
      split at h
      · rename_i hb
        cases h
        exact shared_refuse hs hi hb
      · cases h
    · cases h
  | snap =>
    cases h
    exact shared_snap hs

/-! ### Every interleaving -/

theorem shared_run {ns : List Move} (hs : Shared frames ms c) (h : c.run ns = some d) :
    Shared frames (ms ++ ns) d := by
  induction ns generalizing ms c with
  | nil => exact Option.some_inj.mp h ▸ (List.append_nil ms).symm ▸ hs
  | cons m ns ih =>
    obtain ⟨b, hb, h⟩ := Option.bind_eq_some_iff.mp h
    rw [List.append_cons]
    exact ih (shared_step hs hb) h

/-- The writers whose bytes have all been taken, in the order of their turns. -/
def through (frames : List (List (List UInt8))) (ms : List Move) : List Nat :=
  (turns ms).filter (isThrough frames ms)

/-- What is taken in turns that keep their order is whole frames and a part of one more. -/
theorem exists_part {is : List Nat}
    (h : is.Pairwise fun i j => isThrough frames ms i = true ∨ taken j ms = 0) :
    ∃ part, (is.flatMap fun i => (frameAt frames i).take (taken i ms)) =
        (is.filter (isThrough frames ms)).flatMap (frameAt frames) ++ part ∧
      (part ≠ [] → ∃ i ∈ is, isThrough frames ms i = false ∧
        part = (frameAt frames i).take (taken i ms)) := by
  induction is with
  | nil => exact ⟨[], rfl, fun h => absurd rfl h⟩
  | cons i is ih =>
    obtain ⟨hi, his⟩ := List.pairwise_cons.mp h
    rw [List.flatMap_cons, List.filter_cons]
    cases ht : isThrough frames ms i with
    | true =>
      obtain ⟨part, heq, hpart⟩ := ih his
      have hwhole : (frameAt frames i).take (taken i ms) = frameAt frames i :=
        List.take_of_length_le (Nat.le_of_eq (beq_iff_eq.mp ht).symm)
      refine ⟨part, by rw [heq, hwhole, if_pos rfl, List.flatMap_cons, List.append_assoc], ?_⟩
      intro hne
      obtain ⟨j, hj, hpart⟩ := hpart hne
      exact ⟨j, List.mem_cons_of_mem i hj, hpart⟩
    | false =>
      have hzero (j : Nat) (hj : j ∈ is) : taken j ms = 0 :=
        (hi j hj).resolve_left (by rw [ht]; exact Bool.false_ne_true)
      have hnone : (is.flatMap fun j => (frameAt frames j).take (taken j ms)) = [] :=
        List.flatMap_eq_nil_iff.mpr fun j hj => by rw [hzero j hj, List.take_zero]
      -- behind it only a writer with nothing to send can be through
      have hempty : (is.filter (isThrough frames ms)).flatMap (frameAt frames) = [] := by
        refine List.flatMap_eq_nil_iff.mpr fun j hj => ?_
        obtain ⟨hj, hthrough⟩ := List.mem_filter.mp hj
        have hlen := beq_iff_eq.mp hthrough
        rw [hzero j hj] at hlen
        exact List.length_eq_zero_iff.mp hlen.symm
      refine ⟨(frameAt frames i).take (taken i ms), ?_, fun _ => ⟨i, by simp, ht, rfl⟩⟩
      rw [hnone, if_neg Bool.false_ne_true, hempty, List.append_nil, List.nil_append]

/-- A writer that has had its turn and is not through holds the lock or has failed, and the stream
lacks some of its bytes. -/
theorem Shared.unfinished (hs : Shared frames ms c) (hi : i ∈ turns ms)
    (ht : isThrough frames ms i = false) :
    taken i ms < (frameAt frames i).length ∧
      (c.holder = some i ∨ c.writes[i]? = some .failed) := by
  have hne : taken i ms ≠ (frameAt frames i).length := beq_eq_false_iff_ne.mp ht
  have hlt : i < c.writes.length := hs.length ▸ hs.known i hi
  have hw : c.writes[i]? = some c.writes[i] := List.getElem?_eq_getElem hlt
  have hstands := hs.stands i _ hw
  cases h : c.writes[i] with
  | waiting ps =>
    rw [h] at hstands
    exact absurd hi hstands.2.1
  | sending ps =>
    rw [h] at hstands
    exact ⟨Nat.lt_of_le_of_ne hstands.2.2.1 hne, .inl hstands.1⟩
  | done =>
    rw [h] at hstands
    rw [hstands.2] at ht
    cases ht
  | failed =>
    rw [h] at hstands hw
    exact ⟨Nat.lt_of_le_of_ne hstands.2.1 hne, .inr hw⟩

/-- The pieces of the frames of some envelopes. -/
def framesOf (framing : Framing) (es : List Envelope) : List (List (List UInt8)) :=
  es.map fun e => framing.pieces e.toBytes

theorem frameAt_framesOf (framing : Framing) (es : List Envelope) (i : Nat) :
    frameAt (framesOf framing es) i = (es[i]?.map framing.frame).getD [] := by
  rw [frameAt, framesOf, List.getElem?_map]
  cases es[i]? <;> rfl

theorem flatMap_frameAt (framing : Framing) (es : List Envelope) (is : List Nat) :
    is.flatMap (frameAt (framesOf framing es)) =
      (is.filterMap (es[·]?)).flatMap framing.frame := by
  induction is with
  | nil => rfl
  | cons i is ih =>
    rw [List.flatMap_cons, ih, frameAt_framesOf, List.filterMap_cons]
    cases es[i]? <;> rfl

/-- The stream as it is after the moves `ms` of writers of the envelopes `es`. -/
structure Serial (framing : Framing) (es : List Envelope) (ms : List Move) (c : Channel) :
    Prop where
  /-- Every writer takes the lock once at most. -/
  once : (turns ms).Nodup
  /-- The stream holds the frames that have been taken whole, and a part of one more at most. -/
  sent : ∃ part, c.sent =
      ((through (framesOf framing es) ms).filterMap (es[·]?)).flatMap framing.frame ++ part ∧
    (part ≠ [] → ∃ i e, es[i]? = some e ∧ part <+: framing.frame e ∧ part ≠ framing.frame e ∧
      (c.holder = some i ∨ c.writes[i]? = some .failed))
  /-- What a writer has been told is written is on the stream, once. -/
  done : ∀ i, c.writes[i]? = some .done → (through (framesOf framing es) ms).count i = 1

/-- Frames never interleave, however the writers take turns, in whatever parts the stream takes
what it is offered, and whenever it breaks. -/
theorem serial_of_run {framing : Framing} {es : List Envelope}
    (h : (offered (framesOf framing es)).run ms = some c) : Serial framing es ms c := by
  have hs : Shared (framesOf framing es) ms c := shared_run (shared_offered _) h
  refine ⟨hs.nodup, ?_, ?_⟩
  · obtain ⟨part, heq, hpart⟩ := exists_part hs.ordered
    refine ⟨part, by rw [hs.sent, heq, ← flatMap_frameAt]; rfl, fun hne => ?_⟩
    obtain ⟨i, hi, ht, rfl⟩ := hpart hne
    have hlt : i < es.length := by simpa [framesOf] using hs.known i hi
    have hframe : frameAt (framesOf framing es) i = framing.frame es[i] := by
      rw [frameAt_framesOf, List.getElem?_eq_getElem hlt]
      rfl
    obtain ⟨hlack, hstate⟩ := hs.unfinished hi ht
    rw [hframe] at hlack ⊢
    refine ⟨i, es[i], List.getElem?_eq_getElem hlt, List.take_prefix _ _, fun heq => ?_, hstate⟩
    have hlength := congrArg List.length heq
    rw [List.length_take] at hlength
    omega
  · intro i hi
    obtain ⟨hmem, ht⟩ := hs.stands i _ hi
    exact List.count_eq_one_of_mem (hs.nodup.filter _) (List.mem_filter.mpr ⟨hmem, ht⟩)

def note : Envelope := .notification "ping" none

/-- Of three writers the second is the first to take the lock. The stream takes its frame in parts,
and breaks when it has taken five bytes of the next one. -/
def tornMoves : List Move :=
  [.acquire 1, .accept 1 7, .accept 1 15, .accept 1 33, .finish 1, .acquire 0, .accept 0 5, .snap,
    .refuse 0, .acquire 2, .refuse 2]

theorem serial_of_run_tornMoves :
    ∃ c, (offered (framesOf .header [note, note, note])).run tornMoves = some c ∧
      c.writes = [.failed, .done, .failed] ∧ c.sent.length = 60 ∧
      Serial .header [note, note, note] tornMoves c := by
  have hrun : ((offered (framesOf .header [note, note, note])).run tornMoves).any
      (fun c => c.writes == [.failed, .done, .failed] && c.sent.length == 60) = true := by
    decide +kernel
  obtain ⟨c, h, hc⟩ := (Option.any_eq_true _ _).mp hrun
  rw [Bool.and_eq_true, beq_iff_eq, beq_iff_eq] at hc
  exact ⟨c, h, hc.1, hc.2, serial_of_run h⟩

end ContextServer.Channel
