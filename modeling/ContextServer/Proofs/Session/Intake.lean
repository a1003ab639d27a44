import ContextServer.Proofs.Session.Cancellation

/-!
What the loop takes in. The envelopes that have been read are those for which a handler has been
started, in order, and behind them the one that the loop has at hand (`intake_of_run`). After a
request to stop the loop reads only if a read was under way (`reads_of_run`). Together: nothing
but the item at hand is processed any more.
-/

namespace ContextServer

def Effect.started? : Effect → Option Envelope
  | started e => some e
  | _ => none

def Reading.envelope? : Reading → Option Envelope
  | envelope e => some e
  | _ => none

namespace Loop

/-- The envelope that has been read and that no handler has taken over. -/
def atHand : Loop → List Envelope
  | holding e | starting e => [e]
  | _ => []

/-- The reads that the loop still makes after a request to stop. -/
def readsLeft : Loop → Nat
  | reading => 1
  | _ => 0

/-- What is left of the envelopes that have been read when the loop stands at `l`. A loop that has
been given up leaves what it had at hand. -/
def Leaves (l : Loop) (rest : List Envelope) : Prop :=
  rest = l.atHand ∨ (l = dropped ∧ rest.length ≤ 1)

theorem length_atHand_le (l : Loop) : l.atHand.length ≤ 1 := by
  cases l <;> simp [atHand]

theorem readsLeft_le (l : Loop) : l.readsLeft ≤ 1 := by
  cases l <;> simp [readsLeft]

theorem readsLeft_eq_one {l : Loop} (h : 0 < l.readsLeft) : l = reading := by
  cases l with
  | reading => rfl
  | _ => cases h

/-- The loop has nothing at hand while it reads. -/
theorem length_atHand_add_readsLeft_le (l : Loop) : l.atHand.length + l.readsLeft ≤ 1 := by
  cases l <;> simp [atHand, readsLeft]

theorem Leaves.length_le {l : Loop} {rest : List Envelope} (h : l.Leaves rest) :
    rest.length ≤ 1 := by
  rcases h with rfl | ⟨-, h⟩
  · exact length_atHand_le l
  · exact h

theorem Leaves.eq {l : Loop} {rest : List Envelope} (h : l.Leaves rest) (hl : l ≠ dropped) :
    rest = l.atHand := h.resolve_right fun hd => hl hd.1

end Loop

namespace Session

/-- The envelopes for which handlers have been started, in order. -/
def started (es : List Effect) : List Envelope := es.filterMap Effect.started?

/-- The envelopes among the readings. -/
def envelopes (rs : List Reading) : List Envelope := rs.filterMap Reading.envelope?

theorem started_append (es fs : List Effect) : started (es ++ fs) = started es ++ started fs :=
  List.filterMap_append

theorem envelopes_append (rs qs : List Reading) :
    envelopes (rs ++ qs) = envelopes rs ++ envelopes qs := List.filterMap_append

theorem length_envelopes_le (rs : List Reading) : (envelopes rs).length ≤ rs.length :=
  List.length_filterMap_le _ rs

theorem started_of_isHandlers {fs : List Effect} (h : ∀ x ∈ fs, x.isHandlers = true) :
    started fs = [] := by
  refine List.filterMap_eq_nil_iff.mpr fun x hx => ?_
  have := h x hx
  cases x <;> simp_all [Effect.isHandlers, Effect.started?]

theorem started_write (s : Session) (e : Envelope) : started [s.write e] = [] :=
  started_of_isHandlers (by simp [isHandlers_write])

/-! ### What is read is started or at hand -/

theorem atHand_afterReading (r : Reading) : (afterReading r).atHand = envelopes [r] := by
  cases r with
  | malformed cause =>
    simp only [afterReading]
    split <;> rfl
  | _ => rfl

/-- A step of the loop takes a reading in, hands an envelope over, or does neither. -/
theorem LoopStep.intake {c : Setup} {s t : Session} {fs : List Effect} (h : LoopStep c s fs t) :
    s.loop.atHand ++ envelopes (reads fs) = started fs ++ t.loop.atHand := by
  cases h with
  | @read r rest hl =>
    show s.loop.atHand ++ envelopes [r] = [] ++ (afterReading r).atHand
    rw [hl, atHand_afterReading]
    rfl
  | @reject reply hl =>
    rw [reads_write, started_write, hl]
    rfl
  | stop hl | resume hl | grant hl | spawn hl | pass hl | close hl | mark hl =>
    rw [hl]
    rfl
  | wait hl => exact List.append_nil _

theorem LoopStep.ne_dropped {c : Setup} {s t : Session} {fs : List Effect}
    (h : LoopStep c s fs t) : s.loop ≠ .dropped := by
  intro hd
  cases h <;> simp_all

/-- What has been read and not been handed over is handed over, or it is left. -/
theorem Transition.intake {c : Setup} {s t : Session} {a : Action} {fs : List Effect}
    {rest : List Envelope} (h : Transition c s a fs t) (hr : s.loop.Leaves rest) :
    ∃ rest', rest ++ envelopes (reads fs) = started fs ++ rest' ∧ t.loop.Leaves rest' := by
  cases h with
  | loop hs =>
    rw [hr.eq hs.ne_dropped]
    exact ⟨t.loop.atHand, hs.intake, .inl rfl⟩
  | handler hi hs =>
    rw [reads_of_isHandlers hs.isHandlers, started_of_isHandlers hs.isHandlers, hs.frame.1]
    exact ⟨rest, List.append_nil rest, hr⟩
  | join | interrupt | expire => exact ⟨rest, List.append_nil rest, hr⟩
  | drop => exact ⟨rest, List.append_nil rest, .inr ⟨rfl, hr.length_le⟩⟩
  | @command k => cases k <;> exact ⟨rest, List.append_nil rest, hr⟩

/-- From any state on, handlers are started for what was at hand and what is read, in order, and
all but the last of it. -/
theorem intake_of_run {c : Setup} {s t : Session} {as : List Action} {es : List Effect}
    (h : run c s as = some (es, t)) :
    ∃ rest, s.loop.atHand ++ envelopes (reads es) = started es ++ rest ∧ t.loop.Leaves rest := by
  refine run_induction (P := fun _ es t => ∃ rest,
    s.loop.atHand ++ envelopes (reads es) = started es ++ rest ∧ t.loop.Leaves rest)
    ⟨_, List.append_nil _, .inl rfl⟩ ?_ h
  rintro as es t a fs u - ⟨rest, heq, hr⟩ ht
  obtain ⟨rest', heq', hr'⟩ := ht.intake hr
  refine ⟨rest', ?_, hr'⟩
  calc s.loop.atHand ++ envelopes (reads (es ++ fs))
    _ = (s.loop.atHand ++ envelopes (reads es)) ++ envelopes (reads fs) := by
      rw [reads_append, envelopes_append, List.append_assoc]
    _ = started es ++ (rest ++ envelopes (reads fs)) := by rw [heq, List.append_assoc]
    _ = started (es ++ fs) ++ rest' := by rw [heq', started_append, List.append_assoc]

/-! ### After a request to stop -/

theorem readsLeft_afterReading (r : Reading) : (afterReading r).readsLeft = 0 := by
  apply afterReading_elim (p := (·.readsLeft = 0)) <;> simp [Loop.readsLeft]

/-- The loop of a session that is to stop goes from no place on to a read. -/
theorem LoopStep.reads_le {c : Setup} {s t : Session} {fs : List Effect} (h : LoopStep c s fs t)
    (hp : s.phase ≠ .running) : (reads fs).length + t.loop.readsLeft ≤ s.loop.readsLeft := by
  cases h with
  | resume _ hr => exact absurd hr hp
  | @read r rest hl =>
    show 1 + (afterReading r).readsLeft ≤ s.loop.readsLeft
    rw [hl, readsLeft_afterReading]
    exact Nat.le_refl 1
  | reject hl =>
    rw [reads_write]
    exact Nat.zero_le _
  | wait => exact Nat.le_of_eq (Nat.zero_add _)
  | stop | grant | spawn | pass | close | mark => exact Nat.zero_le _

theorem Transition.reads_le {c : Setup} {s t : Session} {a : Action} {fs : List Effect}
    (h : Transition c s a fs t) (hp : s.phase ≠ .running) :
    (reads fs).length + t.loop.readsLeft ≤ s.loop.readsLeft := by
  have stay {l : Loop} : ([] : List Reading).length + l.readsLeft ≤ l.readsLeft :=
    Nat.le_of_eq (Nat.zero_add _)
  cases h with
  | loop hs => exact hs.reads_le hp
  | handler hi hs =>
    rw [reads_of_isHandlers hs.isHandlers, hs.frame.1]
    exact stay
  | join | interrupt | expire => exact stay
  | drop => exact Nat.zero_le _
  | @command k => cases k <;> exact stay

theorem reads_of_run {c : Setup} {s t : Session} {as : List Action} {es : List Effect}
    (h : run c s as = some (es, t)) (hp : s.phase ≠ .running) :
    (reads es).length + t.loop.readsLeft ≤ s.loop.readsLeft := by
  refine (run_induction (P := fun _ es t => t.phase ≠ .running ∧
    (reads es).length + t.loop.readsLeft ≤ s.loop.readsLeft)
    ⟨hp, Nat.le_of_eq (Nat.zero_add _)⟩ ?_ h).2
  rintro as es t a fs u - ⟨hp, hle⟩ ht
  have hstep := ht.reads_le hp
  refine ⟨ht.phase_ne_running hp, ?_⟩
  rw [reads_append, List.length_append]
  omega

/-- What a session that is to stop still does for its peer, from the place `l` of its loop on and
with the effects `fs`. -/
structure StopsAtHand (l : Loop) (fs : List Effect) : Prop where
  /-- One read at most is made, and that one was under way. -/
  once : (reads fs).length ≤ 1
  pending : reads fs ≠ [] → l = .reading
  /-- One handler at most is started, and for the envelope that was at hand or that this read has
  given. -/
  single : (started fs).length ≤ 1
  atHand : started fs <+: l.atHand ++ envelopes (reads fs)
  /-- While an envelope waits for its slot, nothing but its own handler is still to come. -/
  holding : ∀ e, l = .holding e → reads fs = [] ∧ (started fs = [] ∨ started fs = [e])

theorem stops_at_hand (c : Setup) {s t : Session} {as : List Action} {fs : List Effect}
    (hp : s.phase ≠ .running) (h : run c s as = some (fs, t)) : StopsAtHand s.loop fs := by
  have hreads : (reads fs).length ≤ s.loop.readsLeft :=
    Nat.le_trans (Nat.le_add_right _ _) (reads_of_run h hp)
  obtain ⟨rest, heq, -⟩ := intake_of_run h
  have hprefix : started fs <+: s.loop.atHand ++ envelopes (reads fs) := ⟨rest, heq.symm⟩
  constructor
  · exact Nat.le_trans hreads s.loop.readsLeft_le
  · intro hne
    exact Loop.readsLeft_eq_one (Nat.lt_of_lt_of_le (List.length_pos_iff.mpr hne) hreads)
  · have hlen := hprefix.length_le
    have henv := length_envelopes_le (reads fs)
    have hl := s.loop.length_atHand_add_readsLeft_le
    rw [List.length_append] at hlen
    omega
  · exact hprefix
  · intro e hl
    have hnil : reads fs = [] := by
      rw [hl] at hreads
      exact List.length_eq_zero_iff.mp (Nat.le_zero.mp hreads)
    rw [hnil, hl] at hprefix
    refine ⟨hnil, (List.prefix_cons_iff.mp hprefix).imp_right ?_⟩
    rintro ⟨rest, hs, hr⟩
    rw [hs, List.prefix_nil.mp hr]

/-- The actions of a session with one slot that is sent three requests and asked to close while
the second of them waits for the slot of the first. -/
def closedWhileHolding : List Action :=
  [.command (.arrive (pingLine ++ pingLine ++ pingLine))] ++ .replicate 6 (.move .loop) ++
    [.command .requestClose]

/-- The rest of it, up to its end. -/
def closedAfterHolding : List Action :=
  .replicate 6 (.move (.handler 0)) ++ .replicate 3 (.move .loop) ++
    .replicate 6 (.move (.handler 0)) ++ .replicate 4 (.move .loop)

theorem stops_at_hand_closedWhileHolding :
    ∃ es s fs t, run (bare (some 1)) (start (bare (some 1))) closedWhileHolding = some (es, s) ∧
      s.phase ≠ .running ∧ run (bare (some 1)) s closedAfterHolding = some (fs, t) ∧
      t.ending? = some .normal ∧ (started fs).length = 1 ∧ StopsAtHand s.loop fs := by
  obtain ⟨es, s, hs, h⟩ := exists_of_run (c := bare (some 1)) (s := start (bare (some 1)))
    closedWhileHolding
    (p := fun _ s => s.phase != .running && (run (bare (some 1)) s closedAfterHolding).any
      fun r => r.2.ending? == some .normal && (started r.1).length == 1) (by decide +kernel)
  rw [Bool.and_eq_true, bne_iff_ne] at h
  obtain ⟨fs, t, ht, he⟩ := exists_of_run closedAfterHolding
    (p := fun fs t => t.ending? == some .normal && (started fs).length == 1) h.2
  rw [Bool.and_eq_true, beq_iff_eq, beq_iff_eq] at he
  exact ⟨es, s, fs, t, hs, h.1, ht, he.1, he.2, stops_at_hand _ h.1 ht⟩

end Session

end ContextServer
