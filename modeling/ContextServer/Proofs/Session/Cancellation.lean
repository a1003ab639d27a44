import ContextServer.Proofs.Session.Progress

/-!
What becomes of a cancellation. The loop looks at the phase only before a read, so a read that is
under way is still made, and it alone can take the ending away from the cancellation: by the end
of the stream or by a fault of it. Whatever else it gives, the session ends as cancelled.
-/

namespace ContextServer

def Effect.reading? : Effect → Option Reading
  | read r => some r
  | _ => none

/-- Whether the loop still serves the peer. -/
def Loop.isServing : Loop → Bool
  | checking | reading | rejecting _ | holding _ | starting _ => true
  | _ => false

def Loop.isFinished : Loop → Bool
  | finished _ => true
  | _ => false

theorem Loop.isFinished_iff {l : Loop} : l.isFinished = true ↔ ∃ e, l = .finished e := by
  cases l <;> simp [isFinished]

namespace Session

/-- What the transport has given to the loop, in order. -/
def reads (es : List Effect) : List Reading := es.filterMap Effect.reading?

/-- How a session ends that is cancelled before these reads. -/
def outcome (reason : String) (rs : List Reading) : Ending :=
  (rs.findSome? Reading.ending?).getD (.cancelled reason)

/-- What holds of a session that has been cancelled while its loop served at `l`, after the
effects `fs`. -/
structure Cancelled (l : Loop) (reason : String) (fs : List Effect) (s : Session) : Prop where
  phase : s.loop.isServing = true → s.phase = .cancelled reason
  unread : s.loop = .reading → reads fs = []
  pending : s.loop = .reading ∨ reads fs ≠ [] → l = .reading
  once : (reads fs).length ≤ 1
  served : s.loop.isServing = true → (reads fs).findSome? Reading.ending? = none
  ending : ∀ e, s.loop.ending? = some e → e = outcome reason (reads fs)

theorem reads_append (es fs : List Effect) : reads (es ++ fs) = reads es ++ reads fs :=
  List.filterMap_append

theorem reads_append_of_nil (fs : List Effect) {gs : List Effect} (hg : reads gs = []) :
    reads (fs ++ gs) = reads fs := by
  rw [reads_append, hg, List.append_nil]

theorem reads_of_isHandlers {fs : List Effect} (h : ∀ x ∈ fs, x.isHandlers = true) :
    reads fs = [] := by
  refine List.filterMap_eq_nil_iff.mpr fun x hx => ?_
  have := h x hx
  cases x <;> simp_all [Effect.isHandlers, Effect.reading?]

theorem ending?_of_isServing {l : Loop} (h : l.isServing = true) : l.ending? = none := by
  cases l <;> simp_all [Loop.isServing, Loop.ending?]

theorem isServing_afterReading {r : Reading} (h : (afterReading r).isServing = true) :
    r.ending? = none := by
  rw [← ending?_afterReading]
  exact ending?_of_isServing h

theorem afterReading_ne_reading (r : Reading) : afterReading r ≠ .reading := by
  apply afterReading_elim (p := (· ≠ .reading)) <;> simp

/-- The first request to stop cancels a session that serves. -/
theorem cancelled_start {reason : String} {s : Session} (hl : s.loop.isServing = true)
    (hp : s.phase = .cancelled reason) : Cancelled s.loop reason [] s where
  phase _ := hp
  unread _ := rfl
  pending h := h.resolve_right fun h => h rfl
  once := Nat.zero_le _
  served _ := rfl
  ending e he := by
    rw [ending?_of_isServing hl] at he
    cases he

/-- A step without a read, from a place where the loop serves to another. -/
theorem cancelled_serving {l : Loop} {reason : String} {fs gs : List Effect} {s t : Session}
    (hc : Cancelled l reason fs s) (hs : s.loop.isServing = true) (ht : t.loop.isServing = true)
    (hr : t.loop ≠ .reading) (hp : t.phase = s.phase) (hg : reads gs = []) :
    Cancelled l reason (fs ++ gs) t := by
  have hreads := reads_append_of_nil fs hg
  constructor
  · intro
    exact hp.trans (hc.phase hs)
  · intro h
    exact absurd h hr
  · intro h
    rw [hreads] at h
    exact hc.pending (.inr (h.resolve_left hr))
  · rw [hreads]
    exact hc.once
  · intro
    rw [hreads]
    exact hc.served hs
  · intro e he
    rw [ending?_of_isServing ht] at he
    cases he

/-- A step that leaves the loop on its way to the ending, or has it given up. -/
theorem cancelled_leaving {l : Loop} {reason : String} {fs gs : List Effect} {s t : Session}
    (hc : Cancelled l reason fs s) (ht : t.loop.isServing = false)
    (he : ∀ e, t.loop.ending? = some e → s.loop.ending? = some e) (hg : reads gs = []) :
    Cancelled l reason (fs ++ gs) t := by
  have hreads := reads_append_of_nil fs hg
  have hne (h : t.loop.isServing = true) : False := by
    rw [ht] at h
    cases h
  have hnr (h : t.loop = .reading) : False := hne (by rw [h]; rfl)
  constructor
  · intro h
    exact (hne h).elim
  · intro h
    exact (hnr h).elim
  · intro h
    rw [hreads] at h
    exact hc.pending (.inr (h.resolve_left hnr))
  · rw [hreads]
    exact hc.once
  · intro h
    exact (hne h).elim
  · intro e h
    rw [hreads]
    exact hc.ending e (he e h)

theorem reads_write (s : Session) (e : Envelope) : reads [s.write e] = [] :=
  reads_of_isHandlers (by simp [isHandlers_write])

theorem cancelled_loop {c : Setup} {l : Loop} {reason : String} {fs gs : List Effect}
    {s t : Session} (hc : Cancelled l reason fs s) (ht : LoopStep c s gs t) :
    Cancelled l reason (fs ++ gs) t := by
  cases ht with
  | @stop e hl hp =>
    have hs : s.loop.isServing = true := by rw [hl]; rfl
    have hph := hc.phase hs
    rw [List.append_nil]
    refine ⟨nofun, nofun, fun h => hc.pending (h.imp_left nofun), hc.once, nofun, ?_⟩
    intro e' he
    rw [hph] at hp
    cases hp
    cases he
    rw [outcome, hc.served hs]
    rfl
  | resume hl hp =>
    have hph := hc.phase (by rw [hl]; rfl)
    rw [hp] at hph
    cases hph
  | @read r rest hl hr =>
    have hreads : reads (fs ++ [.read r]) = [r] := by
      rw [reads_append, hc.unread hl]
      rfl
    constructor
    · intro
      exact hc.phase (by rw [hl]; rfl)
    · intro h
      exact absurd h (afterReading_ne_reading r)
    · intro
      exact hc.pending (.inl hl)
    · rw [hreads]
      exact Nat.le_refl 1
    · intro h
      rw [hreads, List.findSome?_singleton]
      exact isServing_afterReading h
    · intro e he
      have he : (afterReading r).ending? = some e := he
      rw [ending?_afterReading] at he
      rw [hreads, outcome, List.findSome?_singleton, he]
      rfl
  | reject hl =>
    exact cancelled_serving hc (by rw [hl]; rfl) rfl nofun rfl (reads_write s _)
  | grant hl => exact cancelled_serving hc (by rw [hl]; rfl) rfl nofun rfl rfl
  | spawn hl => exact cancelled_serving hc (by rw [hl]; rfl) rfl nofun rfl rfl
  | wait hl =>
    exact cancelled_leaving hc (by rw [hl]; rfl) (fun _ h => h) rfl
  | pass hl | close hl | mark hl =>
    refine cancelled_leaving hc rfl (fun e h => ?_) rfl
    rw [hl]
    exact h

/-- What neither moves the loop nor undoes the request leaves a cancelled session as it is. -/
theorem cancelled_aside {l : Loop} {reason : String} {fs gs : List Effect} {s t : Session}
    (hc : Cancelled l reason fs s) (hl : t.loop = s.loop) (hp : t.phase = s.phase)
    (hg : reads gs = []) : Cancelled l reason (fs ++ gs) t := by
  have hreads := reads_append_of_nil fs hg
  constructor
  · rw [hl, hp]
    exact hc.phase
  · rw [hl, hreads]
    exact hc.unread
  · rw [hl, hreads]
    exact hc.pending
  · rw [hreads]
    exact hc.once
  · rw [hl, hreads]
    exact hc.served
  · rw [hl, hreads]
    exact hc.ending

theorem cancelled_next {c : Setup} {l : Loop} {reason : String} {fs gs : List Effect}
    {s t : Session} {a : Action} (hc : Cancelled l reason fs s) (hp : s.phase ≠ .running)
    (ht : Transition c s a gs t) : Cancelled l reason (fs ++ gs) t := by
  have aside (q : Phase) : s.phase.request q = s.phase := Phase.request_of_ne_running hp q
  cases ht with
  | loop h => exact cancelled_loop hc h
  | handler hi h =>
    obtain ⟨hl, hph, -⟩ := h.frame
    exact cancelled_aside hc hl hph (reads_of_isHandlers h.isHandlers)
  | join | expire => exact cancelled_aside hc rfl rfl rfl
  | interrupt => exact cancelled_aside hc rfl (aside _) rfl
  | drop => exact cancelled_leaving hc rfl nofun rfl
  | @command k =>
    cases k with
    | requestClose | cancel => exact cancelled_aside hc rfl (aside _) rfl
    | _ => exact cancelled_aside hc rfl rfl rfl

theorem cancelled_of_run {c : Setup} {l : Loop} {reason : String} {s t : Session}
    {bs : List Action} {fs : List Effect} (hc : Cancelled l reason [] s)
    (hp : s.phase ≠ .running) (h : run c s bs = some (fs, t)) : Cancelled l reason fs t :=
  (run_induction (P := fun _ fs t => t.phase ≠ .running ∧ Cancelled l reason fs t) ⟨hp, hc⟩
    (fun _ _ _ _ _ _ _ ⟨hp, hc⟩ ht =>
      ⟨ht.phase_ne_running hp, cancelled_next hc hp ht⟩) h).2

/-! ### The ending of a cancelled session -/

/-- What follows a cancellation: it has been accepted in `s`, and then the actions `bs` have led
to `t` with the effects `fs`. -/
structure EndsCancelled (c : Setup) (reason : String) (s : Session) (bs : List Action)
    (fs : List Effect) (t : Session) : Prop where
  /-- Only a read that was under way is still made. -/
  once : (reads fs).length ≤ 1
  pending : reads fs ≠ [] → s.loop = .reading
  /-- The session ends as cancelled, unless that read has ended the stream or found it broken. -/
  ending : ∀ e, t.loop = .finished e → e = outcome reason (reads fs)
  cancelled : ∀ e, t.loop = .finished e →
    (e = .cancelled reason ↔ ∀ r ∈ reads fs, r.ending? = none)
  /-- It does end, for the moves that can still be made are bounded, -/
  bounded : bs.countP Action.isMove + t.work ≤ s.work
  /-- and where none can be made it has ended, unless its supervisor has given it up, the read
  that was under way waits for the peer or a handler waits for a gate. -/
  rest : (∀ m, t.step c m = none) →
    (∃ e, t.loop = .finished e) ∨ (c.grace ≠ none ∧ t.loop = .dropped) ∨
      (s.loop = .reading ∧ t.loop = .reading ∧ reads fs = [] ∧
        Reader.read c.framing c.limit t.inbound = none) ∨
      ∃ h ∈ t.handlers, ∃ g a, h.stage = .held g a ∧ g ∉ t.permits

theorem ending?_ne_cancelled (r : Reading) (reason : String) :
    r.ending? ≠ some (.cancelled reason) := by
  cases r <;> simp [Reading.ending?]

theorem outcome_eq_cancelled {reason : String} {rs : List Reading} :
    outcome reason rs = .cancelled reason ↔ ∀ r ∈ rs, r.ending? = none := by
  rw [← List.findSome?_eq_none_iff]
  unfold outcome
  cases h : rs.findSome? Reading.ending? with
  | none => simp
  | some e =>
    obtain ⟨r, -, hr⟩ := List.exists_of_findSome?_eq_some h
    simp only [Option.getD_some, reduceCtorEq, iff_false]
    rintro rfl
    exact ending?_ne_cancelled r reason hr

/-- An accepted request to stop changes the phase, and of the rest only what a supervisor does. -/
theorem Transition.accepted {c : Setup} {s t : Session} {a : Action} {fs : List Effect} {p : Phase}
    (h : Transition c s a fs t) (ha : a.request? = some p) (hs : s.phase = .running) :
    fs = [] ∧ t.loop = s.loop ∧ t.phase = p ∧ t.work ≤ s.work := by
  cases h with
  | interrupt hw =>
    cases ha
    refine ⟨rfl, rfl, by simp [hs], ?_⟩
    simp [work, hw, Watch.work]
  | @command k =>
    cases k with
    | requestClose | cancel =>
      cases ha
      exact ⟨rfl, rfl, by simp [obey, hs], Nat.le_refl _⟩
    | _ => cases ha
  | _ => cases ha

theorem afterReading_ne_dropped (r : Reading) : afterReading r ≠ .dropped := by
  apply afterReading_elim (p := (· ≠ .dropped)) <;> simp

/-- Only a supervisor gives a session up. -/
theorem loop_ne_dropped {c : Setup} {as : List Action} {es : List Effect} {s : Session}
    (hg : c.grace = none) (h : run c (start c) as = some (es, s)) : s.loop ≠ .dropped := by
  refine run_induction (P := fun _ _ s => s.loop ≠ .dropped) (fun hd => by cases hd) ?_ h
  intro as es t a fs u hr ht htr
  have hw := (closing_of_run hr).unwatched hg
  cases htr with
  | loop hs =>
    cases hs with
    | read => exact afterReading_ne_dropped _
    | wait => exact ht
    | _ => intro hd; cases hd
  | handler hi hs => exact hs.frame.1 ▸ ht
  | join | interrupt | expire => exact ht
  | drop hr => rw [hw] at hr; cases hr
  | @command k => cases k <;> exact ht

theorem ends_cancelled (c : Setup) (hslots : c.server.slots ≠ some 0) {reason : String}
    {as bs : List Action} {a : Action} {es fs : List Effect} {s t : Session}
    (hs : run c (start c) as = some (es, s)) (hp : s.phase = .running)
    (hl : s.loop.isServing = true) (ha : a.request? = some (.cancelled reason))
    (ht : run c s (a :: bs) = some (fs, t)) : EndsCancelled c reason s bs fs t := by
  have hrun : run c (start c) (as ++ a :: bs) = some (es ++ fs, t) := by
    rw [run_append, hs, Option.bind_some, ht]
    rfl
  rw [run_cons] at ht
  obtain ⟨⟨gs, u⟩, hu, hmap⟩ := Option.bind_eq_some_iff.mp ht
  obtain ⟨⟨fs', t'⟩, hrest, heq⟩ := Option.map_eq_some_iff.mp hmap
  obtain ⟨rfl, hloop, hphase, hwork⟩ := (transition_of_act hu).accepted ha hp
  simp only [List.nil_append, Prod.mk.injEq] at heq
  obtain ⟨rfl, rfl⟩ := heq
  have hne : u.phase ≠ .running := by rw [hphase]; nofun
  have hc : Cancelled u.loop reason fs' t' :=
    cancelled_of_run (cancelled_start (by rw [hloop]; exact hl) hphase) hne hrest
  rw [hloop] at hc
  have hending (e : Ending) (he : t'.loop = .finished e) : e = outcome reason (reads fs') :=
    hc.ending e (by rw [he]; rfl)
  constructor
  · exact hc.once
  · exact fun h => hc.pending (.inr h)
  · exact hending
  · intro e he
    rw [hending e he]
    exact outcome_eq_cancelled
  · exact Nat.le_trans (moves_add_work_le hrest hne) hwork
  · intro hr
    cases stuck_of_rest hrun hslots hr with
    | finished he => exact .inl ⟨_, he⟩
    | dropped hd => exact .inr (.inl ⟨fun hg => loop_ne_dropped hg hrun hd, hd⟩)
    | peer hd hread => exact .inr (.inr (.inl ⟨hc.pending (.inl hd), hd, hc.unread hd, hread⟩))
    | gate hh hst hg => exact .inr (.inr (.inr ⟨_, hh, _, _, hst, hg⟩))

/-- A session without providers that waits for its peer. -/
def waiting : Session := { start (bare none) with loop := .reading }

/-- Its peer sends a request, which is answered, and that is all. -/
def answeredOnce : List Action :=
  [.command (.arrive pingLine)] ++ .replicate 4 (.move .loop) ++
    .replicate 6 (.move (.handler 0)) ++ .replicate 4 (.move .loop)

theorem ends_cancelled_answeredOnce :
    ∃ fs t, EndsCancelled (bare none) "stop" waiting answeredOnce fs t ∧
      t.ending? = some (.cancelled "stop") := by
  obtain ⟨fs, t, ht, he⟩ := exists_of_run (c := bare none) (s := waiting)
    (.command (.cancel "stop") :: answeredOnce)
    (p := fun _ t => t.ending? == some (.cancelled "stop")) (by decide +kernel)
  have hs : run (bare none) (start (bare none)) [.move .loop] = some ([], waiting) := rfl
  exact ⟨fs, t, ends_cancelled (bare none) nofun hs rfl rfl rfl ht, by simpa using he⟩

/-- The actions of a session that is cancelled while it reads and whose peer then hangs up. -/
def cancelledThenLeft : List Action :=
  [.move .loop, .command (.cancel "stop"), .command .hangUp] ++ .replicate 5 (.move .loop)

/-- The end of the stream, which the cancelled session has waited for, hides the cancellation. -/
theorem ending_cancelledThenLeft :
    ∃ es s, run (bare none) (start (bare none)) cancelledThenLeft = some (es, s) ∧
      firstRequest? cancelledThenLeft = some (.cancelled "stop") ∧ s.ending? = some .normal := by
  obtain ⟨es, s, h, he⟩ := exists_of_run (c := bare none) (s := start (bare none))
    cancelledThenLeft (p := fun _ s => s.ending? == some .normal) (by decide +kernel)
  exact ⟨es, s, h, by decide +kernel, by simpa using he⟩

end Session

end ContextServer
