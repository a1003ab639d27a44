import Mathlib.Algebra.Ring.Nat
import ContextServer.Proofs.Session.Closing

/-!
Why a session that has been asked to stop does stop. `Supplied` keeps account of the slots and of
the notifications at the barrier: whoever waits for one of them waits for a handler. And once the
session does not run any more, every move uses up some of the `work` that is left. So the moves
come to an end, and where nothing can move the session has ended, or waits for its peer, or for a
gate.
-/

namespace ContextServer

namespace Stage

def isNotifying : Stage → Bool
  | notifying => true
  | _ => false

/-- The moves that a handler has left, with those of the waiter that it notifies. -/
def work : Stage → Nat
  | arrived => 11
  | consulting _ => 10
  | negotiating _ | held _ _ => 9
  | concluding _ => 8
  | replying _ => 7
  | leaving => 6
  | notifying => 5
  | releasing => 1

end Stage

namespace Loop

/-- The slots that the loop holds for a handler to come. -/
def slots : Loop → Nat
  | starting _ => 1
  | _ => 0

/-- The moves that the loop has left after a request to stop, with those of a handler to come. -/
def work : Loop → Nat
  | reading => 18
  | holding _ => 17
  | starting _ => 16
  | rejecting _ => 5
  | checking => 4
  | draining _ => 3
  | closing _ => 2
  | marking _ => 1
  | finished _ | dropped => 0

end Loop

def Watch.work : Watch → Nat
  | waiting => 2
  | grace _ => 1
  | absent | returned _ => 0

namespace Session

/-- A bound on the moves that are left after a request to stop. -/
def work (s : Session) : Nat :=
  s.loop.work + (s.handlers.map (·.stage.work)).sum + s.barrier.waiter.work + s.watch.work

/-! ### Every move is work done -/

theorem work_planned_lt (d : Dispatcher) (e : Envelope) : (planned d e).work < 11 := by
  unfold planned
  split <;> simp [Stage.work]

theorem work_answered_lt (e : Envelope) (a : Answer Json) : (answered e a).work < 9 := by
  unfold answered
  split
  · simp [Stage.work]
  · split <;> simp [Stage.work]

theorem work_consulted_lt (e : Envelope) (p : Promise Json) : (consulted e p).work < 10 := by
  unfold consulted
  split
  · simp [Stage.work]
  · have := work_answered_lt e p.answer
    omega

theorem work_concluded_lt (e : Envelope) (r : Except ErrorObject Json) :
    (concluded e r).work < 8 := by
  unfold concluded
  split <;> simp [Stage.work]

theorem sum_setStage {s : Session} {i : Nat} {h : Handler} (hi : s.handlers[i]? = some h)
    (st : Stage) (f : Stage → Nat) :
    ((s.setStage i h st).handlers.map (f ·.stage)).sum + f h.stage =
      (s.handlers.map (f ·.stage)).sum + f st := by
  have hs := ((handlers_perm hi).map (f ·.stage)).sum_nat
  have ht := ((handlers_setStage_perm hi st).map (f ·.stage)).sum_nat
  simp only [List.map_cons, List.sum_cons] at hs ht
  omega

theorem sum_eraseIdx {s : Session} {i : Nat} {h : Handler} (hi : s.handlers[i]? = some h)
    (f : Stage → Nat) :
    ((s.handlers.eraseIdx i).map (f ·.stage)).sum + f h.stage =
      (s.handlers.map (f ·.stage)).sum := by
  have hs := ((handlers_perm hi).map (f ·.stage)).sum_nat
  simp only [List.map_cons, List.sum_cons] at hs
  omega

theorem HandlerStep.work_lt {c : Setup} {s t : Session} {i : Nat} {h : Handler}
    {es : List Effect} (hs : HandlerStep c s i h es t) (hi : s.handlers[i]? = some h) :
    t.work < s.work := by
  have stay {st : Stage} (hst : st.work < h.stage.work) : (s.setStage i h st).work < s.work := by
    have hsum := sum_setStage hi st Stage.work
    show s.loop.work + _ + s.barrier.waiter.work + s.watch.work < _
    simp only [work]
    omega
  cases hs with
  | plan hs => exact stay (by rw [hs]; exact work_planned_lt _ _)
  | negotiate hs => exact stay (by rw [hs]; exact Nat.lt_add_one 8)
  | consult hs => exact stay (by rw [hs]; exact work_consulted_lt _ _)
  | pass hs => exact stay (by rw [hs]; exact work_answered_lt _ _)
  | conclude hs => exact stay (by rw [hs]; exact work_concluded_lt _ _)
  | reply hs => exact stay (by rw [hs]; exact Nat.lt_add_one 6)
  | leave hs =>
    refine stay ?_
    rw [hs]
    split <;> decide
  | notify hs =>
    -- the waiter may have three moves more, which the notification has paid for
    have hsum := sum_setStage hi .releasing Stage.work
    have hwake := Barrier.work_wake_le s.barrier.waiter
    have hstage : h.stage.work = 5 := by rw [hs]; rfl
    have hrel : Stage.releasing.work = 1 := rfl
    show s.loop.work + _ + (Barrier.wake s.barrier.waiter).work + s.watch.work < _
    simp only [work, setStage] at hsum ⊢
    omega
  | release hs =>
    have hsum := sum_eraseIdx hi Stage.work
    have hstage : h.stage.work = 1 := by rw [hs]; rfl
    show s.loop.work + _ + s.barrier.waiter.work + s.watch.work < _
    simp only [work]
    omega

theorem work_afterReading_lt (r : Reading) : (afterReading r).work < 18 := by
  apply afterReading_elim (p := (·.work < 18)) <;> simp [Loop.work]

theorem LoopStep.work_lt {c : Setup} {s t : Session} {es : List Effect}
    (hs : LoopStep c s es t) (hp : s.phase ≠ .running) : t.work < s.work := by
  have move {l : Loop} (hl : l.work < s.loop.work) :
      l.work + (s.handlers.map (·.stage.work)).sum + s.barrier.waiter.work + s.watch.work <
        s.work := by
    simp only [work]
    omega
  cases hs with
  | stop hl => exact move (by rw [hl]; exact Nat.lt_add_one 3)
  | resume hl hr => exact absurd hr hp
  | @read r rest hl => exact move (by rw [hl]; exact work_afterReading_lt r)
  | reject hl => exact move (by rw [hl]; exact Nat.lt_add_one 4)
  | grant hl => exact move (by rw [hl]; exact Nat.lt_add_one 16)
  | spawn hl =>
    simp only [work, hl, Loop.work, Barrier.enter, List.map_append, List.sum_append,
      List.map_cons, List.sum_cons, List.map_nil, List.sum_nil, Stage.work]
    omega
  | wait hl hb =>
    have := Barrier.work_wait_lt hb
    simp only [work]
    omega
  | pass hl hb =>
    have := Barrier.work_wait_lt hb
    simp only [work, hl, Loop.work]
    omega
  | close hl => exact move (by rw [hl]; exact Nat.lt_add_one 1)
  | mark hl => exact move (by rw [hl]; exact Nat.lt_add_one 0)

theorem work_lt_of_move {c : Setup} {s t : Session} {m : Move} {es : List Effect}
    (h : Transition c s (.move m) es t) (hp : s.phase ≠ .running) : t.work < s.work := by
  cases h with
  | loop hs => exact hs.work_lt hp
  | handler hi hs => exact hs.work_lt hi
  | join hl hw hr =>
    simp only [work]
    cases h : s.watch with
    | absent => exact absurd h hw
    | returned e => exact absurd h (hr e)
    | waiting | grace => simp [Watch.work]
  | interrupt hw => simp [work, hw, Watch.work]
  | expire hw => simp [work, hw, Watch.work]
  | drop hw hl =>
    simp only [work]
    cases h : s.loop <;> simp_all [Loop.isSuspended, Loop.work]

def Action.isMove : Action → Bool
  | .move _ => true
  | .command _ => false

theorem Transition.phase_ne_running {c : Setup} {s t : Session} {a : Action} {fs : List Effect}
    (h : Transition c s a fs t) (hs : s.phase ≠ .running) : t.phase ≠ .running := by
  rcases h.phase with hp | hp
  · rw [hp]
    cases a.request? with
    | none => exact hs
    | some q =>
      rw [Option.elim_some, Phase.request_of_ne_running hs]
      exact hs
  · rw [hp.1]
    nofun

/-- What is left to do bounds the moves that can still be made, whatever the world does between
them. -/
theorem moves_add_work_le {c : Setup} {s t : Session} {as : List Action} {es : List Effect}
    (h : run c s as = some (es, t)) (hp : s.phase ≠ .running) :
    as.countP Action.isMove + t.work ≤ s.work := by
  have := run_induction (P := fun as _ t => t.phase ≠ .running ∧
      as.countP Action.isMove + t.work ≤ s.work) ⟨hp, by simp⟩
    (fun as _ t a _ u _ ⟨hp, hw⟩ ht => ⟨ht.phase_ne_running hp, ?_⟩) h
  · exact this.2
  · rw [List.countP_append, List.countP_singleton]
    cases a with
    | move m =>
      have := work_lt_of_move ht hp
      simp only [Action.isMove, if_true]
      omega
    | command k =>
      have hu : u.work = t.work := by
        cases ht with
        | command => cases k <;> rfl
      rw [hu]
      simpa [Action.isMove] using hw

/-! ### Whoever waits, waits for a handler -/

/-- The account of the slots and of the notifications. -/
structure Supplied (c : Setup) (s : Session) : Prop where
  slots : s.free.map (· + s.handlers.length + s.loop.slots) = c.server.slots
  notifying : s.barrier.notifying = s.handlers.countP (·.stage.isNotifying)
  parked : s.barrier.waiter = .parked false → 0 < s.barrier.count ∨ 0 < s.barrier.notifying
  through : s.barrier.waiter = .through → s.loop.isDrained = true ∨ s.loop = .dropped

theorem supplied_start (c : Setup) : Supplied c (start c) where
  slots := by simp [start, Loop.slots]
  notifying := rfl
  parked := nofun
  through := nofun

@[simp] theorem isNotifying_answered (e : Envelope) (a : Answer Json) :
    (answered e a).isNotifying = false := by
  unfold answered
  split
  · rfl
  · split <;> rfl

@[simp] theorem isNotifying_planned (d : Dispatcher) (e : Envelope) :
    (planned d e).isNotifying = false := by
  unfold planned
  split <;> rfl

@[simp] theorem isNotifying_consulted (e : Envelope) (p : Promise Json) :
    (consulted e p).isNotifying = false := by
  unfold consulted
  split
  · rfl
  · exact isNotifying_answered e p.answer

@[simp] theorem isNotifying_concluded (e : Envelope) (r : Except ErrorObject Json) :
    (concluded e r).isNotifying = false := by
  unfold concluded
  split <;> rfl

theorem length_setStage (s : Session) (i : Nat) (h : Handler) (st : Stage) :
    (s.setStage i h st).handlers.length = s.handlers.length := List.length_set

/-- A handler that moves on without a notification changes none of the accounts. -/
theorem supplied_setStage {c : Setup} {s : Session} {i : Nat} {h : Handler}
    (hs : Supplied c s) (hi : s.handlers[i]? = some h) (st : Stage)
    (hh : h.stage.isNotifying = false)
    (hst : st.isNotifying = false) : Supplied c (s.setStage i h st) where
  slots := by
    rw [length_setStage]
    exact hs.slots
  notifying := by
    have hn := countP_setStage hi st Stage.isNotifying
    rw [hh, hst] at hn
    exact hs.notifying.trans (by omega)
  parked := hs.parked
  through := hs.through

theorem supplied_leave {c : Setup} {s : Session} {i : Nat} {h : Handler} (hs : Supplied c s)
    (hi : s.handlers[i]? = some h) (hh : h.stage = .leaving) :
    Supplied c ({ s with barrier := s.barrier.leave }.setStage i h
      (if s.barrier.isLast then .notifying else .releasing)) where
  slots := by
    rw [length_setStage]
    exact hs.slots
  notifying := by
    have hn := countP_setStage hi (if s.barrier.isLast then .notifying else .releasing)
      Stage.isNotifying
    have hl : h.stage.isNotifying = false := by rw [hh]; rfl
    have hb := hs.notifying
    rw [hl] at hn
    show (if s.barrier.isLast then s.barrier.notifying + 1 else s.barrier.notifying) = _
    simp only [setStage] at hn ⊢
    split at hn <;> simp_all [Stage.isNotifying]
  parked := Barrier.watched_leave hs.parked
  through := hs.through

theorem supplied_notify {c : Setup} {s : Session} {i : Nat} {h : Handler} (hs : Supplied c s)
    (hi : s.handlers[i]? = some h) (hh : h.stage = .notifying) :
    Supplied c ({ s with barrier := s.barrier.notify }.setStage i h .releasing) where
  slots := by
    rw [length_setStage]
    exact hs.slots
  notifying := by
    have hn := countP_setStage hi .releasing Stage.isNotifying
    have hl : h.stage.isNotifying = true := by rw [hh]; rfl
    have hb := hs.notifying
    have hr : Stage.releasing.isNotifying = false := rfl
    rw [hl, hr] at hn
    show s.barrier.notifying - 1 = _
    simp only [setStage, Bool.false_eq_true, if_false, if_true] at hn ⊢
    omega
  parked := Barrier.watched_notify
  through hw := by
    have hw : Barrier.wake s.barrier.waiter = .through := hw
    exact hs.through (by cases h : s.barrier.waiter <;> simp_all [Barrier.wake])

theorem supplied_release {c : Setup} {s : Session} {i : Nat} {h : Handler} (hs : Supplied c s)
    (hi : s.handlers[i]? = some h) (hh : h.stage = .releasing) :
    Supplied c { s with handlers := s.handlers.eraseIdx i, free := s.free.map (· + 1) } where
  slots := by
    have hlen := (handlers_perm hi).length_eq
    rw [← hs.slots, hlen, Option.map_map]
    congr 1
    funext n
    simp only [Function.comp_apply, List.length_cons]
    omega
  notifying := by
    have hn := countP_eraseIdx hi Stage.isNotifying
    rw [hh] at hn
    exact hs.notifying.trans hn.symm
  parked := hs.parked
  through := hs.through

theorem supplied_handler {c : Setup} {s t : Session} {i : Nat} {h : Handler} {es : List Effect}
    (hs : Supplied c s) (hi : s.handlers[i]? = some h) (ht : HandlerStep c s i h es t) :
    Supplied c t := by
  cases ht with
  | plan hh => exact supplied_setStage hs hi _ (by rw [hh]; rfl) (by simp)
  | negotiate hh =>
    have := supplied_setStage hs hi (.concluding (.ok c.server.dispatcher.greeting))
      (by rw [hh]; rfl) rfl
    exact ⟨this.slots, this.notifying, this.parked, this.through⟩
  | consult hh => exact supplied_setStage hs hi _ (by rw [hh]; rfl) (by simp)
  | @pass g a hh hg =>
    have := supplied_setStage hs hi (answered h.envelope a) (by rw [hh]; rfl) (by simp)
    exact ⟨this.slots, this.notifying, this.parked, this.through⟩
  | conclude hh => exact supplied_setStage hs hi _ (by rw [hh]; rfl) (by simp)
  | reply hh => exact supplied_setStage hs hi _ (by rw [hh]; rfl) rfl
  | leave hh => exact supplied_leave hs hi hh
  | notify hh => exact supplied_notify hs hi hh
  | release hh => exact supplied_release hs hi hh

/-- Up to the barrier the waiter is not through, so the loop may go where it holds as many slots. -/
theorem supplied_before_barrier {c : Setup} {s t : Session} (hs : Supplied c s)
    (hd : s.loop.isDrained = false) (hn : s.loop ≠ .dropped) (hb : t.barrier = s.barrier)
    (hh : t.handlers = s.handlers) (hf : t.free = s.free) (hl : t.loop.slots = s.loop.slots) :
    Supplied c t where
  slots := by
    rw [hh, hf, hl]
    exact hs.slots
  notifying := by
    rw [hb, hh]
    exact hs.notifying
  parked := by
    rw [hb]
    exact hs.parked
  through hw := by
    rcases hs.through (hb ▸ hw) with h | h
    · rw [hd] at h
      cases h
    · exact absurd h hn

theorem slots_afterReading (r : Reading) : (afterReading r).slots = 0 := by
  apply afterReading_elim (p := (·.slots = 0)) <;> simp [Loop.slots]

theorem supplied_wait {c : Setup} {s : Session} {e : Ending} {b : Barrier} {l : Loop}
    (hs : Supplied c s) (hl : s.loop = .draining e) (hb : s.barrier.wait = some b)
    (hslots : l.slots = 0) (hw : b.waiter = .through → l.isDrained = true) :
    Supplied c { s with barrier := b, loop := l } := by
  have hsl := hs.slots
  rw [hl] at hsl
  exact ⟨by rw [hslots]; exact hsl, (Barrier.notifying_wait hb).trans hs.notifying,
    Barrier.watched_wait hb, fun h => .inl (hw h)⟩

theorem supplied_loop {c : Setup} {s t : Session} {es : List Effect} (hs : Supplied c s)
    (ht : LoopStep c s es t) : Supplied c t := by
  have hsl := hs.slots
  cases ht with
  | stop hl | resume hl | reject hl =>
    exact supplied_before_barrier hs (by rw [hl]; rfl) (by rw [hl]; nofun) rfl rfl rfl
      (by rw [hl]; rfl)
  | @read r rest hl =>
    exact supplied_before_barrier hs (by rw [hl]; rfl) (by rw [hl]; nofun) rfl rfl rfl
      (by rw [hl]; exact slots_afterReading r)
  | grant hl hf =>
    rw [hl] at hsl
    constructor
    · rw [← hsl, Option.map_map]
      cases h : s.free with
      | none => rfl
      | some n =>
        have hn : n ≠ 0 := fun h0 => hf (by rw [h, h0])
        simp only [Option.map_some, Function.comp_apply, Loop.slots, Option.some.injEq]
        omega
    · exact hs.notifying
    · exact hs.parked
    · intro hw
      rcases hs.through hw with h | h <;> rw [hl] at h <;> cases h
  | spawn hl =>
    rw [hl] at hsl
    constructor
    · rw [← hsl]
      congr 1
      funext n
      simp only [List.length_append, List.length_cons, List.length_nil, Loop.slots]
      omega
    · simp [Barrier.enter, hs.notifying, Stage.isNotifying]
    · exact Barrier.watched_enter
    · intro hw
      rcases hs.through hw with h | h <;> rw [hl] at h <;> cases h
  | wait hl hb hw => exact supplied_wait hs hl hb (by rw [hl]; rfl) fun h => absurd h hw
  | pass hl hb hw => exact supplied_wait hs hl hb rfl fun _ => rfl
  | close hl | mark hl =>
    rw [hl] at hsl
    exact ⟨hsl, hs.notifying, hs.parked, fun _ => .inl rfl⟩

theorem supplied_next {c : Setup} {s t : Session} {a : Action} {es : List Effect}
    (hs : Supplied c s) (ht : Transition c s a es t) : Supplied c t := by
  cases ht with
  | loop h => exact supplied_loop hs h
  | handler hi h => exact supplied_handler hs hi h
  | join | interrupt | expire => exact ⟨hs.slots, hs.notifying, hs.parked, hs.through⟩
  | drop hw hl =>
    refine ⟨?_, hs.notifying, hs.parked, fun _ => .inr rfl⟩
    rw [← hs.slots]
    cases h : s.loop <;> simp_all [Loop.isSuspended, Loop.slots]
  | @command k => cases k <;> exact ⟨hs.slots, hs.notifying, hs.parked, hs.through⟩

theorem supplied_of_run {c : Setup} {as : List Action} {es : List Effect} {s : Session}
    (h : run c (start c) as = some (es, s)) : Supplied c s :=
  run_induction (P := fun _ _ s => Supplied c s) (supplied_start c)
    (fun _ _ _ _ _ _ _ hs ht => supplied_next hs ht) h

/-! ### Where nothing can move -/

/-- Only a gate keeps a handler. -/
theorem held_of_stuck {c : Setup} {s : Session} {i : Nat} {h : Handler}
    (hst : stepHandler c s i h = none) : ∃ g a, h.stage = .held g a ∧ g ∉ s.permits := by
  unfold stepHandler at hst
  cases hs : h.stage with
  | held g a =>
    refine ⟨g, a, rfl, fun hg => ?_⟩
    simp [hs, hg] at hst
  | _ => simp [hs] at hst

/-- The waits of a session in which nothing can move. -/
inductive Stuck (c : Setup) (s : Session) : Prop
  | finished {e : Ending} (hl : s.loop = .finished e)
  | dropped (hl : s.loop = .dropped)
  | peer (hl : s.loop = .reading) (hr : Reader.read c.framing c.limit s.inbound = none)
  | gate {h : Handler} {g : String} {a : Answer Json} (hh : h ∈ s.handlers)
      (hs : h.stage = .held g a) (hg : g ∉ s.permits)

/-- Nobody waits for a slot or at the barrier once all handlers are gone. -/
theorem stuck_of_idle {c : Setup} {s : Session} (hc : s.barrier.count = 0)
    (hs : Supplied c s) (hslots : c.server.slots ≠ some 0) (hh : s.handlers = [])
    (hst : stepLoop c s = none) : Stuck c s := by
  unfold stepLoop at hst
  cases hl : s.loop with
  | finished e => exact .finished hl
  | dropped => exact .dropped hl
  | reading =>
    cases hr : Reader.read c.framing c.limit s.inbound with
    | none => exact .peer hl hr
    | some r => simp [hl, hr] at hst
  | checking => cases hp : s.phase.stop? <;> simp [hl, hp] at hst
  | holding e =>
    have hsl := hs.slots
    rw [hl, hh] at hsl
    match hf : s.free with
    | some 0 => exact absurd (by rw [← hsl, hf]; rfl) hslots
    | none => simp [hl, hf] at hst
    | some (n + 1) => simp [hl, hf] at hst
  | draining e =>
    cases hw : s.barrier.waiter with
    | parked woken =>
      cases woken with
      | true => simp [hl, Barrier.wait, hw] at hst
      | false =>
        have hn := hs.notifying
        rw [hh] at hn
        rcases hs.parked hw with h | h
        · omega
        · simp [hn] at h
    | through =>
      rcases hs.through hw with h | h <;> rw [hl] at h <;> cases h
    | away | enabled => simp [hl, Barrier.wait, hw] at hst
  | rejecting | starting | closing | marking => simp [hl] at hst

theorem stuck_of_rest {c : Setup} {s : Session} {as : List Action} {es : List Effect}
    (h : run c (start c) as = some (es, s)) (hslots : c.server.slots ≠ some 0)
    (hr : ∀ m, s.step c m = none) : Stuck c s := by
  cases hh : s.handlers with
  | nil =>
    have hc := (closing_of_run h).counted
    rw [hh] at hc
    exact stuck_of_idle hc (supplied_of_run h) hslots hh (hr .loop)
  | cons x hs =>
    have hx : stepHandler c s 0 x = none := by
      have := hr (.handler 0)
      simpa [step, hh] using this
    obtain ⟨g, a, hst, hg⟩ := held_of_stuck hx
    exact .gate (by simp [hh]) hst hg

end Session

end ContextServer
