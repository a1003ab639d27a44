import Mathlib.Data.List.Perm.Basic
import ContextServer.Proofs.Session.Barrier
import ContextServer.Proofs.Session.Transition

/-!
How a session closes. One invariant ties the barrier to the handlers that are still at work, the
phase to the read loop and to the first request to stop, and the shutting down of the stream to
the place where the loop stands. It is kept by every transition, so it holds in every run,
whatever the peer, the providers and the owners of the session do.
-/

namespace ContextServer

/-- The barrier counts a handler until it has left it. -/
def Stage.isCounted : Stage → Bool
  | .notifying | .releasing => false
  | _ => true

/-- The ending that a read brings about by itself. -/
def Reading.ending? : Reading → Option Ending
  | ended => some .normal
  | failed cause => some (.failed cause)
  | _ => none

namespace Loop

/-- Whether the loop is through the barrier. -/
def isDrained : Loop → Bool
  | closing _ | marking _ | finished _ => true
  | _ => false

/-- Whether the loop has shut the stream down. -/
def hasShutDown : Loop → Bool
  | marking _ | finished _ => true
  | _ => false

/-- The ending that the loop is on its way to. -/
def ending? : Loop → Option Ending
  | draining e | closing e | marking e | finished e => some e
  | _ => none

theorem isDrained_of_hasShutDown {l : Loop} (h : l.hasShutDown = true) : l.isDrained = true := by
  cases l with
  | marking | finished => rfl
  | _ => cases h

end Loop

/-- What a handler brings about: a call, a write that may fail, or a line of the log. -/
def Effect.isHandlers : Effect → Bool
  | called _ | wrote _ | lost _ | logged _ => true
  | _ => false

namespace Session

/-- The request to stop that an action makes, as the phase that it asks for. -/
def Action.request? : Action → Option Phase
  | .command .requestClose => some .closeRequested
  | .command (.cancel reason) => some (.cancelled reason)
  | .move .interrupt => some (.cancelled interruptReason)
  | _ => none

def firstRequest? (as : List Action) : Option Phase := as.findSome? Action.request?

/-- What an ending needs to have come before it. -/
def Justified (as : List Action) (es : List Effect) : Ending → Prop
  | .normal => .read .ended ∈ es ∨ firstRequest? as = some .closeRequested
  | .cancelled reason => firstRequest? as = some (.cancelled reason)
  | .failed cause => .read (.failed cause) ∈ es

/-- What holds of a session after the actions `as` with the effects `es`. -/
structure Closing (c : Setup) (as : List Action) (es : List Effect) (s : Session) : Prop where
  counted : s.barrier.count = s.handlers.countP (·.stage.isCounted)
  drained : s.loop.isDrained = true → s.barrier.count = 0
  closed : s.phase = .closed ↔ ∃ e, s.loop = .finished e
  phase : s.phase ≠ .closed → s.phase = (firstRequest? as).getD .running
  unshut : s.loop.hasShutDown = false → .shutDown ∉ es
  shut : s.loop.hasShutDown = true → ∃ before, es = before ++ [.shutDown] ∧ .shutDown ∉ before
  ending : ∀ e, s.loop.ending? = some e → Justified as es e
  unwatched : c.grace = none → s.watch = .absent

theorem firstRequest?_append (as bs : List Action) :
    firstRequest? (as ++ bs) = (firstRequest? as).or (firstRequest? bs) :=
  List.findSome?_append

/-- More actions and more effects take no justification away. -/
theorem Justified.mono {as : List Action} {es : List Effect} {e : Ending}
    (h : Justified as es e) (bs : List Action) (fs : List Effect) :
    Justified (as ++ bs) (es ++ fs) e := by
  cases e with
  | normal =>
    rcases h with h | h
    · exact .inl (List.mem_append_left fs h)
    · exact .inr (by rw [firstRequest?_append, h]; rfl)
  | cancelled reason =>
    simp only [Justified] at h ⊢
    rw [firstRequest?_append, h]
    rfl
  | failed cause => exact List.mem_append_left fs h

/-! ### What a handler keeps -/

@[simp] theorem isCounted_answered (e : Envelope) (a : Answer Json) :
    (answered e a).isCounted = true := by
  unfold answered
  split
  · rfl
  · split <;> rfl

@[simp] theorem isCounted_planned (d : Dispatcher) (e : Envelope) :
    (planned d e).isCounted = true := by
  unfold planned
  split <;> rfl

@[simp] theorem isCounted_consulted (e : Envelope) (p : Promise Json) :
    (consulted e p).isCounted = true := by
  unfold consulted
  split
  · rfl
  · exact isCounted_answered e p.answer

@[simp] theorem isCounted_concluded (e : Envelope) (r : Except ErrorObject Json) :
    (concluded e r).isCounted = true := by
  unfold concluded
  split <;> rfl

theorem handlers_perm {s : Session} {i : Nat} {h : Handler} (hi : s.handlers[i]? = some h) :
    s.handlers.Perm (h :: s.handlers.eraseIdx i) := by
  obtain ⟨hlt, rfl⟩ := List.getElem?_eq_some_iff.mp hi
  exact (List.getElem_cons_eraseIdx_perm hlt).symm

theorem handlers_setStage_perm {s : Session} {i : Nat} {h : Handler}
    (hi : s.handlers[i]? = some h) (st : Stage) :
    (s.setStage i h st).handlers.Perm ({ h with stage := st } :: s.handlers.eraseIdx i) := by
  obtain ⟨hlt, -⟩ := List.getElem?_eq_some_iff.mp hi
  exact List.set_perm_cons_eraseIdx hlt _

/-- A handler leaves alone what belongs to the loop and to the supervisor. -/
theorem HandlerStep.frame {c : Setup} {s t : Session} {i : Nat} {h : Handler} {es : List Effect}
    (hs : HandlerStep c s i h es t) :
    t.loop = s.loop ∧ t.phase = s.phase ∧ t.inbound = s.inbound ∧ t.outlet = s.outlet ∧
      t.watch = s.watch ∧ t.interrupted = s.interrupted ∧ t.clock = s.clock := by
  cases hs <;> exact ⟨rfl, rfl, rfl, rfl, rfl, rfl, rfl⟩

/-- A handler that has left the barrier does nothing more that anybody sees. -/
theorem HandlerStep.isCounted_of_effect {c : Setup} {s t : Session} {i : Nat} {h : Handler}
    {es : List Effect} (hs : HandlerStep c s i h es t) (he : es ≠ []) :
    h.stage.isCounted = true := by
  cases hs with
  | plan hs | pass hs _ | leave hs | notify hs | release hs => exact absurd rfl he
  | negotiate hs | consult hs | conclude hs | reply hs => rw [hs]; rfl

theorem isHandlers_write (s : Session) (e : Envelope) : (s.write e).isHandlers = true := by
  unfold write
  split <;> rfl

theorem HandlerStep.isHandlers {c : Setup} {s t : Session} {i : Nat} {h : Handler}
    {es : List Effect} (hs : HandlerStep c s i h es t) : ∀ x ∈ es, x.isHandlers = true := by
  intro x hx
  cases hs with
  | plan | pass | leave | notify | release => simp at hx
  | negotiate =>
    split at hx <;> simp at hx
    rw [hx]; rfl
  | consult => simp at hx; rw [hx]; rfl
  | conclude =>
    obtain ⟨event, -, rfl⟩ := List.mem_map.mp hx
    rfl
  | reply =>
    split at hx <;> simp at hx
    rw [hx]
    exact isHandlers_write s _

theorem countP_setStage {s : Session} {i : Nat} {h : Handler} (hi : s.handlers[i]? = some h)
    (st : Stage) (p : Stage → Bool) :
    (s.setStage i h st).handlers.countP (p ·.stage) + (if p h.stage then 1 else 0) =
      s.handlers.countP (p ·.stage) + if p st then 1 else 0 := by
  have hs := (handlers_perm hi).countP_eq (p ·.stage)
  have ht := (handlers_setStage_perm hi st).countP_eq (p ·.stage)
  simp only [List.countP_cons] at hs ht
  omega

theorem countP_eraseIdx {s : Session} {i : Nat} {h : Handler} (hi : s.handlers[i]? = some h)
    (p : Stage → Bool) :
    (s.handlers.eraseIdx i).countP (p ·.stage) + (if p h.stage then 1 else 0) =
      s.handlers.countP (p ·.stage) := by
  have hs := (handlers_perm hi).countP_eq (p ·.stage)
  simp only [List.countP_cons] at hs
  omega

/-- A step from one stage before the barrier to another leaves the barrier's count right. -/
theorem countP_setStage_of_isCounted {s : Session} {i : Nat} {h : Handler}
    (hi : s.handlers[i]? = some h) {st : Stage} (hh : h.stage.isCounted = true)
    (hst : st.isCounted = true) :
    (s.setStage i h st).handlers.countP (·.stage.isCounted) =
      s.handlers.countP (·.stage.isCounted) := by
  have hn := countP_setStage hi st Stage.isCounted
  rw [hh, hst] at hn
  omega

/-- The barrier goes on counting the handlers that have not left it. -/
theorem HandlerStep.counted {c : Setup} {s t : Session} {i : Nat} {h : Handler}
    {es : List Effect} (hs : HandlerStep c s i h es t) (hi : s.handlers[i]? = some h)
    (hc : s.barrier.count = s.handlers.countP (·.stage.isCounted)) :
    t.barrier.count = t.handlers.countP (·.stage.isCounted) ∧
      t.barrier.count ≤ s.barrier.count := by
  have stay {st : Stage} (hh : h.stage.isCounted = true) (hst : st.isCounted = true) :
      s.barrier.count = (s.setStage i h st).handlers.countP (·.stage.isCounted) := by
    rw [countP_setStage_of_isCounted hi hh hst]
    exact hc
  cases hs with
  | plan hs => exact ⟨stay (by rw [hs]; rfl) (isCounted_planned _ _), Nat.le_refl _⟩
  | negotiate hs => exact ⟨stay (by rw [hs]; rfl) rfl, Nat.le_refl _⟩
  | consult hs => exact ⟨stay (by rw [hs]; rfl) (isCounted_consulted _ _), Nat.le_refl _⟩
  | pass hs => exact ⟨stay (by rw [hs]; rfl) (isCounted_answered _ _), Nat.le_refl _⟩
  | conclude hs => exact ⟨stay (by rw [hs]; rfl) (isCounted_concluded _ _), Nat.le_refl _⟩
  | reply hs => exact ⟨stay (by rw [hs]; rfl) rfl, Nat.le_refl _⟩
  | leave hs =>
    have hst : (if s.barrier.isLast then Stage.notifying else .releasing).isCounted = false := by
      split <;> rfl
    have hn := countP_setStage (s := s) hi
      (if s.barrier.isLast then .notifying else .releasing) Stage.isCounted
    have hh : h.stage.isCounted = true := by rw [hs]; rfl
    rw [hst, hh] at hn
    refine ⟨?_, Nat.sub_le _ _⟩
    show s.barrier.count - 1 = _
    simp only [setStage] at hn ⊢
    simp only [Bool.false_eq_true, if_false, if_true] at hn
    omega
  | notify hs =>
    have hn := countP_setStage hi .releasing Stage.isCounted
    rw [hs] at hn
    exact ⟨hc.trans hn.symm, Nat.le_refl _⟩
  | release hs =>
    have hn := countP_eraseIdx hi Stage.isCounted
    rw [hs] at hn
    exact ⟨hc.trans hn.symm, Nat.le_refl _⟩

/-! ### What a request to stop does -/

theorem request?_ne {a : Action} {p : Phase} (h : a.request? = some p) :
    p ≠ .running ∧ p ≠ .closed := by
  unfold Action.request? at h
  split at h <;> simp only [Option.some.injEq, reduceCtorEq] at h <;> subst h <;>
    exact ⟨nofun, nofun⟩

theorem firstRequest?_ne_running {as : List Action} : firstRequest? as ≠ some .running := by
  intro h
  obtain ⟨a, -, ha⟩ := List.exists_of_findSome?_eq_some h
  exact (request?_ne ha).1 rfl

theorem firstRequest?_snoc_of_none {a : Action} (ha : a.request? = none) (as : List Action) :
    firstRequest? (as ++ [a]) = firstRequest? as := by
  rw [firstRequest?_append]
  simp [firstRequest?, ha]

/-- Only the first request moves a session, and none moves a closed one. -/
theorem phase_request {as : List Action} {a : Action} {p q : Phase} (ha : a.request? = some q)
    (h : p ≠ .closed → p = (firstRequest? as).getD .running) :
    (p.request q = .closed ↔ p = .closed) ∧
      (p.request q ≠ .closed → p.request q = (firstRequest? (as ++ [a])).getD .running) := by
  have hq : firstRequest? [a] = some q := by simp [firstRequest?, ha]
  rw [firstRequest?_append, hq]
  by_cases hp : p = .running
  · subst hp
    have hn : firstRequest? as = none := by
      cases hf : firstRequest? as with
      | none => rfl
      | some r =>
        have hr := h (by decide)
        rw [hf, Option.getD_some] at hr
        exact absurd (hr ▸ hf) firstRequest?_ne_running
    rw [Phase.request_running, hn]
    exact ⟨⟨fun hc => absurd hc (request?_ne ha).2, nofun⟩, fun _ => rfl⟩
  · rw [Phase.request_of_ne_running hp]
    refine ⟨Iff.rfl, fun hc => ?_⟩
    have hf := h hc
    cases hr : firstRequest? as with
    | none => exact absurd (by rw [hf, hr]; rfl) hp
    | some r => rw [hf, hr]; rfl

/-! ### The invariant -/

theorem closing_start (c : Setup) : Closing c [] [] (start c) where
  counted := rfl
  drained := nofun
  closed := ⟨nofun, nofun⟩
  phase _ := rfl
  unshut _ := List.not_mem_nil
  shut := nofun
  ending := nofun
  unwatched h := by simp [start, h]

theorem shutDown_notMem_of_isHandlers {fs : List Effect}
    (h : ∀ x ∈ fs, x.isHandlers = true) : Effect.shutDown ∉ fs :=
  fun hm => absurd (h _ hm) Bool.false_ne_true

theorem closing_handler {c : Setup} {as : List Action} {es fs : List Effect} {s t : Session}
    {i : Nat} {h : Handler} (hc : Closing c as es s) (hi : s.handlers[i]? = some h)
    (hs : HandlerStep c s i h fs t) :
    Closing c (as ++ [.move (.handler i)]) (es ++ fs) t := by
  obtain ⟨hloop, hphase, -, -, hwatch, -, -⟩ := hs.frame
  obtain ⟨hcount, hle⟩ := hs.counted hi hc.counted
  have hns := shutDown_notMem_of_isHandlers hs.isHandlers
  constructor
  · exact hcount
  · intro hl
    rw [hloop] at hl
    have := hc.drained hl
    omega
  · rw [hphase, hloop]
    exact hc.closed
  · rw [hphase, firstRequest?_snoc_of_none rfl]
    exact hc.phase
  · intro hl
    rw [hloop] at hl
    simp [hc.unshut hl, hns]
  · intro hl
    rw [hloop] at hl
    -- behind the barrier no handler is left that could bring anything about
    have hzero := hc.counted ▸ hc.drained (Loop.isDrained_of_hasShutDown hl)
    have hfs : fs = [] := by
      by_contra hne
      have := List.countP_eq_zero.mp hzero h (List.mem_of_getElem? hi)
      exact this (hs.isCounted_of_effect hne)
    rw [hfs, List.append_nil]
    exact hc.shut hl
  · intro e he
    rw [hloop] at he
    exact (hc.ending e he).mono _ _
  · intro hg
    rw [hwatch]
    exact hc.unwatched hg

theorem ending?_afterReading (r : Reading) : (afterReading r).ending? = r.ending? := by
  cases r with
  | malformed cause =>
    simp only [afterReading]
    split <;> rfl
  | _ => rfl

theorem isDrained_afterReading (r : Reading) : (afterReading r).isDrained = false := by
  apply afterReading_elim (p := (·.isDrained = false)) <;> simp [Loop.isDrained]

/-- Up to the barrier the loop neither marks the session closed nor shuts its stream down. -/
theorem closing_before_barrier {c : Setup} {as : List Action} {es fs : List Effect}
    {s t : Session} {l : Loop} (hc : Closing c as es s) (hs : s.loop.isDrained = false)
    (hl : t.loop = l) (hd : l.isDrained = false) (hp : t.phase = s.phase)
    (hw : t.watch = s.watch) (hf : .shutDown ∉ fs)
    (hcount : t.barrier.count = t.handlers.countP (·.stage.isCounted))
    (he : ∀ e, l.ending? = some e → Justified (as ++ [.move .loop]) (es ++ fs) e) :
    Closing c (as ++ [.move .loop]) (es ++ fs) t where
  counted := hcount
  drained h := by rw [hl, hd] at h; cases h
  closed := by
    rw [hp, hc.closed, hl]
    constructor
    · rintro ⟨e, he⟩
      rw [he] at hs
      cases hs
    · rintro ⟨e, rfl⟩
      cases hd
  phase := by
    rw [hp, firstRequest?_snoc_of_none rfl]
    exact hc.phase
  unshut _ := by
    have := hc.unshut (Bool.eq_false_iff.mpr fun h => by
      rw [Loop.isDrained_of_hasShutDown h] at hs
      cases hs)
    simp [this, hf]
  shut h := by
    rw [hl] at h
    rw [Loop.isDrained_of_hasShutDown h] at hd
    cases hd
  ending e h := he e (hl ▸ h)
  unwatched h := hw.trans (hc.unwatched h)

/-- Where the phase has the loop stop, a request has been made that justifies it. -/
theorem Closing.justified_of_stop? {c : Setup} {as : List Action} {es : List Effect}
    {s : Session} {e : Ending} (hc : Closing c as es s) (hl : s.loop = .checking)
    (hp : s.phase.stop? = some e) : Justified as es e := by
  have hne : s.phase ≠ .closed := by
    rw [ne_eq, hc.closed, hl]
    rintro ⟨_, he⟩
    cases he
  have hph := hc.phase hne
  cases hf : firstRequest? as with
  | none =>
    rw [hph, hf] at hp
    cases hp
  | some p =>
    rw [hf, Option.getD_some] at hph
    rw [hph] at hp hne
    cases p with
    | running => cases hp
    | closeRequested =>
      cases hp
      exact .inr hf
    | cancelled reason =>
      cases hp
      exact hf
    | closed => exact absurd rfl hne

theorem write_ne_shutDown (s : Session) (e : Envelope) : Effect.shutDown ∉ [s.write e] :=
  shutDown_notMem_of_isHandlers (by simp [isHandlers_write])

theorem closing_loop {c : Setup} {as : List Action} {es fs : List Effect} {s t : Session}
    (hc : Closing c as es s) (hs : LoopStep c s fs t) :
    Closing c (as ++ [.move .loop]) (es ++ fs) t := by
  cases hs with
  | @stop e hl hp =>
    refine closing_before_barrier hc (by rw [hl]; rfl) rfl rfl rfl rfl (by simp) hc.counted ?_
    intro e' he
    cases he
    exact (hc.justified_of_stop? hl hp).mono _ _
  | resume hl =>
    exact closing_before_barrier hc (by rw [hl]; rfl) rfl rfl rfl rfl (by simp) hc.counted nofun
  | @read r rest hl hr =>
    refine closing_before_barrier hc (by rw [hl]; rfl) rfl (isDrained_afterReading r) rfl rfl
      (by simp) hc.counted ?_
    intro e he
    have he : (afterReading r).ending? = some e := he
    rw [ending?_afterReading] at he
    cases r with
    | ended =>
      cases he
      exact .inl (by simp)
    | failed cause =>
      cases he
      simp [Justified]
    | envelope | malformed => cases he
  | reject hl =>
    exact closing_before_barrier hc (by rw [hl]; rfl) rfl rfl rfl rfl (write_ne_shutDown s _)
      hc.counted nofun
  | grant hl =>
    exact closing_before_barrier hc (by rw [hl]; rfl) rfl rfl rfl rfl (by simp) hc.counted nofun
  | spawn hl =>
    refine closing_before_barrier hc (by rw [hl]; rfl) rfl rfl rfl rfl (by simp) ?_ nofun
    simp [Barrier.enter, hc.counted, Stage.isCounted]
  | @wait e b hl hb hw =>
    refine closing_before_barrier hc (by rw [hl]; rfl) hl rfl rfl rfl (by simp)
      ((Barrier.count_wait hb).1.trans hc.counted) ?_
    intro e' he
    exact (hc.ending e' (hl ▸ he)).mono _ _
  | @pass e b hl hb hw =>
    obtain ⟨hcount, hzero⟩ := Barrier.count_wait hb
    exact
      { counted := hcount.trans hc.counted
        drained := fun _ => hcount.trans (hzero hw)
        closed := by simp [hc.closed, hl]
        phase := by rw [firstRequest?_snoc_of_none rfl]; exact hc.phase
        unshut := fun _ => by simpa using hc.unshut (by rw [hl]; rfl)
        shut := nofun
        ending := fun e' he => (hc.ending e' (hl ▸ he)).mono _ _
        unwatched := hc.unwatched }
  | @close e hl =>
    exact
      { counted := hc.counted
        drained := fun _ => hc.drained (by rw [hl]; rfl)
        closed := by simp [hc.closed, hl]
        phase := by rw [firstRequest?_snoc_of_none rfl]; exact hc.phase
        unshut := nofun
        shut := fun _ => ⟨es, rfl, hc.unshut (by rw [hl]; rfl)⟩
        ending := fun e' he => (hc.ending e' (hl ▸ he)).mono _ _
        unwatched := hc.unwatched }
  | @mark e hl =>
    exact
      { counted := hc.counted
        drained := fun _ => hc.drained (by rw [hl]; rfl)
        closed := by simp
        phase := fun h => absurd rfl h
        unshut := nofun
        shut := fun _ => by simpa using hc.shut (by rw [hl]; rfl)
        ending := fun e' he => (hc.ending e' (hl ▸ he)).mono _ _
        unwatched := hc.unwatched }

/-- Outside the loop and the handlers only a request to stop and a supervisor matter. -/
theorem closing_aside {c : Setup} {as : List Action} {es : List Effect} {s t : Session}
    {a : Action} (hc : Closing c as es s) (hb : t.barrier = s.barrier)
    (hh : t.handlers = s.handlers) (hl : t.loop = s.loop)
    (hp : t.phase = (a.request?).elim s.phase s.phase.request)
    (hw : c.grace = none → t.watch = s.watch) :
    Closing c (as ++ [a]) (es ++ []) t := by
  rw [List.append_nil]
  have hphase : (t.phase = .closed ↔ s.phase = .closed) ∧
      (t.phase ≠ .closed → t.phase = (firstRequest? (as ++ [a])).getD .running) := by
    rw [hp]
    cases ha : a.request? with
    | none =>
      rw [firstRequest?_snoc_of_none ha]
      exact ⟨Iff.rfl, hc.phase⟩
    | some q => exact phase_request ha hc.phase
  exact
    { counted := by rw [hb, hh]; exact hc.counted
      drained := by rw [hb, hl]; exact hc.drained
      closed := by rw [hphase.1, hl]; exact hc.closed
      phase := hphase.2
      unshut := by rw [hl]; exact hc.unshut
      shut := by rw [hl]; exact hc.shut
      ending := fun e he => by simpa using (hc.ending e (hl ▸ he)).mono [a] []
      unwatched := fun hg => (hw hg).trans (hc.unwatched hg) }

theorem closing_drop {c : Setup} {as : List Action} {es : List Effect} {s : Session}
    (hc : Closing c as es s) (hl : s.loop.isSuspended = true) :
    Closing c (as ++ [.move .drop]) (es ++ []) { s with loop := .dropped } where
  counted := hc.counted
  drained := nofun
  closed := by
    rw [hc.closed]
    constructor
    · rintro ⟨e, he⟩
      rw [he] at hl
      cases hl
    · rintro ⟨e, he⟩
      cases he
  phase := by rw [firstRequest?_snoc_of_none rfl]; exact hc.phase
  unshut _ := by
    rw [List.append_nil]
    refine hc.unshut ?_
    cases h : s.loop <;> simp_all [Loop.isSuspended, Loop.hasShutDown]
  shut := nofun
  ending := nofun
  unwatched := hc.unwatched

theorem closing_next {c : Setup} {as : List Action} {es fs : List Effect} {s t : Session}
    {a : Action} (hc : Closing c as es s) (ht : Transition c s a fs t) :
    Closing c (as ++ [a]) (es ++ fs) t := by
  cases ht with
  | loop hs => exact closing_loop hc hs
  | handler hi hs => exact closing_handler hc hi hs
  | join hl hw => exact closing_aside hc rfl rfl rfl rfl fun hg => absurd (hc.unwatched hg) hw
  | interrupt hw =>
    exact closing_aside hc rfl rfl rfl rfl fun hg => by simp [hc.unwatched hg] at hw
  | expire hw =>
    exact closing_aside hc rfl rfl rfl rfl fun hg => by simp [hc.unwatched hg] at hw
  | drop hw hl => exact closing_drop hc hl
  | @command k => cases k <;> exact closing_aside hc rfl rfl rfl rfl fun _ => rfl

theorem closing_of_run {c : Setup} {as : List Action} {es : List Effect} {s : Session}
    (h : run c (start c) as = some (es, s)) : Closing c as es s :=
  run_induction (closing_start c) (fun _ _ _ _ _ _ _ hc ht => closing_next hc ht) h

/-! ### The order of the end -/

/-- How a session ends, seen after the actions `as` with the effects `es`. -/
structure EndsInOrder (c : Setup) (as : List Action) (es : List Effect) (s : Session) :
    Prop where
  /-- The stream is shut down once at most, and nothing happens after that. -/
  last : .shutDown ∈ es → ∃ before, es = before ++ [.shutDown] ∧ .shutDown ∉ before
  /-- It is shut down when the loop has stopped reading and every handler is done. -/
  idle : ∀ a fs t, act c s a = some (fs, t) → .shutDown ∈ fs →
    (∃ e, s.loop = .closing e) ∧ s.barrier.count = 0 ∧
      ∀ h ∈ s.handlers, h.stage.isCounted = false
  /-- The session returns after that, closed, and with an ending that has its reason. -/
  returned : ∀ e, s.loop = .finished e →
    .shutDown ∈ es ∧ s.phase = .closed ∧ Justified as es e
  /-- Without a supervisor its owner learns of nothing else. -/
  told : c.grace = none → ∀ e, s.ending? = some e → s.loop = .finished e
  closed : s.isClosed = true → .shutDown ∈ es
  stays : s.isClosed = true → ∀ bs fs t, run c s bs = some (fs, t) → t.isClosed = true
  /-- The first request to stop decides the phase, and later ones change nothing. -/
  first : s.phase ≠ .closed → s.phase = (firstRequest? as).getD .running
  moved : ∀ a fs t, act c s a = some (fs, t) → t.phase ≠ s.phase →
    (s.phase = .running ∧ a.request? = some t.phase) ∨
      (t.phase = .closed ∧ ∃ e, s.loop = .marking e)

theorem Transition.phase {c : Setup} {s t : Session} {a : Action} {fs : List Effect}
    (h : Transition c s a fs t) :
    t.phase = (a.request?).elim s.phase s.phase.request ∨
      (t.phase = .closed ∧ ∃ e, s.loop = .marking e) := by
  cases h with
  | loop hs =>
    cases hs with
    | mark hl => exact .inr ⟨rfl, _, hl⟩
    | _ => exact .inl rfl
  | handler hi hs => exact .inl hs.frame.2.1
  | command =>
    rename_i k
    cases k <;> exact .inl rfl
  | _ => exact .inl rfl

theorem Transition.isClosed {c : Setup} {s t : Session} {a : Action} {fs : List Effect}
    (h : Transition c s a fs t) (hs : s.phase = .closed) : t.phase = .closed := by
  rcases h.phase with hp | hp
  · rw [hp, hs]
    cases a.request? <;> rfl
  · exact hp.1

theorem Transition.moved {c : Setup} {s t : Session} {a : Action} {fs : List Effect}
    (h : Transition c s a fs t) (hne : t.phase ≠ s.phase) :
    (s.phase = .running ∧ a.request? = some t.phase) ∨
      (t.phase = .closed ∧ ∃ e, s.loop = .marking e) := by
  refine h.phase.imp_left fun hp => ?_
  cases ha : a.request? with
  | none =>
    rw [ha] at hp
    exact absurd hp hne
  | some q =>
    rw [ha, Option.elim_some] at hp
    by_cases hr : s.phase = .running
    · rw [hr, Phase.request_running] at hp
      exact ⟨hr, by rw [hp]⟩
    · rw [Phase.request_of_ne_running hr] at hp
      exact absurd hp hne

/-- Only the loop shuts the stream down, and only on its way out. -/
theorem Transition.closing_of_shutDown {c : Setup} {s t : Session} {a : Action}
    {fs : List Effect} (h : Transition c s a fs t) (hm : .shutDown ∈ fs) :
    ∃ e, s.loop = .closing e := by
  cases h with
  | loop hs =>
    cases hs with
    | close hl => exact ⟨_, hl⟩
    | reject => exact absurd hm (write_ne_shutDown s _)
    | _ => simp at hm
  | handler hi hs => exact absurd hm (shutDown_notMem_of_isHandlers hs.isHandlers)
  | _ => cases hm

theorem ends_in_order (c : Setup) {as : List Action} {es : List Effect} {s : Session}
    (h : run c (start c) as = some (es, s)) : EndsInOrder c as es s := by
  have hc := closing_of_run h
  have shut_of {e : Ending} (he : s.loop = .finished e) : .shutDown ∈ es := by
    obtain ⟨before, rfl, -⟩ := hc.shut (by rw [he]; rfl)
    simp
  have phase_of (hs : s.isClosed = true) : s.phase = .closed := by simpa [isClosed] using hs
  constructor
  · intro hm
    by_cases hl : s.loop.hasShutDown = true
    · exact hc.shut hl
    · exact absurd hm (hc.unshut (Bool.eq_false_iff.mpr hl))
  · intro a fs t ha hm
    obtain ⟨e, he⟩ := (transition_of_act ha).closing_of_shutDown hm
    have hzero := hc.drained (by rw [he]; rfl)
    have hnone := List.countP_eq_zero.mp (hc.counted ▸ hzero)
    exact ⟨⟨e, he⟩, hzero, fun h hh => Bool.eq_false_iff.mpr (hnone h hh)⟩
  · intro e he
    exact ⟨shut_of he, hc.closed.mpr ⟨e, he⟩, hc.ending e (by rw [he]; rfl)⟩
  · intro hg e he
    have hw := hc.unwatched hg
    unfold ending? at he
    cases hl : s.loop with
    | finished e' => simp_all
    | _ => simp [hw, hl] at he
  · intro hs
    obtain ⟨e, he⟩ := hc.closed.mp (phase_of hs)
    exact shut_of he
  · intro hs bs fs t ht
    have := run_induction (P := fun _ _ u => u.phase = .closed) (phase_of hs)
      (fun _ _ _ _ _ _ _ hu htr => htr.isClosed hu) ht
    simp [isClosed, this]
  · exact hc.phase
  · intro a fs t ha
    exact (transition_of_act ha).moved

/-- A session that is cancelled while it has a request at hand, then asked to close, and whose
stream fails on every occasion. -/
def cancelledAtWork : List Action :=
  let loop (n : Nat) : List Action := .replicate n (.move .loop)
  let work (n : Nat) : List Action := .replicate n (.move (.handler 0))
  loop 1 ++ [.command (.arrive pingLine)] ++ loop 2 ++
    [.command (.cancel "stop"), .command .requestClose] ++ loop 3 ++
    [.command .breakWriter] ++ work 2 ++ loop 1 ++ work 3 ++ loop 3 ++
    [.command .breakClose] ++ loop 2 ++ [.command .requestClose] ++ work 1

theorem ends_in_order_cancelledAtWork :
    ∃ es s, run (bare (some 1)) (start (bare (some 1))) cancelledAtWork = some (es, s) ∧
      s.ending? = some (.cancelled "stop") ∧
      EndsInOrder (bare (some 1)) cancelledAtWork es s := by
  obtain ⟨es, s, h, he⟩ := exists_of_run (c := bare (some 1)) (s := start (bare (some 1)))
    cancelledAtWork (p := fun _ s => s.ending? == some (.cancelled "stop"))
    (by decide +kernel)
  exact ⟨es, s, h, by simpa using he, ends_in_order _ h⟩

end Session

end ContextServer
