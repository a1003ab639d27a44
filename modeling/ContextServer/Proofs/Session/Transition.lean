import Mathlib.Data.List.Induction
import ContextServer.Session.Step

/-!
What an action does to a session, told once: `LoopStep` lists the steps of the read loop,
`HandlerStep` those of a handler, and `Transition` all actions, each under its condition. What is
proved of every run is proved of these cases first and then carried along the run by
`run_induction`.
-/

namespace ContextServer.Session

/-- The steps of the read loop. -/
inductive LoopStep (c : Setup) (s : Session) : List Effect → Session → Prop
  | stop {e : Ending} (hl : s.loop = .checking) (hp : s.phase.stop? = some e) :
      LoopStep c s [] { s with loop := .draining e }
  | resume (hl : s.loop = .checking) (hp : s.phase = .running) :
      LoopStep c s [] { s with loop := .reading }
  | read {r : Reading} {rest : Source} (hl : s.loop = .reading)
      (hr : Reader.read c.framing c.limit s.inbound = some (r, rest)) :
      LoopStep c s [.read r] { s with inbound := rest, loop := afterReading r }
  | reject {reply : Envelope} (hl : s.loop = .rejecting reply) :
      LoopStep c s [s.write reply] { s with loop := .checking }
  | grant {e : Envelope} (hl : s.loop = .holding e) (hf : s.free ≠ some 0) :
      LoopStep c s [] { s with free := s.free.map (· - 1), loop := .starting e }
  | spawn {e : Envelope} (hl : s.loop = .starting e) :
      LoopStep c s [.started e] { s with
        handlers := s.handlers ++ [⟨e, .arrived⟩]
        barrier := s.barrier.enter
        loop := .checking }
  | wait {e : Ending} {b : Barrier} (hl : s.loop = .draining e)
      (hb : s.barrier.wait = some b) (hw : b.waiter ≠ .through) :
      LoopStep c s [] { s with barrier := b }
  | pass {e : Ending} {b : Barrier} (hl : s.loop = .draining e)
      (hb : s.barrier.wait = some b) (hw : b.waiter = .through) :
      LoopStep c s [] { s with barrier := b, loop := .closing e }
  | close {e : Ending} (hl : s.loop = .closing e) :
      LoopStep c s [.shutDown] { s with outlet := s.outlet.close, loop := .marking e }
  | mark {e : Ending} (hl : s.loop = .marking e) :
      LoopStep c s [] { s with phase := .closed, loop := .finished e }

/-- What the four places have where a read can lead to, the loop has after the read. -/
theorem afterReading_elim {p : Loop → Prop} (r : Reading) (holding : ∀ e, p (.holding e))
    (rejecting : ∀ w, p (.rejecting w)) (checking : p .checking)
    (draining : ∀ e, p (.draining e)) : p (afterReading r) := by
  cases r with
  | envelope e => exact holding e
  | malformed cause =>
    simp only [afterReading]
    split
    · exact rejecting _
    · exact checking
  | ended => exact draining _
  | failed cause => exact draining _

theorem loopStep_of_stepLoop {c : Setup} {s t : Session} {es : List Effect}
    (h : stepLoop c s = some (es, t)) : LoopStep c s es t := by
  unfold stepLoop at h
  cases hl : s.loop with
  | checking =>
    rw [hl] at h
    cases hp : s.phase.stop? with
    | some e =>
      simp only [hp, Option.some.injEq, Prod.mk.injEq] at h
      obtain ⟨rfl, rfl⟩ := h
      exact .stop hl hp
    | none =>
      simp only [hp, Option.some.injEq, Prod.mk.injEq] at h
      obtain ⟨rfl, rfl⟩ := h
      exact .resume hl (by cases h : s.phase <;> simp_all [Phase.stop?])
  | reading =>
    rw [hl] at h
    cases hr : Reader.read c.framing c.limit s.inbound with
    | none => simp [hr] at h
    | some r =>
      simp only [hr, Option.some.injEq, Prod.mk.injEq] at h
      obtain ⟨rfl, rfl⟩ := h
      exact .read hl hr
  | rejecting reply =>
    simp only [hl, Option.some.injEq, Prod.mk.injEq] at h
    obtain ⟨rfl, rfl⟩ := h
    exact .reject hl
  | holding e =>
    rw [hl] at h
    match hf : s.free with
    | none =>
      simp only [hf, Option.some.injEq, Prod.mk.injEq] at h
      obtain ⟨rfl, rfl⟩ := h
      simpa [hf] using LoopStep.grant (c := c) hl (by simp [hf])
    | some 0 => simp [hf] at h
    | some (n + 1) =>
      simp only [hf, Option.some.injEq, Prod.mk.injEq] at h
      obtain ⟨rfl, rfl⟩ := h
      simpa [hf] using LoopStep.grant (c := c) hl (by simp [hf])
  | starting e =>
    simp only [hl, Option.some.injEq, Prod.mk.injEq] at h
    obtain ⟨rfl, rfl⟩ := h
    exact .spawn hl
  | draining e =>
    rw [hl] at h
    cases hb : s.barrier.wait with
    | none => simp [hb] at h
    | some b =>
      simp only [hb, Option.some.injEq, Prod.mk.injEq] at h
      obtain ⟨rfl, rfl⟩ := h
      by_cases hw : b.waiter = .through
      · rw [if_pos hw]
        exact .pass hl hb hw
      · rw [if_neg hw, ← hl]
        exact .wait hl hb hw
  | closing e =>
    simp only [hl, Option.some.injEq, Prod.mk.injEq] at h
    obtain ⟨rfl, rfl⟩ := h
    exact .close hl
  | marking e =>
    simp only [hl, Option.some.injEq, Prod.mk.injEq] at h
    obtain ⟨rfl, rfl⟩ := h
    exact .mark hl
  | finished e => simp [hl] at h
  | dropped => simp [hl] at h

/-- The stage after a call has been made whose answer is promised. -/
def consulted (e : Envelope) (p : Promise Json) : Stage :=
  match p.gate with
  | some g => .held g p.answer
  | none => answered e p.answer

/-- The stage after a result has been concluded. -/
def concluded (e : Envelope) (r : Except ErrorObject Json) : Stage :=
  match (Dispatcher.conclude e r).2 with
  | some reply => .replying reply
  | none => .leaving

/-- The steps of the handler `h`, which is handler number `i`. -/
inductive HandlerStep (c : Setup) (s : Session) (i : Nat) (h : Handler) :
    List Effect → Session → Prop
  | plan (hs : h.stage = .arrived) :
      HandlerStep c s i h [] (s.setStage i h (planned c.server.dispatcher h.envelope))
  | negotiate {p : InitializeParams} (hs : h.stage = .negotiating p) :
      HandlerStep c s i h
        (if s.initialized then [] else [.logged (Dispatcher.negotiated p)])
        ({ s with initialized := true }.setStage i h
          (.concluding (.ok c.server.dispatcher.greeting)))
  | consult {call : ProviderCall} (hs : h.stage = .consulting call) :
      HandlerStep c s i h [.called call]
        (s.setStage i h (consulted h.envelope (c.server.dispatcher.promise call)))
  | pass {g : String} {a : Answer Json} (hs : h.stage = .held g a) (hg : g ∈ s.permits) :
      HandlerStep c s i h [] ((s.takePermit g).setStage i h (answered h.envelope a))
  | conclude {r : Except ErrorObject Json} (hs : h.stage = .concluding r) :
      HandlerStep c s i h ((Dispatcher.conclude h.envelope r).1.map .logged)
        (s.setStage i h (concluded h.envelope r))
  | reply {e : Envelope} (hs : h.stage = .replying e) :
      HandlerStep c s i h (if isWritable e then [s.write e] else []) (s.setStage i h .leaving)
  | leave (hs : h.stage = .leaving) :
      HandlerStep c s i h [] ({ s with barrier := s.barrier.leave }.setStage i h
        (if s.barrier.isLast then .notifying else .releasing))
  | notify (hs : h.stage = .notifying) :
      HandlerStep c s i h []
        ({ s with barrier := s.barrier.notify }.setStage i h .releasing)
  | release (hs : h.stage = .releasing) :
      HandlerStep c s i h []
        { s with handlers := s.handlers.eraseIdx i, free := s.free.map (· + 1) }

theorem handlerStep_of_stepHandler {c : Setup} {s t : Session} {i : Nat} {h : Handler}
    {es : List Effect} (hst : stepHandler c s i h = some (es, t)) :
    HandlerStep c s i h es t := by
  unfold stepHandler at hst
  cases hs : h.stage with
  | held g a =>
    simp only [hs] at hst
    by_cases hg : g ∈ s.permits
    · simp only [if_pos hg, Option.some.injEq, Prod.mk.injEq] at hst
      obtain ⟨rfl, rfl⟩ := hst
      exact .pass hs hg
    · simp [if_neg hg] at hst
  | arrived =>
    simp only [hs, Option.some.injEq, Prod.mk.injEq] at hst
    obtain ⟨rfl, rfl⟩ := hst
    exact .plan hs
  | negotiating p =>
    simp only [hs, Option.some.injEq, Prod.mk.injEq] at hst
    obtain ⟨rfl, rfl⟩ := hst
    exact .negotiate hs
  | consulting call =>
    simp only [hs, Option.some.injEq, Prod.mk.injEq] at hst
    obtain ⟨rfl, rfl⟩ := hst
    exact .consult hs
  | concluding r =>
    simp only [hs, Option.some.injEq, Prod.mk.injEq] at hst
    obtain ⟨rfl, rfl⟩ := hst
    exact .conclude hs
  | replying e =>
    simp only [hs, Option.some.injEq, Prod.mk.injEq] at hst
    obtain ⟨rfl, rfl⟩ := hst
    exact .reply hs
  | leaving =>
    simp only [hs, Option.some.injEq, Prod.mk.injEq] at hst
    obtain ⟨rfl, rfl⟩ := hst
    exact .leave hs
  | notifying =>
    simp only [hs, Option.some.injEq, Prod.mk.injEq] at hst
    obtain ⟨rfl, rfl⟩ := hst
    exact .notify hs
  | releasing =>
    simp only [hs, Option.some.injEq, Prod.mk.injEq] at hst
    obtain ⟨rfl, rfl⟩ := hst
    exact .release hs

/-- All that an action can do. -/
inductive Transition (c : Setup) (s : Session) : Action → List Effect → Session → Prop
  | loop {es : List Effect} {t : Session} (hs : LoopStep c s es t) :
      Transition c s (.move .loop) es t
  | handler {i : Nat} {h : Handler} {es : List Effect} {t : Session}
      (hi : s.handlers[i]? = some h) (hs : HandlerStep c s i h es t) :
      Transition c s (.move (.handler i)) es t
  | join {e : Ending} (hl : s.loop = .finished e) (hw : s.watch ≠ .absent)
      (hr : ∀ e, s.watch ≠ .returned e) :
      Transition c s (.move .join) [] { s with watch := .returned e }
  | interrupt (hw : s.watch = .waiting) (hi : s.interrupted = true) :
      Transition c s (.move .interrupt) [] { s with
        phase := s.phase.request (.cancelled interruptReason)
        watch := .grace (s.clock + c.grace.getD 0) }
  | expire {deadline : Nat} (hw : s.watch = .grace deadline) (hl : ∀ e, s.loop ≠ .finished e) :
      Transition c s (.move .expire) []
        { s with watch := .returned (.cancelled interruptReason) }
  | drop {e : Ending} (hw : s.watch = .returned e) (hl : s.loop.isSuspended = true) :
      Transition c s (.move .drop) [] { s with loop := .dropped }
  | command {k : Command} : Transition c s (.command k) [] (s.obey k)

theorem transition_of_act {c : Setup} {s t : Session} {a : Action} {es : List Effect}
    (h : s.act c a = some (es, t)) : Transition c s a es t := by
  cases a with
  | command k =>
    simp only [act, Option.some.injEq, Prod.mk.injEq] at h
    obtain ⟨rfl, rfl⟩ := h
    exact .command
  | move m =>
    cases m with
    | loop => exact .loop (loopStep_of_stepLoop h)
    | handler i =>
      obtain ⟨x, hi, hx⟩ := Option.bind_eq_some_iff.mp h
      exact .handler hi (handlerStep_of_stepHandler hx)
    | join =>
      simp only [act, step, stepJoin] at h
      split at h <;> simp only [Option.some.injEq, Prod.mk.injEq, reduceCtorEq] at h
      · obtain ⟨rfl, rfl⟩ := h
        exact .join ‹_› (by simp [*]) (by simp [*])
      · obtain ⟨rfl, rfl⟩ := h
        exact .join ‹_› (by simp [*]) (by simp [*])
    | interrupt =>
      simp only [act, step, stepInterrupt] at h
      split at h
      · split at h <;> simp only [Option.some.injEq, Prod.mk.injEq, reduceCtorEq] at h
        obtain ⟨rfl, rfl⟩ := h
        exact .interrupt ‹_› ‹_›
      · cases h
    | expire =>
      simp only [act, step, stepExpire] at h
      split at h
      · cases h
      · rename_i hw hl
        split at h <;> simp only [Option.some.injEq, Prod.mk.injEq, reduceCtorEq] at h
        obtain ⟨rfl, rfl⟩ := h
        exact .expire hw fun e he => hl e he
      · cases h
    | drop =>
      simp only [act, step, stepDrop] at h
      split at h
      · split at h <;> simp only [Option.some.injEq, Prod.mk.injEq, reduceCtorEq] at h
        obtain ⟨rfl, rfl⟩ := h
        exact .drop ‹_› ‹_›
      · cases h

theorem run_nil (c : Setup) (s : Session) : run c s [] = some ([], s) := rfl

theorem run_cons (c : Setup) (s : Session) (a : Action) (as : List Action) :
    run c s (a :: as) =
      (act c s a).bind fun r => (run c r.2 as).map fun q => (r.1 ++ q.1, q.2) := by
  simp only [run, Option.bind_eq_bind, Option.pure_def]
  cases act c s a with
  | none => rfl
  | some r => cases h : run c r.2 as <;> simp [h]

theorem run_append (c : Setup) (s : Session) (as bs : List Action) :
    run c s (as ++ bs) =
      (run c s as).bind fun r => (run c r.2 bs).map fun q => (r.1 ++ q.1, q.2) := by
  induction as generalizing s with
  | nil => cases h : run c s bs <;> simp [run_nil, h]
  | cons a as ih =>
    rw [List.cons_append, run_cons, run_cons]
    cases act c s a with
    | none => rfl
    | some r =>
      rw [Option.bind_some, Option.bind_some, ih]
      cases run c r.2 as with
      | none => rfl
      | some q => cases h : run c q.2 bs <;> simp [h, List.append_assoc]

/-- Two runs, one after the other. -/
theorem run_trans {c : Setup} {s t u : Session} {as bs : List Action} {es fs : List Effect}
    (h : run c s as = some (es, t)) (h' : run c t bs = some (fs, u)) :
    run c s (as ++ bs) = some (es ++ fs, u) := by
  rw [run_append, h, Option.bind_some, h']
  rfl

/-- What holds at the start and is kept by every transition holds all along a run. The property
may speak of the actions taken so far and of what has happened so far. -/
theorem run_induction {c : Setup} {s t : Session} {as : List Action} {es : List Effect}
    {P : List Action → List Effect → Session → Prop} (start : P [] [] s)
    (next : ∀ as es t a fs u, run c s as = some (es, t) → P as es t → Transition c t a fs u →
      P (as ++ [a]) (es ++ fs) u)
    (h : run c s as = some (es, t)) : P as es t := by
  induction as using List.reverseRecOn generalizing es t with
  | nil =>
    simp only [run_nil, Option.some.injEq, Prod.mk.injEq] at h
    obtain ⟨rfl, rfl⟩ := h
    exact start
  | append_singleton as a ih =>
    rw [run_append] at h
    obtain ⟨r, hr, h⟩ := Option.bind_eq_some_iff.mp h
    obtain ⟨q, hq, h⟩ := Option.map_eq_some_iff.mp h
    rw [run_cons] at hq
    obtain ⟨p, hp, hq⟩ := Option.bind_eq_some_iff.mp hq
    simp only [run_nil, Option.map_some, Option.some.injEq] at hq
    subst hq
    simp only [List.append_nil, Prod.mk.injEq] at h
    obtain ⟨rfl, rfl⟩ := h
    exact next as r.1 r.2 a p.1 p.2 hr (ih hr) (transition_of_act hp)

/-- A run can be watched by evaluating a test of where it ends. -/
theorem exists_of_run {c : Setup} {s : Session} (as : List Action)
    {p : List Effect → Session → Bool}
    (h : (run c s as).any (fun r => p r.1 r.2) = true) :
    ∃ es t, run c s as = some (es, t) ∧ p es t = true := by
  cases hr : run c s as with
  | none =>
    rw [hr] at h
    cases h
  | some r =>
    rw [hr] at h
    exact ⟨r.1, r.2, rfl, h⟩

/-- A server without providers, on lines of at most a hundred bytes. -/
def bare (slots : Option Nat) : Setup :=
  ⟨⟨⟨⟨"bare", "1"⟩, .none⟩, slots⟩, .line, 100, none⟩

/-- The line of a request that asks for nothing. -/
def pingLine : List UInt8 :=
  Text.Utf8.encode "\x7b\"jsonrpc\":\"2.0\",\"id\":1,\"method\":\"ping\"\x7d\n".toList

end ContextServer.Session
