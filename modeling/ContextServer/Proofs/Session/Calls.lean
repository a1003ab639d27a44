import ContextServer.Proofs.Dispatch.Calls
import ContextServer.Proofs.Session.Outage
import ContextServer.Proofs.Session.Pending

/-!
The calls of a session. A handler makes the call that dispatching its envelope makes, in one of
its steps and in no other. So however the handlers are interleaved, the providers are called as
they would be for the envelopes one after the other, but for the order (`calls_of_run`).
-/

namespace ContextServer

open Dispatcher

/-- The call that a handler at this stage has still to make. -/
def Stage.calls (d : Dispatcher) (e : Envelope) : Stage → List ProviderCall
  | arrived => (d.dispatch false e).calls
  | consulting call => [call]
  | _ => []

def Handler.calls (d : Dispatcher) (h : Handler) : List ProviderCall := h.stage.calls d h.envelope

namespace Session

section Stages

variable (d : Dispatcher) (e : Envelope)

theorem calls_planned : (planned d e).calls d e = (d.dispatch false e).calls := by
  rw [calls_dispatch]
  unfold planned
  cases d.plan e <;> rfl

theorem calls_answered (a : Answer Json) : (answered e a).calls d e = [] := by
  unfold answered
  cases result? a with
  | some r => rfl
  | none => cases crashReply e <;> rfl

theorem calls_consulted (p : Promise Json) : (consulted e p).calls d e = [] := by
  unfold consulted
  cases p.gate with
  | none => exact calls_answered d e p.answer
  | some g => rfl

theorem calls_concluded (r : Except ErrorObject Json) : (concluded e r).calls d e = [] := by
  unfold concluded
  cases (conclude e r).2 <;> rfl

end Stages

theorem calls_append (es fs : List Effect) : calls (es ++ fs) = calls es ++ calls fs :=
  List.filterMap_append

theorem calls_map_logged (events : List Event) : calls (events.map .logged) = [] := by
  induction events with
  | nil => rfl
  | cons e es ih => exact ih

theorem calls_write (s : Session) (e : Envelope) : calls [s.write e] = [] := by
  unfold write
  split <;> rfl

variable {c : Setup} {s t : Session} {i : Nat} {h : Handler} {fs : List Effect}

theorem HandlerStep.calls (hs : HandlerStep c s i h fs t) :
    Advances (·.calls c.server.dispatcher) s t i h (calls fs) := by
  have own {st : Stage} (hst : h.stage = st) :
      st.calls c.server.dispatcher h.envelope = h.calls c.server.dispatcher := by
    rw [Handler.calls, hst]
  cases hs with
  | plan hs => exact .inl ⟨_, rfl, (calls_planned _ _).trans (own hs)⟩
  | negotiate hs =>
    refine .inl ⟨_, rfl, .trans ?_ (own hs)⟩
    split <;> rfl
  | consult hs =>
    refine .inl ⟨_, rfl, .trans ?_ (own hs)⟩
    exact congrArg ([_] ++ ·) (calls_consulted _ _ _)
  | pass hs hg => exact .inl ⟨_, rfl, (calls_answered _ _ _).trans (own hs)⟩
  | conclude hs =>
    refine .inl ⟨_, rfl, .trans ?_ (own hs)⟩
    rw [calls_map_logged]
    exact calls_concluded _ _ _
  | reply hs =>
    refine .inl ⟨_, rfl, .trans ?_ (own hs)⟩
    split
    · rw [calls_write]; rfl
    · rfl
  | leave hs =>
    refine .inl ⟨_, rfl, .trans ?_ (own hs)⟩
    split <;> rfl
  | notify hs => exact .inl ⟨_, rfl, own hs⟩
  | release hs => exact .inr ⟨rfl, own hs⟩

theorem Transition.calls_eq_nil {a : Action} (ht : Transition c s a fs t)
    (ha : ∀ i, a ≠ .move (.handler i)) : Session.calls fs = [] := by
  cases ht with
  | loop hs =>
    cases hs with
    | reject => exact calls_write s _
    | stop | resume | read | grant | spawn | wait | pass | close | mark => rfl
  | @handler i => exact absurd rfl (ha i)
  | join | interrupt | expire | drop | command => rfl

/-- The calls that have been made and those that are still to be made are those of the envelopes for
which handlers have been started. -/
theorem calls_of_run {as : List Action} {es : List Effect} (hr : run c s as = some (es, t)) :
    (calls es ++ t.pending (·.calls c.server.dispatcher)).Perm
      (s.pending (·.calls c.server.dispatcher) ++
        (started es).flatMap fun e => (c.server.dispatcher.dispatch false e).calls) := by
  refine run_induction (P := fun _ es t =>
    (calls es ++ t.pending (·.calls c.server.dispatcher)).Perm
      (s.pending (·.calls c.server.dispatcher) ++
        (started es).flatMap fun e => (c.server.dispatcher.dispatch false e).calls)) ?_ ?_ hr
  · exact .of_eq (List.append_nil _).symm
  · intro as es t a fs u _ ih ht
    rw [calls_append, started_append, List.flatMap_append]
    exact perm_next ih
      (ht.pending (fun _ => rfl) (fun _ _ hs => hs.calls) fun ha => ht.calls_eq_nil ha)

end Session

end ContextServer
