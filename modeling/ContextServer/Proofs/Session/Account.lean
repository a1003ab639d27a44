import Mathlib.Data.List.Perm.Basic
import ContextServer.Proofs.Dispatch.Replies
import ContextServer.Proofs.Session.Pending

/-!
The account of the replies. Every envelope that has been read is owed its reply until a handler
has written it, and each step of a session either leaves the debts as they are or pays one of
them. So at the end, when no handler is left, what has been written is what was owed, in some
order: the schedule has no say in it.
-/

namespace ContextServer

open Dispatcher

def Effect.written? : Effect → Option Envelope
  | wrote e => some e
  | _ => none

/-- The envelope of a write, whether it has come off or not. -/
def Effect.attempted? : Effect → Option Envelope
  | wrote e | lost e => some e
  | _ => none

/-- The reply that a handler at this stage has still to write. -/
def Stage.reply? (d : Dispatcher) (e : Envelope) : Stage → Option Envelope
  | arrived => (d.dispatch false e).reply
  | negotiating _ => (conclude e (.ok d.greeting)).2
  | consulting call => replyOf e (d.promise call).answer
  | held _ a => replyOf e a
  | concluding r => (conclude e r).2
  | replying r => some r
  | leaving | notifying | releasing => none

def Handler.owed (d : Dispatcher) (h : Handler) : List Envelope :=
  ((h.stage.reply? d h.envelope).filter Session.isWritable).toList

namespace Session

/-- What has been written to the peer, in order. -/
def written (es : List Effect) : List Envelope := es.filterMap Effect.written?

/-- What has been written to the peer or lost on the way, in order. -/
def attempted (es : List Effect) : List Envelope := es.filterMap Effect.attempted?

/-- The answer to one read. -/
def answers (d : Dispatcher) : Reading → List Envelope
  | .envelope e => ((d.dispatch false e).reply.filter isWritable).toList
  | .malformed cause => (cause.recoveredId.map invalidRequestReply).toList
  | _ => []

end Session

open Session

/-- What the loop has at hand and no handler has taken over. -/
def Loop.owed (d : Dispatcher) : Loop → List Envelope
  | rejecting reply => [reply]
  | holding e | starting e => answers d (.envelope e)
  | _ => []

namespace Session

def owed (d : Dispatcher) (s : Session) : List Envelope :=
  s.loop.owed d ++ s.handlers.flatMap (·.owed d)

section Stages

variable (d : Dispatcher) (e : Envelope)

@[simp] theorem reply?_planned : (planned d e).reply? d e = (d.dispatch false e).reply := by
  rw [reply_dispatch]
  unfold planned
  cases d.plan e <;> rfl

@[simp] theorem reply?_answered (a : Answer Json) : (answered e a).reply? d e = replyOf e a := by
  unfold answered replyOf
  cases result? a with
  | some r => rfl
  | none => cases crashReply e <;> rfl

@[simp] theorem reply?_consulted (p : Promise Json) :
    (consulted e p).reply? d e = replyOf e p.answer := by
  unfold consulted
  cases p.gate with
  | none => exact reply?_answered d e p.answer
  | some g => rfl

@[simp] theorem reply?_concluded (r : Except ErrorObject Json) :
    (concluded e r).reply? d e = (conclude e r).2 := by
  unfold concluded
  cases (conclude e r).2 <;> rfl

end Stages

@[simp] theorem written_append (es fs : List Effect) :
    written (es ++ fs) = written es ++ written fs := List.filterMap_append

@[simp] theorem attempted_append (es fs : List Effect) :
    attempted (es ++ fs) = attempted es ++ attempted fs := List.filterMap_append

theorem attempted_map_logged (events : List Event) : attempted (events.map .logged) = [] := by
  induction events with
  | nil => rfl
  | cons e es ih => exact ih

@[simp] theorem attempted_write (s : Session) (e : Envelope) : attempted [s.write e] = [e] := by
  unfold write
  split <;> rfl

/-- What is written is attempted, in the same order. -/
theorem written_sublist_attempted (es : List Effect) : (written es).Sublist (attempted es) := by
  induction es with
  | nil => exact .slnil
  | cons x es ih =>
    cases x with
    | wrote e => exact ih.cons_cons e
    | lost e => exact ih.cons e
    | _ => exact ih

theorem written_eq_attempted {es : List Effect} (h : ∀ e, .lost e ∉ es) :
    written es = attempted es := by
  refine List.filterMap_congr fun x hx => ?_
  cases x with
  | lost e => exact absurd hx (h e)
  | _ => rfl

theorem owed_of_stage {d : Dispatcher} {h : Handler} {st : Stage} (hs : h.stage = st) :
    h.owed d = ((st.reply? d h.envelope).filter isWritable).toList := by
  rw [Handler.owed, hs]

/-- A write pays what a handler owes, whether it comes off or not, and no other step changes that.
-/
theorem HandlerStep.pays {c : Setup} {s t : Session} {i : Nat} {h : Handler} {fs : List Effect}
    (hs : HandlerStep c s i h fs t) :
    Advances (·.owed c.server.dispatcher) s t i h (attempted fs) := by
  have goes (st : Stage) (hr : st.reply? c.server.dispatcher h.envelope =
      h.stage.reply? c.server.dispatcher h.envelope) :
      Handler.owed c.server.dispatcher ⟨h.envelope, st⟩ = h.owed c.server.dispatcher := by
    rw [Handler.owed, hr, Handler.owed]
  cases hs with
  | plan hs => exact .inl ⟨_, rfl, goes _ (by rw [hs, reply?_planned]; rfl)⟩
  | negotiate hs =>
    refine .inl ⟨_, rfl, .trans ?_ (goes (.concluding _) (by rw [hs]; rfl))⟩
    split <;> rfl
  | consult hs => exact .inl ⟨_, rfl, goes _ (by rw [hs, reply?_consulted]; rfl)⟩
  | pass hs hg => exact .inl ⟨_, rfl, goes _ (by rw [hs, reply?_answered]; rfl)⟩
  | conclude hs =>
    rw [attempted_map_logged]
    exact .inl ⟨_, rfl, goes _ (by rw [hs, reply?_concluded]; rfl)⟩
  | @reply e hs =>
    refine .inl ⟨_, rfl, .trans ?_ (owed_of_stage hs).symm⟩
    by_cases hw : isWritable e = true
    · simp [Handler.owed, Stage.reply?, Option.filter, hw]
    · simp [attempted, Handler.owed, Stage.reply?, Option.filter, hw]
  | leave hs =>
    refine .inl ⟨_, rfl, goes _ ?_⟩
    rw [hs]
    split <;> rfl
  | notify hs => exact .inl ⟨_, rfl, goes .releasing (by rw [hs]; rfl)⟩
  | release hs => exact .inr ⟨rfl, (owed_of_stage hs).symm⟩

theorem HandlerStep.owed {c : Setup} {s t : Session} {i : Nat} {h : Handler} {fs : List Effect}
    (hs : HandlerStep c s i h fs t) (hi : s.handlers[i]? = some h) :
    (attempted fs ++ t.owed c.server.dispatcher).Perm (s.owed c.server.dispatcher) := by
  rw [Session.owed, hs.frame.1]
  exact List.perm_append_comm_assoc _ _ _ |>.trans ((hs.pays.pending hi).append_left _)

theorem answers_afterReading (d : Dispatcher) (r : Reading) :
    (afterReading r).owed d = answers d r := by
  cases r with
  | malformed cause =>
    simp only [afterReading, answers]
    cases cause.recoveredId <;> rfl
  | _ => rfl

theorem LoopStep.owed {c : Setup} {s t : Session} {fs : List Effect}
    (hs : LoopStep c s fs t) :
    (attempted fs ++ t.owed c.server.dispatcher).Perm
      (s.owed c.server.dispatcher ++ (reads fs).flatMap (answers c.server.dispatcher)) := by
  cases hs with
  | stop hl | resume hl | grant hl | pass hl | close hl | mark hl =>
    simp [Session.owed, hl, Loop.owed, attempted, Effect.attempted?, reads, Effect.reading?,
      List.filterMap_cons]
  | wait hl => simp [Session.owed, attempted, reads]
  | @read r rest hl =>
    simp only [Session.owed, hl, answers_afterReading]
    simp only [Loop.owed, attempted, reads, Effect.attempted?, Effect.reading?, List.filterMap_cons,
      List.filterMap_nil, List.flatMap_singleton, List.nil_append]
    exact List.perm_append_comm
  | reject hl =>
    rw [attempted_write, reads_write]
    simp [Session.owed, hl, Loop.owed]
  | spawn hl =>
    simp only [Session.owed, hl, Loop.owed, attempted, reads, Effect.attempted?, Effect.reading?,
      List.filterMap_cons, List.filterMap_nil, List.flatMap_append, List.flatMap_singleton,
      List.nil_append, List.flatMap_nil, List.append_nil]
    exact List.perm_append_comm

/-- Whatever happens, debts are only paid or made by reads; but what a loop has at hand that is
given up, nobody owes any more. -/
theorem Transition.owed {c : Setup} {s t : Session} {a : Action} {fs : List Effect}
    (h : Transition c s a fs t) (ha : a ≠ .move .drop) :
    (attempted fs ++ t.owed c.server.dispatcher).Perm
      (s.owed c.server.dispatcher ++ (reads fs).flatMap (answers c.server.dispatcher)) := by
  have aside {l : List Envelope} : (attempted [] ++ l).Perm
      (l ++ (reads []).flatMap (answers c.server.dispatcher)) := by simp [attempted, reads]
  cases h with
  | loop hs => exact hs.owed
  | handler hi hs =>
    rw [reads_of_isHandlers hs.isHandlers, List.flatMap_nil, List.append_nil]
    exact hs.owed hi
  | join | interrupt | expire => exact aside
  | drop => exact absurd rfl ha
  | @command k => cases k <;> exact aside

/-- The writes of a step come off or fail together, as the stream stands before it. -/
theorem Transition.eq_write {c : Setup} {s t : Session} {a : Action} {fs : List Effect}
    {x : Effect} {e : Envelope} (h : Transition c s a fs t) (hx : x ∈ fs)
    (he : x.attempted? = some e) : x = s.write e := by
  have own {reply : Envelope} (hx : x ∈ [s.write reply]) : x = s.write e := by
    rw [List.mem_singleton] at hx
    have := attempted_write s reply
    rw [← hx, attempted, List.filterMap_cons, he] at this
    rw [hx, (List.cons_eq_cons.mp this).1]
  cases h with
  | loop hs =>
    cases hs with
    | reject => exact own hx
    | read | spawn | close =>
      rw [List.mem_singleton.mp hx] at he
      cases he
    | stop | resume | grant | wait | pass | mark => cases hx
  | handler hi hs =>
    cases hs with
    | reply =>
      split at hx
      · exact own hx
      · cases hx
    | negotiate =>
      split at hx
      · cases hx
      · rw [List.mem_singleton.mp hx] at he
        cases he
    | consult =>
      rw [List.mem_singleton.mp hx] at he
      cases he
    | conclude =>
      obtain ⟨event, -, rfl⟩ := List.mem_map.mp hx
      cases he
    | plan | pass | leave | notify | release => cases hx
  | join | interrupt | expire | drop | command => cases hx

/-- No write fails while the stream works. -/
theorem Transition.lost_notMem {c : Setup} {s t : Session} {a : Action} {fs : List Effect}
    (h : Transition c s a fs t) (hb : s.outlet.broken = false) (e : Envelope) :
    .lost e ∉ fs := by
  intro hx
  have hw := h.eq_write hx rfl
  simp [write, hb] at hw

/-- A session to which no request to stop has come and whose writes succeed. -/
structure Serving (c : Setup) (es : List Effect) (s : Session) : Prop where
  works : s.outlet.broken = false
  unwatched : s.watch = .absent ∨ s.watch = .waiting ∨ ∃ e, s.loop = .finished e
  account : (written es ++ s.owed c.server.dispatcher).Perm
    ((reads es).flatMap (answers c.server.dispatcher))

theorem serving_start (c : Setup) : Serving c [] (start c) where
  works := rfl
  unwatched := by
    simp only [start]
    cases c.grace <;> simp
  account := .refl _

theorem account_next {d : Dispatcher} {es fs : List Effect} {s t : Session}
    (ha : (written es ++ s.owed d).Perm ((reads es).flatMap (answers d)))
    (ht : (written fs ++ t.owed d).Perm (s.owed d ++ (reads fs).flatMap (answers d))) :
    (written (es ++ fs) ++ t.owed d).Perm ((reads (es ++ fs)).flatMap (answers d)) := by
  rw [written_append, reads_append, List.flatMap_append]
  show List.Perm _ ([] ++ (_ ++ _))
  exact perm_next ha ht

/-- Nobody gives up a session that has not been asked to stop. -/
theorem Serving.not_drop {c : Setup} {es fs : List Effect} {s t : Session} (hs : Serving c es s) :
    ¬ Transition c s (.move .drop) fs t := by
  intro ht
  cases ht with
  | drop hg hl =>
    rcases hs.unwatched with hu | hu | ⟨e, hu⟩
    · rw [hg] at hu
      cases hu
    · rw [hg] at hu
      cases hu
    · rw [hu] at hl
      cases hl

theorem serving_next {c : Setup} {es fs : List Effect} {s t : Session} {a : Action}
    (hs : Serving c es s) (hr : a.request? = none) (hw : a ≠ .command .breakWriter)
    (ht : Transition c s a fs t) : Serving c (es ++ fs) t where
  works := by
    cases ht with
    | loop h => cases h <;> exact hs.works
    | handler hi h => exact h.frame.2.2.2.1 ▸ hs.works
    | join | interrupt | expire | drop => exact hs.works
    | @command k =>
      cases k with
      | breakWriter => exact absurd rfl hw
      | mendWriter => rfl
      | _ => exact hs.works
  unwatched := by
    cases ht with
    | loop h =>
      rcases hs.unwatched with hu | hu | ⟨e, hu⟩
      · exact .inl (by cases h <;> exact hu)
      · exact .inr (.inl (by cases h <;> exact hu))
      · cases h <;> simp_all
    | handler hi h =>
      obtain ⟨hl, -, -, -, hwatch, -, -⟩ := h.frame
      rw [hl, hwatch]
      exact hs.unwatched
    | join hl => exact .inr (.inr ⟨_, hl⟩)
    | interrupt => cases hr
    | expire hg hl =>
      rcases hs.unwatched with hu | hu | ⟨e, hu⟩
      · rw [hg] at hu
        cases hu
      · rw [hg] at hu
        cases hu
      · exact absurd hu (hl e)
    | drop hg hl => exact absurd (.drop hg hl) hs.not_drop
    | @command k => cases k <;> exact hs.unwatched
  account := by
    refine account_next hs.account ?_
    rw [written_eq_attempted (ht.lost_notMem hs.works)]
    refine ht.owed ?_
    rintro rfl
    exact hs.not_drop ht

theorem firstRequest?_eq_none {as : List Action} :
    firstRequest? as = none ↔ ∀ a ∈ as, a.request? = none := List.findSome?_eq_none_iff

theorem serving_of_run {c : Setup} {as : List Action} {es : List Effect} {s : Session}
    (h : run c (start c) as = some (es, s)) (hr : firstRequest? as = none)
    (hw : .command .breakWriter ∉ as) : Serving c es s := by
  refine run_induction (P := fun as es s => firstRequest? as = none →
    .command .breakWriter ∉ as → Serving c es s) (fun _ _ => serving_start c)
    (fun as es t a fs u _ ih ht hr hw => ?_) h hr hw
  rw [firstRequest?_eq_none] at hr ih
  refine serving_next (ih (fun b hb => hr b (by simp [hb])) fun hb => hw (by simp [hb]))
    (hr a (by simp)) (fun ha => hw (by simp [ha])) ht

/-- Behind the barrier nobody owes anything. -/
theorem owed_of_isDrained {c : Setup} {as : List Action} {es : List Effect} {s : Session}
    (hc : Closing c as es s) (hl : s.loop.isDrained = true) (d : Dispatcher) :
    s.owed d = [] := by
  have hloop : s.loop.owed d = [] := by cases h : s.loop <;> simp_all [Loop.isDrained, Loop.owed]
  have hnone := List.countP_eq_zero.mp (hc.counted ▸ hc.drained hl)
  rw [owed, hloop]
  refine List.flatMap_eq_nil_iff.mpr fun h hm => ?_
  have hn := hnone h hm
  cases hs : h.stage with
  | notifying | releasing => rw [owed_of_stage hs]; rfl
  | _ => rw [hs] at hn; exact absurd rfl hn

theorem written_perm_of_finished {c : Setup} {as : List Action} {es : List Effect} {s : Session}
    {e : Ending} (h : run c (start c) as = some (es, s)) (hl : s.loop = .finished e)
    (hr : firstRequest? as = none) (hw : .command .breakWriter ∉ as) :
    (written es).Perm ((reads es).flatMap (answers c.server.dispatcher)) := by
  have ha := (serving_of_run h hr hw).account
  rwa [owed_of_isDrained (closing_of_run h) (by rw [hl]; rfl), List.append_nil] at ha

end Session

end ContextServer
