import ContextServer.Proofs.Session.Cancellation
import ContextServer.Proofs.Session.Vigil

/-!
The barrier in a session. Its handlers enter, leave and notify it, and its loop waits at it, so a
session takes its barrier through a run (`Guarded`); and because the loop starts handlers only
while it serves, nobody enters once the waiter has begun. What holds of every run of the barrier
therefore holds in every session: no notification is lost (`loses_no_notification`), and a loop
that waits can go on when all handlers have left and notified.
-/

namespace ContextServer

namespace Session

/-- A session that has taken its barrier through the moves `ms`. -/
structure Guarded (ms : List Barrier.Move) (s : Session) : Prop where
  run : Barrier.run .idle ms = some s.barrier
  /-- nobody enters once the waiter has begun -/
  closed : ms.Pairwise fun a b => a = .wait → b ≠ .enter
  serving : s.loop.isServing = true → .wait ∉ ms

variable {c : Setup} {s t : Session} {ms : List Barrier.Move} {es : List Effect}

theorem Guarded.aside (hs : Guarded ms s) (hb : t.barrier = s.barrier)
    (hl : t.loop.isServing = true → s.loop.isServing = true) : Guarded ms t where
  run := hb ▸ hs.run
  closed := hs.closed
  serving h := hs.serving (hl h)

theorem Guarded.concat {m : Barrier.Move} (hs : Guarded ms s)
    (hm : s.barrier.step m = some t.barrier) (he : m = .enter → .wait ∉ ms)
    (hl : t.loop.isServing = true → m ≠ .wait ∧ s.loop.isServing = true) :
    Guarded (ms ++ [m]) t where
  run := Barrier.run_concat hs.run hm
  closed := by
    refine List.pairwise_append.mpr ⟨hs.closed, List.pairwise_singleton _ _, fun a ha b hb hw => ?_⟩
    rw [List.mem_singleton] at hb
    subst hb
    intro hb
    exact he hb (hw ▸ ha)
  serving h := by
    obtain ⟨hm, hs'⟩ := hl h
    simpa [hs.serving hs'] using hm.symm

theorem guarded_loop (hs : Guarded ms s) (ht : LoopStep c s es t) : ∃ ns, Guarded ns t := by
  cases ht with
  | stop hl | resume hl | reject hl | read hl | grant hl =>
    exact ⟨ms, hs.aside rfl fun _ => by rw [hl]; rfl⟩
  | spawn hl =>
    have hserving : s.loop.isServing = true := by rw [hl]; rfl
    exact ⟨_, hs.concat (m := .enter) rfl (fun _ => hs.serving hserving)
      fun _ => ⟨by simp, hserving⟩⟩
  | wait hl hb => exact ⟨_, hs.concat (m := .wait) hb (by simp) (by simp [hl, Loop.isServing])⟩
  | pass hl hb => exact ⟨_, hs.concat (m := .wait) hb (by simp) (by simp [Loop.isServing])⟩
  | close | mark => exact ⟨ms, hs.aside rfl (by simp [Loop.isServing])⟩

theorem guarded_handler {i : Nat} {h : Handler} (hs : Guarded ms s) (hc : Supplied c s)
    (hcount : s.barrier.count = s.handlers.countP (·.stage.isCounted))
    (hi : s.handlers[i]? = some h) (ht : HandlerStep c s i h es t) : ∃ ns, Guarded ns t := by
  have hmem : h ∈ s.handlers := List.mem_of_getElem? hi
  cases ht with
  | leave hst =>
    have hpos : 0 < s.barrier.count :=
      hcount ▸ List.countP_pos_iff.mpr ⟨h, hmem, by rw [hst]; rfl⟩
    exact ⟨_, hs.concat (m := .leave) (if_pos hpos) nofun fun hl => ⟨nofun, hl⟩⟩
  | notify hst =>
    have hpos : 0 < s.barrier.notifying :=
      hc.notifying ▸ List.countP_pos_iff.mpr ⟨h, hmem, by rw [hst]; rfl⟩
    exact ⟨_, hs.concat (m := .notify) (if_pos hpos) nofun fun hl => ⟨nofun, hl⟩⟩
  | plan | negotiate | consult | pass | conclude | reply | release => exact ⟨ms, hs.aside rfl id⟩

theorem guarded_of_run {as : List Action} (h : run c (start c) as = some (es, s)) :
    ∃ ms, Guarded ms s := by
  refine run_induction (P := fun _ _ s => ∃ ms, Guarded ms s)
    ⟨[], rfl, .nil, fun _ => List.not_mem_nil⟩ (fun as es s a fs t hr ⟨ms, hs⟩ ht => ?_) h
  cases ht with
  | loop hl => exact guarded_loop hs hl
  | handler hi hh => exact guarded_handler hs (supplied_of_run hr) (closing_of_run hr).counted hi hh
  | join | interrupt | expire => exact ⟨ms, hs.aside rfl id⟩
  | drop => exact ⟨ms, hs.aside rfl nofun⟩
  | @command k => exact ⟨ms, hs.aside (by cases k <;> rfl) (by cases k <;> exact id)⟩

/-- A loop that waits can go on as soon as no handler is left to leave or to notify. -/
theorem isSome_stepLoop_of_left {as : List Action} (h : run c (start c) as = some (es, s))
    {e : Ending} (hl : s.loop = .draining e) (hc : s.barrier.count = 0)
    (hn : s.barrier.notifying = 0) : (stepLoop c s).isSome = true := by
  obtain ⟨ms, hs⟩ := guarded_of_run h
  have hwoken := (Barrier.heeded_of_run hs.run).woken hc hn
  have hthrough : s.barrier.waiter ≠ .through := fun hw => by
    rcases (supplied_of_run h).through hw with h | h <;> rw [hl] at h <;> cases h
  simp only [stepLoop, hl, Barrier.wait]
  cases hw : s.barrier.waiter with
  | away | enabled => rfl
  | parked woken =>
    cases woken with
    | true => rfl
    | false => exact absurd hw hwoken
  | through => exact absurd hw hthrough

end Session

namespace Barrier

/-- No notification is lost at the barrier, in whatever order its handlers and its waiter move:
neither where the waiter looks at the count and goes on in one move nor where it does so in two, on
any notifier that keeps its promise. The two come to the same states, and the barrier of every
session is in one of them. -/
theorem loses_no_notification {n : Notifier} (hn : n.WakesEnabled) :
    (∀ ms b, run idle ms = some b → b.Heeded ms) ∧
      (∀ ms v, Vigil.run (.idle n) ms = some v → v.Heeded ms) ∧
      (∀ b, (∃ ms, run idle ms = some b) ↔
        ∃ ms v, Vigil.run (.idle n) ms = some v ∧ v.settled = b) ∧
      ∀ c as es s, Session.run c (.start c) as = some (es, s) →
        (∃ ms, s.Guarded ms) ∧
          s.barrier.count = s.handlers.countP (·.stage.isCounted) ∧
          s.barrier.notifying = s.handlers.countP (·.stage.isNotifying) ∧
          ∀ e, s.loop = .draining e → s.barrier.count = 0 → s.barrier.notifying = 0 →
            (Session.stepLoop c s).isSome = true := by
  refine ⟨fun ms b => heeded_of_run, fun ms v => Vigil.heeded_of_run hn,
    Vigil.reachable_iff hn, fun c as es s h => ⟨Session.guarded_of_run h, ?_, ?_, ?_⟩⟩
  · exact (Session.closing_of_run h).counted
  · exact (Session.supplied_of_run h).notifying
  · exact fun e => Session.isSome_stepLoop_of_left h

/-- Two handlers; the last one leaves between the look of the waiter and its parking. -/
def leftAtLook : List Move := [.enter, .enter, .leave, .wait, .wait, .leave, .wait, .notify]

theorem loses_no_notification_leftAtLook :
    Notifier.counting.WakesEnabled ∧
      (∃ v, Vigil.run (.idle .counting) leftAtLook = some v ∧ v.stance = .parked 0 ∧
        v.Heeded leftAtLook ∧ Notifier.counting.isWoken v.bell 0 = true) ∧
      ∃ v, Vigil.run (.idle .counting) (leftAtLook ++ .replicate 4 .wait) = some v ∧
        v.stance = .through ∧ Vigil.Passed .counting (leftAtLook ++ .replicate 4 .wait) := by
  have heeded (ms : List Move) (v : Vigil .counting)
      (h : Vigil.run (.idle .counting) ms = some v) : v.Heeded ms :=
    (loses_no_notification Notifier.counting_wakesEnabled).2.1 ms v h
  refine ⟨Notifier.counting_wakesEnabled, ⟨_, rfl, rfl, heeded _ _ rfl, ?_⟩, ⟨_, rfl, rfl, ?_⟩⟩
  · exact (heeded leftAtLook _ rfl).woken rfl rfl 0 rfl
  · exact (heeded (leftAtLook ++ .replicate 4 .wait) _ rfl).passed rfl

end Barrier

end ContextServer
