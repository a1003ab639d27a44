import Mathlib.Data.List.Induction
import ContextServer.Session.Barrier

/-!
The waiter at the barrier. A waiter that is parked and has not been notified waits for somebody:
for a handler that is still counted, or for one that is about to notify it (`Watched`). Every move
keeps this, and every move but that of a handler that enters uses up some of the `work` that is
left. So a run of the barrier comes to an end with its handlers, and then the waiter is through;
and it is through only after a look at a count of zero (`heeded_of_run`).
-/

namespace ContextServer

/-- What holds at the start and is kept by every step holds all along a run. -/
theorem foldlM_induction {σ α : Type} {step : σ → α → Option σ} {s t : σ} {as : List α}
    {P : List α → σ → Prop} (start : P [] s)
    (next : ∀ as t a u, as.foldlM step s = some t → P as t → step t a = some u →
      P (as ++ [a]) u)
    (h : as.foldlM step s = some t) : P as t := by
  induction as using List.reverseRecOn generalizing t with
  | nil =>
    cases h
    exact start
  | append_singleton as a ih =>
    rw [List.foldlM_append] at h
    obtain ⟨u, hu, h⟩ := Option.bind_eq_some_iff.mp h
    obtain ⟨v, hv, h⟩ := Option.bind_eq_some_iff.mp h
    cases h
    exact next as u a t hu (ih hu) hv

/-- The moves that the waiter has left until it is notified. -/
def Waiter.work : Waiter → Nat
  | away => 2
  | enabled false => 1
  | enabled true => 4
  | parked false => 0
  | parked true => 3
  | through => 0

namespace Barrier

variable {b c : Barrier} {m : Move} {ms : List Move}

/-- All that a move can do. -/
inductive Moved (b : Barrier) : Move → Barrier → Prop
  | enter : Moved b .enter b.enter
  | leave (hc : 0 < b.count) : Moved b .leave b.leave
  | notify (hn : 0 < b.notifying) : Moved b .notify b.notify
  | enable (hw : b.waiter = .away) : Moved b .wait { b with waiter := .enabled false }
  | pass {woken : Bool} (hw : b.waiter = .enabled woken) (hc : b.count = 0) :
      Moved b .wait { b with waiter := .through }
  | park {woken : Bool} (hw : b.waiter = .enabled woken) (hc : 0 < b.count) :
      Moved b .wait { b with waiter := .parked woken }
  | again (hw : b.waiter = .parked true) : Moved b .wait { b with waiter := .away }

theorem moved_of_wait (h : b.wait = some c) : Moved b .wait c := by
  unfold wait at h
  cases hw : b.waiter with
  | away =>
    rw [hw] at h
    cases h
    exact .enable hw
  | enabled woken =>
    rw [hw] at h
    cases h
    by_cases hc : b.count = 0
    · rw [if_pos hc]
      exact .pass hw hc
    · rw [if_neg hc]
      exact .park hw (Nat.pos_of_ne_zero hc)
  | parked woken =>
    rw [hw] at h
    cases woken with
    | true =>
      cases h
      exact .again hw
    | false => cases h
  | through =>
    rw [hw] at h
    cases h

theorem moved_of_step (h : b.step m = some c) : Moved b m c := by
  cases m with
  | enter =>
    cases h
    exact .enter
  | leave =>
    obtain ⟨hc, h⟩ := Option.ite_none_right_eq_some.mp h
    cases h
    exact .leave hc
  | notify =>
    obtain ⟨hn, h⟩ := Option.ite_none_right_eq_some.mp h
    cases h
    exact .notify hn
  | wait => exact moved_of_wait h

theorem count_wait (h : b.wait = some c) :
    c.count = b.count ∧ (c.waiter = .through → b.count = 0) := by
  cases moved_of_wait h with
  | pass hw hc => exact ⟨rfl, fun _ => hc⟩
  | enable | park | again => exact ⟨rfl, nofun⟩

theorem notifying_wait (h : b.wait = some c) : c.notifying = b.notifying := by
  cases moved_of_wait h <;> rfl

/-! ### Whom a parked waiter waits for -/

/-- A waiter that is parked and has not been notified waits for a handler. -/
def Watched (b : Barrier) : Prop :=
  b.waiter = .parked false → 0 < b.count ∨ 0 < b.notifying

theorem watched_idle : idle.Watched := by
  intro h
  cases h

theorem watched_enter : b.enter.Watched := fun _ => .inl (Nat.succ_pos _)

/-- Who leaves as the last one is about to notify. -/
theorem watched_leave (hb : b.Watched) : b.leave.Watched := by
  intro hw
  have hb := hb hw
  show 0 < b.count - 1 ∨ 0 < if b.isLast then b.notifying + 1 else b.notifying
  by_cases hl : b.count = 1
  · simp [isLast, hl]
  · simp only [isLast, beq_iff_eq, hl, if_false]
    omega

theorem watched_notify : b.notify.Watched := by
  intro (hw : wake b.waiter = .parked false)
  cases h : b.waiter <;> simp [h, wake] at hw

/-- The waiter parks only where handlers are counted. -/
theorem watched_wait (h : b.wait = some c) : c.Watched := by
  intro hw
  cases moved_of_wait h with
  | park _ hc => exact .inl hc
  | enable | pass | again => cases hw

theorem watched_of_step (hb : b.Watched) (h : b.step m = some c) : c.Watched := by
  cases moved_of_step h with
  | enter => exact watched_enter
  | leave => exact watched_leave hb
  | notify => exact watched_notify
  | enable | pass | park | again => exact watched_wait h

/-- Where only a handler that enters can move, the waiter is through. -/
theorem through_of_stuck (hb : b.Watched) (h : ∀ m, m ≠ .enter → b.step m = none) :
    b.waiter = .through ∧ b.count = 0 ∧ b.notifying = 0 := by
  have hc : b.count = 0 := by
    have := h .leave nofun
    simpa [step] using this
  have hn : b.notifying = 0 := by
    have := h .notify nofun
    simpa [step] using this
  have hwait : b.wait = none := h .wait nofun
  refine ⟨?_, hc, hn⟩
  cases hw : b.waiter with
  | through => rfl
  | parked woken =>
    cases woken with
    | true => simp [wait, hw] at hwait
    | false => simpa [hc, hn] using hb hw
  | away | enabled => simp [wait, hw] at hwait

/-! ### The work that is left -/

/-- A bound on the moves that are left if nobody enters. -/
def work (b : Barrier) : Nat := 5 * b.count + 4 * b.notifying + b.waiter.work

theorem work_wake_le (w : Waiter) : (wake w).work ≤ w.work + 3 := by
  cases w with
  | away | through => simp [wake]
  | enabled woken | parked woken => cases woken <;> decide

theorem work_wait_lt (h : b.wait = some c) : c.waiter.work < b.waiter.work := by
  cases moved_of_wait h with
  | enable hw | again hw =>
    rw [hw]
    exact Nat.lt_add_one _
  | @pass woken hw | @park woken hw =>
    rw [hw]
    cases woken <;> simp [Waiter.work]

theorem work_enter (b : Barrier) : b.enter.work = b.work + 5 := by
  show 5 * (b.count + 1) + 4 * b.notifying + b.waiter.work = b.work + 5
  unfold work
  omega

theorem work_step_lt (h : b.step m = some c) (hm : m ≠ .enter) : c.work < b.work := by
  unfold work
  cases moved_of_step h with
  | enter => exact absurd rfl hm
  | leave hc =>
    show 5 * (b.count - 1) + 4 * (if b.isLast then b.notifying + 1 else b.notifying) +
      b.waiter.work < _
    split <;> omega
  | notify hn =>
    have := work_wake_le b.waiter
    show 5 * b.count + 4 * (b.notifying - 1) + (wake b.waiter).work < _
    omega
  | enable | pass | park | again =>
    have := work_wait_lt h
    simp only at this ⊢
    omega

/-! ### Runs -/

theorem run_eq_foldlM (b : Barrier) (ms : List Move) : run b ms = ms.foldlM step b := by
  induction ms generalizing b with
  | nil => rfl
  | cons m ms ih =>
    rw [List.foldlM_cons, run]
    exact congrArg _ (funext ih)

theorem run_induction {P : List Move → Barrier → Prop} (start : P [] b)
    (next : ∀ ms c m d, run b ms = some c → P ms c → c.step m = some d → P (ms ++ [m]) d)
    (h : run b ms = some c) : P ms c := by
  simp only [run_eq_foldlM] at next h
  exact foldlM_induction start next h

/-- One more move of a run. -/
theorem run_concat {d : Barrier} (h : run b ms = some c) (hm : c.step m = some d) :
    run b (ms ++ [m]) = some d := by
  rw [run_eq_foldlM] at h ⊢
  rw [List.foldlM_append, h]
  exact congrArg (·.bind some) hm

theorem watched_of_run (h : run idle ms = some b) : b.Watched :=
  run_induction (P := fun _ b => b.Watched) watched_idle
    (fun _ _ _ _ _ hc hm => watched_of_step hc hm) h

/-- Each handler that enters pays for five more moves besides its own. -/
theorem length_add_work_le (h : run b ms = some c) :
    ms.length + c.work ≤ b.work + 6 * ms.count .enter := by
  refine run_induction (P := fun ms c => ms.length + c.work ≤ b.work + 6 * ms.count .enter)
    (Nat.le_of_eq (by simp)) (fun ms c m d _ hc hm => ?_) h
  rw [List.length_append, List.count_append, List.length_singleton]
  by_cases he : m = .enter
  · subst he
    cases hm
    rw [work_enter, List.count_singleton_self]
    omega
  · have := work_step_lt hm he
    omega

/-- What a run of the barrier does for the waiter. -/
structure Heeded (ms : List Move) (b : Barrier) : Prop where
  /-- with all handlers gone, it is not parked without a notification -/
  woken : b.count = 0 → b.notifying = 0 → b.waiter ≠ .parked false
  /-- if it is through, its latest move was a look at a count of zero -/
  looked : b.waiter = .through → ∃ before after a w, ms = before ++ .wait :: after ∧
    .wait ∉ after ∧ run idle before = some a ∧ a.waiter = .enabled w ∧ a.count = 0 ∧
    (.enter ∉ after → b.count = 0)
  /-- it is through where nothing can move but a handler that enters -/
  rested : (∀ m, m ≠ .enter → b.step m = none) → b.waiter = .through
  ended : ms.length ≤ 6 * ms.count .enter + 2

/-- A waiter that is through got there by this move or was through before it. -/
theorem through_of_moved (h : Moved b m c) (hc : c.waiter = .through) :
    (m = .wait ∧ (∃ w, b.waiter = .enabled w) ∧ b.count = 0 ∧ c.count = 0) ∨
      (m ≠ .wait ∧ b.waiter = .through ∧ (m ≠ .enter → b.count = 0 → c.count = 0)) := by
  cases h with
  | enter => exact .inr ⟨nofun, hc, fun h => absurd rfl h⟩
  | leave => exact .inr ⟨nofun, hc, fun _ h => Nat.sub_eq_zero_of_le (h ▸ Nat.zero_le 1)⟩
  | notify =>
    have hw : wake b.waiter = .through := hc
    exact .inr ⟨nofun, by cases h : b.waiter <;> simp_all [wake], fun _ h => h⟩
  | pass hw h => exact .inl ⟨rfl, ⟨_, hw⟩, h, h⟩
  | enable | park | again => cases hc

theorem looked_of_run (h : run idle ms = some b) : b.waiter = .through →
    ∃ before after a w, ms = before ++ .wait :: after ∧ .wait ∉ after ∧
      run idle before = some a ∧ a.waiter = .enabled w ∧ a.count = 0 ∧
      (.enter ∉ after → b.count = 0) := by
  refine run_induction (P := fun ms b => b.waiter = .through → ∃ before after a w,
    ms = before ++ .wait :: after ∧ .wait ∉ after ∧ run idle before = some a ∧
      a.waiter = .enabled w ∧ a.count = 0 ∧ (.enter ∉ after → b.count = 0))
    (fun hw => by cases hw) (fun ms c m d hr ih hm hw => ?_) h
  rcases through_of_moved (moved_of_step hm) hw with ⟨rfl, ⟨w, hc⟩, hzero, hd⟩ | ⟨hne, hc, hd⟩
  · exact ⟨ms, [], c, w, rfl, nofun, hr, hc, hzero, fun _ => hd⟩
  · obtain ⟨before, after, a, w, rfl, hafter, ha, haw, hazero, hcount⟩ := ih hc
    refine ⟨before, after ++ [m], a, w, by simp, ?_, ha, haw, hazero, fun he => ?_⟩
    · simpa [hafter] using hne.symm
    · rw [List.mem_append, not_or, List.mem_singleton] at he
      exact hd (Ne.symm he.2) (hcount he.1)

theorem heeded_of_run (h : run idle ms = some b) : b.Heeded ms where
  woken hc hn hw := by
    have := watched_of_run h hw
    omega
  looked := looked_of_run h
  rested hm := (through_of_stuck (watched_of_run h) hm).1
  ended := by
    have hwork := length_add_work_le h
    have hidle : idle.work = 2 := rfl
    omega

end Barrier

end ContextServer
