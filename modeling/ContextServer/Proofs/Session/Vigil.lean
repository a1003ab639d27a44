import ContextServer.Proofs.Session.Barrier

/-!
The barrier step by step. The waiter looks at the count in one move and goes on in another, with
what it has seen; handlers may enter, leave and notify in between. Of the notifier no more is known
than what it promises: to notify wakes every notification that was enabled before, and no other
(`WakesEnabled`).

The `Vigil` of such a waiter comes to the same as the barrier. What the waiter will have done once
it has gone on (`settled`), the waiter of the barrier has done by then, and no other states of the
barrier can be reached (`reachable_iff`). So a waiter that goes on with an old count misses no
notification either (`heeded_of_run`).
-/

namespace ContextServer

/-- The operations of a notifier. -/
structure Notifier where
  State : Type
  Ticket : Type
  fresh : State
  /-- gives out a notification that is enabled -/
  enable : State → Ticket × State
  notifyWaiters : State → State
  isWoken : State → Ticket → Bool

namespace Notifier

inductive Call
  | enable
  | notify
  deriving DecidableEq

variable {n : Notifier} {s : n.State} {t : n.Ticket}

def call (n : Notifier) (s : n.State) : Call → n.State
  | .enable => (n.enable s).2
  | .notify => n.notifyWaiters s

/-- Whatever calls came before a notification was enabled, and whatever calls came after it: one
of those after it has to notify for the notification to be woken, and one is enough. -/
def WakesEnabled (n : Notifier) : Prop :=
  ∀ before after : List Call,
    let given := n.enable (before.foldl n.call n.fresh)
    n.isWoken (after.foldl n.call given.2) given.1 = true ↔ .notify ∈ after

def Reached (n : Notifier) (s : n.State) : Prop :=
  ∃ calls : List Call, calls.foldl n.call n.fresh = s

/-- The notification has been given out on the way to the state. -/
def Issued (n : Notifier) (s : n.State) (t : n.Ticket) : Prop :=
  ∃ before after : List Call,
    let given := n.enable (before.foldl n.call n.fresh)
    given.1 = t ∧ after.foldl n.call given.2 = s

theorem reached_call (h : n.Reached s) (k : Call) : n.Reached (n.call s k) := by
  obtain ⟨calls, rfl⟩ := h
  exact ⟨calls ++ [k], List.foldl_append⟩

theorem issued_enable (h : n.Reached s) : n.Issued (n.enable s).2 (n.enable s).1 := by
  obtain ⟨calls, rfl⟩ := h
  exact ⟨calls, [], rfl, rfl⟩

theorem issued_notify (h : n.Issued s t) : n.Issued (n.notifyWaiters s) t := by
  obtain ⟨before, after, rfl, rfl⟩ := h
  exact ⟨before, after ++ [.notify], rfl, List.foldl_append⟩

theorem WakesEnabled.isWoken_enable (hn : n.WakesEnabled) (h : n.Reached s) :
    n.isWoken (n.enable s).2 (n.enable s).1 = false := by
  obtain ⟨calls, rfl⟩ := h
  have := hn calls []
  simpa using this

theorem WakesEnabled.isWoken_notify (hn : n.WakesEnabled) (h : n.Issued s t) :
    n.isWoken (n.notifyWaiters s) t = true := by
  obtain ⟨before, after, rfl, rfl⟩ := h
  have := (hn before (after ++ [.notify])).mpr (by simp)
  rwa [List.foldl_append] at this

/-- A notifier that counts its calls to notify; a notification knows how many came before it. -/
abbrev counting : Notifier where
  State := Nat
  Ticket := Nat
  fresh := 0
  enable s := (s, s)
  notifyWaiters s := s + 1
  isWoken s t := decide (t < s)

theorem foldl_call_counting (s : Nat) (calls : List Call) :
    calls.foldl counting.call s = s + calls.count .notify := by
  induction calls generalizing s with
  | nil => rfl
  | cons k calls ih =>
    rw [List.foldl_cons, ih]
    cases k with
    | enable => simp [call]
    | notify =>
      simp only [call, List.count_cons_self]
      omega

theorem isWoken_counting (s : Nat) (calls : List Call) :
    counting.isWoken (calls.foldl counting.call s) s = true ↔ .notify ∈ calls := by
  rw [foldl_call_counting, decide_eq_true_iff, ← List.count_pos_iff]
  exact Nat.lt_add_right_iff_pos

theorem counting_wakesEnabled : counting.WakesEnabled :=
  fun before after => isWoken_counting (before.foldl counting.call counting.fresh) after

end Notifier

/-- Where a waiter stands, and with which notification. -/
inductive Stance (n : Notifier)
  | away
  | enabled (t : n.Ticket)
  /-- has looked at the count, but not gone on -/
  | looked (t : n.Ticket) (seen : Nat)
  | parked (t : n.Ticket)
  | through

/-- A barrier on the notifier `n`; the state of the notifier is its `bell`. -/
structure Vigil (n : Notifier) where
  count : Nat
  notifying : Nat
  bell : n.State
  stance : Stance n

namespace Stance

variable {n : Notifier}

def ticket? : Stance n → Option n.Ticket
  | enabled t | looked t _ | parked t => some t
  | away | through => none

def isLooked : Stance n → Bool
  | looked _ _ => true
  | _ => false

/-- Where the waiter is once it has gone on. -/
def settled (s : n.State) : Stance n → Waiter
  | away => .away
  | enabled t => .enabled (n.isWoken s t)
  | looked _ 0 => .through
  | looked t (_ + 1) => .parked (n.isWoken s t)
  | parked t => .parked (n.isWoken s t)
  | through => .through

theorem settled_notify (hn : n.WakesEnabled) {s : n.State} {p : Stance n}
    (h : ∀ t, p.ticket? = some t → n.Issued s t) :
    p.settled (n.notifyWaiters s) = Barrier.wake (p.settled s) := by
  match p with
  | away | through | looked _ 0 => rfl
  | enabled t | parked t | looked t (_ + 1) =>
    simp only [settled, Barrier.wake, hn.isWoken_notify (h t rfl)]

end Stance

namespace Vigil

open Barrier (Move)

variable {n : Notifier} {v u : Vigil n} {m : Move} {ms : List Move}

def idle (n : Notifier) : Vigil n := ⟨0, 0, n.fresh, .away⟩

def wait (v : Vigil n) : Option (Vigil n) :=
  match v.stance with
  | .away => some { v with bell := (n.enable v.bell).2, stance := .enabled (n.enable v.bell).1 }
  | .enabled t => some { v with stance := .looked t v.count }
  | .looked _ 0 => some { v with stance := .through }
  | .looked t (_ + 1) => some { v with stance := .parked t }
  | .parked t => if n.isWoken v.bell t then some { v with stance := .away } else none
  | .through => none

def step (v : Vigil n) : Move → Option (Vigil n)
  | .enter => some { v with count := v.count + 1 }
  | .leave =>
    if 0 < v.count then
      some { v with
        count := v.count - 1
        notifying := if v.count = 1 then v.notifying + 1 else v.notifying }
    else none
  | .notify =>
    if 0 < v.notifying then
      some { v with notifying := v.notifying - 1, bell := n.notifyWaiters v.bell }
    else none
  | .wait => v.wait

def run (v : Vigil n) (ms : List Move) : Option (Vigil n) := ms.foldlM step v

/-- The barrier once the waiter has gone on. -/
def settled (v : Vigil n) : Barrier := ⟨v.count, v.notifying, v.stance.settled v.bell⟩

/-- All that a move can do. -/
inductive Stepped (v : Vigil n) : Move → Vigil n → Prop
  | enter : Stepped v .enter { v with count := v.count + 1 }
  | leave (hc : 0 < v.count) :
      Stepped v .leave { v with
        count := v.count - 1
        notifying := if v.count = 1 then v.notifying + 1 else v.notifying }
  | notify (hn : 0 < v.notifying) :
      Stepped v .notify { v with
        notifying := v.notifying - 1
        bell := n.notifyWaiters v.bell }
  | enable (hp : v.stance = .away) :
      Stepped v .wait { v with
        bell := (n.enable v.bell).2
        stance := .enabled (n.enable v.bell).1 }
  | look {t : n.Ticket} (hp : v.stance = .enabled t) :
      Stepped v .wait { v with stance := .looked t v.count }
  | pass {t : n.Ticket} (hp : v.stance = .looked t 0) :
      Stepped v .wait { v with stance := .through }
  | park {t : n.Ticket} {seen : Nat} (hp : v.stance = .looked t (seen + 1)) :
      Stepped v .wait { v with stance := .parked t }
  | again {t : n.Ticket} (hp : v.stance = .parked t) (hw : n.isWoken v.bell t = true) :
      Stepped v .wait { v with stance := .away }

theorem stepped_of_step (h : v.step m = some u) : Stepped v m u := by
  cases m with
  | enter =>
    cases h
    exact .enter
  | leave =>
    obtain ⟨hc, h⟩ := Option.ite_none_right_eq_some.mp h
    cases h
    exact .leave hc
  | notify =>
    obtain ⟨hn, h⟩ := Option.ite_none_right_eq_some.mp h
    cases h
    exact .notify hn
  | wait =>
    simp only [step, wait] at h
    match hp : v.stance with
    | .away =>
      rw [hp] at h
      cases h
      exact .enable hp
    | .enabled t =>
      rw [hp] at h
      cases h
      exact .look hp
    | .looked t 0 =>
      rw [hp] at h
      cases h
      exact .pass hp
    | .looked t (seen + 1) =>
      rw [hp] at h
      cases h
      exact .park hp
    | .parked t =>
      rw [hp] at h
      obtain ⟨hw, h⟩ := Option.ite_none_right_eq_some.mp h
      cases h
      exact .again hp hw
    | .through =>
      rw [hp] at h
      cases h

/-- The waiter holds no notification that the notifier has not given out. -/
structure Sound (v : Vigil n) : Prop where
  reached : n.Reached v.bell
  issued : ∀ t, v.stance.ticket? = some t → n.Issued v.bell t

theorem sound_idle (n : Notifier) : (idle n).Sound where
  reached := ⟨[], rfl⟩
  issued := nofun

theorem sound_of_stepped (hv : v.Sound) (h : Stepped v m u) : u.Sound := by
  cases h with
  | enter | leave => exact ⟨hv.reached, hv.issued⟩
  | notify =>
    exact ⟨Notifier.reached_call hv.reached .notify, fun t ht =>
      Notifier.issued_notify (hv.issued t ht)⟩
  | enable =>
    refine ⟨Notifier.reached_call hv.reached .enable, fun t ht => ?_⟩
    cases ht
    exact Notifier.issued_enable hv.reached
  | look hp | park hp => exact ⟨hv.reached, fun t ht => hv.issued t (by rw [hp]; exact ht)⟩
  | pass | again => exact ⟨hv.reached, nofun⟩

/-- The barrier makes every move with the vigil, but stays where the waiter only goes on. -/
theorem settled_of_stepped (hn : n.WakesEnabled) (hv : v.Sound) (h : Stepped v m u) :
    v.settled.step m = some u.settled ∨
      (m = .wait ∧ u.settled = v.settled ∧ v.stance.isLooked = true ∧
        u.stance.isLooked = false) := by
  cases h with
  | enter => exact .inl rfl
  | leave hc =>
    refine .inl ((if_pos hc).trans ?_)
    simp [Barrier.leave, Barrier.isLast, settled]
  | notify hc =>
    refine .inl ((if_pos hc).trans ?_)
    simp only [Barrier.notify, settled, Stance.settled_notify hn hv.issued]
  | enable hp =>
    refine .inl ?_
    simp [settled, Barrier.step, Barrier.wait, hp, Stance.settled, hn.isWoken_enable hv.reached]
  | look hp =>
    refine .inl ?_
    cases hc : v.count <;> simp [settled, Barrier.step, Barrier.wait, hp, Stance.settled, hc]
  | pass hp | park hp =>
    refine .inr ⟨rfl, ?_, by rw [hp]; rfl, rfl⟩
    simp [settled, hp, Stance.settled]
  | again hp hw =>
    refine .inl ?_
    simp [settled, Barrier.step, Barrier.wait, hp, Stance.settled, hw]

/-! ### Runs -/

/-- What holds of the idle vigil and is kept by every move holds all along a run. -/
theorem run_induction {P : List Move → Vigil n → Prop} (start : P [] (idle n))
    (next : ∀ ms v m u, run (idle n) ms = some v → P ms v → Stepped v m u → P (ms ++ [m]) u)
    (h : run (idle n) ms = some v) : P ms v :=
  foldlM_induction start (fun ms v m u hr hv hm => next ms v m u hr hv (stepped_of_step hm)) h

theorem run_append (ns : List Move) (h : run v ms = some u) : run v (ms ++ ns) = run u ns := by
  unfold run at h ⊢
  rw [List.foldlM_append, h]
  rfl

theorem sound_of_run (h : run (idle n) ms = some v) : v.Sound :=
  run_induction (P := fun _ v => v.Sound) (sound_idle n)
    (fun _ _ _ _ _ hv hm => sound_of_stepped hv hm) h

/-- The barrier takes part in a run of the vigil. -/
theorem settled_of_run (hn : n.WakesEnabled) (h : run (idle n) ms = some v) :
    ∃ ns, ns.Sublist ms ∧ Barrier.run .idle ns = some v.settled := by
  refine run_induction (P := fun ms v => ∃ ns : List Move,
    ns.Sublist ms ∧ Barrier.run .idle ns = some v.settled) ⟨[], .slnil, rfl⟩
    (fun ms v m u hr ⟨ns, hns, hv⟩ hm => ?_) h
  rcases settled_of_stepped hn (sound_of_run hr) hm with hs | ⟨-, hs, -, -⟩
  · exact ⟨ns ++ [m], hns.append (.refl [m]), Barrier.run_concat hv hs⟩
  · exact ⟨ns, hns.trans (List.sublist_append_left ms [m]), hs ▸ hv⟩

theorem watched_of_run (hn : n.WakesEnabled) (h : run (idle n) ms = some v) :
    v.settled.Watched := by
  obtain ⟨ns, -, hns⟩ := settled_of_run hn h
  exact Barrier.watched_of_run hns

/-! ### The barrier goes where the vigil goes -/

theorem exists_step (hn : n.WakesEnabled) (hv : v.Sound) (hp : v.stance.isLooked = false)
    {b : Barrier} (h : v.settled.step m = some b) :
    ∃ u, v.step m = some u ∧ u.settled = b := by
  have hm : ∃ u, v.step m = some u := by
    cases m with
    | enter => exact ⟨_, rfl⟩
    | leave =>
      obtain ⟨hc, -⟩ := Option.ite_none_right_eq_some.mp h
      exact ⟨_, if_pos hc⟩
    | notify =>
      obtain ⟨hc, -⟩ := Option.ite_none_right_eq_some.mp h
      exact ⟨_, if_pos hc⟩
    | wait =>
      simp only [settled, Barrier.step, Barrier.wait] at h
      simp only [step, wait]
      cases hw : v.stance with
      | away | enabled => exact ⟨_, rfl⟩
      | looked => simp [hw, Stance.isLooked] at hp
      | parked t =>
        cases ht : n.isWoken v.bell t with
        | true => exact ⟨_, if_pos ht⟩
        | false => simp [hw, Stance.settled, ht] at h
      | through => simp [hw, Stance.settled] at h
  obtain ⟨u, hu⟩ := hm
  refine ⟨u, hu, ?_⟩
  rcases settled_of_stepped hn hv (stepped_of_step hu) with hs | ⟨-, -, hl, -⟩
  · exact Option.some.inj (hs.symm.trans h)
  · rw [hp] at hl
    cases hl

/-- A waiter that has looked can go on. -/
theorem exists_goOn (h : v.stance.isLooked = true) :
    ∃ u, v.wait = some u ∧ u.settled = v.settled ∧ u.stance.isLooked = false :=
  match hp : v.stance with
  | .looked t 0 =>
    ⟨{ v with stance := .through }, by rw [wait, hp], by simp [settled, hp, Stance.settled], rfl⟩
  | .looked t (_ + 1) =>
    ⟨{ v with stance := .parked t }, by rw [wait, hp], by simp [settled, hp, Stance.settled], rfl⟩
  | .away | .enabled _ | .parked _ | .through => by simp [hp, Stance.isLooked] at h

theorem exists_gone (v : Vigil n) :
    ∃ ms u, run v ms = some u ∧ u.settled = v.settled ∧ u.stance.isLooked = false := by
  cases hp : v.stance.isLooked with
  | false => exact ⟨[], v, rfl, rfl, hp⟩
  | true =>
    obtain ⟨u, hu, hs⟩ := exists_goOn hp
    exact ⟨[.wait], u, by simp [run, step, hu], hs⟩

theorem exists_of_run (hn : n.WakesEnabled) {b : Barrier} (h : Barrier.run .idle ms = some b) :
    ∃ ns v, run (idle n) ns = some v ∧ v.settled = b ∧ v.stance.isLooked = false := by
  refine Barrier.run_induction (P := fun _ b => ∃ ns v,
    run (idle n) ns = some v ∧ v.settled = b ∧ v.stance.isLooked = false)
    ⟨[], idle n, rfl, rfl, rfl⟩ (fun _ b m c _ ⟨ns, v, hv, hb, hp⟩ hm => ?_) h
  obtain ⟨u, hu, hc⟩ := exists_step hn (sound_of_run hv) hp (hb ▸ hm)
  obtain ⟨later, w, hw, hwu, hwp⟩ := exists_gone u
  refine ⟨ns ++ m :: later, w, ?_, hwu.trans hc, hwp⟩
  rw [run_append _ hv, run, List.foldlM_cons, hu]
  exact hw

/-- The states of the barrier are those of the vigil, once its waiter has gone on. -/
theorem reachable_iff (hn : n.WakesEnabled) (b : Barrier) :
    (∃ ms, Barrier.run .idle ms = some b) ↔ ∃ ms v, run (idle n) ms = some v ∧ v.settled = b := by
  constructor
  · rintro ⟨ms, h⟩
    obtain ⟨ns, v, hv, hb, -⟩ := exists_of_run hn h
    exact ⟨ns, v, hv, hb⟩
  · rintro ⟨ms, v, hv, rfl⟩
    obtain ⟨ns, -, h⟩ := settled_of_run hn hv
    exact ⟨ns, h⟩

/-! ### The work that is left -/

/-- Going on is a move more for each two moves of the barrier. -/
def work (v : Vigil n) : Nat := 2 * v.settled.work + v.stance.isLooked.toNat

theorem work_enter (v : Vigil n) : work { v with count := v.count + 1 } = v.work + 10 := by
  have h : (settled { v with count := v.count + 1 }).work = v.settled.work + 5 :=
    Barrier.work_enter v.settled
  simp only [work, h]
  omega

theorem work_stepped_lt (hn : n.WakesEnabled) (hv : v.Sound) (h : Stepped v m u)
    (hm : m ≠ .enter) : u.work < v.work := by
  unfold work
  rcases settled_of_stepped hn hv h with hs | ⟨-, hs, hp, hu⟩
  · have hlt := Barrier.work_step_lt hs hm
    have hle := Bool.toNat_le u.stance.isLooked
    omega
  · rw [hs, hp, hu]
    exact Nat.lt_add_one _

theorem length_add_work_le (hn : n.WakesEnabled) (h : run (idle n) ms = some v) :
    ms.length + v.work ≤ 11 * ms.count .enter + 4 := by
  refine run_induction (P := fun ms (v : Vigil n) => ms.length + v.work ≤ 11 * ms.count .enter + 4)
    (Nat.le_of_eq rfl) (fun ms v m u hr hv hm => ?_) h
  rw [List.length_append, List.count_append, List.length_singleton]
  by_cases he : m = .enter
  · subst he
    cases hm
    rw [work_enter, List.count_singleton_self]
    omega
  · have := work_stepped_lt hn (sound_of_run hr) hm he
    omega

/-! ### What the waiter has seen -/

/-- The latest move of the waiter was a look at the count, and it saw `seen`. -/
def Looked (n : Notifier) (ms : List Move) (seen : Nat) : Prop :=
  ∃ before after v t, ms = before ++ .wait :: after ∧ .wait ∉ after ∧
    run (idle n) before = some v ∧ v.stance = .enabled t ∧ v.count = seen

/-- The latest move of the waiter was to go on after it had seen a count of zero. -/
def Passed (n : Notifier) (ms : List Move) : Prop :=
  ∃ before after, ms = before ++ .wait :: after ∧ .wait ∉ after ∧ Looked n before 0

theorem Looked.concat {seen : Nat} (h : Looked n ms seen) (hm : m ≠ .wait) :
    Looked n (ms ++ [m]) seen := by
  obtain ⟨before, after, v, t, rfl, hafter, hv⟩ := h
  exact ⟨before, after ++ [m], v, t, by simp, by simpa [hafter] using hm.symm, hv⟩

theorem Passed.concat (h : Passed n ms) (hm : m ≠ .wait) : Passed n (ms ++ [m]) := by
  obtain ⟨before, after, rfl, hafter, hv⟩ := h
  exact ⟨before, after ++ [m], by simp, by simpa [hafter] using hm.symm, hv⟩

/-- Only the waiter itself changes its stance. -/
theorem stance_of_stepped (h : Stepped v m u) (hm : m ≠ .wait) : u.stance = v.stance := by
  cases h with
  | enter | leave | notify => rfl
  | enable | look | pass | park | again => exact absurd rfl hm

theorem seen_of_run (h : run (idle n) ms = some v) :
    (∀ t seen, v.stance = .looked t seen → Looked n ms seen) ∧
      (v.stance = .through → Passed n ms) := by
  refine run_induction (P := fun ms v => (∀ t seen, v.stance = .looked t seen → Looked n ms seen) ∧
    (v.stance = .through → Passed n ms)) ⟨nofun, nofun⟩ (fun ms v m u hr ⟨hl, hp⟩ hm => ?_) h
  by_cases hw : m = .wait
  · subst hw
    -- it passes with what it has seen, whatever the count has become since
    cases hm with
    | look hv =>
      refine ⟨fun t seen ht => ?_, nofun⟩
      cases ht
      exact ⟨ms, [], v, _, rfl, nofun, hr, hv, rfl⟩
    | pass hv => exact ⟨nofun, fun _ => ⟨ms, [], rfl, nofun, hl _ 0 hv⟩⟩
    | enable | park | again => exact ⟨nofun, nofun⟩
  · rw [stance_of_stepped hm hw]
    exact ⟨fun t seen ht => (hl t seen ht).concat hw, fun ht => (hp ht).concat hw⟩

/-- What a run of the vigil does for the waiter. -/
structure Heeded (ms : List Move) (v : Vigil n) : Prop where
  /-- with all handlers gone, it is not parked without a notification -/
  woken : v.count = 0 → v.notifying = 0 → ∀ t, v.stance = .parked t → n.isWoken v.bell t = true
  passed : v.stance = .through → Passed n ms
  /-- it is through where nothing can move but a handler that enters -/
  rested : (∀ m, m ≠ .enter → v.step m = none) → v.stance = .through
  ended : ms.length ≤ 11 * ms.count .enter + 4

theorem woken_of_run (hn : n.WakesEnabled) (h : run (idle n) ms = some v) (hc : v.count = 0)
    (hz : v.notifying = 0) {t : n.Ticket} (hp : v.stance = .parked t) :
    n.isWoken v.bell t = true := by
  cases ht : n.isWoken v.bell t with
  | true => rfl
  | false =>
    have hs : v.settled.waiter = .parked false := by simp [settled, hp, Stance.settled, ht]
    rcases watched_of_run hn h hs with h | h
    · exact absurd h (by simp [settled, hc])
    · exact absurd h (by simp [settled, hz])

/-- Where only a handler that enters can move, the barrier is stuck as well. -/
theorem through_of_stuck (hn : n.WakesEnabled) (h : run (idle n) ms = some v)
    (hm : ∀ m, m ≠ .enter → v.step m = none) : v.stance = .through := by
  have hp : v.stance.isLooked = false := by
    refine Bool.eq_false_iff.mpr fun hp => ?_
    obtain ⟨u, hu, -⟩ := exists_goOn hp
    exact absurd hu (by rw [show v.wait = none from hm .wait nofun]; nofun)
  have hs : ∀ m, m ≠ .enter → v.settled.step m = none := by
    refine fun m he => Option.eq_none_iff_forall_ne_some.mpr fun b hb => ?_
    obtain ⟨u, hu, -⟩ := exists_step hn (sound_of_run h) hp hb
    exact absurd hu (by rw [hm m he]; nofun)
  have hw := (Barrier.through_of_stuck (watched_of_run hn h) hs).1
  simp only [settled] at hw
  cases hv : v.stance <;> simp_all [Stance.settled, Stance.isLooked]

theorem heeded_of_run (hn : n.WakesEnabled) (h : run (idle n) ms = some v) : v.Heeded ms where
  woken hc hz _ hp := woken_of_run hn h hc hz hp
  passed := (seen_of_run h).2
  rested := through_of_stuck hn h
  ended := Nat.le_trans (Nat.le_add_right _ _) (length_add_work_le hn h)

end Vigil

end ContextServer
