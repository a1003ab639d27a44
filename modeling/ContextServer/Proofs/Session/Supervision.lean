import ContextServer.Proofs.Session.Closing

/-!
What a supervisor reports. It comes to its report in two ways: the session ends by itself, or the
period of grace expires. A session that ends tells of the first request to stop, whoever has made
it. The expiry looks at no request: it reports the interrupt, even if somebody else has been first
(`reports_of_run`).
-/

namespace ContextServer.Session

/-- What a supervisor that stands at `w` has come through with the actions `as`. -/
def CameTo (as : List Action) (s : Session) : Watch → Prop
  | .absent | .waiting => .move .expire ∉ as
  | .grace _ => .move .interrupt ∈ as ∧ .move .expire ∉ as
  | .returned e =>
    (s.loop = .finished e ∧ .move .expire ∉ as) ∨
      (e = .cancelled interruptReason ∧ .move .interrupt ∈ as ∧ .move .expire ∈ as)

/-- It stays true while the supervisor stays where it is and a loop that has finished stays so. -/
theorem CameTo.aside {as : List Action} {s t : Session} {a : Action} {w : Watch}
    (h : CameTo as s w) (ha : a ≠ .move .expire)
    (hl : ∀ e, s.loop = .finished e → t.loop = .finished e) : CameTo (as ++ [a]) t w := by
  have hne : .move .expire ∉ as → .move .expire ∉ as ++ [a] := fun hn hm => by
    rcases List.mem_append.mp hm with hm | hm
    · exact hn hm
    · exact ha (List.mem_singleton.mp hm).symm
  cases w with
  | absent | waiting => exact hne h
  | grace => exact ⟨List.mem_append_left _ h.1, hne h.2⟩
  | returned e =>
    rcases h with ⟨he, hn⟩ | ⟨he, hi, hx⟩
    · exact .inl ⟨hl e he, hne hn⟩
    · exact .inr ⟨he, List.mem_append_left _ hi, List.mem_append_left _ hx⟩

theorem LoopStep.ne_finished {c : Setup} {s t : Session} {fs : List Effect}
    (h : LoopStep c s fs t) (e : Ending) : s.loop ≠ .finished e := by
  intro hf
  cases h <;> simp_all

theorem cameTo_next {c : Setup} {as : List Action} {s t : Session} {a : Action}
    {fs : List Effect} (h : CameTo as s s.watch) (ht : Transition c s a fs t) :
    CameTo (as ++ [a]) t t.watch := by
  cases ht with
  | loop hs =>
    have hw : t.watch = s.watch := by cases hs <;> rfl
    rw [hw]
    exact h.aside nofun fun e he => absurd he (hs.ne_finished e)
  | handler hi hs =>
    obtain ⟨hl, -, -, -, hw, -⟩ := hs.frame
    rw [hw]
    exact h.aside nofun fun e he => hl.trans he
  | @join e hl hw hr =>
    have hn : .move .expire ∉ as := by
      cases hs : s.watch with
      | absent => exact absurd hs hw
      | returned e => exact absurd hs (hr e)
      | waiting => rw [hs] at h; exact h
      | grace => rw [hs] at h; exact h.2
    exact .inl ⟨hl, by simp [hn]⟩
  | interrupt hw =>
    rw [hw] at h
    have hn : .move .expire ∉ as := h
    exact ⟨by simp, by simp [hn]⟩
  | expire hw =>
    rw [hw] at h
    exact .inr ⟨rfl, by simp [h.1], by simp⟩
  | drop hw hl => exact h.aside nofun fun e he => by rw [he] at hl; cases hl
  | @command k => cases k <;> exact h.aside nofun fun _ he => he

theorem cameTo_of_run {c : Setup} {as : List Action} {es : List Effect} {s : Session}
    (h : run c (start c) as = some (es, s)) : CameTo as s s.watch :=
  run_induction (P := fun as _ s => CameTo as s s.watch)
    (by
      simp only [start]
      cases c.grace <;> exact List.not_mem_nil)
    (fun _ _ _ _ _ _ _ hs ht => cameTo_next hs ht) h

/-- Whatever has been returned stays returned. -/
theorem watch_of_returned {c : Setup} {s t : Session} {as : List Action} {fs : List Effect}
    {e : Ending} (h : run c s as = some (fs, t)) (hw : s.watch = .returned e) :
    t.watch = .returned e := by
  refine run_induction (P := fun _ _ t => t.watch = .returned e) hw ?_ h
  intro as es t a fs u _ ht htr
  cases htr with
  | loop hs => cases hs <;> exact ht
  | handler hi hs => exact hs.frame.2.2.2.2.1.trans ht
  | join _ _ hr => exact absurd ht (hr e)
  | interrupt hw | expire hw => rw [ht] at hw; cases hw
  | drop => exact ht
  | @command k => cases k <;> exact ht

/-- A session ends in its loop, or its supervisor gives it up. -/
theorem cases_of_ending? {c : Setup} {as : List Action} {es : List Effect} {s : Session}
    {e : Ending} (h : run c (start c) as = some (es, s)) (he : s.ending? = some e) :
    (s.loop = .finished e ∧ .move .expire ∉ as) ∨
      (e = .cancelled interruptReason ∧ .move .interrupt ∈ as ∧ .move .expire ∈ as) := by
  have hc := cameTo_of_run h
  unfold ending? at he
  cases hw : s.watch with
  | returned e' =>
    rw [hw] at he hc
    cases he
    exact hc
  | absent =>
    rw [hw] at he hc
    cases hl : s.loop with
    | finished e' =>
      rw [hl] at he
      cases he
      exact .inl ⟨rfl, hc⟩
    | _ => simp [hl] at he
  | waiting | grace => simp [hw] at he

/-! ### Who has asked first -/

/-- The action with the first request to stop. -/
def firstAsker? (as : List Action) : Option Action := as.find? (·.request?.isSome)

theorem firstRequest?_eq (as : List Action) :
    firstRequest? as = (firstAsker? as).bind Action.request? := by
  induction as with
  | nil => rfl
  | cons a as ih =>
    unfold firstRequest? firstAsker? at *
    rw [List.findSome?_cons, List.find?_cons]
    cases ha : a.request? with
    | some p => exact ha.symm
    | none => exact ih

theorem request?_eq_cancelled {a : Action} {reason : String} :
    a.request? = some (.cancelled reason) ↔
      a = .command (.cancel reason) ∨ (reason = interruptReason ∧ a = .move .interrupt) := by
  constructor
  · intro h
    unfold Action.request? at h
    split at h <;> simp only [Option.some.injEq, reduceCtorEq, Phase.cancelled.injEq] at h
    · exact .inl (by rw [h])
    · exact .inr ⟨h.symm, rfl⟩
  · rintro (rfl | ⟨rfl, rfl⟩) <;> rfl

theorem firstRequest?_eq_cancelled {as : List Action} {reason : String} :
    firstRequest? as = some (.cancelled reason) ↔
      firstAsker? as = some (.command (.cancel reason)) ∨
        (reason = interruptReason ∧ firstAsker? as = some (.move .interrupt)) := by
  rw [firstRequest?_eq, Option.bind_eq_some_iff]
  simp only [request?_eq_cancelled]
  constructor
  · rintro ⟨a, ha, rfl | ⟨hr, rfl⟩⟩
    · exact .inl ha
    · exact .inr ⟨hr, ha⟩
  · rintro (ha | ⟨hr, ha⟩)
    · exact ⟨_, ha, .inl rfl⟩
    · exact ⟨_, ha, .inr ⟨hr, rfl⟩⟩

/-- What the report `e` tells of the actions `as` and the effects `es` that have led to it. -/
structure Reports (as : List Action) (es : List Effect) (s : Session) (e : Ending) : Prop where
  /-- The first request decides, and no later one, be it the interrupt, takes its place. -/
  accepted : s.phase ≠ .closed → s.phase = (firstRequest? as).getD .running
  /-- A session that has ended by itself reports it. -/
  joined : .move .expire ∉ as → s.phase = .closed ∧ Justified as es e
  /-- The reason of a cancellation is the one of whoever has asked first. -/
  asker : ∀ reason, .move .expire ∉ as → e = .cancelled reason →
    firstAsker? as = some (.command (.cancel reason)) ∨
      (reason = interruptReason ∧ firstAsker? as = some (.move .interrupt))
  /-- Of a session that has been given up nothing but the interrupt is reported, -/
  expired : .move .expire ∈ as → .move .interrupt ∈ as ∧ e = .cancelled interruptReason
  /-- so the report is not the one that the first request asks for exactly if the period of grace
  has expired and that request was not an interrupt. -/
  first : Justified as es e ↔
    (.move .expire ∈ as → firstRequest? as = some (.cancelled interruptReason))

theorem reports_of_run (c : Setup) {as : List Action} {es : List Effect} {s : Session}
    {e : Ending} (h : run c (start c) as = some (es, s)) (he : s.ending? = some e) :
    Reports as es s e := by
  have hc := closing_of_run h
  have hcases := cases_of_ending? h he
  have joined (hn : .move .expire ∉ as) : s.loop = .finished e := by
    rcases hcases with ⟨hl, -⟩ | ⟨-, -, hx⟩
    · exact hl
    · exact absurd hx hn
  have expired (hx : .move .expire ∈ as) :
      .move .interrupt ∈ as ∧ e = .cancelled interruptReason := by
    rcases hcases with ⟨-, hn⟩ | ⟨he, hi, -⟩
    · exact absurd hx hn
    · exact ⟨hi, he⟩
  have justified (hn : .move .expire ∉ as) : Justified as es e :=
    hc.ending e (by rw [joined hn]; rfl)
  constructor
  · exact hc.phase
  · exact fun hn => ⟨hc.closed.mpr ⟨e, joined hn⟩, justified hn⟩
  · rintro reason hn rfl
    exact firstRequest?_eq_cancelled.mp (justified hn)
  · exact expired
  · constructor
    · intro hj hx
      rw [(expired hx).2] at hj
      exact hj
    · intro hf
      by_cases hx : .move .expire ∈ as
      · rw [(expired hx).2]
        exact hf hx
      · exact justified hx

/-- A bare server whose supervisor waits for five milliseconds. -/
def watched : Setup := { bare none with grace := some 5 }

/-- The actions of a session that is cancelled, interrupted and then ends within the period. -/
def endedInGrace : List Action :=
  [.command (.cancel "stop"), .move .loop, .command .interrupt, .move .interrupt] ++
    .replicate 4 (.move .loop) ++ [.command (.advance 9), .move .join]

theorem reports_of_run_endedInGrace :
    ∃ es s, run watched (start watched) endedInGrace = some (es, s) ∧
      s.ending? = some (.cancelled "stop") ∧
      Reports endedInGrace es s (.cancelled "stop") := by
  obtain ⟨es, s, h, he⟩ := exists_of_run (c := watched) (s := start watched) endedInGrace
    (p := fun _ s => s.ending? == some (.cancelled "stop")) (by decide +kernel)
  rw [beq_iff_eq] at he
  exact ⟨es, s, h, he, reports_of_run watched h he⟩

/-- The actions of a session that is cancelled while it reads, then interrupted and given up. -/
def givenUp : List Action :=
  [.move .loop, .command (.cancel "stop"), .command .interrupt, .move .interrupt,
    .command (.advance 5), .move .expire]

/-- The supervisor tells of its interrupt, but the first request was another. -/
theorem ending_givenUp :
    ∃ es s, run watched (start watched) givenUp = some (es, s) ∧
      firstRequest? givenUp = some (.cancelled "stop") ∧
      s.phase = .cancelled "stop" ∧ s.ending? = some (.cancelled "interrupted") := by
  obtain ⟨es, s, h, he⟩ := exists_of_run (c := watched) (s := start watched) givenUp
    (p := fun _ s => s.phase == .cancelled "stop" &&
      s.ending? == some (.cancelled "interrupted")) (by decide +kernel)
  rw [Bool.and_eq_true, beq_iff_eq, beq_iff_eq] at he
  exact ⟨es, s, h, by decide +kernel, he.1, he.2⟩

end ContextServer.Session
