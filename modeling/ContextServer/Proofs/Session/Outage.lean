import ContextServer.Proofs.Session.Account

/-!
Sessions whose stream to the peer breaks. No part of a session looks at what has become of a write
or of shutting the stream down. So a step is the same step when the stream is mended before it
(`act_mended`), and a whole run is the run of the same actions without the outages (`run_mended`).
Two runs of one schedule with different outages therefore differ in nothing but which of their
writes come off (`undisturbed_of_run`).
-/

namespace ContextServer

namespace Effect

/-- The effect as it is when every write comes off. -/
def mended : Effect → Effect
  | lost e => wrote e
  | x => x

def call? : Effect → Option ProviderCall
  | called c => some c
  | _ => none

def isShutDown : Effect → Bool
  | shutDown => true
  | _ => false

@[simp] theorem reading?_mended (x : Effect) : x.mended.reading? = x.reading? := by
  cases x <;> rfl

@[simp] theorem call?_mended (x : Effect) : x.mended.call? = x.call? := by
  cases x <;> rfl

@[simp] theorem attempted?_mended (x : Effect) : x.mended.attempted? = x.attempted? := by
  cases x <;> rfl

theorem mended_ne_lost (x : Effect) (e : Envelope) : x.mended ≠ .lost e := by
  cases x <;> nofun

end Effect

namespace Session

/-- Whether an action concerns nothing but how the stream to the peer takes what it is given. -/
def Action.isOutage : Action → Bool
  | .command .breakWriter | .command .mendWriter | .command .breakClose => true
  | _ => false

/-- The same schedule, with a stream that always works. -/
def withoutOutages (as : List Action) : List Action := as.filter (! ·.isOutage)

/-- The session with its stream to the peer in order. -/
def mended (s : Session) : Session := { s with outlet := ⟨false, false, s.outlet.closes⟩ }

def Result.mended (r : Result) : Result := (r.1.map Effect.mended, r.2.mended)

/-- The provider calls that have been made, in order. -/
def calls (es : List Effect) : List ProviderCall := es.filterMap Effect.call?

/-- The phases that a session goes through, each of them once for the time that it lasts. -/
def phases (c : Setup) (s : Session) : List Action → List Phase
  | [] => [s.phase]
  | a :: as =>
    match act c s a with
    | some (_, t) => if t.phase = s.phase then phases c t as else s.phase :: phases c t as
    | none => [s.phase]

/-! ### One step -/

section

variable (c : Setup) (s : Session)

@[simp] theorem mended_loop : s.mended.loop = s.loop := rfl

@[simp] theorem mended_phase : s.mended.phase = s.phase := rfl

@[simp] theorem mended_inbound : s.mended.inbound = s.inbound := rfl

@[simp] theorem mended_free : s.mended.free = s.free := rfl

@[simp] theorem mended_barrier : s.mended.barrier = s.barrier := rfl

@[simp] theorem mended_initialized : s.mended.initialized = s.initialized := rfl

@[simp] theorem mended_permits : s.mended.permits = s.permits := rfl

@[simp] theorem mended_watch : s.mended.watch = s.watch := rfl

@[simp] theorem mended_interrupted : s.mended.interrupted = s.interrupted := rfl

@[simp] theorem mended_clock : s.mended.clock = s.clock := rfl

@[simp] theorem mended_write (e : Envelope) : (s.write e).mended = .wrote e := by
  unfold write
  split <;> rfl

@[simp] theorem write_mended (e : Envelope) : s.mended.write e = .wrote e := rfl

theorem mended_logged (events : List Event) :
    (events.map Effect.logged).map Effect.mended = events.map Effect.logged := by
  rw [List.map_map]
  rfl

theorem stepLoop_mended : stepLoop c s.mended = (stepLoop c s).map Result.mended := by
  unfold stepLoop
  rw [mended_loop]
  cases s.loop with
  | checking =>
    rw [mended_phase]
    cases s.phase.stop? <;> rfl
  | reading =>
    rw [mended_inbound]
    cases Reader.read c.framing c.limit s.inbound <;> rfl
  | rejecting reply =>
    simp only [Option.map_some, Result.mended, List.map_cons, List.map_nil, mended_write,
      write_mended]
    rfl
  | holding e =>
    rw [mended_free]
    match s.free with
    | none | some 0 | some (n + 1) => rfl
  | draining e =>
    rw [mended_barrier]
    cases s.barrier.wait <;> rfl
  | starting | closing | marking | finished | dropped => rfl

theorem stepHandler_mended (i : Nat) (h : Handler) :
    stepHandler c s.mended i h = (stepHandler c s i h).map Result.mended := by
  unfold stepHandler
  cases h.stage with
  | negotiating p =>
    rw [mended_initialized]
    cases s.initialized <;> rfl
  | held g a =>
    rw [mended_permits]
    by_cases hg : g ∈ s.permits
    · simp only [if_pos hg]
      rfl
    · simp only [if_neg hg]
      rfl
  | concluding r =>
    simp only [Option.map_some, Result.mended, mended_logged]
    rfl
  | replying e =>
    by_cases he : isWritable e = true
    · simp only [he, if_true, Option.map_some, Result.mended, List.map_cons, List.map_nil,
        mended_write, write_mended]
      rfl
    · simp only [he]
      rfl
  | arrived | consulting | leaving | notifying | releasing => rfl

theorem stepJoin_mended : s.mended.stepJoin = s.stepJoin.map Result.mended := by
  unfold stepJoin
  rw [mended_watch, mended_loop]
  split <;> rfl

theorem stepInterrupt_mended :
    stepInterrupt c s.mended = (stepInterrupt c s).map Result.mended := by
  unfold stepInterrupt
  rw [mended_watch, mended_interrupted]
  split
  · split <;> rfl
  · rfl

theorem stepExpire_mended : s.mended.stepExpire = s.stepExpire.map Result.mended := by
  unfold stepExpire
  rw [mended_watch, mended_loop, mended_clock]
  split
  · rfl
  · split <;> rfl
  · rfl

theorem stepDrop_mended : s.mended.stepDrop = s.stepDrop.map Result.mended := by
  unfold stepDrop
  rw [mended_watch, mended_loop]
  split
  · split <;> rfl
  · rfl

end

/-- Whatever becomes of the writes before it and in it, a step is the same. -/
theorem act_mended {a : Action} (ha : a.isOutage = false) (c : Setup) (s : Session) :
    act c s.mended a = (act c s a).map Result.mended := by
  cases a with
  | move m =>
    cases m with
    | loop => exact stepLoop_mended c s
    | handler i =>
      show (s.handlers[i]?).bind _ = ((s.handlers[i]?).bind _).map _
      cases s.handlers[i]? with
      | none => rfl
      | some h => exact stepHandler_mended c s i h
    | join => exact stepJoin_mended s
    | interrupt => exact stepInterrupt_mended c s
    | expire => exact stepExpire_mended s
    | drop => exact stepDrop_mended s
  | command k =>
    cases k with
    | breakWriter | mendWriter | breakClose => cases ha
    | _ => rfl

/-- An outage is no step of the session. -/
theorem act_outage {a : Action} (ha : a.isOutage = true) (c : Setup) (s : Session) :
    ∃ t, act c s a = some ([], t) ∧ t.mended = s.mended ∧ t.phase = s.phase := by
  cases a with
  | move m => cases ha
  | command k =>
    cases k with
    | breakWriter | mendWriter | breakClose => exact ⟨_, rfl, rfl, rfl⟩
    | _ => cases ha

/-! ### Whole runs -/

theorem withoutOutages_cons (a : Action) (as : List Action) :
    withoutOutages (a :: as) =
      if a.isOutage then withoutOutages as else a :: withoutOutages as := by
  rw [withoutOutages, List.filter_cons]
  cases a.isOutage <;> rfl

/-- A run is possible with outages exactly if it is without them, and it is the same run. -/
theorem run_mended (c : Setup) (s : Session) (as : List Action) :
    run c s.mended (withoutOutages as) = (run c s as).map Result.mended := by
  induction as generalizing s with
  | nil => rfl
  | cons a as ih =>
    rw [withoutOutages_cons, run_cons]
    cases ha : a.isOutage with
    | true =>
      obtain ⟨t, ht, hm, -⟩ := act_outage ha c s
      rw [if_pos rfl, ht, Option.bind_some, ← hm, ih t]
      cases run c t as <;> rfl
    | false =>
      rw [if_neg Bool.false_ne_true, run_cons, act_mended ha]
      cases act c s a with
      | none => rfl
      | some r =>
        rw [Option.map_some, Option.bind_some, Option.bind_some]
        show (run c r.2.mended (withoutOutages as)).map _ = _
        rw [ih r.2]
        cases run c r.2 as with
        | none => rfl
        | some q => simp [Result.mended]

theorem run_start_mended (c : Setup) (as : List Action) :
    run c (start c) (withoutOutages as) = (run c (start c) as).map Result.mended :=
  run_mended c (start c) as

/-- Without an outage every write comes off. -/
theorem lost_notMem_of_run {c : Setup} {as : List Action} {es : List Effect} {s : Session}
    (h : run c (start c) as = some (es, s)) (ha : ∀ a ∈ as, a.isOutage = false) (e : Envelope) :
    .lost e ∉ es := by
  have has : withoutOutages as = as := List.filter_eq_self.mpr fun a hm => by simp [ha a hm]
  have hes : es = es.map Effect.mended := by
    have := run_start_mended c as
    rw [has, h, Option.map_some, Option.some.injEq] at this
    exact congrArg Prod.fst this
  intro hm
  rw [hes] at hm
  obtain ⟨x, -, hx⟩ := List.mem_map.mp hm
  exact x.mended_ne_lost e hx

theorem phases_mended (c : Setup) (s : Session) (as : List Action) :
    phases c s.mended (withoutOutages as) = phases c s as := by
  induction as generalizing s with
  | nil => rfl
  | cons a as ih =>
    rw [withoutOutages_cons]
    cases ha : a.isOutage with
    | true =>
      obtain ⟨t, ht, hm, hp⟩ := act_outage ha c s
      rw [if_pos rfl, phases, ht, ← hm, ih t]
      simp only [hp, if_true]
    | false =>
      rw [if_neg Bool.false_ne_true, phases, phases, act_mended ha]
      cases act c s a with
      | none => rfl
      | some r =>
        simp only [Option.map_some, Result.mended, ih r.2]
        rfl

/-! ### What the stream itself sees -/

/-- A stream that is broken stays so until it is mended. -/
theorem Transition.stays_broken {c : Setup} {s t : Session} {a : Action} {fs : List Effect}
    (h : Transition c s a fs t) (ha : a ≠ .command .mendWriter) (hb : s.outlet.broken = true) :
    t.outlet.broken = true := by
  cases h with
  | loop hs => cases hs <;> exact hb
  | handler hi hs => rwa [hs.frame.2.2.2.1]
  | join | interrupt | expire | drop => exact hb
  | @command k =>
    cases k with
    | mendWriter => exact absurd rfl ha
    | breakWriter => rfl
    | _ => exact hb

/-- A stream that breaks for good takes the first of the writes, and all of them until it breaks. -/
theorem written_prefix_of_run {c : Setup} {as : List Action} {es : List Effect} {s : Session}
    (h : run c (start c) as = some (es, s)) (hm : .command .mendWriter ∉ as) :
    written es <+: attempted es ∧ (s.outlet.broken = false → written es = attempted es) := by
  refine run_induction (P := fun as es s => .command .mendWriter ∉ as →
    written es <+: attempted es ∧ (s.outlet.broken = false → written es = attempted es))
    (fun _ => ⟨List.prefix_rfl, fun _ => rfl⟩) (fun as es s a fs t _ ih ht hm => ?_) h hm
  obtain ⟨hpre, heq⟩ := ih fun h => hm (by simp [h])
  rw [written_append, attempted_append]
  cases hb : s.outlet.broken with
  | true =>
    have hnil : written fs = [] := by
      refine List.filterMap_eq_nil_iff.mpr fun x hx => ?_
      cases x with
      | wrote e =>
        have := ht.eq_write hx rfl
        simp [write, hb] at this
      | _ => rfl
    rw [hnil, List.append_nil]
    have hstays := ht.stays_broken (fun ha => hm (by simp [ha])) hb
    exact ⟨hpre.trans (List.prefix_append _ _), fun hbt => by rw [hstays] at hbt; cases hbt⟩
  | false =>
    rw [heq hb, written_eq_attempted (ht.lost_notMem hb)]
    exact ⟨List.prefix_rfl, fun _ => rfl⟩

theorem closes_of_run {c : Setup} {as : List Action} {es : List Effect} {s : Session}
    (h : run c (start c) as = some (es, s)) : s.outlet.closes = es.countP Effect.isShutDown := by
  have quiet {fs : List Effect} (hfs : ∀ x ∈ fs, x.isHandlers = true) :
      fs.countP Effect.isShutDown = 0 := by
    refine List.countP_eq_zero.mpr fun x hx => ?_
    have := hfs x hx
    cases x with
    | shutDown => cases this
    | _ => exact Bool.false_ne_true
  refine run_induction (P := fun _ es s => s.outlet.closes = es.countP Effect.isShutDown) rfl
    (fun as es s a fs t _ ih ht => ?_) h
  rw [List.countP_append, ← ih]
  cases ht with
  | loop hs =>
    cases hs with
    | reject =>
      rw [quiet (by simp [isHandlers_write])]
      rfl
    | _ => rfl
  | handler hi hs =>
    rw [quiet hs.isHandlers, hs.frame.2.2.2.1]
    rfl
  | join | interrupt | expire | drop => rfl
  | @command k => cases k <;> rfl

/-- A session that has come to its end has shut its stream down once. -/
theorem closes_of_finished {c : Setup} {as : List Action} {es : List Effect} {s : Session}
    {e : Ending} (h : run c (start c) as = some (es, s)) (hl : s.loop = .finished e) :
    s.outlet.closes = 1 := by
  obtain ⟨before, rfl, hbefore⟩ := (closing_of_run h).shut (by rw [hl]; rfl)
  have hnone : before.countP Effect.isShutDown = 0 := by
    refine List.countP_eq_zero.mpr fun x hx => ?_
    cases x with
    | shutDown => exact absurd hx hbefore
    | _ => exact Bool.false_ne_true
  rw [closes_of_run h, List.countP_append, hnone]
  rfl

/-! ### Two runs of one schedule -/

/-- What a run of the actions `as` has in common with a run of the actions `bs` that has other
outages. -/
structure Undisturbed (c : Setup) (as bs : List Action) (es fs : List Effect) (s t : Session) :
    Prop where
  reads : reads es = reads fs
  calls : calls es = calls fs
  phases : phases c (start c) as = phases c (start c) bs
  closes : s.outlet.closes = t.outlet.closes
  once : ∀ e, s.loop = .finished e → s.outlet.closes = 1
  ending : s.ending? = t.ending?
  /-- All that happens is the same, but for the writes that come off in one run only. -/
  effects : es.map Effect.mended = fs.map Effect.mended
  state : s.mended = t.mended
  /-- A stream that breaks for good takes the first frames of one that works. -/
  frames : .command .mendWriter ∉ as → (∀ b ∈ bs, b.isOutage = false) → written es <+: written fs

theorem filterMap_mended {β : Type} {f : Effect → Option β} (hf : ∀ x, f x.mended = f x)
    {es fs : List Effect} (h : es.map Effect.mended = fs.map Effect.mended) :
    es.filterMap f = fs.filterMap f := by
  have erase (es : List Effect) : (es.map Effect.mended).filterMap f = es.filterMap f := by
    rw [List.filterMap_map]
    exact List.filterMap_congr fun x _ => hf x
  rw [← erase es, h, erase fs]

theorem ending?_mended (s : Session) : s.mended.ending? = s.ending? := rfl

/-- Whatever befalls the stream to the peer, and whenever: under the same schedule the session
reads the same, makes the same calls, and comes to the same end. -/
theorem undisturbed_of_run {c : Setup} {as bs : List Action} {es : List Effect} {s : Session}
    (hab : withoutOutages as = withoutOutages bs) (h : run c (start c) as = some (es, s)) :
    ∃ fs t, run c (start c) bs = some (fs, t) ∧ Undisturbed c as bs es fs s t := by
  have heq : (run c (start c) bs).map Result.mended = some (Result.mended (es, s)) := by
    rw [← run_start_mended, ← hab, run_start_mended, h, Option.map_some]
  obtain ⟨⟨fs, t⟩, ht, heq⟩ := Option.map_eq_some_iff.mp heq
  have heffects : es.map Effect.mended = fs.map Effect.mended := (congrArg Prod.fst heq).symm
  have hstate : s.mended = t.mended := (congrArg Prod.snd heq).symm
  refine ⟨fs, t, ht, ?_⟩
  exact
    { reads := filterMap_mended Effect.reading?_mended heffects
      calls := filterMap_mended Effect.call?_mended heffects
      phases := by
        rw [← phases_mended c (start c) as, hab, phases_mended]
      closes := congrArg (·.outlet.closes) hstate
      once := fun e he => closes_of_finished h he
      ending := by rw [← ending?_mended, hstate, ending?_mended]
      effects := heffects
      state := hstate
      frames := fun hm hb => by
        have hattempted : attempted es = attempted fs :=
          filterMap_mended Effect.attempted?_mended heffects
        rw [written_eq_attempted (lost_notMem_of_run ht hb), ← hattempted]
        exact (written_prefix_of_run h hm).1 }

/-- The stream of a session that has a request at hand breaks before the reply is written, and
fails to be shut down. -/
theorem undisturbed_of_run_cancelledAtWork :
    ∃ es s, run (bare (some 1)) (start (bare (some 1))) cancelledAtWork = some (es, s) ∧
      s.ending? = some (.cancelled "stop") ∧ s.outlet.closeFails = true ∧
      (written es).length = 0 ∧ (attempted es).length = 1 ∧
      ∃ fs t, run (bare (some 1)) (start (bare (some 1))) (withoutOutages cancelledAtWork) =
          some (fs, t) ∧
        Undisturbed (bare (some 1)) cancelledAtWork (withoutOutages cancelledAtWork) es fs s t := by
  obtain ⟨es, s, h, he⟩ := exists_of_run (c := bare (some 1)) (s := start (bare (some 1)))
    cancelledAtWork (p := fun es s => s.ending? == some (.cancelled "stop") &&
      s.outlet.closeFails && (written es).length == 0 && (attempted es).length == 1)
    (by decide +kernel)
  simp only [Bool.and_eq_true, beq_iff_eq] at he
  obtain ⟨⟨⟨hending, hcloses⟩, hwritten⟩, hattempted⟩ := he
  have hab : withoutOutages cancelledAtWork = withoutOutages (withoutOutages cancelledAtWork) := by
    decide
  exact ⟨es, s, h, hending, hcloses, hwritten, hattempted, undisturbed_of_run hab h⟩

end Session
end ContextServer
