import ContextServer.Proofs.Dispatch.Events
import ContextServer.Proofs.Session.Pending

/-!
The negotiation of a session. Any number of envelopes may ask for it, and their handlers run at
once, each in two steps: it reads the params, and it sets the flag. Whoever sets the flag first
makes the event, and the flag is never taken back. So what has been negotiated tells both
(`flags_of_run`), and it is what the envelopes ask for, but for the handlers that have not come to
it.
-/

namespace ContextServer

open Dispatcher

/-- The event of a negotiation that came first. -/
def Effect.session? : Effect → Option Event
  | logged e => if e.isAudit then none else some e
  | _ => none

/-- The params with which a handler at this stage negotiates in its next step. -/
def Stage.negotiating? : Stage → Option InitializeParams
  | negotiating p => some p
  | _ => none

/-- The params with which a handler at this stage has still to negotiate. -/
def Stage.negotiation? (e : Envelope) : Stage → Option InitializeParams
  | arrived => e.negotiation?
  | negotiating p => some p
  | _ => none

def Handler.negotiation (h : Handler) : List InitializeParams :=
  (h.stage.negotiation? h.envelope).toList

theorem Envelope.negotiation?_eq_some {e : Envelope} {p : InitializeParams} :
    e.negotiation? = some p ↔
      e.method? = some Method.handshake.name ∧ InitializeParams.shape.Reads e.params? p := by
  unfold negotiation?
  split
  · rename_i hm
    by_cases hr : ∃ q, InitializeParams.shape.Reads e.params? q
    · obtain ⟨q, hq⟩ := hr
      rw [requiredParams_of_reads hq]
      refine ⟨fun h => ?_, fun ⟨_, hp⟩ => ?_⟩
      · cases h
        exact ⟨hm, hq⟩
      · rw [← requiredParams_of_reads hq, requiredParams_of_reads hp]
        rfl
    · rw [requiredParams_of_not_reads hr]
      exact iff_of_false nofun fun h => hr ⟨p, h.2⟩
  · rename_i hm
    exact iff_of_false nofun fun h => hm h.1

namespace Session

/-- A session to whose dispatcher these envelopes have been handed, all at once and before
anything is read. Their handlers have yet to take their first steps. -/
def handing (c : Setup) (xs : List Envelope) : Session :=
  { start c with
    handlers := xs.map (⟨·, .arrived⟩)
    barrier := { Barrier.idle with count := xs.length } }

/-- The events of negotiations, in order. -/
def sessions (es : List Effect) : List Event := es.filterMap Effect.session?

/-- The negotiation that an action is. -/
def negotiates? (s : Session) : Action → Option InitializeParams
  | .move (.handler i) => s.handlers[i]?.bind (·.stage.negotiating?)
  | _ => none

/-- What the handlers negotiate along a run, in order. -/
def negotiations (c : Setup) (s : Session) : List Action → List InitializeParams
  | [] => []
  | a :: as =>
    match act c s a with
    | some (_, t) => (s.negotiates? a).toList ++ negotiations c t as
    | none => []

section Stages

variable (d : Dispatcher) (e : Envelope)

theorem negotiation?_planned : (planned d e).negotiation? e = e.negotiation? := by
  rw [← (plan_spec d e).2]
  unfold planned
  cases d.plan e <;> rfl

theorem negotiation?_answered (a : Answer Json) : (answered e a).negotiation? e = none := by
  unfold answered
  cases result? a with
  | some r => rfl
  | none => cases crashReply e <;> rfl

theorem negotiation?_consulted (p : Promise Json) : (consulted e p).negotiation? e = none := by
  unfold consulted
  cases p.gate with
  | none => exact negotiation?_answered e p.answer
  | some g => rfl

theorem negotiation?_concluded (r : Except ErrorObject Json) :
    (concluded e r).negotiation? e = none := by
  unfold concluded
  cases (conclude e r).2 <;> rfl

end Stages

theorem sessions_append (es fs : List Effect) : sessions (es ++ fs) = sessions es ++ sessions fs :=
  List.filterMap_append

theorem sessions_write (s : Session) (e : Envelope) : sessions [s.write e] = [] := by
  unfold write
  split <;> rfl

/-- What a handler logs when it concludes is about its message. -/
theorem sessions_conclude (e : Envelope) (r : Except ErrorObject Json) :
    sessions ((conclude e r).1.map .logged) = [] := by
  refine List.filterMap_eq_nil_iff.mpr fun x hx => ?_
  obtain ⟨event, he, rfl⟩ := List.mem_map.mp hx
  rw [← isAudit_conclude] at he
  exact if_pos (List.mem_filter.mp he).2

variable {c : Setup} {s t u : Session} {a : Action} {as : List Action} {es fs : List Effect}
  {i : Nat} {h : Handler}

theorem negotiates?_handler (hi : s.handlers[i]? = some h) :
    s.negotiates? (.move (.handler i)) = h.stage.negotiating? := by
  rw [negotiates?, hi, Option.bind_some]

/-! ### One step -/

/-- A handler that sets the flag does all that it has to negotiate, and no other step does any of
it. -/
theorem HandlerStep.negotiation (hs : HandlerStep c s i h fs t) (hi : s.handlers[i]? = some h) :
    Advances Handler.negotiation s t i h (s.negotiates? (.move (.handler i))).toList := by
  have own {st : Stage} (hst : h.stage = st) :
      (st.negotiation? h.envelope).toList = h.negotiation := by
    rw [Handler.negotiation, hst]
  rw [negotiates?_handler hi]
  cases hs with
  | plan hs =>
    rw [hs]
    exact .inl ⟨_, rfl, (congrArg _ (negotiation?_planned _ _)).trans (own hs)⟩
  | negotiate hs =>
    rw [hs]
    exact .inl ⟨_, rfl, own hs⟩
  | consult hs =>
    rw [hs]
    exact .inl ⟨_, rfl, (congrArg _ (negotiation?_consulted _ _)).trans (own hs)⟩
  | pass hs hg =>
    rw [hs]
    exact .inl ⟨_, rfl, (congrArg _ (negotiation?_answered _ _)).trans (own hs)⟩
  | conclude hs =>
    rw [hs]
    exact .inl ⟨_, rfl, (congrArg _ (negotiation?_concluded _ _)).trans (own hs)⟩
  | reply hs =>
    rw [hs]
    exact .inl ⟨_, rfl, own hs⟩
  | leave hs =>
    rw [hs]
    refine .inl ⟨_, rfl, .trans ?_ (own hs)⟩
    cases s.barrier.isLast <;> rfl
  | notify hs =>
    rw [hs]
    exact .inl ⟨_, rfl, own hs⟩
  | release hs =>
    rw [hs]
    exact .inr ⟨rfl, own hs⟩

theorem advances_negotiation (ha : a = .move (.handler i)) (hi : s.handlers[i]? = some h)
    (hs : HandlerStep c s i h fs t) :
    Advances Handler.negotiation s t i h (s.negotiates? a).toList :=
  ha ▸ hs.negotiation hi

/-- A step sets the flag, if it is a negotiation, and then makes the event, if the flag was not
set. -/
structure Flags (s t : Session) (p : Option InitializeParams) (fs : List Effect) : Prop where
  flag : t.initialized = (s.initialized || p.isSome)
  event : sessions fs = if s.initialized then [] else (p.map negotiated).toList

theorem flags_of_none (ht : t.initialized = s.initialized) (hf : sessions fs = []) :
    Flags s t none fs :=
  ⟨by rw [ht]; simp, by rw [hf]; simp⟩

theorem HandlerStep.flags (hs : HandlerStep c s i h fs t) (hi : s.handlers[i]? = some h) :
    Flags s t (s.negotiates? (.move (.handler i))) fs := by
  rw [negotiates?_handler hi]
  cases hs with
  | @negotiate p hs =>
    rw [hs]
    refine ⟨(Bool.or_true _).symm, ?_⟩
    split <;> rfl
  | plan hs | consult hs | pass hs | leave hs | notify hs | release hs =>
    rw [hs]
    exact flags_of_none rfl rfl
  | conclude hs =>
    rw [hs]
    exact flags_of_none rfl (sessions_conclude _ _)
  | reply hs =>
    rw [hs]
    refine flags_of_none rfl ?_
    split
    · exact sessions_write s _
    · rfl

theorem negotiates?_eq_none (ha : ∀ i, a ≠ .move (.handler i)) : s.negotiates? a = none := by
  cases a with
  | command k => rfl
  | move m =>
    cases m with
    | handler i => exact absurd rfl (ha i)
    | loop | join | interrupt | expire | drop => rfl

theorem Transition.flags (ht : Transition c s a fs t) : Flags s t (s.negotiates? a) fs := by
  cases ht with
  | loop hs =>
    cases hs with
    | reject => exact flags_of_none rfl (sessions_write s _)
    | stop | resume | read | grant | spawn | wait | pass | close | mark =>
      exact flags_of_none rfl rfl
  | handler hi hs => exact hs.flags hi
  | join | interrupt | expire | drop => exact flags_of_none rfl rfl
  | @command k => cases k <;> exact flags_of_none rfl rfl

/-! ### A run -/

/-- A handler that is about to negotiate can. -/
theorem negotiates?_of_act_eq_none (h : act c s a = none) : s.negotiates? a = none := by
  cases a with
  | command k => rfl
  | move m =>
    cases m with
    | loop | join | interrupt | expire | drop => rfl
    | handler i =>
      cases hi : s.handlers[i]? with
      | none => rw [negotiates?, hi, Option.bind_none]
      | some x =>
        rw [negotiates?_handler hi]
        simp only [act, step, hi, Option.bind_some, stepHandler] at h
        cases hx : x.stage with
        | negotiating p => rw [hx] at h; cases h
        | _ => rfl

theorem negotiations_concat (h : run c s as = some (es, t)) (a : Action) :
    negotiations c s (as ++ [a]) = negotiations c s as ++ (t.negotiates? a).toList := by
  induction as generalizing s es with
  | nil =>
    simp only [run_nil, Option.some.injEq, Prod.mk.injEq] at h
    obtain ⟨-, rfl⟩ := h
    rw [List.nil_append, negotiations, negotiations]
    cases ha : act c s a with
    | none => rw [negotiates?_of_act_eq_none ha]; rfl
    | some r => exact List.append_nil _
  | cons b as ih =>
    rw [run_cons] at h
    obtain ⟨r, hr, h⟩ := Option.bind_eq_some_iff.mp h
    obtain ⟨q, hq, h⟩ := Option.map_eq_some_iff.mp h
    simp only [Prod.mk.injEq] at h
    obtain ⟨-, rfl⟩ := h
    simp only [List.cons_append, negotiations, hr, ih hq, List.append_assoc]

/-- What has been negotiated decides about the flag, and the first of it about the event. -/
theorem flags_of_run (h : run c s as = some (es, t)) :
    Flags s t (negotiations c s as).head? es := by
  refine run_induction (P := fun as es t => Flags s t (negotiations c s as).head? es)
    (flags_of_none rfl rfl) ?_ h
  intro as es t a fs u hr ih ht
  have hn := ht.flags
  rw [negotiations_concat hr]
  cases hs : negotiations c s as with
  | nil =>
    rw [hs] at ih
    have hflag : t.initialized = s.initialized := by simpa using ih.flag
    have hevent : sessions es = [] := by simpa using ih.event
    have hhead : ([] ++ (t.negotiates? a).toList).head? = t.negotiates? a := by
      cases t.negotiates? a <;> rfl
    rw [hhead]
    refine ⟨hflag ▸ hn.flag, ?_⟩
    rw [sessions_append, hevent, List.nil_append, hn.event, hflag]
  | cons p ps =>
    rw [hs] at ih
    have hflag : t.initialized = true := by simpa using ih.flag
    refine ⟨?_, ?_⟩
    · rw [hn.flag, hflag]; simp
    · rw [sessions_append, ih.event, hn.event, hflag]
      simp

/-- What has been negotiated and what handlers have still to negotiate is what was before them and
what the envelopes ask for whose handlers have been started. -/
theorem negotiations_of_run (h : run c s as = some (es, t)) :
    (negotiations c s as ++ t.pending Handler.negotiation).Perm
      (s.pending Handler.negotiation ++ (started es).flatMap (·.negotiation?.toList)) := by
  refine run_induction (P := fun as es t =>
    (negotiations c s as ++ t.pending Handler.negotiation).Perm
      (s.pending Handler.negotiation ++ (started es).flatMap (·.negotiation?.toList))) ?_ ?_ h
  · exact .of_eq (List.append_nil _).symm
  · intro as es t a fs u hr ih ht
    rw [negotiations_concat hr, started_append, List.flatMap_append]
    refine perm_next ih (ht.pending (fun _ => rfl) advances_negotiation fun ha => ?_)
    rw [negotiates?_eq_none ha]
    rfl

/-- No handler negotiates but with the params of its own envelope. -/
theorem negotiation_subset_of_run (h : run c s as = some (es, t))
    (hs : ∀ x ∈ s.handlers, x.negotiation ⊆ x.envelope.negotiation?.toList) :
    ∀ x ∈ t.handlers, x.negotiation ⊆ x.envelope.negotiation?.toList := by
  refine run_induction
    (P := fun _ _ t => ∀ x ∈ t.handlers, x.negotiation ⊆ x.envelope.negotiation?.toList) hs ?_ h
  intro as es t a fs u _ ih ht
  have hdue (e : Envelope) : Handler.negotiation ⟨e, .arrived⟩ = e.negotiation?.toList := rfl
  exact ht.subset hdue advances_negotiation ih

theorem pending_handing (c : Setup) (xs : List Envelope) :
    (handing c xs).pending Handler.negotiation = xs.flatMap (·.negotiation?.toList) :=
  List.flatMap_map (Handler.mk · .arrived) Handler.negotiation xs

theorem own_handing (c : Setup) (xs : List Envelope) :
    ∀ x ∈ (handing c xs).handlers, x.negotiation ⊆ x.envelope.negotiation?.toList := by
  intro x hx
  obtain ⟨e, -, rfl⟩ := List.mem_map.mp hx
  exact List.Subset.refl _

theorem negotiating_of_negotiates? {p : InitializeParams} (h : s.negotiates? a = some p) :
    ∃ i x, a = .move (.handler i) ∧ s.handlers[i]? = some x ∧ x.stage = .negotiating p := by
  cases a with
  | command k => cases h
  | move m =>
    cases m with
    | loop | join | interrupt | expire | drop => cases h
    | handler i =>
      obtain ⟨x, hi, hx⟩ := Option.bind_eq_some_iff.mp h
      refine ⟨i, x, rfl, hi, ?_⟩
      cases hs : x.stage with
      | negotiating q =>
        rw [hs] at hx
        cases hx
        rfl
      | _ =>
        rw [hs] at hx
        cases hx

/-- A handler that negotiates has been called to an envelope with that method, and these are its
params. -/
theorem reads_of_negotiates? {xs : List Envelope} {p : InitializeParams}
    (h : run c (handing c xs) as = some (es, t)) (hp : t.negotiates? a = some p) :
    ∃ i x, a = .move (.handler i) ∧ t.handlers[i]? = some x ∧
      x.envelope.method? = some Method.handshake.name ∧
      InitializeParams.shape.Reads x.envelope.params? p := by
  obtain ⟨i, x, rfl, hi, hx⟩ := negotiating_of_negotiates? hp
  have hmem : p ∈ x.negotiation := by
    rw [Handler.negotiation, hx]
    exact List.mem_cons_self
  have hown := negotiation_subset_of_run h (own_handing c xs) x (List.mem_of_getElem? hi) hmem
  exact ⟨i, x, rfl, hi, Envelope.negotiation?_eq_some.mp (Option.mem_toList.mp hown)⟩

theorem exists_act_of_negotiation (hi : s.handlers[i]? = some h) (hn : h.negotiation ≠ []) :
    ∃ fs u, act c s (.move (.handler i)) = some (fs, u) := by
  simp only [act, step, hi, Option.bind_some, stepHandler]
  cases hs : h.stage with
  | arrived | negotiating => exact ⟨_, _, rfl⟩
  | _ => exact absurd (by rw [Handler.negotiation, hs]; rfl) hn

/-- Of what envelopes ask for nothing is left out, so it is empty only if none of them asks. -/
theorem eq_nil_iff_of_perm {ps : List InitializeParams} {xs : List Envelope}
    (h : ps.Perm (xs.flatMap (·.negotiation?.toList))) :
    ps = [] ↔ xs.any (·.negotiation?.isSome) = false := by
  rw [List.any_eq_false]
  constructor
  · rintro rfl e he
    rw [List.nil_perm, List.flatMap_eq_nil_iff] at h
    rw [Option.toList_eq_nil_iff.mp (h e he)]
    exact Bool.false_ne_true
  · intro hnone
    refine List.perm_nil.mp (h.trans (.of_eq (List.flatMap_eq_nil_iff.mpr fun e he => ?_)))
    exact Option.toList_eq_nil_iff.mpr (Option.not_isSome_iff_eq_none.mp (hnone e he))

/-- What a run makes of the negotiation, to whose dispatcher the envelopes `xs` have been handed. -/
structure NegotiatesOnce (c : Setup) (xs : List Envelope) (as : List Action) (es : List Effect)
    (t : Session) : Prop where
  /-- The flag is set exactly if a handler has negotiated. -/
  flag : t.initialized = true ↔ negotiations c (handing c xs) as ≠ []
  /-- There is an event for the first handler that has, and for no other. -/
  event : sessions es = ((negotiations c (handing c xs) as).head?.map negotiated).toList
  /-- The handlers negotiate what the envelopes ask for, each of them once. -/
  account : (negotiations c (handing c xs) as ++ t.pending Handler.negotiation).Perm
    ((xs ++ started es).flatMap (·.negotiation?.toList))
  /-- None of them is ever held up before it has. -/
  able : ∀ i h, t.handlers[i]? = some h → h.negotiation ≠ [] →
    ∃ fs u, act c t (.move (.handler i)) = some (fs, u)
  /-- When no handler has anything left to negotiate, there has been one event, if some envelope
  asked for it, and none otherwise. -/
  whole : t.pending Handler.negotiation = [] → (sessions es).length =
    if (xs ++ started es).any (·.negotiation?.isSome) then 1 else 0
  /-- Only the handler of an envelope with that method, and with params that decode, changes it. -/
  change : ∀ a fs u, act c t a = some (fs, u) → u.initialized ≠ t.initialized →
    ∃ p i h, a = .move (.handler i) ∧ t.handlers[i]? = some h ∧
      h.envelope.method? = some Method.handshake.name ∧
      InitializeParams.shape.Reads h.envelope.params? p
  /-- Once set, the flag stays, and there is no other event. -/
  forever : t.initialized = true → ∀ bs fs u, run c t bs = some (fs, u) →
    u.initialized = true ∧ sessions fs = []

theorem negotiates_once (c : Setup) (xs : List Envelope) {as : List Action} {es : List Effect}
    {t : Session} (h : run c (handing c xs) as = some (es, t)) : NegotiatesOnce c xs as es t := by
  have hf := flags_of_run h
  have hflag : t.initialized = (negotiations c (handing c xs) as).head?.isSome := hf.flag
  have hevent : sessions es = ((negotiations c (handing c xs) as).head?.map negotiated).toList :=
    hf.event
  have haccount := negotiations_of_run h
  rw [pending_handing, ← List.flatMap_append] at haccount
  constructor
  · rw [hflag, List.isSome_head?]
  · exact hevent
  · exact haccount
  · exact fun i x => exists_act_of_negotiation
  · intro hp
    rw [hp, List.append_nil] at haccount
    have hnil := eq_nil_iff_of_perm haccount
    rw [hevent]
    cases hn : negotiations c (handing c xs) as with
    | nil => rw [hnil.mp hn]; rfl
    | cons p ps =>
      rw [hn] at hnil
      rw [if_pos (Bool.ne_false_iff.mp fun hany => List.cons_ne_nil p ps (hnil.mpr hany))]
      rfl
  · intro a fs u ha hne
    have ht := (transition_of_act ha).flags.flag
    cases hp : t.negotiates? a with
    | none =>
      rw [hp, Option.isSome_none, Bool.or_false] at ht
      exact absurd ht hne
    | some p => exact ⟨p, reads_of_negotiates? h hp⟩
  · intro ht bs fs u hu
    have hg := flags_of_run hu
    refine ⟨by rw [hg.flag, ht, Bool.true_or], ?_⟩
    rw [hg.event, if_pos ht]

/-- The params with which a client of this name negotiates. -/
def paramsOf (client : String) : Json := .obj [("clientInfo", .obj [("name", .str client)])]

/-- Two clients that negotiate at once, one that has no params, and one that says it is ready. -/
def rivals : List Envelope :=
  [.request (.text "a") "initialize" (some (paramsOf "first")),
    .notification "initialize" (some (paramsOf "second")),
    .request (.text "b") "initialize" none, .notification "notifications/initialized" none]

/-- All four have read their params before the second client sets the flag, ahead of the first. -/
def secondAhead : List Action :=
  [.move (.handler 0), .move (.handler 1), .move (.handler 2), .move (.handler 3),
    .move (.handler 1), .move (.handler 0), .move (.handler 2), .move (.handler 3)]

/-- Whether the event names this client. -/
def isSessionOf (client : String) : Event → Bool
  | .session name _ => name == client
  | _ => false

theorem negotiates_once_secondAhead :
    ∃ es t, run (bare none) (handing (bare none) rivals) secondAhead = some (es, t) ∧
      t.initialized = true ∧ (sessions es).map (isSessionOf "second") = [true] ∧
      NegotiatesOnce (bare none) rivals secondAhead es t := by
  obtain ⟨es, t, h, he⟩ := exists_of_run (c := bare none) (s := handing (bare none) rivals)
    secondAhead
    (p := fun es t => t.initialized && (sessions es).map (isSessionOf "second") == [true])
    (by decide +kernel)
  rw [Bool.and_eq_true, beq_iff_eq] at he
  exact ⟨es, t, h, he.1, he.2, negotiates_once _ _ h⟩

end Session

end ContextServer
