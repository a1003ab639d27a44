import ContextServer.Proofs.Dispatch.Verdict

/-!
What is logged of an envelope. A negotiation that comes first leaves an event of its own, and then
what has been handled is concluded with one line about it (`dispatch_cases`). Only a request to the
method that gets no reply leaves no line, for it is let go before the line is written: every other
request is audited exactly once, and a notification exactly if its method is known (`audits_once`).
-/

namespace ContextServer

/-- Whether the event is a line about a message, and not about the negotiation. -/
def Event.isAudit : Event → Bool
  | action _ _ _ | notification _ _ _ => true
  | session _ _ => false

/-- The params with which an envelope negotiates the session. -/
def Envelope.negotiation? (e : Envelope) : Option InitializeParams :=
  if e.method? = some Method.handshake.name then
    (requiredParams InitializeParams.shape e.params?).toOption
  else none

namespace Method

variable {m : Method} {params : Option Json}

theorem name_injective : Function.Injective Method.name := by
  intro m n h
  have := ofName?_name m
  rw [h, ofName?_name] at this
  exact (Option.some_inj.mp this).symm

theorem Calls.ne_handshake {c : ProviderCall} (h : m.Calls params c) : m ≠ handshake := by
  rintro rfl
  cases h

end Method

/-- The params with which a plan negotiates the session. -/
def Plan.negotiation? : Plan → Option InitializeParams
  | negotiate p => some p
  | _ => none

theorem Method.Planned.ne_ignore {m : Method} {params : Option Json} {q : Plan}
    (h : m.Planned params q) : q ≠ .ignore := by
  cases h <;> nofun

theorem Method.Planned.negotiation? {m : Method} {params : Option Json} {q : Plan}
    (h : m.Planned params q) {e : Envelope} (hm : e.method? = some m.name)
    (hp : e.params? = params) : q.negotiation? = e.negotiation? := by
  unfold Envelope.negotiation?
  rw [hm, hp]
  cases h with
  | answer hn =>
    by_cases h : m = handshake
    · rw [if_pos (by rw [h]), requiredParams_of_not_reads (hn h)]
      rfl
    · exact (if_neg fun he => h (name_injective (Option.some_inj.mp he))).symm
  | negotiate h hr =>
    rw [if_pos (by rw [h]), requiredParams_of_reads hr]
    rfl
  | consult hc =>
    exact (if_neg fun he => hc.ne_handshake (name_injective (Option.some_inj.mp he))).symm

namespace Dispatcher

variable {d : Dispatcher} {e : Envelope}

/-- Whether an envelope is passed over: a response, or a notification of no known method. -/
def Passes (e : Envelope) : Prop :=
  e.isRequest = false ∧ ∀ m : Method, e.method? ≠ some m.name

theorem not_passes_request (id : RequestId) (name : String) (params : Option Json) :
    ¬ Passes (.request id name params) := fun h => Bool.false_ne_true h.1.symm

theorem passes_response (r : Response) : Passes (.response r) :=
  ⟨rfl, fun m => (Option.some_ne_none m.name).symm⟩

/-- What the plan for an envelope tells of it. -/
theorem plan_spec (d : Dispatcher) (e : Envelope) :
    (d.plan e = .ignore ↔ Passes e) ∧ (d.plan e).negotiation? = e.negotiation? := by
  by_cases hm : ∃ m : Method, e.method? = some m.name
  · obtain ⟨m, hm⟩ := hm
    have hp := Method.planned_plan d.providers m e.params?
    rw [plan_of_method? hm]
    exact ⟨⟨fun h => absurd h hp.ne_ignore, fun h => absurd hm (h.2 m)⟩, hp.negotiation? hm rfl⟩
  · have hm (m : Method) : e.method? ≠ some m.name := fun h => hm ⟨m, h⟩
    have hn : e.negotiation? = none := if_neg (hm .handshake)
    rw [hn]
    cases e with
    | request id name params =>
      have hp : d.plan (.request id name params) = .answer (.error (.methodNotFound name)) := by
        simp only [plan, ofName?_of_unknown hm]
      rw [hp]
      refine ⟨⟨fun h => ?_, fun h => absurd h (not_passes_request id name params)⟩, rfl⟩
      cases h
    | notification name params =>
      have hp : d.plan (.notification name params) = .ignore := by
        simp only [plan, ofName?_of_unknown hm]
      rw [hp]
      exact ⟨⟨fun _ => ⟨rfl, hm⟩, fun _ => rfl⟩, rfl⟩
    | response r => exact ⟨⟨fun _ => passes_response r, fun _ => rfl⟩, rfl⟩

/-- The event of the negotiation, if the envelope makes one and none has come before. -/
def opening (initialized : Bool) (e : Envelope) : List Event :=
  if initialized then [] else (e.negotiation?.map negotiated).toList

/-- A call that is made comes to a result, if no operation crashes. -/
theorem exists_result? (hr : d.providers.Returns) {c : ProviderCall} (h : d.plan e = .consult c) :
    ∃ r, result? (d.promise c).answer = some r := by
  obtain ⟨name, -, α, q, encode, ho⟩ := plan_eq_consult.mp h
  exact ⟨_, result?_of_operation ho (ho.answer_ne_crash hr)⟩

/-- With providers that return, an envelope is passed over, or it comes to a result. -/
theorem dispatch_cases (hr : d.providers.Returns) (initialized : Bool) (e : Envelope) :
    (Passes e ∧ d.dispatch initialized e = ⟨none, [], [], initialized⟩) ∨
      ¬ Passes e ∧ ∃ calls r, d.dispatch initialized e =
        settle (initialized || e.negotiation?.isSome) e calls (opening initialized e) r := by
  obtain ⟨hi, hn⟩ := plan_spec d e
  by_cases h : Passes e
  · left
    exact ⟨h, by simp only [dispatch, hi.mpr h]⟩
  right
  refine ⟨h, ?_⟩
  unfold dispatch opening
  cases hp : d.plan e with
  | ignore => exact absurd (hi.mp hp) h
  | answer r =>
    rw [← hn, hp]
    exact ⟨[], r, by simp [Plan.negotiation?]⟩
  | negotiate p =>
    rw [← hn, hp]
    exact ⟨[], .ok d.greeting, by simp [Plan.negotiation?]⟩
  | consult c =>
    obtain ⟨r, hc⟩ := exists_result? hr hp
    rw [← hn, hp]
    exact ⟨[c], r, by simp [Plan.negotiation?, hc]⟩

/-- The lines about messages among the events of an envelope. -/
def audits (d : Dispatcher) (initialized : Bool) (e : Envelope) : List Event :=
  (d.dispatch initialized e).events.filter Event.isAudit

theorem isAudit_opening (initialized : Bool) (e : Envelope) :
    (opening initialized e).filter Event.isAudit = [] := by
  unfold opening
  split
  · rfl
  · cases e.negotiation? <;> rfl

theorem isAudit_conclude (e : Envelope) (r : Except ErrorObject Json) :
    (conclude e r).1.filter Event.isAudit = (conclude e r).1 := by
  cases e with
  | request id name params =>
    unfold conclude
    dsimp only
    split <;> rfl
  | notification | response => rfl

theorem audits_of_passes (hr : d.providers.Returns) (initialized : Bool) (h : Passes e) :
    d.audits initialized e = [] := by
  rcases dispatch_cases hr initialized e with ⟨-, hd⟩ | ⟨hn, -⟩
  · rw [audits, hd]
    rfl
  · exact absurd h hn

/-- What is not passed over is audited as it is concluded. -/
theorem exists_conclude (hr : d.providers.Returns) (initialized : Bool) (h : ¬ Passes e) :
    ∃ r, (d.dispatch initialized e).reply = (conclude e r).2 ∧
      d.audits initialized e = (conclude e r).1 := by
  rcases dispatch_cases hr initialized e with ⟨hp, -⟩ | ⟨-, calls, r, hd⟩
  · exact absurd hp h
  · refine ⟨r, by rw [hd]; rfl, ?_⟩
    rw [audits, hd]
    show (opening initialized e ++ (conclude e r).1).filter Event.isAudit = _
    rw [List.filter_append, isAudit_opening, isAudit_conclude]
    rfl

theorem isSilent_ofName? {name : String} :
    (Method.ofName? name).any Method.isSilent = true ↔ name = Method.ready.name := by
  constructor
  · intro h
    obtain ⟨m, hm, hs⟩ := (Option.any_eq_true _ _).mp h
    have hr : m = .ready := by cases m <;> first | rfl | cases hs
    rw [← Method.name_of_ofName? hm, hr]
  · rintro rfl
    rw [Method.ofName?_name]
    rfl

theorem isError_respond (id : RequestId) (r : Except ErrorObject Json) :
    (respond id r).isError = failed r := by
  cases r <;> rfl

/-- Who is audited, and how. -/
structure AuditsOnce (d : Dispatcher) (initialized : Bool) : Prop where
  /-- A request is audited once, and as a failure exactly if it is answered with an error. -/
  request : ∀ id name params, name ≠ "notifications/initialized" →
    d.audits initialized (.request id name params) = [.action name (Audit.shown params)
      ((d.dispatch initialized (.request id name params)).reply.any Envelope.isError)]
  /-- Only the method that gets no reply is not audited when it is requested. -/
  silent : ∀ id params,
    d.audits initialized (.request id "notifications/initialized" params) = []
  /-- A notification is audited once if its method is known, and never as a request. -/
  known : ∀ (m : Method) params, ∃ failed,
    d.audits initialized (.notification m.name params) =
      [.notification m.name (Audit.shown params) failed]
  unknown : ∀ name params, (∀ m : Method, m.name ≠ name) →
    d.audits initialized (.notification name params) = []
  response : ∀ r, d.audits initialized (.response r) = []

theorem audits_once (d : Dispatcher) (hr : d.providers.Returns) (initialized : Bool) :
    AuditsOnce d initialized := by
  constructor
  · intro id name params hne
    obtain ⟨r, hreply, haudits⟩ :=
      exists_conclude hr initialized (not_passes_request id name params)
    have hs : (Method.ofName? name).any Method.isSilent = false :=
      Bool.eq_false_iff.mpr fun h => hne (isSilent_ofName?.mp h)
    rw [haudits, hreply]
    simp only [conclude, hs, Bool.false_eq_true, if_false, Option.any_some, isError_respond]
  · intro id params
    obtain ⟨r, -, haudits⟩ :=
      exists_conclude hr initialized (not_passes_request id "notifications/initialized" params)
    have hs : (Method.ofName? "notifications/initialized").any Method.isSilent = true :=
      isSilent_ofName?.mpr rfl
    rw [haudits]
    simp only [conclude, hs, if_true]
  · intro m params
    obtain ⟨r, -, haudits⟩ := exists_conclude (d := d) (e := .notification m.name params) hr
      initialized fun h => h.2 m rfl
    exact ⟨failed r, haudits⟩
  · intro name params hm
    exact audits_of_passes hr initialized ⟨rfl, fun m h => hm m (Option.some_inj.mp h).symm⟩
  · intro r
    exact audits_of_passes hr initialized (passes_response r)

/-- A server whose only tool opens to a password. -/
def vault : Dispatcher :=
  ⟨⟨"vault", "1"⟩, ⟨some ⟨.value [], fun _ args =>
    match (args.member? "password").bind Json.string? with
    | some "sesame" => .value (.text "open")
    | _ => .failure (.badRequest "wrong_password" "shut")⟩, none, none⟩⟩

theorem returns_vault : vault.providers.Returns where
  tools := by
    intro t h
    obtain rfl := Option.some_inj.mp h
    refine ⟨nofun, fun name args => ?_⟩
    dsimp only
    split <;> nofun
  resources := nofun
  prompts := nofun

/-- Params with a password, in an object under the name of the tool's arguments. -/
def passwordParams (password : String) : Json :=
  .obj [("arguments", .obj [("password", .str password)]), ("name", .str "door")]

theorem audits_once_vault :
    vault.providers.Returns ∧ "tools/call" ≠ "notifications/initialized" ∧
      vault.audits false (.request (.text "a") "tools/call" (some (passwordParams "guess"))) =
        [.action "tools/call" (.obj [("arguments", .obj [("password", .str "[REDACTED]")]),
          ("name", .str "door")]) true] := by
  have h := (audits_once vault returns_vault false).request (.text "a") "tools/call"
    (some (passwordParams "guess")) (by decide)
  refine ⟨returns_vault, by decide, h.trans ?_⟩
  rfl

/-- Nothing in the log tells of this request. -/
theorem audits_of_ready_requested :
    (vault.dispatch false
      (.request (.number (.int 1 (by decide))) "notifications/initialized" none)).events = [] ∧
      vault.audits false
        (.request (.number (.int 1 (by decide))) "notifications/initialized" none) = [] :=
  ⟨rfl, rfl⟩

end Dispatcher

end ContextServer
