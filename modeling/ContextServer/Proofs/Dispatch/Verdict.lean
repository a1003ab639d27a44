import ContextServer.Proofs.Codec.Record
import ContextServer.Proofs.Dispatch.Operations
import ContextServer.Proofs.Dispatch.Replies

/-!
What a request comes to. A request is unknown, silent, refused for want of its group, refused for
its params, or answered with what a provider, the session or the liveness check gives, and what is
looked at first decides. `Verdict` lists the cases; each of them determines the reply
(`reply_of_verdict`), and they leave out no request whose provider returns (`exists_verdict`).
-/

namespace ContextServer

namespace Capability

/-- The word for a group, both where it is refused and where it is advertised. -/
def name : Capability → String
  | tools => "tools"
  | resources => "resources"
  | prompts => "prompts"

theorem unsupported_eq (g : Capability) : g.unsupported = g.name ++ " not supported" := by
  cases g <;> rfl

end Capability

/-- What the peer sees of a failure: its message, and who is at fault. -/
def ProviderError.reported : ProviderError → ErrorObject
  | .badRequest _ message => ⟨-32602, message, none⟩
  | .notFound _ message => ⟨-32603, message, none⟩
  | .internal message => ⟨-32603, message, none⟩

theorem ProviderError.code_reported_ne (f : ProviderError) : f.reported.code ≠ -32601 := by
  cases f with
  | badRequest => exact (by decide : (-32602 : Int64) ≠ -32601)
  | notFound | internal => exact (by decide : (-32603 : Int64) ≠ -32601)

theorem ProviderError.toErrorObject_eq (f : ProviderError) : f.toErrorObject = f.reported := by
  cases f <;> rfl

/-- The response with this result or this error, and with nothing of the other. -/
def Envelope.carrying (id : RequestId) : Except ErrorObject Json → Envelope
  | .ok j => .response ⟨some id, some j, none⟩
  | .error e => .response ⟨some id, none, some e⟩

theorem Envelope.carrying_injective (id : RequestId) : Function.Injective (carrying id) := by
  intro r q h
  cases r <;> cases q <;> cases h <;> rfl

/-- What a request is answered with when its operation answers this. -/
def Answer.result {α : Type} (encode : α → Json) : Answer α → Except ErrorObject Json
  | .value v => .ok (encode v)
  | .failure f => .error f.reported
  | .crash => .error ⟨-32603, "internal error", none⟩

namespace Dispatcher

/-- What a request comes to: `none` for no reply. -/
inductive Verdict (d : Dispatcher) (name : String) (params : Option Json) :
    Option (Except ErrorObject Json) → Prop
  | silent (hm : name = "notifications/initialized") : Verdict d name params none
  | unknown (hm : ∀ m : Method, m.name ≠ name) :
      Verdict d name params (some (.error ⟨-32601, "method not found: " ++ name, none⟩))
  | unsupported {m : Method} {g : Capability} (hm : m.name = name)
      (hg : m.capability? = some g) (hw : ¬ d.providers.Wires g) :
      Verdict d name params (some (.error ⟨-32603, g.name ++ " not supported", none⟩))
  | invalidParams {m : Method} (hm : m.name = name)
      (hw : d.providers.Serves m) (hp : ¬ m.Accepts params) :
      Verdict d name params (some (.error ⟨-32602, "invalid params", none⟩))
  | failure {c : ProviderCall} {α : Type} {q : Promise α} {encode : α → Json} {f : ProviderError}
      (ho : d.providers.Operation params name c q encode) (hf : q.answer = .failure f) :
      Verdict d name params (some (.error f.reported))
  | value {c : ProviderCall} {α : Type} {q : Promise α} {encode : α → Json} {v : α}
      (ho : d.providers.Operation params name c q encode) (hv : q.answer = .value v) :
      Verdict d name params (some (.ok (encode v)))
  | pong (hm : name = "ping") : Verdict d name params (some (.ok (.obj [])))
  | greeting {p : InitializeParams} (hm : name = "initialize")
      (hp : InitializeParams.shape.Reads params p) :
      Verdict d name params (some (.ok d.greeting))

section Replies

variable {d : Dispatcher} {id : RequestId} {name : String} {params : Option Json}

theorem plan_request (d : Dispatcher) (id : RequestId) (m : Method) (params : Option Json) :
    d.plan (.request id m.name params) = m.plan d.providers.capabilities params := by
  simp only [plan, Method.ofName?_name, capabilities]

theorem respond_eq (id : RequestId) (r : Except ErrorObject Json) :
    respond id r = .carrying id r := by
  cases r <;> rfl

theorem conclude_request {m : Method} (h : m ≠ .ready) (r : Except ErrorObject Json) :
    (conclude (.request id m.name params) r).2 = some (.carrying id r) := by
  have hs : m.isSilent = false := by cases m <;> first | rfl | exact absurd rfl h
  simp only [conclude, Method.ofName?_name, Option.any_some, hs, Bool.false_eq_true, if_false,
    respond_eq]

theorem ne_ready_of_capability? {m : Method} {g : Capability} (h : m.capability? = some g) :
    m ≠ .ready := by
  rintro rfl
  cases h

section Operations

variable {e : Envelope} {c : ProviderCall} {α : Type} {q : Promise α} {encode : α → Json}

theorem result?_of_crash (ho : d.providers.Operation params name c q encode)
    (h : q.answer = .crash) : result? (d.promise c).answer = none := by
  rw [promise_of_operation ho, Promise.map, h]
  rfl

theorem result?_of_operation (ho : d.providers.Operation params name c q encode)
    (h : q.answer ≠ .crash) :
    result? (d.promise c).answer = some (q.answer.result encode) := by
  rw [promise_of_operation ho, Promise.map]
  cases ha : q.answer with
  | value v => rfl
  | failure f => exact congrArg (some ∘ Except.error) f.toErrorObject_eq
  | crash => exact absurd ha h

/-- An operation decides what becomes of the envelope that asks for it. -/
theorem reply_of_operation (initialized : Bool) (hn : e.method? = some name)
    (ho : d.providers.Operation e.params? name c q encode) :
    (d.dispatch initialized e).reply =
      e.requestId?.map fun id => .carrying id (q.answer.result encode) := by
  rw [reply_dispatch, plan_eq_consult.mpr ⟨name, hn, α, q, encode, ho⟩]
  dsimp only [replyOf]
  by_cases h : q.answer = .crash
  · rw [result?_of_crash ho h, h]
    rfl
  · rw [result?_of_operation ho h]
    obtain ⟨m, rfl, hc⟩ := ho.calls
    cases e with
    | request id name params =>
      obtain rfl := Option.some_inj.mp hn
      exact conclude_request (ne_ready_of_capability? hc.capability?) _
    | notification | response => rfl

end Operations

/-- Each verdict determines the reply. -/
theorem reply_of_verdict {o : Option (Except ErrorObject Json)} (initialized : Bool)
    (h : d.Verdict name params o) :
    (d.dispatch initialized (.request id name params)).reply = o.map (.carrying id) := by
  have planned {m : Method} {r : Except ErrorObject Json} (hm : m.name = name) (hr : m ≠ .ready)
      (hp : m.plan d.providers.capabilities params = .answer r) :
      (d.dispatch initialized (.request id name params)).reply = some (.carrying id r) := by
    subst hm
    rw [reply_dispatch, plan_request, hp]
    exact conclude_request hr r
  cases h with
  | silent hm =>
    obtain rfl : Method.ready.name = name := hm.symm
    rw [reply_dispatch, plan_request, Method.plan_of_ok (Providers.serves_of_open rfl) rfl]
    rfl
  | unknown hm =>
    have hn := Method.ofName?_eq_none.mpr hm
    simp only [reply_dispatch, plan, hn, conclude, Option.any_none, Bool.false_eq_true, if_false,
      Option.map_some]
    rfl
  | unsupported hm hg hw =>
    exact planned hm (ne_ready_of_capability? hg)
      (by rw [Method.plan_of_not_wires hg hw, Capability.unsupported_eq]; rfl)
  | invalidParams hm hw hp =>
    exact planned hm (by rintro rfl; exact hp trivial)
      (Method.plan_of_error hw (Method.request_of_not_accepts hp))
  | failure ho hf => rw [reply_of_operation initialized rfl ho, hf]; rfl
  | value ho hv => rw [reply_of_operation initialized rfl ho, hv]; rfl
  | pong hm =>
    exact planned (m := .ping) hm.symm (by decide)
      (Method.plan_of_ok (Providers.serves_of_open rfl) rfl)
  | greeting hm hp =>
    obtain rfl : Method.handshake.name = name := hm.symm
    have hq : Method.handshake.request params = .ok (.negotiate _) :=
      congrArg (Except.map Plan.negotiate) (requiredParams_of_reads hp)
    rw [reply_dispatch, plan_request, Method.plan_of_ok (Providers.serves_of_open rfl) hq]
    exact conclude_request (by decide) _

/-- The cases leave nothing out: what the group, then the params, then the provider says decides. -/
theorem exists_verdict (hr : d.providers.Returns) (name : String) (params : Option Json) :
    ∃ o, d.Verdict name params o := by
  cases hn : Method.ofName? name with
  | none => exact ⟨_, .unknown (Method.ofName?_eq_none.mp hn)⟩
  | some m =>
    have hm : m.name = name := Method.name_of_ofName? hn
    rcases d.providers.missing_or_serves m with ⟨g, hg, hw⟩ | hw
    · exact ⟨_, .unsupported hm hg hw⟩
    by_cases hp : m.Accepts params
    · rcases Method.cases_of_accepts hp with rfl | rfl | ⟨rfl, p, hp⟩ | ⟨c, hc⟩
      · exact ⟨_, .silent hm.symm⟩
      · exact ⟨_, .pong hm.symm⟩
      · exact ⟨_, .greeting hm.symm hp⟩
      · obtain ⟨α, q, encode, ho⟩ := Providers.exists_operation hc (hw _ hc.capability?)
        rw [hm] at ho
        cases ha : q.answer with
        | value v => exact ⟨_, .value ho ha⟩
        | failure f => exact ⟨_, .failure ho ha⟩
        | crash => exact absurd ha (ho.answer_ne_crash hr)
    · exact ⟨_, .invalidParams hm hw hp⟩

/-- The reply tells which case it is. -/
theorem reply_eq_iff (hr : d.providers.Returns) (initialized : Bool)
    (o : Option (Except ErrorObject Json)) :
    (d.dispatch initialized (.request id name params)).reply = o.map (.carrying id) ↔
      d.Verdict name params o := by
  constructor
  · intro h
    obtain ⟨o', ho⟩ := exists_verdict hr name params
    rw [reply_of_verdict initialized ho] at h
    exact Option.map_injective (Envelope.carrying_injective id) h ▸ ho
  · exact reply_of_verdict initialized

theorem reply_eq_none_iff (hr : d.providers.Returns) (initialized : Bool) :
    (d.dispatch initialized (.request id name params)).reply = none ↔
      name = "notifications/initialized" := by
  rw [show none = Option.map (Envelope.carrying id) none from rfl, reply_eq_iff hr]
  constructor
  · intro h
    cases h with
    | silent hm => exact hm
  · exact .silent

/-- Neither the other refusals nor the failures of a provider have the code of an unknown method. -/
theorem methodNotFound_iff (hr : d.providers.Returns) (initialized : Bool) :
    (∃ e, (d.dispatch initialized (.request id name params)).reply = some (.failure id e) ∧
      e.code = -32601) ↔ ∀ m : Method, m.name ≠ name := by
  have reply (e : ErrorObject) :
      (d.dispatch initialized (.request id name params)).reply = some (.failure id e) ↔
        d.Verdict name params (some (.error e)) := reply_eq_iff hr initialized (some (.error e))
  simp only [reply]
  constructor
  · rintro ⟨e, h, he⟩
    cases h with
    | unknown hm => exact hm
    | unsupported => exact absurd he (by decide : (-32603 : Int64) ≠ -32601)
    | invalidParams => exact absurd he (by decide : (-32602 : Int64) ≠ -32601)
    | failure ho => exact absurd he (ProviderError.code_reported_ne _)
  · intro hm
    exact ⟨_, .unknown hm, rfl⟩

/-- The reply is a response that carries the identifier of the request and either a result or an
error. -/
theorem response_of_reply {initialized : Bool} {w : Envelope}
    (h : (d.dispatch initialized (.request id name params)).reply = some w) :
    ∃ r, w = .response r ∧ r.id = some id ∧ r.isWellFormed = true := by
  obtain ⟨i, r, hi, rfl⟩ := eq_respond_of_reply h
  cases hi
  cases r with
  | ok j => exact ⟨.success id j, rfl, rfl, Response.isWellFormed_success id j⟩
  | error e => exact ⟨.failure id e, rfl, rfl, Response.isWellFormed_failure id e⟩

end Replies

/-! ### What is advertised -/

theorem lookup_members_field {σ α τ : Type} {s : σ} {f : Field σ α} {rest : Fields σ τ}
    (k : String) : ((Fields.field f rest).members s).lookup k =
      if k = f.name ∧ f.omits (f.get s) = false then some (f.codec.encode (f.get s))
      else (rest.members s).lookup k := by
  rw [Fields.members]
  by_cases ho : f.omits (f.get s) = true
  · rw [if_pos ho, if_neg (by simp [ho])]
  · rw [if_neg ho]
    by_cases hk : k = f.name
    · rw [if_pos ⟨hk, by simpa using ho⟩,
        Members.lookup_head (m := (f.name, f.codec.encode (f.get s))) hk]
    · rw [if_neg fun h => hk h.1,
        Members.lookup_tail (m := (f.name, f.codec.encode (f.get s))) hk]

/-- A record that is encoded has its members under their names, whatever their order. -/
theorem member?_encode {σ : Type} {shape : Shape σ} (hn : shape.fields.names.Nodup) (s : σ)
    (k : String) : (shape.codec.encode s).member? k = (shape.fields.members s).lookup k :=
  Members.lookup_sorted ((Fields.sublist_names shape.fields).nodup hn) k

theorem isSome_member?_advertised (c : Capabilities) (k : String) :
    ((ServerCapabilities.shape.codec.encode c.advertised).member? k).isSome = true ↔
      ∃ g, g.name = k ∧ c.supports g = true := by
  rw [member?_encode (by decide)]
  simp only [ServerCapabilities.shape, lookup_members_field]
  have omits {α : Type} (b : Bool) (a : α) :
      (if b = true then some a else none).isNone = false ↔ b = true := by
    cases b <;> simp
  simp only [Field.optional, Capabilities.advertised, omits]
  constructor
  · intro h
    split at h
    · rename_i ht
      exact ⟨.tools, ht.1.symm, ht.2⟩
    · split at h
      · rename_i hr
        exact ⟨.resources, hr.1.symm, hr.2⟩
      · split at h
        · rename_i hp
          exact ⟨.prompts, hp.1.symm, hp.2⟩
        · cases h
  · rintro ⟨g, rfl, hg⟩
    cases g with
    | tools => rw [if_pos ⟨rfl, hg⟩]; rfl
    | resources => rw [if_neg (by simp [Capability.name]), if_pos ⟨rfl, hg⟩]; rfl
    | prompts =>
      rw [if_neg (by simp [Capability.name]), if_neg (by simp [Capability.name]),
        if_pos ⟨rfl, hg⟩]
      rfl

/-- The result of a negotiation advertises the groups that are wired, and no others. -/
theorem advertises_wired (d : Dispatcher) :
    ∃ ms, d.greeting.member? "capabilities" = some (.obj ms) ∧
      ∀ k, (ms.lookup k).isSome = true ↔ ∃ g, g.name = k ∧ d.providers.Wires g := by
  refine ⟨_, member?_encode (by decide) _ "capabilities", fun k => ?_⟩
  simp only [← Providers.supports_capabilities]
  exact isSome_member?_advertised d.capabilities k

end Dispatcher
end ContextServer
