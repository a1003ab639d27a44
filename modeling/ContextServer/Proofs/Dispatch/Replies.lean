import ContextServer.Dispatch

/-!
Who gets a reply, and which one. A reply is a response to the request that it answers, it does not
depend on what has been negotiated before, and only a request gets one.
-/

namespace ContextServer.Dispatcher

/-- The reply to an envelope that a call of a provider has come to. -/
def replyOf (e : Envelope) (a : Answer Json) : Option Envelope :=
  match result? a with
  | some r => (conclude e r).2
  | none => crashReply e

theorem eq_respond_of_conclude {e w : Envelope} {r : Except ErrorObject Json}
    (h : (conclude e r).2 = some w) : ∃ id, e.requestId? = some id ∧ w = respond id r := by
  unfold conclude at h
  cases e with
  | request id name params =>
    dsimp only at h
    split at h
    · cases h
    · cases h
      exact ⟨id, rfl, rfl⟩
  | notification | response => cases h

theorem eq_respond_of_crashReply {e w : Envelope} (h : crashReply e = some w) :
    ∃ id, e.requestId? = some id ∧ w = respond id (.error (.internal "internal error")) := by
  obtain ⟨id, hid, rfl⟩ := Option.map_eq_some_iff.mp h
  exact ⟨id, hid, rfl⟩

theorem reply_dispatch (d : Dispatcher) (initialized : Bool) (e : Envelope) :
    (d.dispatch initialized e).reply =
      match d.plan e with
      | .ignore => none
      | .answer r => (conclude e r).2
      | .negotiate _ => (conclude e (.ok d.greeting)).2
      | .consult c => replyOf e (d.promise c).answer := by
  unfold dispatch
  cases d.plan e with
  | ignore | answer | negotiate => rfl
  | consult c =>
    simp only [replyOf]
    cases result? (d.promise c).answer <;> rfl

/-- A reply carries the identifier of the request that it answers. -/
theorem eq_respond_of_reply {d : Dispatcher} {initialized : Bool} {e w : Envelope}
    (h : (d.dispatch initialized e).reply = some w) :
    ∃ id r, e.requestId? = some id ∧ w = respond id r := by
  rw [reply_dispatch] at h
  have concluded {r : Except ErrorObject Json} (h : (conclude e r).2 = some w) :
      ∃ id r, e.requestId? = some id ∧ w = respond id r := by
    obtain ⟨id, hid, hw⟩ := eq_respond_of_conclude h
    exact ⟨id, r, hid, hw⟩
  cases hp : d.plan e with
  | ignore =>
    rw [hp] at h
    cases h
  | answer r =>
    rw [hp] at h
    exact concluded h
  | negotiate p =>
    rw [hp] at h
    exact concluded h
  | consult c =>
    rw [hp] at h
    simp only [replyOf] at h
    split at h
    · exact concluded h
    · obtain ⟨id, hid, hw⟩ := eq_respond_of_crashReply h
      exact ⟨id, _, hid, hw⟩

/-- Nothing but a request is answered. -/
theorem reply_of_not_isRequest {d : Dispatcher} {initialized : Bool} {e : Envelope}
    (h : e.isRequest = false) : (d.dispatch initialized e).reply = none := by
  cases hr : (d.dispatch initialized e).reply with
  | none => rfl
  | some w =>
    obtain ⟨id, -, hid, -⟩ := eq_respond_of_reply hr
    rw [Envelope.isRequest, hid] at h
    cases h

end ContextServer.Dispatcher
