import ContextServer.Proofs.Audit.Masking
import ContextServer.Proofs.Dispatch.Events

/-!
What the log tells of the params of an envelope. The lines about messages show masked params only.
The event of a negotiation is made of what has been read of the params themselves, but no field
that is read has a sensitive name, so values that are alike give one event (`opening_alike`).
Together: the log of an envelope, but for the outcome, is that of every envelope that is alike
(`revealed_of_alike`).
-/

namespace ContextServer

open Audit

/-- The fields of the log line, without the outcome. -/
def Event.revealed (x : Event) : List (String × String) := x.fields.filter (·.1 != "outcome")

/-- Envelopes that differ at most in what lies under sensitive names of their params. -/
inductive Envelope.Alike : Envelope → Envelope → Prop
  | request {id : RequestId} {name : String} {p q : Option Json} (h : Option.Rel Audit.Alike p q) :
      Alike (.request id name p) (.request id name q)
  | notification {name : String} {p q : Option Json} (h : Option.Rel Audit.Alike p q) :
      Alike (.notification name p) (.notification name q)
  | response (r : Response) : Alike (.response r) (.response r)

theorem Implementation.agrees : shape.codec.Agrees Eq :=
  Shape.agrees_of_fields
    (.field (by decide) Codec.string_agrees (fun _ _ => rfl)
      (.field (by decide) Codec.string_agrees (fun _ _ => rfl) .done))
    fun _ _ hn _ _ hv => by rw [hn, hv]

/-- What the event of a negotiation is made of is the same in two params. -/
def InitializeParams.Tells (p q : InitializeParams) : Prop :=
  p.protocolVersion = q.protocolVersion ∧ p.clientInfo = q.clientInfo

theorem InitializeParams.agrees : shape.codec.Agrees Tells :=
  Shape.agrees_of_fields
    (.field (by decide) Codec.string_agrees (fun _ _ => rfl)
      (.field (by decide) Codec.json_agrees (fun _ _ => .same _)
        (.field (by decide) (Codec.option_agrees Implementation.agrees) (fun _ _ => rfl) .done)))
    fun _ _ hv _ _ _ _ _ hc => ⟨hv, hc⟩

theorem requiredParams_alike {σ : Type} {shape : Shape σ} {R : σ → σ → Prop}
    (hs : shape.codec.Agrees R) {p q : Option Json} (h : Option.Rel Audit.Alike p q) :
    Option.Rel R (requiredParams shape p).toOption (requiredParams shape q).toOption := by
  cases h with
  | none => exact .none
  | @some j k h =>
    have hd : Agree R (shape.decode j) (shape.decode k) := hs j k h
    unfold requiredParams
    dsimp only
    generalize shape.decode j = r, shape.decode k = r' at hd ⊢
    cases hd with
    | ok h => exact .some h
    | error => exact .none

namespace Envelope.Alike

variable {e e' : Envelope}

theorem method?_eq (h : e.Alike e') : e.method? = e'.method? := by
  cases h <;> rfl

theorem isRequest_eq (h : e.Alike e') : e.isRequest = e'.isRequest := by
  cases h <;> rfl

theorem params? (h : e.Alike e') : Option.Rel Audit.Alike e.params? e'.params? := by
  cases h with
  | request h | notification h => exact h
  | response => exact .none

theorem negotiation? (h : e.Alike e') :
    Option.Rel InitializeParams.Tells e.negotiation? e'.negotiation? := by
  unfold Envelope.negotiation?
  rw [h.method?_eq]
  split
  · exact requiredParams_alike InitializeParams.agrees h.params?
  · exact .none

end Envelope.Alike

namespace Dispatcher

variable {d : Dispatcher} {e e' : Envelope}

theorem negotiated_eq {p q : InitializeParams} (h : p.Tells q) : negotiated p = negotiated q := by
  rw [negotiated, negotiated, h.1, h.2]

theorem passes_alike (h : e.Alike e') : Passes e ↔ Passes e' := by
  rw [Passes, Passes, h.isRequest_eq, h.method?_eq]

/-- Envelopes that are alike both negotiate the session or neither does, with one event. -/
theorem opening_alike (h : e.Alike e') (initialized : Bool) :
    e.negotiation?.isSome = e'.negotiation?.isSome ∧
      opening initialized e = opening initialized e' := by
  unfold opening
  have hn := h.negotiation?
  generalize e.negotiation? = p, e'.negotiation? = q at hn ⊢
  cases hn with
  | none => exact ⟨rfl, rfl⟩
  | some ht => exact ⟨rfl, by simp only [Option.map_some, negotiated_eq ht]⟩

/-- The line about a message shows masked params, and the result as an outcome only. -/
theorem conclude_alike (h : e.Alike e') (r r' : Except ErrorObject Json) :
    (conclude e r).1.map Event.revealed = (conclude e' r').1.map Event.revealed := by
  cases h with
  | request hp =>
    have hs := shown_eq_of_alike hp
    unfold conclude
    dsimp only
    rw [hs]
    split <;> rfl
  | notification hp =>
    have hs := shown_eq_of_alike hp
    unfold conclude
    dsimp only
    rw [hs]
    rfl
  | response => rfl

/-- The log does not tell envelopes apart that are alike, but for the outcomes; and neither does the
log of what comes after them, for they leave the session as negotiated or not in the same way. -/
theorem revealed_of_alike (d : Dispatcher) (hr : d.providers.Returns) (initialized : Bool)
    (e e' : Envelope) (h : e.Alike e') :
    (d.dispatch initialized e).events.map Event.revealed =
        (d.dispatch initialized e').events.map Event.revealed ∧
      (d.dispatch initialized e).initialized = (d.dispatch initialized e').initialized := by
  obtain ⟨hn, ho⟩ := opening_alike h initialized
  rcases dispatch_cases hr initialized e with ⟨hp, hd⟩ | ⟨hp, calls, r, hd⟩ <;>
    rcases dispatch_cases hr initialized e' with ⟨hp', hd'⟩ | ⟨hp', calls', r', hd'⟩
  · rw [hd, hd']
    exact ⟨rfl, rfl⟩
  · exact absurd ((passes_alike h).mp hp) hp'
  · exact absurd ((passes_alike h).mpr hp') hp
  · rw [hd, hd']
    refine ⟨?_, congrArg (initialized || ·) hn⟩
    show (opening initialized e ++ (conclude e r).1).map Event.revealed =
      (opening initialized e' ++ (conclude e' r').1).map Event.revealed
    rw [List.map_append, List.map_append, ho, conclude_alike h r r']

/-- Whether the password is the right one shows in the outcome, and nowhere else. -/
theorem revealed_of_alike_vault :
    vault.providers.Returns ∧
      (vault.dispatch false (.request (.text "a") "tools/call"
        (some (passwordParams "sesame")))).events ≠
        (vault.dispatch false (.request (.text "a") "tools/call"
          (some (passwordParams "guess")))).events ∧
      (vault.dispatch false (.request (.text "a") "tools/call"
        (some (passwordParams "sesame")))).events.map Event.revealed =
        (vault.dispatch false (.request (.text "a") "tools/call"
          (some (passwordParams "guess")))).events.map Event.revealed := by
  refine ⟨returns_vault, ?_, (revealed_of_alike vault returns_vault false _ _
    (.request (.some
      (.obj (.shown (.obj (.hidden (by decide) .nil)) (.shown (.same _) .nil)))))).1⟩
  intro h
  have : [Event.action "tools/call" _ false] = [Event.action "tools/call" _ true] := h
  cases this

end Dispatcher

end ContextServer
