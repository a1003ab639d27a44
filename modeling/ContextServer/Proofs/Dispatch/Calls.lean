import ContextServer.Proofs.Codec.Forms
import ContextServer.Proofs.Dispatch.Events

/-!
Which provider an envelope reaches. The call is part of the plan, and a plan has at most one. It
has one just where the method of the envelope asks for an operation of a wired provider
(`mem_calls_iff`), and what is called for stands in the params (`stands_of_calls`). What that
operation gives is waited for, and decides what becomes of the envelope. Nothing else of the
providers is ever looked at: any other operation could be replaced, and the envelope would be
handled as it is (`dispatch_congr`).
-/

namespace ContextServer

/-- The call of a provider that a plan makes. -/
def Plan.call? : Plan → Option ProviderCall
  | consult c => some c
  | _ => none

theorem Plan.call?_eq_some {q : Plan} {c : ProviderCall} :
    q.call? = some c ↔ q = .consult c := by
  cases q <;> simp [call?]

/-- Whether a failure is logged for a message whose operation answers this, if a line is. -/
def Answer.failed? {α : Type} : Answer α → Option Bool
  | value _ => some false
  | failure _ => some true
  | crash => none

/-- What is asked for stands in the params, in either form: a name or a URI as the text that it is,
and the arguments, which are empty where none are given. -/
def ProviderCall.Stands (params : Option Json) : ProviderCall → Prop
  | callTool name arguments => ∃ j, params = some j ∧
    CallToolParams.shape.entry 0 j = some (.str name) ∧
    (CallToolParams.shape.entry 1 j = some arguments ∧ arguments ≠ .null ∨
      (CallToolParams.shape.entry 1 j = none ∨ CallToolParams.shape.entry 1 j = some .null) ∧
        arguments = .obj [])
  | readResource uri => ∃ j, params = some j ∧ ReadResourceParams.shape.entry 0 j = some (.str uri)
  | getPrompt name arguments => ∃ j, params = some j ∧
    GetPromptParams.shape.entry 0 j = some (.str name) ∧
    (GetPromptParams.shape.entry 1 j = some (.obj (arguments.map fun m => (m.1, .str m.2))) ∨
      GetPromptParams.shape.entry 1 j = none ∧ arguments = [])
  | listTools | listResources | listTemplates | listPrompts => True

namespace Method

variable {m : Method} {params : Option Json} {c : ProviderCall} {p : Providers}

theorem stands_of_calls (h : m.Calls params c) : c.Stands params := by
  cases h with
  | listTools | listResources | listTemplates | listPrompts => trivial
  | callTool h =>
    obtain ⟨j, rfl, h⟩ := h
    obtain ⟨name, hname, arguments, harguments, rfl⟩ := Shape.takes_of_decode h
    obtain ⟨k, hk, hname⟩ := Field.takes_required.mp hname
    rw [Codec.string_decode_eq_ok.mp hname] at hk
    refine ⟨j, rfl, Shape.entry_zero.trans hk, ?_⟩
    rw [Shape.entry_one]
    rcases Field.takes_optional_json.mp harguments with ⟨ho, rfl⟩ | ⟨k, ho, hne, rfl⟩
    · exact .inr ⟨ho, rfl⟩
    · exact .inl ⟨ho, hne⟩
  | readResource h =>
    obtain ⟨j, rfl, h⟩ := h
    obtain ⟨uri, huri, rfl⟩ := Shape.takes_of_decode h
    obtain ⟨k, hk, huri⟩ := Field.takes_required.mp huri
    rw [Codec.string_decode_eq_ok.mp huri] at hk
    exact ⟨j, rfl, Shape.entry_zero.trans hk⟩
  | getPrompt h =>
    obtain ⟨j, rfl, h⟩ := h
    obtain ⟨name, hname, arguments, harguments, rfl⟩ := Shape.takes_of_decode h
    obtain ⟨k, hk, hname⟩ := Field.takes_required.mp hname
    rw [Codec.string_decode_eq_ok.mp hname] at hk
    refine ⟨j, rfl, Shape.entry_zero.trans hk, ?_⟩
    rw [Shape.entry_one]
    rcases Field.takes_defaulted.mp harguments with ⟨ho, rfl⟩ | ⟨k, ho, hd⟩
    · exact .inr ⟨ho, rfl⟩
    · rw [Codec.table_string_decode_eq_ok.mp hd] at ho
      exact .inl ho

/-- The gated methods make a call of whatever params they accept. -/
theorem exists_calls_iff {g : Capability} (hg : m.capability? = some g) :
    (∃ c, m.Calls params c) ↔ m.Accepts params := by
  constructor
  · rintro ⟨c, h⟩
    cases h with
    | listTools | listResources | listTemplates | listPrompts => trivial
    | callTool h | readResource h | getPrompt h => exact ⟨_, h⟩
  · intro h
    rcases cases_of_accepts h with rfl | rfl | ⟨rfl, -⟩ | h
    · cases hg
    · cases hg
    · cases hg
    · exact h

end Method

namespace Dispatcher

variable {d : Dispatcher} {initialized : Bool} {e : Envelope} {c : ProviderCall}

theorem calls_dispatch (d : Dispatcher) (initialized : Bool) (e : Envelope) :
    (d.dispatch initialized e).calls = (d.plan e).call?.toList := by
  unfold dispatch
  cases d.plan e with
  | ignore | answer | negotiate => rfl
  | consult c =>
    dsimp only
    cases result? (d.promise c).answer <;> rfl

theorem calls_eq_singleton :
    (d.dispatch initialized e).calls = [c] ↔ d.plan e = .consult c := by
  rw [calls_dispatch, ← Plan.call?_eq_some]
  cases (d.plan e).call? <;> simp

theorem mem_calls_iff : c ∈ (d.dispatch initialized e).calls ↔
    ∃ name, e.method? = some name ∧ ∃ (α : Type) (q : Promise α) (encode : α → Json),
      d.providers.Operation e.params? name c q encode := by
  rw [calls_dispatch, Option.mem_toList, Plan.call?_eq_some, plan_eq_consult]

/-- Of a notification the log alone tells how its operation has answered. -/
theorem events_of_operation {name : String} {params : Option Json} {α : Type} {q : Promise α}
    {encode : α → Json} (ho : d.providers.Operation params name c q encode) :
    (d.dispatch initialized (.notification name params)).events =
      (q.answer.failed?.map (.notification name (Audit.shown params))).toList := by
  have hp : d.plan (.notification name params) = .consult c :=
    plan_eq_consult.mpr ⟨name, rfl, α, q, encode, ho⟩
  unfold dispatch
  simp only [hp]
  by_cases h : q.answer = .crash
  · rw [result?_of_crash ho h, h]
    rfl
  · rw [result?_of_operation ho h]
    cases ha : q.answer with
    | value v => rfl
    | failure f => rfl
    | crash => exact absurd ha h

/-- A dispatcher that differs in operations only that are not asked for handles the envelope alike.
-/
theorem dispatch_congr {b : Dispatcher} (hi : b.info = d.info)
    (hc : b.capabilities = d.capabilities)
    (hop : ∀ {α : Type} (name : String) (c : ProviderCall) (q : Promise α) (encode : α → Json),
      e.method? = some name → d.providers.Operation e.params? name c q encode →
        ∃ r : Promise α, b.providers.Operation e.params? name c r encode ∧ r.answer = q.answer) :
    b.dispatch initialized e = d.dispatch initialized e := by
  have hp : b.plan e = d.plan e := by
    cases e <;> simp only [plan, hc]
  have hg : b.greeting = d.greeting := by rw [greeting, greeting, hi, hc]
  cases h : d.plan e with
  | ignore | answer | negotiate => simp only [dispatch, hp, h, hg]
  | consult c =>
    obtain ⟨name, hn, α, q, encode, ho⟩ := plan_eq_consult.mp h
    obtain ⟨r, hr, ha⟩ := hop name c q encode hn ho
    have hq : (b.promise c).answer = (d.promise c).answer := by
      rw [promise_of_operation hr, promise_of_operation ho, Promise.map, ha, Promise.map]
    simp only [dispatch, hp, h, hq]

/-- How an envelope reaches a provider. -/
structure Consults (d : Dispatcher) (initialized : Bool) (e : Envelope) : Prop where
  /-- No envelope makes two calls. -/
  once : (d.dispatch initialized e).calls.length ≤ 1
  /-- One is made by a request or notification of a gated method, if its group is wired and its
  params are accepted, and by nothing else. -/
  made : (∃ c, (d.dispatch initialized e).calls = [c]) ↔
    ∃ (m : Method) (g : Capability), e.method? = some m.name ∧ m.capability? = some g ∧
      d.providers.Wires g ∧ m.Accepts e.params?
  /-- It is the operation of that method on the provider of that group, with what has been read of
  the params. -/
  call : ∀ c, c ∈ (d.dispatch initialized e).calls ↔
    ∃ name, e.method? = some name ∧ ∃ (α : Type) (q : Promise α) (encode : α → Json),
      d.providers.Operation e.params? name c q encode
  stands : ∀ c ∈ (d.dispatch initialized e).calls, c.Stands e.params?
  /-- The gate of that operation is waited for, and its answer decides the reply to a request and
  what is logged of a notification. -/
  answers : ∀ {α : Type} {name : String} {c : ProviderCall} {q : Promise α} {encode : α → Json},
    e.method? = some name → d.providers.Operation e.params? name c q encode →
      (d.promise c).gate = q.gate ∧
        (d.dispatch initialized e).reply =
          e.requestId?.map (fun id => .carrying id (q.answer.result encode)) ∧
        (e = .notification name e.params? → (d.dispatch initialized e).events =
          (q.answer.failed?.map (.notification name (Audit.shown e.params?))).toList)
  /-- All other operations of the providers may be any, or may crash. -/
  apart : ∀ b : Dispatcher, b.info = d.info → b.capabilities = d.capabilities →
    (∀ {α : Type} (name : String) (c : ProviderCall) (q : Promise α) (encode : α → Json),
      e.method? = some name → d.providers.Operation e.params? name c q encode →
        ∃ r : Promise α, b.providers.Operation e.params? name c r encode ∧ r.answer = q.answer) →
    b.dispatch initialized e = d.dispatch initialized e

theorem consults (d : Dispatcher) (initialized : Bool) (e : Envelope) :
    Consults d initialized e := by
  constructor
  · rw [calls_dispatch]
    cases (d.plan e).call? <;> simp
  · simp only [calls_eq_singleton, plan_eq_consult]
    constructor
    · rintro ⟨c, name, hn, α, q, encode, ho⟩
      obtain ⟨m, rfl, hc⟩ := ho.calls
      exact ⟨m, _, hn, hc.capability?, ho.wires,
        (Method.exists_calls_iff hc.capability?).mp ⟨c, hc⟩⟩
    · rintro ⟨m, g, hm, hg, hw, ha⟩
      obtain ⟨c, hc⟩ := (Method.exists_calls_iff hg).mpr ha
      rw [hc.capability?] at hg
      exact ⟨c, m.name, hm, Providers.exists_operation hc (Option.some_inj.mp hg ▸ hw)⟩
  · exact fun c => mem_calls_iff
  · intro c h
    obtain ⟨name, -, α, q, encode, ho⟩ := mem_calls_iff.mp h
    obtain ⟨m, -, hc⟩ := ho.calls
    exact Method.stands_of_calls hc
  · intro α name c q encode hn ho
    refine ⟨by rw [promise_of_operation ho, Promise.map], reply_of_operation initialized hn ho,
      fun he => ?_⟩
    generalize e.params? = params at he ho ⊢
    rw [he]
    exact events_of_operation ho
  · exact fun b => dispatch_congr

/-- A notification asks for the tool as a request would, with `null` for no arguments, and finds it
shut. -/
theorem consults_vault :
    let e := Envelope.notification "tools/call" (some (.arr [.str "door", .null]))
    .callTool "door" (.obj []) ∈ (vault.dispatch true e).calls ∧
      (vault.dispatch true e).events =
        [.notification "tools/call" (.arr [.str "door", .null]) true] := by
  intro e
  have hs : CallToolParams.shape.Reads e.params? ⟨"door", none⟩ := ⟨_, rfl, rfl⟩
  have ho := Providers.Operation.callTool (p := vault.providers) rfl hs
  have h := consults vault true e
  exact ⟨(h.call _).mpr ⟨_, rfl, _, _, _, ho⟩, (h.answers rfl ho).2.2 rfl⟩

end Dispatcher

end ContextServer
