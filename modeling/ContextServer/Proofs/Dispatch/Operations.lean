import ContextServer.Dispatch

/-!
What a message asks of a provider. A gated method stands for one operation of the provider of its
group, and its params say what that is given. `Operation` lists them from the name of the method
and the params alone. A dispatcher makes a call just where there is an operation
(`plan_eq_consult`), and waits for what that operation gives, and for nothing else
(`promise_of_operation`).
-/

namespace ContextServer

/-- The params are there and decode as `s`. -/
def Shape.Reads {σ : Type} (shape : Shape σ) (params : Option Json) (s : σ) : Prop :=
  ∃ j, params = some j ∧ shape.decode j = .ok s

theorem requiredParams_of_reads {σ : Type} {shape : Shape σ} {params : Option Json} {s : σ}
    (h : shape.Reads params s) : requiredParams shape params = .ok s := by
  obtain ⟨j, rfl, hj⟩ := h
  simp only [requiredParams, hj]

theorem requiredParams_of_not_reads {σ : Type} {shape : Shape σ} {params : Option Json}
    (h : ¬ ∃ s, shape.Reads params s) : requiredParams shape params = .error .invalidParams := by
  unfold requiredParams
  split
  · rfl
  · rename_i j
    split
    · rename_i s hs
      exact absurd ⟨s, j, rfl, hs⟩ h
    · rfl

namespace Method

/-- A method that cannot do without params has them, and they decode. -/
def Accepts (params : Option Json) : Method → Prop
  | handshake => ∃ p, InitializeParams.shape.Reads params p
  | callTool => ∃ p, CallToolParams.shape.Reads params p
  | readResource => ∃ p, ReadResourceParams.shape.Reads params p
  | getPrompt => ∃ p, GetPromptParams.shape.Reads params p
  | ready | ping | listTools | listResources | listTemplates | listPrompts => True

/-- The call that a method makes of the provider of its group. -/
inductive Calls (params : Option Json) : Method → ProviderCall → Prop
  | listTools : Calls params .listTools .listTools
  | callTool {p : CallToolParams} (h : CallToolParams.shape.Reads params p) :
      Calls params .callTool (.callTool p.name (p.arguments.getD (.obj [])))
  | listResources : Calls params .listResources .listResources
  | readResource {p : ReadResourceParams} (h : ReadResourceParams.shape.Reads params p) :
      Calls params .readResource (.readResource p.uri)
  | listTemplates : Calls params .listTemplates .listTemplates
  | listPrompts : Calls params .listPrompts .listPrompts
  | getPrompt {p : GetPromptParams} (h : GetPromptParams.shape.Reads params p) :
      Calls params .getPrompt (.getPrompt p.name p.arguments)

variable {m : Method} {params : Option Json} {c : ProviderCall}

theorem ofName?_eq_none {name : String} : ofName? name = none ↔ ∀ m : Method, m.name ≠ name := by
  rw [ofName?, List.find?_eq_none]
  constructor
  · intro h m hm
    exact h m (by cases m <;> decide) (beq_iff_eq.mpr hm)
  · intro h m _ hm
    exact h m (beq_iff_eq.mp hm)

theorem name_of_ofName? {name : String} (h : ofName? name = some m) : m.name = name := by
  simpa using List.find?_some h

/-- The group of a call is the one that the method needs. -/
theorem Calls.capability? (h : m.Calls params c) : m.capability? = some c.capability := by
  cases h <;> rfl

theorem request_of_calls (h : m.Calls params c) : m.request params = .ok (.consult c) := by
  cases h with
  | listTools | listResources | listTemplates | listPrompts => rfl
  | callTool h | readResource h | getPrompt h =>
    rw [request, requiredParams_of_reads h]
    rfl

theorem request_of_not_accepts (h : ¬ m.Accepts params) :
    m.request params = .error .invalidParams := by
  cases m with
  | handshake | callTool | readResource | getPrompt =>
    rw [request, requiredParams_of_not_reads h]
    rfl
  | ready | ping | listTools | listResources | listTemplates | listPrompts =>
    exact absurd trivial h

/-- A method with params of its own is answered at once, negotiates, or makes a call. -/
theorem cases_of_accepts (h : m.Accepts params) :
    m = ready ∨ m = ping ∨ (m = handshake ∧ ∃ p, InitializeParams.shape.Reads params p) ∨
      ∃ c, m.Calls params c := by
  cases m with
  | ready => exact .inl rfl
  | ping => exact .inr (.inl rfl)
  | handshake => exact .inr (.inr (.inl ⟨rfl, h⟩))
  | listTools => exact .inr (.inr (.inr ⟨_, .listTools⟩))
  | listResources => exact .inr (.inr (.inr ⟨_, .listResources⟩))
  | listTemplates => exact .inr (.inr (.inr ⟨_, .listTemplates⟩))
  | listPrompts => exact .inr (.inr (.inr ⟨_, .listPrompts⟩))
  | callTool =>
    obtain ⟨p, hp⟩ := h
    exact .inr (.inr (.inr ⟨_, .callTool hp⟩))
  | readResource =>
    obtain ⟨p, hp⟩ := h
    exact .inr (.inr (.inr ⟨_, .readResource hp⟩))
  | getPrompt =>
    obtain ⟨p, hp⟩ := h
    exact .inr (.inr (.inr ⟨_, .getPrompt hp⟩))

end Method

namespace Providers

def Wires (p : Providers) : Capability → Prop
  | .tools => p.tools.isSome
  | .resources => p.resources.isSome
  | .prompts => p.prompts.isSome

/-- The group that a method needs, if it needs one, is wired. -/
def Serves (p : Providers) (m : Method) : Prop := ∀ g, m.capability? = some g → p.Wires g

/-- No operation of a wired provider crashes. -/
structure Returns (p : Providers) : Prop where
  tools : ∀ t, p.tools = some t → t.list.answer ≠ .crash ∧
    ∀ name args, (t.call name args).answer ≠ .crash
  resources : ∀ r, p.resources = some r → r.list.answer ≠ .crash ∧ r.templates.answer ≠ .crash ∧
    ∀ uri, (r.read uri).answer ≠ .crash
  prompts : ∀ r, p.prompts = some r → r.list.answer ≠ .crash ∧
    ∀ name args, (r.get name args).answer ≠ .crash

/-- What a method asks of a wired provider with its params: the call that is recorded, the
operation, and how a value that it gives is written as a result. -/
inductive Operation (p : Providers) (params : Option Json) :
    {α : Type} → String → ProviderCall → Promise α → (α → Json) → Prop
  | listTools {t : ToolProvider} (ht : p.tools = some t) :
      Operation p params "tools/list" .listTools t.list
        fun tools => ListToolsResult.shape.codec.encode ⟨tools⟩
  | callTool {t : ToolProvider} {s : CallToolParams} (ht : p.tools = some t)
      (hs : CallToolParams.shape.Reads params s) :
      Operation p params "tools/call" (.callTool s.name (s.arguments.getD (.obj [])))
        (t.call s.name (s.arguments.getD (.obj []))) CallToolResult.shape.codec.encode
  | listResources {r : ResourceProvider} (hr : p.resources = some r) :
      Operation p params "resources/list" .listResources r.list
        fun resources => ListResourcesResult.shape.codec.encode ⟨resources⟩
  | readResource {r : ResourceProvider} {s : ReadResourceParams} (hr : p.resources = some r)
      (hs : ReadResourceParams.shape.Reads params s) :
      Operation p params "resources/read" (.readResource s.uri) (r.read s.uri)
        ReadResourceResult.shape.codec.encode
  | listTemplates {r : ResourceProvider} (hr : p.resources = some r) :
      Operation p params "resources/templates/list" .listTemplates r.templates
        fun templates => ListResourceTemplatesResult.shape.codec.encode ⟨templates⟩
  | listPrompts {r : PromptProvider} (hr : p.prompts = some r) :
      Operation p params "prompts/list" .listPrompts r.list
        fun prompts => ListPromptsResult.shape.codec.encode ⟨prompts⟩
  | getPrompt {r : PromptProvider} {s : GetPromptParams} (hr : p.prompts = some r)
      (hs : GetPromptParams.shape.Reads params s) :
      Operation p params "prompts/get" (.getPrompt s.name s.arguments) (r.get s.name s.arguments)
        GetPromptResult.shape.codec.encode

variable {p : Providers} {params : Option Json} {name : String} {c : ProviderCall}

theorem supports_capabilities {g : Capability} : p.capabilities.supports g = true ↔ p.Wires g := by
  cases g <;> rfl

theorem serves_of_open {m : Method} (h : m.capability? = .none) : p.Serves m := by
  intro g hg
  rw [h] at hg
  cases hg

/-- Either the group of a method is missing, or none is. -/
theorem missing_or_serves (p : Providers) (m : Method) :
    (∃ g, m.capability? = some g ∧ ¬ p.Wires g) ∨ p.Serves m := by
  by_cases h : ∃ g, m.capability? = some g ∧ ¬ p.Wires g
  · exact .inl h
  · exact .inr fun g hg => Classical.byContradiction fun hw => h ⟨g, hg, hw⟩

section Operations

variable {α : Type} {q : Promise α} {encode : α → Json}

theorem Operation.calls (h : p.Operation params name c q encode) :
    ∃ m : Method, m.name = name ∧ m.Calls params c := by
  cases h with
  | listTools => exact ⟨_, rfl, .listTools⟩
  | callTool _ hs => exact ⟨_, rfl, .callTool hs⟩
  | listResources => exact ⟨_, rfl, .listResources⟩
  | readResource _ hs => exact ⟨_, rfl, .readResource hs⟩
  | listTemplates => exact ⟨_, rfl, .listTemplates⟩
  | listPrompts => exact ⟨_, rfl, .listPrompts⟩
  | getPrompt _ hs => exact ⟨_, rfl, .getPrompt hs⟩

/-- The call of a method gives what the operation gives, with a value written as the result. -/
theorem Operation.call_eq (h : p.Operation params name c q encode) :
    p.call c = some (q.map encode) := by
  cases h with
  | listTools h | callTool h | listResources h | readResource h | listTemplates h | listPrompts h
  | getPrompt h => rw [call, h, Option.map_some]

theorem Operation.wires (h : p.Operation params name c q encode) : p.Wires c.capability := by
  cases h with
  | listTools h | callTool h | listResources h | readResource h | listTemplates h | listPrompts h
  | getPrompt h => exact Option.isSome_iff_exists.mpr ⟨_, h⟩

theorem Operation.answer_ne_crash (h : p.Operation params name c q encode) (hr : p.Returns) :
    q.answer ≠ .crash := by
  cases h with
  | listTools h => exact (hr.tools _ h).1
  | callTool h => exact (hr.tools _ h).2 _ _
  | listResources h => exact (hr.resources _ h).1
  | readResource h => exact (hr.resources _ h).2.2 _
  | listTemplates h => exact (hr.resources _ h).2.1
  | listPrompts h => exact (hr.prompts _ h).1
  | getPrompt h => exact (hr.prompts _ h).2 _ _

end Operations

/-- A method whose group is wired and whose params decode has its operation. -/
theorem exists_operation {m : Method} (hc : m.Calls params c) (hw : p.Wires c.capability) :
    ∃ (α : Type) (q : Promise α) (encode : α → Json),
      p.Operation params m.name c q encode := by
  cases hc with
  | listTools =>
    obtain ⟨r, hr⟩ := Option.isSome_iff_exists.mp hw
    exact ⟨_, _, _, .listTools hr⟩
  | callTool hs =>
    obtain ⟨r, hr⟩ := Option.isSome_iff_exists.mp hw
    exact ⟨_, _, _, .callTool hr hs⟩
  | listResources =>
    obtain ⟨r, hr⟩ := Option.isSome_iff_exists.mp hw
    exact ⟨_, _, _, .listResources hr⟩
  | readResource hs =>
    obtain ⟨r, hr⟩ := Option.isSome_iff_exists.mp hw
    exact ⟨_, _, _, .readResource hr hs⟩
  | listTemplates =>
    obtain ⟨r, hr⟩ := Option.isSome_iff_exists.mp hw
    exact ⟨_, _, _, .listTemplates hr⟩
  | listPrompts =>
    obtain ⟨r, hr⟩ := Option.isSome_iff_exists.mp hw
    exact ⟨_, _, _, .listPrompts hr⟩
  | getPrompt hs =>
    obtain ⟨r, hr⟩ := Option.isSome_iff_exists.mp hw
    exact ⟨_, _, _, .getPrompt hr hs⟩

end Providers

/-! ### What is planned -/

namespace Method

variable {m : Method} {params : Option Json} {c : ProviderCall} {p : Providers}

theorem plan_of_not_wires {g : Capability} (hg : m.capability? = some g) (hw : ¬ p.Wires g) :
    m.plan p.capabilities params = .answer (.error (.internal g.unsupported)) := by
  have hs : p.capabilities.supports g = false :=
    Bool.eq_false_iff.mpr fun h => hw (Providers.supports_capabilities.mp h)
  simp only [plan, hg, hs, Bool.false_eq_true, if_false]

theorem plan_of_ok {q : Plan} (hw : p.Serves m)
    (h : m.request params = .ok q) : m.plan p.capabilities params = q := by
  simp only [plan, h]
  split
  · rename_i g hg
    exact if_pos (Providers.supports_capabilities.mpr (hw g hg))
  · rfl

theorem plan_of_error {e : ErrorObject} (hw : p.Serves m)
    (h : m.request params = .error e) : m.plan p.capabilities params = .answer (.error e) := by
  simp only [plan, h]
  split
  · rename_i g hg
    exact if_pos (Providers.supports_capabilities.mpr (hw g hg))
  · rfl

/-- What a method with these params can be planned as. -/
inductive Planned (m : Method) (params : Option Json) : Plan → Prop
  | answer {r : Except ErrorObject Json}
      (hn : m = handshake → ¬ ∃ p, InitializeParams.shape.Reads params p) :
      Planned m params (.answer r)
  | negotiate {p : InitializeParams} (hm : m = handshake)
      (hp : InitializeParams.shape.Reads params p) : Planned m params (.negotiate p)
  | consult {c : ProviderCall} (hc : m.Calls params c) : Planned m params (.consult c)

theorem planned_plan (p : Providers) (m : Method) (params : Option Json) :
    m.Planned params (m.plan p.capabilities params) := by
  rcases p.missing_or_serves m with ⟨g, hg, hw⟩ | hw
  · rw [plan_of_not_wires hg hw]
    refine .answer ?_
    rintro rfl
    cases hg
  by_cases ha : m.Accepts params
  · rcases cases_of_accepts ha with rfl | rfl | ⟨rfl, q, hq⟩ | ⟨c, hc⟩
    · rw [plan_of_ok hw rfl]
      exact .answer nofun
    · rw [plan_of_ok hw rfl]
      exact .answer nofun
    · rw [plan_of_ok hw (congrArg (Except.map Plan.negotiate) (requiredParams_of_reads hq))]
      exact .negotiate rfl hq
    · rw [plan_of_ok hw (request_of_calls hc)]
      exact .consult hc
  · rw [plan_of_error hw (request_of_not_accepts ha)]
    refine .answer ?_
    rintro rfl
    exact ha

theorem Calls.serves (h : m.Calls params c) (hw : p.Wires c.capability) : p.Serves m := by
  intro g hg
  rw [h.capability?] at hg
  exact Option.some_inj.mp hg ▸ hw

/-- A gated method whose group is wired makes the call that its params ask for, and no method makes
another. -/
theorem plan_eq_consult :
    m.plan p.capabilities params = .consult c ↔ m.Calls params c ∧ p.Wires c.capability := by
  constructor
  · intro h
    rcases p.missing_or_serves m with ⟨g, hg, hw⟩ | hw
    · rw [plan_of_not_wires hg hw] at h
      cases h
    · have hp := planned_plan p m params
      rw [h] at hp
      cases hp with
      | consult hc => exact ⟨hc, hw _ hc.capability?⟩
  · rintro ⟨hc, hw⟩
    exact plan_of_ok (hc.serves hw) (request_of_calls hc)

end Method

namespace Dispatcher

variable {d : Dispatcher} {e : Envelope} {c : ProviderCall}

theorem plan_of_method? {m : Method} (h : e.method? = some m.name) :
    d.plan e = m.plan d.providers.capabilities e.params? := by
  cases e with
  | request id name params | notification name params =>
    obtain rfl := Option.some_inj.mp h
    simp only [plan, Method.ofName?_name]
    rfl
  | response r => cases h

theorem ofName?_of_unknown {name : String} (h : ∀ m : Method, some name ≠ some m.name) :
    Method.ofName? name = none :=
  Method.ofName?_eq_none.mpr fun m hm => h m (congrArg some hm.symm)

/-- An envelope makes a call just where its method asks for an operation of a wired provider. -/
theorem plan_eq_consult :
    d.plan e = .consult c ↔ ∃ name, e.method? = some name ∧
      ∃ (α : Type) (q : Promise α) (encode : α → Json),
        d.providers.Operation e.params? name c q encode := by
  constructor
  · intro h
    by_cases hm : ∃ m : Method, e.method? = some m.name
    · obtain ⟨m, hm⟩ := hm
      rw [plan_of_method? hm] at h
      obtain ⟨hc, hw⟩ := Method.plan_eq_consult.mp h
      exact ⟨m.name, hm, Providers.exists_operation hc hw⟩
    · have hm (m : Method) : e.method? ≠ some m.name := fun h => hm ⟨m, h⟩
      cases e with
      | request id name params | notification name params =>
        simp only [plan, ofName?_of_unknown hm] at h
        cases h
      | response r => cases h
  · rintro ⟨name, hn, α, q, encode, ho⟩
    obtain ⟨m, rfl, hc⟩ := ho.calls
    rw [plan_of_method? hn]
    exact Method.plan_eq_consult.mpr ⟨hc, ho.wires⟩

/-- What is waited for is what the operation gives. -/
theorem promise_of_operation {α : Type} {params : Option Json} {name : String} {q : Promise α}
    {encode : α → Json} (h : d.providers.Operation params name c q encode) :
    d.promise c = q.map encode := by
  rw [promise, h.call_eq, Option.getD_some]

end Dispatcher

end ContextServer
