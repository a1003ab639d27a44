import ContextServer.ProviderError
import ContextServer.Payload.Negotiation
import ContextServer.Payload.Tool
import ContextServer.Payload.Resource
import ContextServer.Payload.Prompt

/-!
The providers behind a server. What a call comes to depends on its arguments alone; when it does
may depend on a gate that has to open first.
-/

namespace ContextServer

inductive Answer (α : Type)
  | value (a : α)
  | failure (e : ProviderError)
  | crash
  deriving Repr

/-- An answer, kept back until a permit of the gate is there, if there is a gate. -/
structure Promise (α : Type) where
  gate : Option String
  answer : Answer α
  deriving Repr

namespace Promise

variable {α β : Type}

def value (a : α) : Promise α := ⟨none, .value a⟩

def failure (e : ProviderError) : Promise α := ⟨none, .failure e⟩

def crash : Promise α := ⟨none, .crash⟩

def after (gate : String) (a : α) : Promise α := ⟨some gate, .value a⟩

def map (f : α → β) (p : Promise α) : Promise β where
  gate := p.gate
  answer := match p.answer with
    | .value a => .value (f a)
    | .failure e => .failure e
    | .crash => .crash

end Promise

structure ToolProvider where
  list : Promise (List Tool)
  call : String → Json → Promise CallToolResult

structure ResourceProvider where
  list : Promise (List Resource)
  templates : Promise (List ResourceTemplate)
  read : String → Promise ReadResourceResult

structure PromptProvider where
  list : Promise (List Prompt)
  get : String → Arguments → Promise GetPromptResult

/-- A group of methods that one provider serves. -/
inductive Capability
  | tools
  | resources
  | prompts
  deriving DecidableEq, Repr

structure Capabilities where
  tools : Bool
  resources : Bool
  prompts : Bool
  deriving DecidableEq, Repr

namespace Capabilities

def supports (c : Capabilities) : Capability → Bool
  | .tools => c.tools
  | .resources => c.resources
  | .prompts => c.prompts

/-- The groups as they are advertised, without any extra. -/
def advertised (c : Capabilities) : ServerCapabilities where
  tools := if c.tools then some ⟨false⟩ else none
  resources := if c.resources then some ⟨false, false⟩ else none
  prompts := if c.prompts then some ⟨false⟩ else none

end Capabilities

/-- The providers that are wired. -/
structure Providers where
  tools : Option ToolProvider
  resources : Option ResourceProvider
  prompts : Option PromptProvider

namespace Providers

def none : Providers := ⟨.none, .none, .none⟩

def capabilities (p : Providers) : Capabilities :=
  ⟨p.tools.isSome, p.resources.isSome, p.prompts.isSome⟩

end Providers

inductive ProviderCall
  | listTools
  | callTool (name : String) (arguments : Json)
  | listResources
  | readResource (uri : String)
  | listTemplates
  | listPrompts
  | getPrompt (name : String) (arguments : Arguments)
  deriving Repr

namespace ProviderCall

def capability : ProviderCall → Capability
  | listTools | callTool _ _ => .tools
  | listResources | readResource _ | listTemplates => .resources
  | listPrompts | getPrompt _ _ => .prompts

end ProviderCall

/-- Makes a call of the provider of its group, if that one is wired; the result is encoded. -/
def Providers.call (p : Providers) : ProviderCall → Option (Promise Json)
  | .listTools => p.tools.map fun t => t.list.map fun ts => ListToolsResult.shape.codec.encode ⟨ts⟩
  | .callTool name args => p.tools.map fun t =>
    (t.call name args).map CallToolResult.shape.codec.encode
  | .listResources => p.resources.map fun r => r.list.map fun rs =>
    ListResourcesResult.shape.codec.encode ⟨rs⟩
  | .readResource uri => p.resources.map fun r =>
    (r.read uri).map ReadResourceResult.shape.codec.encode
  | .listTemplates => p.resources.map fun r => r.templates.map fun ts =>
    ListResourceTemplatesResult.shape.codec.encode ⟨ts⟩
  | .listPrompts => p.prompts.map fun r => r.list.map fun ps =>
    ListPromptsResult.shape.codec.encode ⟨ps⟩
  | .getPrompt name args => p.prompts.map fun r =>
    (r.get name args).map GetPromptResult.shape.codec.encode

end ContextServer
