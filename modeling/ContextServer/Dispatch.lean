import ContextServer.Audit
import ContextServer.Envelope.Wire
import ContextServer.Provider.Basic

/-!
What a server does with an envelope. A message is planned from its method and params alone: it is
answered at once, it negotiates the session, or it makes one call of a provider. Whatever comes
out of it is concluded into a reply and an event for the log.

A group that is not wired is refused before the params are looked at, and params that are absent
or do not decode are refused with one fixed error.
-/

namespace ContextServer

namespace Capability

def unsupported : Capability → String
  | tools => "tools not supported"
  | resources => "resources not supported"
  | prompts => "prompts not supported"

end Capability

inductive Method
  | handshake
  | ready
  | ping
  | listTools
  | callTool
  | listResources
  | readResource
  | listTemplates
  | listPrompts
  | getPrompt
  deriving DecidableEq, Repr

namespace Method

def all : List Method :=
  [handshake, ready, ping, listTools, callTool, listResources, readResource, listTemplates,
    listPrompts, getPrompt]

def name : Method → String
  | handshake => "initialize"
  | ready => "notifications/initialized"
  | ping => "ping"
  | listTools => "tools/list"
  | callTool => "tools/call"
  | listResources => "resources/list"
  | readResource => "resources/read"
  | listTemplates => "resources/templates/list"
  | listPrompts => "prompts/list"
  | getPrompt => "prompts/get"

def ofName? (s : String) : Option Method := all.find? fun m => m.name == s

/-- The group that has to be wired. -/
def capability? : Method → Option Capability
  | handshake | ready | ping => none
  | listTools | callTool => some .tools
  | listResources | readResource | listTemplates => some .resources
  | listPrompts | getPrompt => some .prompts

/-- A silent method gets no reply, even to a request. -/
def isSilent : Method → Bool
  | ready => true
  | _ => false

theorem ofName?_name (m : Method) : ofName? m.name = some m := by
  cases m <;> decide

end Method

/-- What is to be done for a message. -/
inductive Plan
  | ignore
  | answer (result : Except ErrorObject Json)
  | negotiate (params : InitializeParams)
  | consult (call : ProviderCall)

/-- An event for the log. -/
inductive Event
  | action (method : String) (params : Json) (failed : Bool)
  | notification (method : String) (params : Json) (failed : Bool)
  | session (client requestedVersion : String)
  deriving Repr

namespace Event

def outcome (failed : Bool) : String := if failed then "failure" else "success"

/-- The fields of the log line; `message` is its text. -/
def fields : Event → List (String × String)
  | action m p failed =>
    [("message", "mcp action audited"), ("method", m), ("params", p.text),
      ("outcome", outcome failed)]
  | notification m p failed =>
    [("message", "mcp notification audited"), ("method", m), ("params", p.text),
      ("outcome", outcome failed)]
  | session client version =>
    [("message", "session initialized"), ("client", client), ("requested_version", version)]

end Event

/-- Decodes params that a method cannot do without. -/
def requiredParams {σ : Type} (shape : Shape σ) (params : Option Json) : Except ErrorObject σ :=
  match params with
  | none => .error .invalidParams
  | some j =>
    match shape.decode j with
    | .ok s => .ok s
    | .error _ => .error .invalidParams

namespace Method

/-- What a method asks for, once its group is known to be wired. -/
def request (params : Option Json) : Method → Except ErrorObject Plan
  | handshake => (requiredParams InitializeParams.shape params).map .negotiate
  | ready => .ok (.answer (.ok .null))
  | ping => .ok (.answer (.ok (.obj [])))
  | listTools => .ok (.consult .listTools)
  | callTool => (requiredParams CallToolParams.shape params).map fun p =>
    .consult (.callTool p.name (p.arguments.getD (.obj [])))
  | listResources => .ok (.consult .listResources)
  | readResource => (requiredParams ReadResourceParams.shape params).map fun p =>
    .consult (.readResource p.uri)
  | listTemplates => .ok (.consult .listTemplates)
  | listPrompts => .ok (.consult .listPrompts)
  | getPrompt => (requiredParams GetPromptParams.shape params).map fun p =>
    .consult (.getPrompt p.name p.arguments)

def plan (capabilities : Capabilities) (params : Option Json) (m : Method) : Plan :=
  let planned := match m.request params with
    | .ok p => p
    | .error e => .answer (.error e)
  match m.capability? with
  | some g =>
    if capabilities.supports g then planned else .answer (.error (.internal g.unsupported))
  | none => planned

end Method

structure Dispatcher where
  info : Implementation
  providers : Providers

namespace Dispatcher

def capabilities (d : Dispatcher) : Capabilities := d.providers.capabilities

def plan (d : Dispatcher) : Envelope → Plan
  | .request _ name params =>
    match Method.ofName? name with
    | some m => m.plan d.capabilities params
    | none => .answer (.error (.methodNotFound name))
  | .notification name params =>
    match Method.ofName? name with
    | some m => m.plan d.capabilities params
    | none => .ignore
  | .response _ => .ignore

/-- The result of a successful negotiation. -/
def greeting (d : Dispatcher) : Json :=
  InitializeResult.shape.codec.encode ⟨protocolRevision, d.capabilities.advertised, d.info⟩

/-- The event of the negotiation that comes first. -/
def negotiated (p : InitializeParams) : Event :=
  .session ((p.clientInfo.map Implementation.name).getD "unknown") p.protocolVersion

def failed (r : Except ErrorObject Json) : Bool :=
  match r with
  | .ok _ => false
  | .error _ => true

def respond (id : RequestId) : Except ErrorObject Json → Envelope
  | .ok j => .success id j
  | .error e => .failure id e

/-- The events and the reply that a result leads to. -/
def conclude (e : Envelope) (r : Except ErrorObject Json) : List Event × Option Envelope :=
  match e with
  | .request id name params =>
    if (Method.ofName? name).any Method.isSilent then ([], none)
    else ([.action name (Audit.shown params) (failed r)], some (respond id r))
  | .notification name params => ([.notification name (Audit.shown params) (failed r)], none)
  | .response _ => ([], none)

/-- The reply to a message whose handler crashed; nothing is logged for it. -/
def crashReply (e : Envelope) : Option Envelope :=
  e.requestId?.map fun id => .failure id (.internal "internal error")

/-- The answer of a provider as a result; a crash gives none. -/
def result? : Answer Json → Option (Except ErrorObject Json)
  | .value j => some (.ok j)
  | .failure e => some (.error e.toErrorObject)
  | .crash => none

/-- The call that a plan makes, if it makes one. -/
def promise (d : Dispatcher) (c : ProviderCall) : Promise Json :=
  (d.providers.call c).getD (.failure (.internal c.capability.unsupported))

/-- All that comes of handling one envelope to the end. -/
structure Handled where
  reply : Option Envelope
  events : List Event
  calls : List ProviderCall
  initialized : Bool

def settle (initialized : Bool) (e : Envelope) (calls : List ProviderCall)
    (before : List Event) (r : Except ErrorObject Json) : Handled :=
  let (events, reply) := conclude e r
  ⟨reply, before ++ events, calls, initialized⟩

/-- Handles an envelope in a session that has been negotiated before, or not. -/
def dispatch (d : Dispatcher) (initialized : Bool) (e : Envelope) : Handled :=
  match d.plan e with
  | .ignore => ⟨none, [], [], initialized⟩
  | .answer r => settle initialized e [] [] r
  | .negotiate p =>
    settle true e [] (if initialized then [] else [negotiated p]) (.ok d.greeting)
  | .consult c =>
    match result? (d.promise c).answer with
    | some r => settle initialized e [c] [] r
    | none => ⟨crashReply e, [], [c], initialized⟩

end Dispatcher

end ContextServer
