import ContextServer.Codec.Record

/-!
The payloads of session negotiation: who the peers are and which method groups the server offers.
-/

namespace ContextServer

/-- The protocol revision that the server speaks. -/
def protocolRevision : String := "2024-11-05"

structure Implementation where
  name : String
  version : String
  deriving DecidableEq, Repr

structure InitializeParams where
  protocolVersion : String
  capabilities : Json
  clientInfo : Option Implementation
  deriving Repr

structure ListChangedCapability where
  listChanged : Bool
  deriving DecidableEq, Repr

structure ResourcesCapability where
  subscribe : Bool
  listChanged : Bool
  deriving DecidableEq, Repr

/-- A group that is absent is not offered. -/
structure ServerCapabilities where
  tools : Option ListChangedCapability
  resources : Option ResourcesCapability
  prompts : Option ListChangedCapability
  deriving DecidableEq, Repr

structure InitializeResult where
  protocolVersion : String
  capabilities : ServerCapabilities
  serverInfo : Implementation
  deriving DecidableEq, Repr

def Implementation.shape : Shape Implementation where
  title := "struct Implementation"
  τ := _
  make := Implementation.mk
  fields :=
    .field (.required "name" (·.name) .string)
      (.field ⟨"version", (·.version), .string, some "", (· == "")⟩ .done)

def InitializeParams.shape : Shape InitializeParams where
  title := "struct InitializeParams"
  τ := _
  make := InitializeParams.mk
  fields :=
    .field (.defaulted "protocolVersion" (·.protocolVersion) .string "")
      (.field (.defaulted "capabilities" (·.capabilities) .json .null)
        (.field (.defaulted "clientInfo" (·.clientInfo) Implementation.shape.codec.option none)
          .done))

def ListChangedCapability.shape : Shape ListChangedCapability where
  title := "struct ListChangedCapability"
  τ := _
  make := ListChangedCapability.mk
  fields := .field (.flag "listChanged" (·.listChanged)) .done

def ResourcesCapability.shape : Shape ResourcesCapability where
  title := "struct ResourcesCapability"
  τ := _
  make := ResourcesCapability.mk
  fields :=
    .field (.flag "subscribe" (·.subscribe)) (.field (.flag "listChanged" (·.listChanged)) .done)

def ServerCapabilities.shape : Shape ServerCapabilities where
  title := "struct ServerCapabilities"
  τ := _
  make := ServerCapabilities.mk
  fields :=
    .field (.optional "tools" (·.tools) ListChangedCapability.shape.codec)
      (.field (.optional "resources" (·.resources) ResourcesCapability.shape.codec)
        (.field (.optional "prompts" (·.prompts) ListChangedCapability.shape.codec) .done))

def InitializeResult.shape : Shape InitializeResult where
  title := "struct InitializeResult"
  τ := _
  make := InitializeResult.mk
  fields :=
    .field (.required "protocolVersion" (·.protocolVersion) .string)
      (.field (.required "capabilities" (·.capabilities) ServerCapabilities.shape.codec)
        (.field (.required "serverInfo" (·.serverInfo) Implementation.shape.codec) .done))

end ContextServer
