import ContextServer.Payload.Content

/-! The payloads of the tool methods. -/

namespace ContextServer

structure Tool where
  name : String
  description : Option String
  inputSchema : Json
  deriving Repr

structure ListToolsResult where
  tools : List Tool
  deriving Repr

structure CallToolParams where
  name : String
  arguments : Option Json
  deriving Repr

/-- What a tool call comes to. A failure of the tool itself is a result that says so in
`isError`. -/
structure CallToolResult where
  content : List ContentBlock
  isError : Bool
  deriving DecidableEq, Repr

namespace CallToolResult

def text (s : String) : CallToolResult := ⟨[.text s], false⟩

def error (s : String) : CallToolResult := ⟨[.text s], true⟩

end CallToolResult

def Tool.shape : Shape Tool where
  title := "struct Tool"
  τ := _
  make := Tool.mk
  fields :=
    .field (.required "name" (·.name) .string)
      (.field (.optional "description" (·.description) .string)
        (.field (.required "inputSchema" (·.inputSchema) .json) .done))

def ListToolsResult.shape : Shape ListToolsResult where
  title := "struct ListToolsResult"
  τ := _
  make := ListToolsResult.mk
  fields := .field (.required "tools" (·.tools) Tool.shape.codec.list) .done

def CallToolParams.shape : Shape CallToolParams where
  title := "struct CallToolParams"
  τ := _
  make := CallToolParams.mk
  fields :=
    .field (.required "name" (·.name) .string)
      (.field (.optional "arguments" (·.arguments) .json) .done)

def CallToolResult.shape : Shape CallToolResult where
  title := "struct CallToolResult"
  τ := _
  make := CallToolResult.mk
  fields :=
    .field (.required "content" (·.content) ContentBlock.codec.list)
      (.field (.flag "isError" (·.isError)) .done)

end ContextServer
