import ContextServer.Payload.Content

/-! The payloads of the prompt methods. -/

namespace ContextServer

structure PromptArgument where
  name : String
  description : Option String
  required : Bool
  deriving DecidableEq, Repr

structure Prompt where
  name : String
  description : Option String
  arguments : List PromptArgument
  deriving DecidableEq, Repr

structure ListPromptsResult where
  prompts : List Prompt
  deriving DecidableEq, Repr

/-- Named texts, in ascending order of their names. -/
abbrev Arguments := List (String × String)

structure GetPromptParams where
  name : String
  arguments : Arguments
  deriving DecidableEq, Repr

inductive Role
  | user
  | assistant
  deriving DecidableEq, Repr

structure PromptMessage where
  role : Role
  content : ContentBlock
  deriving DecidableEq, Repr

structure GetPromptResult where
  description : Option String
  messages : List PromptMessage
  deriving DecidableEq, Repr

namespace Role

def name : Role → String
  | user => "user"
  | assistant => "assistant"

def ofName (s : String) : Except DecodeError Role :=
  if s = user.name then .ok user
  else if s = assistant.name then .ok assistant
  else .error (.unknownVariant s [user.name, assistant.name])

/-- A role is written as its name. It is read from an object as well, whose only member has that
name and is `null`. -/
def codec : Codec Role where
  encode r := .str r.name
  decode
    | .str s => ofName s
    | .obj [(k, j)] =>
      match ofName k, j with
      | .ok r, .null => .ok r
      | .ok _, j => .error (.wrongType j "unit")
      | .error e, _ => .error e
    | .obj _ => .error .notOneKey
    | j => .error (.wrongType j "string or map")

end Role

def PromptArgument.shape : Shape PromptArgument where
  title := "struct PromptArgument"
  τ := _
  make := PromptArgument.mk
  fields :=
    .field (.required "name" (·.name) .string)
      (.field (.optional "description" (·.description) .string)
        (.field (.flag "required" (·.required)) .done))

def Prompt.shape : Shape Prompt where
  title := "struct Prompt"
  τ := _
  make := Prompt.mk
  fields :=
    .field (.required "name" (·.name) .string)
      (.field (.optional "description" (·.description) .string)
        (.field
          ⟨"arguments", (·.arguments), PromptArgument.shape.codec.list, some [], List.isEmpty⟩
          .done))

def ListPromptsResult.shape : Shape ListPromptsResult where
  title := "struct ListPromptsResult"
  τ := _
  make := ListPromptsResult.mk
  fields := .field (.required "prompts" (·.prompts) Prompt.shape.codec.list) .done

def GetPromptParams.shape : Shape GetPromptParams where
  title := "struct GetPromptParams"
  τ := _
  make := GetPromptParams.mk
  fields :=
    .field (.required "name" (·.name) .string)
      (.field (.defaulted "arguments" (·.arguments) (.table .string) []) .done)

def PromptMessage.shape : Shape PromptMessage where
  title := "struct PromptMessage"
  τ := _
  make := PromptMessage.mk
  fields :=
    .field (.required "role" (·.role) Role.codec)
      (.field (.required "content" (·.content) ContentBlock.codec) .done)

def GetPromptResult.shape : Shape GetPromptResult where
  title := "struct GetPromptResult"
  τ := _
  make := GetPromptResult.mk
  fields :=
    .field (.optional "description" (·.description) .string)
      (.field (.required "messages" (·.messages) PromptMessage.shape.codec.list) .done)

end ContextServer
