import ContextServer.Provider.Registry
import ContextServer.Json.Printer

/-!
Handlers with canned answers, for trying a server out.
-/

namespace ContextServer.Canned

/-- The arguments as text. -/
def echoTool : ToolHandler := fun args => .value (.text args.text)

def textTool (s : String) : ToolHandler := fun _ => .value (.text s)

def errorTool (s : String) : ToolHandler := fun _ => .value (.error s)

/-- Waits for a permit of the gate before it answers. -/
def heldTool (gate : String) : ToolHandler := fun args =>
  .after gate (.text ("released " ++ args.text))

def textResource (s : String) : ResourceReader := fun uri => .value (.plainText uri s)

/-- One message of the user for each argument. -/
def echoPrompt : PromptRenderer := fun args =>
  .value ⟨none, args.map fun a => ⟨.user, .text (a.1 ++ "=" ++ a.2)⟩⟩

/-- The same answer to every call. -/
def always {α β : Type} (p : Promise β) : α → Promise β := fun _ => p

end ContextServer.Canned
