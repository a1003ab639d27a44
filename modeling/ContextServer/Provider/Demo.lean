import ContextServer.Provider.Registry

/-!
The providers of the command line server: a clock and an echo, two resources and a prompt.
-/

namespace ContextServer.Demo

def clockSchema : Json := .object [("type", .str "object"), ("properties", .object [])]

def echoSchema : Json :=
  let message : Json :=
    .object [("type", .str "string"), ("description", .str "Text to echo")]
  .object [("type", .str "object"), ("properties", .object [("message", message)]),
    ("required", .arr [.str "message"])]

/-- The echo wants a text and says so in its result when it gets none. -/
def echo : ToolHandler := fun args =>
  match (args.member? "message").bind Json.string? with
  | some s => .value (.text s)
  | none => .value (.error "message is required")

/-- `now` is the text of the current time. -/
def tools (now : String) : ToolRegistry :=
  let clock : ToolHandler := fun _ => .value (.text now)
  ToolRegistry.add
    (ToolRegistry.add .empty "get_current_time"
      "Returns the current UTC time in RFC 3339 format" clockSchema clock)
    "echo" "Echoes back the provided message" echoSchema echo

def textResource (uri name description : String) : Resource :=
  ⟨uri, name, some description, some "text/plain"⟩

def resources (name version : String) : ResourceRegistry :=
  let greeting : ResourceReader := fun uri => .value (.plainText uri "Hello from MCP!")
  let info : ResourceReader := fun uri => .value (.plainText uri (name ++ " " ++ version))
  let withGreeting := ResourceRegistry.empty.add
    (textResource "example://greeting" "Greeting" "A friendly greeting") greeting
  withGreeting.add
    (textResource "example://info" "Server info" "Name and version of this server") info

def greeting : PromptRenderer := fun args =>
  match args.lookup "name" with
  | some name =>
    .value ⟨some "Greeting", [⟨.user, .text ("Please greet " ++ name ++ " warmly.")⟩]⟩
  | none => .failure (.badRequest "missing_argument" "argument \"name\" is required")

def prompts : PromptRegistry :=
  PromptRegistry.add .empty
    ⟨"greeting", some "Asks the assistant to greet someone",
      [⟨"name", some "Who to greet", true⟩]⟩
    greeting

def providers (name version now : String) : Providers :=
  ⟨some (tools now).provider, some (resources name version).provider, some prompts.provider⟩

end ContextServer.Demo
