import ContextServer.Provider.Basic

/-!
Providers put together from registered items. Items are listed in the order of their registration;
registering a key again replaces the earlier item and moves it to the end.
-/

namespace ContextServer

/-- Puts an item at the end of a list, in place of what the list has under its key. -/
def enlist {α : Type} (key : α → String) (as : List α) (a : α) : List α :=
  as.filter (fun b => key b != key a) ++ [a]

/-- Descriptors in a list and handlers in a table, each kept without regard to the other. -/
structure Catalogue (δ η : Type) where
  listing : List δ
  handlers : List (String × η)

namespace Catalogue

variable {δ η : Type}

def empty : Catalogue δ η := ⟨[], []⟩

def register (key : δ → String) (c : Catalogue δ η) (d : δ) (h : η) : Catalogue δ η where
  listing := enlist key c.listing d
  handlers := (key d, h) :: c.handlers.filter (·.1 != key d)

def handler? (c : Catalogue δ η) (k : String) : Option η := c.handlers.lookup k

end Catalogue

abbrev ToolHandler := Json → Promise CallToolResult
abbrev ResourceReader := String → Promise ReadResourceResult
abbrev PromptRenderer := Arguments → Promise GetPromptResult

abbrev ToolRegistry := Catalogue Tool ToolHandler

namespace ToolRegistry

def add (r : ToolRegistry) (name description : String) (schema : Json) (handler : ToolHandler) :
    ToolRegistry :=
  r.register Tool.name ⟨name, some description, schema⟩ handler

/-- An unknown name gives a result that reports an error, not a failure of the call. -/
def call (r : ToolRegistry) (name : String) (args : Json) : Promise CallToolResult :=
  match r.handler? name with
  | some h => h args
  | none => .value (.error ("unknown tool: " ++ name))

def provider (r : ToolRegistry) : ToolProvider := ⟨.value r.listing, r.call⟩

end ToolRegistry

/-- Templates, each with its reader. -/
structure TemplateList where
  entries : List (ResourceTemplate × ResourceReader)

namespace TemplateList

def empty : TemplateList := ⟨[]⟩

def register (ts : TemplateList) (d : ResourceTemplate) (reader : ResourceReader) : TemplateList :=
  ⟨enlist (·.1.uriTemplate) ts.entries (d, reader)⟩

def listing (ts : TemplateList) : List ResourceTemplate := ts.entries.map Prod.fst

end TemplateList

/-- Resources under their URI, and templates for the URIs that begin with their literal part. -/
structure ResourceRegistry where
  resources : Catalogue Resource ResourceReader
  templates : TemplateList

namespace ResourceRegistry

def empty : ResourceRegistry := ⟨.empty, .empty⟩

def add (r : ResourceRegistry) (d : Resource) (reader : ResourceReader) : ResourceRegistry :=
  { r with resources := r.resources.register Resource.uri d reader }

def addTemplate (r : ResourceRegistry) (d : ResourceTemplate) (reader : ResourceReader) :
    ResourceRegistry :=
  { r with templates := r.templates.register d reader }

/-- The text of a template before its first placeholder. -/
def literal (uriTemplate : String) : List Char := uriTemplate.toList.takeWhile (· ≠ '{')

/-- Of two matches the one with the longer literal part, and at equal length the later one. -/
def longer (best : Option (Nat × ResourceReader)) (m : Nat × ResourceReader) :
    Option (Nat × ResourceReader) :=
  match best with
  | none => some m
  | some b => if b.1 ≤ m.1 then some m else some b

def matching (r : ResourceRegistry) (uri : String) : List (Nat × ResourceReader) :=
  r.templates.entries.filterMap fun e =>
    let l := literal e.1.uriTemplate
    if l.isPrefixOf uri.toList then some (l.length, e.2) else none

def templateReader? (r : ResourceRegistry) (uri : String) : Option ResourceReader :=
  ((r.matching uri).foldl longer none).map Prod.snd

/-- A resource of exactly that URI comes before every template. -/
def reader? (r : ResourceRegistry) (uri : String) : Option ResourceReader :=
  (r.resources.handler? uri).or (r.templateReader? uri)

def unknown (uri : String) : ProviderError :=
  .notFound "resource_not_found" ("unknown resource: " ++ uri)

def read (r : ResourceRegistry) (uri : String) : Promise ReadResourceResult :=
  match r.reader? uri with
  | some reader => reader uri
  | none => .failure (unknown uri)

def provider (r : ResourceRegistry) : ResourceProvider :=
  ⟨.value r.resources.listing, .value r.templates.listing, r.read⟩

end ResourceRegistry

abbrev PromptRegistry := Catalogue Prompt PromptRenderer

namespace PromptRegistry

def add (r : PromptRegistry) (d : Prompt) (renderer : PromptRenderer) : PromptRegistry :=
  r.register Prompt.name d renderer

def unknown (name : String) : ProviderError :=
  .notFound "prompt_not_found" ("unknown prompt: " ++ name)

def get (r : PromptRegistry) (name : String) (args : Arguments) : Promise GetPromptResult :=
  match r.handler? name with
  | some render => render args
  | none => .failure (unknown name)

def provider (r : PromptRegistry) : PromptProvider := ⟨.value r.listing, r.get⟩

end PromptRegistry

end ContextServer
