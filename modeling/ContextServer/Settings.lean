import ContextServer.Stream.Framing

/-!
Settings of the command line server, from named variables. Blanks around a value never matter, and
a blank value counts as none; only a blank name is an error.
-/

namespace ContextServer

/-- How many handlers may run at once. -/
inductive Admission
  | unbounded
  | bounded (slots : Nat) (pos : 0 < slots)
  deriving DecidableEq, Repr

structure Settings where
  serverName : String
  serverVersion : String
  framing : Framing
  maxMessageBytes : Nat
  admission : Admission
  deriving DecidableEq, Repr

inductive SettingsError
  | emptyServerName
  | invalidFraming
  | invalidMaxMessageBytes
  | invalidMaxInFlight
  deriving DecidableEq, Repr

def SettingsError.message : SettingsError → String
  | emptyServerName => "MCP_SERVER_NAME must not be empty"
  | invalidFraming => "MCP_FRAMING must be \"line\" or \"header\""
  | invalidMaxMessageBytes => "MCP_MAX_MESSAGE_BYTES must be a positive integer"
  | invalidMaxInFlight => "MCP_MAX_IN_FLIGHT must be a positive integer"

namespace Settings

def defaultName : String := "stdio-mcp-engine"

def defaultVersion : String := "0.1.0"

/-- One mebibyte. -/
def defaultMaxMessageBytes : Nat := 1048576

/-- The value of a variable without the blanks around it, unless it is blank. -/
def value? (lookup : String → Option String) (key : String) : Option String :=
  ((lookup key).map Text.trimString).filter (· != "")

/-- A word numeral other than zero. -/
def positive? (s : String) : Option Nat := (Text.word? s.toList).filter (0 < ·)

def name (lookup : String → Option String) : Except SettingsError String :=
  match lookup "MCP_SERVER_NAME" with
  | none => .ok defaultName
  | some s => if Text.trimString s = "" then .error .emptyServerName else .ok (Text.trimString s)

def version (lookup : String → Option String) : String :=
  (value? lookup "MCP_SERVER_VERSION").getD defaultVersion

/-- Reads a variable that may be left out. -/
def reading {α : Type} (lookup : String → Option String) (key : String)
    (read? : String → Option α) (fault : SettingsError) (default : α) :
    Except SettingsError α :=
  match value? lookup key with
  | none => .ok default
  | some s =>
    match read? s with
    | some a => .ok a
    | none => .error fault

def slots? (s : String) : Option Admission :=
  match Text.word? s.toList with
  | some n => if h : 0 < n then some (.bounded n h) else none
  | none => none

/-- The name is looked at first, then the framing and the two limits. -/
def ofVariables (lookup : String → Option String) : Except SettingsError Settings := do
  let name ← name lookup
  let framing ← reading lookup "MCP_FRAMING" Framing.ofWord? .invalidFraming default
  let limit ← reading lookup "MCP_MAX_MESSAGE_BYTES" positive? .invalidMaxMessageBytes
    defaultMaxMessageBytes
  let admission ← reading lookup "MCP_MAX_IN_FLIGHT" slots? .invalidMaxInFlight .unbounded
  return ⟨name, version lookup, framing, limit, admission⟩

end Settings

end ContextServer
