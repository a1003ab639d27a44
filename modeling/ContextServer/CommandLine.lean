import ContextServer.Provider.Demo
import ContextServer.Session.Schedule

/-!
The command line server: its settings come from variables, its providers are the demonstration
ones, and it serves one peer over the standard streams under a supervisor. A session that was
cancelled counts as a success.
-/

namespace ContextServer.CommandLine

/-- How long an interrupted session may take to stop, in milliseconds. -/
def grace : Nat := 2000

/-- Why the program failed. -/
inductive Failure
  | settings (e : SettingsError)
  | start (e : StartError)
  | transport (e : TransportError)
  deriving DecidableEq, Repr

def settingsName : SettingsError → String
  | .emptyServerName => "EmptyServerName"
  | .invalidFraming => "InvalidFraming"
  | .invalidMaxMessageBytes => "InvalidMaxMessageBytes"
  | .invalidMaxInFlight => "InvalidMaxInFlight"

/-- The only faults of standard input are those of its end. -/
def transportName : TransportError → String
  | .io m =>
    "Io(Custom \x7b kind: UnexpectedEof, error: " ++ Text.Quoted.quote m ++ " \x7d)"
  | .messageTooLarge limit =>
    "MessageTooLarge \x7b limit: " ++ String.ofList (Text.decimal limit) ++ " \x7d"
  | .missingContentLength => "MissingContentLength"
  | .invalidHeader line => "InvalidHeader(" ++ Text.Quoted.quote line ++ ")"

/-- The line that the program leaves on standard error. -/
def Failure.report : Failure → String
  | settings e => "Error: " ++ settingsName e ++ "\n"
  | start .emptyName => "Error: EmptyName\n"
  | start .tooManySlots => StartError.tooManySlots.message ++ "\n"
  | transport e => "Error: Transport(" ++ transportName e ++ ")\n"

/-- A server that could not be set up for its slots does not end, it breaks off. -/
def Failure.status : Failure → Nat
  | start .tooManySlots => 101
  | _ => 1

/-- The set-up for some settings; `now` is the text of the current time. -/
def setup (s : Settings) (now : String) : Except Failure Setup :=
  match Server.new (s.options (Demo.providers s.serverName s.serverVersion now)) with
  | .ok server => .ok ⟨server, s.framing, s.maxMessageBytes, some grace⟩
  | .error e => .error (.start e)

def frames (c : Setup) (effects : List Effect) : List (List UInt8) :=
  effects.filterMap fun
    | .wrote e => some (c.framing.frame e)
    | _ => none

def failure? (s : Session) : Option Failure :=
  match s.ending? with
  | some (.failed e) => some (.transport e)
  | _ => none

/-- What a run leaves behind. -/
structure Report where
  frames : List (List UInt8)
  failure : Option Failure

/-- A run on an input that is there from the start. -/
def run (lookup : String → Option String) (input : List UInt8) (now : String) : Report :=
  match Settings.ofVariables lookup with
  | .error e => ⟨[], some (.settings e)⟩
  | .ok settings =>
    match setup settings now with
    | .error e => ⟨[], some e⟩
    | .ok c =>
      let (before, s) := (Session.opened c).perform c (.arrive input)
      let (after, s) := s.perform c .hangUp
      ⟨frames c (before ++ after), failure? s⟩

end ContextServer.CommandLine
