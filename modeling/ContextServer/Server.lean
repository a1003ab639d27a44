import ContextServer.Dispatch
import ContextServer.Settings

/-!
A server as it is set up: a name that is not blank, providers, and a number of handler slots.
-/

namespace ContextServer

structure ServerOptions where
  name : String
  version : String
  providers : Providers
  admission : Admission

inductive StartError
  | emptyName
  | tooManySlots
  deriving DecidableEq, Repr

namespace StartError

def message : StartError → String
  | emptyName => "server name must not be empty"
  | tooManySlots => "no more than 2305843009213693951 handlers can be counted"

end StartError

/-- Without a number of slots every handler starts at once. -/
structure Server where
  dispatcher : Dispatcher
  slots : Option Nat

namespace Server

/-- The most slots that can be counted: 61 bits of them. -/
def maxSlots : Nat := 2305843009213693951

def slotsOf : Admission → Option Nat
  | .unbounded => none
  | .bounded n _ => some n

def new (o : ServerOptions) : Except StartError Server :=
  if Text.trimString o.name = "" then .error .emptyName
  else if (slotsOf o.admission).any (maxSlots < ·) then .error .tooManySlots
  else .ok ⟨⟨⟨o.name, o.version⟩, o.providers⟩, slotsOf o.admission⟩

end Server

/-- Options with these settings and the given providers. -/
def Settings.options (s : Settings) (providers : Providers) : ServerOptions :=
  ⟨s.serverName, s.serverVersion, providers, s.admission⟩

end ContextServer
