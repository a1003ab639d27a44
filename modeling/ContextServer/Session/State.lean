import ContextServer.Server
import ContextServer.Session.Barrier
import ContextServer.Stream.Reader
import ContextServer.Stream.Writer

/-!
The state of a session: the streams to the peer, the read loop, the handlers that it has started,
and who has asked for the session to stop. A supervisor may watch over the session; it cancels it
on an interrupt and gives it up after a period of grace.
-/

namespace ContextServer

/-- The first request to stop decides, and `closed` comes last. -/
inductive Phase
  | running
  | closeRequested
  | cancelled (reason : String)
  | closed
  deriving DecidableEq, Repr

/-- How a session ends. -/
inductive Ending
  | normal
  | cancelled (reason : String)
  | failed (cause : TransportError)
  deriving DecidableEq, Repr

namespace Phase

/-- A request to stop moves a running session only. -/
def request : Phase → (next : Phase) → Phase
  | running, next => next
  | p, _ => p

/-- How the read loop ends on a look at the phase, if it does. -/
def stop? : Phase → Option Ending
  | running => none
  | closeRequested => some .normal
  | cancelled reason => some (.cancelled reason)
  | closed => some .normal

@[simp] theorem request_running (next : Phase) : running.request next = next := rfl

theorem request_of_ne_running {p : Phase} (h : p ≠ running) (next : Phase) :
    p.request next = p := by
  cases p <;> simp_all [request]

end Phase

def Ending.message : Ending → String
  | normal => "ok"
  | cancelled reason => "server cancelled: " ++ reason
  | failed cause => "transport failed: " ++ cause.message

/-- Where the read loop stands. -/
inductive Loop
  /-- looks at the phase -/
  | checking
  | reading
  /-- answers a frame that is no envelope -/
  | rejecting (reply : Envelope)
  /-- waits for a slot -/
  | holding (e : Envelope)
  /-- has a slot and starts the handler -/
  | starting (e : Envelope)
  /-- waits until no handler runs -/
  | draining (ending : Ending)
  | closing (ending : Ending)
  | marking (ending : Ending)
  | finished (ending : Ending)
  /-- given up by the supervisor -/
  | dropped
  deriving Repr

/-- Whether the loop is at a point where it can be given up. -/
def Loop.isSuspended : Loop → Bool
  | .reading | .rejecting _ | .holding _ | .draining _ | .closing _ => true
  | _ => false

/-- How far the handler of an envelope has come. -/
inductive Stage
  | arrived
  | negotiating (params : InitializeParams)
  | consulting (call : ProviderCall)
  /-- the answer is kept back by a gate -/
  | held (gate : String) (answer : Answer Json)
  | concluding (result : Except ErrorObject Json)
  | replying (reply : Envelope)
  /-- counts itself out of the barrier -/
  | leaving
  | notifying
  /-- gives its slot back -/
  | releasing

structure Handler where
  envelope : Envelope
  stage : Stage

/-- What the supervisor of a session does. -/
inductive Watch
  | absent
  | waiting
  | grace (deadline : Nat)
  | returned (ending : Ending)
  deriving DecidableEq, Repr

/-- What a session is set up with. `grace` is set when a supervisor watches over it. -/
structure Setup where
  server : Server
  framing : Framing
  limit : Nat
  grace : Option Nat

structure Session where
  inbound : Source
  outlet : Outlet
  phase : Phase
  loop : Loop
  /-- slots that no handler holds; none when they are not counted -/
  free : Option Nat
  handlers : List Handler
  barrier : Barrier
  initialized : Bool
  /-- the gates of the permits that no handler has taken -/
  permits : List String
  watch : Watch
  interrupted : Bool
  clock : Nat

/-- What happens in a session, as the peer, the log and the providers see it. Of the log it has the
events about messages and the negotiation; the warnings of the session itself, such as that a write
or the shut-down has failed, are left out. -/
inductive Effect
  | read (r : Reading)
  /-- a handler for the envelope has been started -/
  | started (e : Envelope)
  | called (c : ProviderCall)
  | wrote (e : Envelope)
  /-- a write that failed -/
  | lost (e : Envelope)
  | logged (e : Event)
  | shutDown

namespace Session

def start (c : Setup) : Session where
  inbound := .empty
  outlet := .fresh
  phase := .running
  loop := .checking
  free := c.server.slots
  handlers := []
  barrier := .idle
  initialized := false
  permits := []
  watch := if c.grace.isSome then .waiting else .absent
  interrupted := false
  clock := 0

/-- How the session ended, as far as its owner has been told. -/
def ending? (s : Session) : Option Ending :=
  match s.watch, s.loop with
  | .absent, .finished e => some e
  | .returned e, _ => some e
  | _, _ => none

def isClosed (s : Session) : Bool := s.phase == .closed

end Session

end ContextServer
