import ContextServer.Session.State

/-!
The steps of a session. Which part moves next is a choice; each part has at most one step in a
state. What the world does to a session are commands, which may come between any two steps.
-/

namespace ContextServer

namespace Session

/-- A state and what has happened on the way to it. -/
abbrev Result := List Effect × Session

def invalidRequestReply (id : RequestId) : Envelope :=
  .failure id (.invalidRequest "invalid request")

/-- The reason of a cancellation by the supervisor. -/
def interruptReason : String := "interrupted"

def write (s : Session) (e : Envelope) : Effect := if s.outlet.broken then .lost e else .wrote e

/-- Where the loop goes on after a read. -/
def afterReading : Reading → Loop
  | .envelope e => .holding e
  | .malformed cause =>
    match cause.recoveredId with
    | some id => .rejecting (invalidRequestReply id)
    | none => .checking
  | .ended => .draining .normal
  | .failed cause => .draining (.failed cause)

/-- The step of the read loop. -/
def stepLoop (c : Setup) (s : Session) : Option Result :=
  match s.loop with
  | .checking =>
    match s.phase.stop? with
    | some e => some ([], { s with loop := .draining e })
    | none => some ([], { s with loop := .reading })
  | .reading =>
    match Reader.read c.framing c.limit s.inbound with
    | some (r, rest) => some ([.read r], { s with inbound := rest, loop := afterReading r })
    | none => none
  | .rejecting reply => some ([s.write reply], { s with loop := .checking })
  | .holding e =>
    match s.free with
    | none => some ([], { s with loop := .starting e })
    | some (n + 1) => some ([], { s with free := some n, loop := .starting e })
    | some 0 => none
  | .starting e =>
    some ([.started e], { s with
      handlers := s.handlers ++ [⟨e, .arrived⟩]
      barrier := s.barrier.enter
      loop := .checking })
  | .draining e =>
    match s.barrier.wait with
    | some b =>
      some ([], { s with barrier := b, loop := if b.waiter = .through then .closing e else s.loop })
    | none => none
  | .closing e => some ([.shutDown], { s with outlet := s.outlet.close, loop := .marking e })
  | .marking e => some ([], { s with phase := .closed, loop := .finished e })
  | .finished _ => none
  | .dropped => none

def setStage (s : Session) (i : Nat) (h : Handler) (stage : Stage) : Session :=
  { s with handlers := s.handlers.set i { h with stage := stage } }

/-- The stage after an answer of a provider. -/
def answered (e : Envelope) (a : Answer Json) : Stage :=
  match Dispatcher.result? a with
  | some r => .concluding r
  | none =>
    match Dispatcher.crashReply e with
    | some reply => .replying reply
    | none => .leaving

def takePermit (s : Session) (gate : String) : Session :=
  { s with permits := s.permits.erase gate }

/-- The stage of a handler that has been called to the envelope `e`. -/
def planned (d : Dispatcher) (e : Envelope) : Stage :=
  match d.plan e with
  | .ignore => .leaving
  | .answer r => .concluding r
  | .negotiate p => .negotiating p
  | .consult c => .consulting c

/-- A reply that is no well-formed response is not written. -/
def isWritable : Envelope → Bool
  | .response r => r.isWellFormed
  | _ => true

/-- The step of the handler `h`, which is handler number `i`. -/
def stepHandler (c : Setup) (s : Session) (i : Nat) (h : Handler) : Option Result :=
  let d := c.server.dispatcher
  match h.stage with
  | .arrived => some ([], s.setStage i h (planned d h.envelope))
  | .negotiating p =>
    let events := if s.initialized then [] else [Effect.logged (Dispatcher.negotiated p)]
    some (events, { s with initialized := true }.setStage i h (.concluding (.ok d.greeting)))
  | .consulting call =>
    let p := d.promise call
    let stage := match p.gate with
      | some g => .held g p.answer
      | none => answered h.envelope p.answer
    some ([.called call], s.setStage i h stage)
  | .held g a =>
    if g ∈ s.permits then some ([], (s.takePermit g).setStage i h (answered h.envelope a))
    else none
  | .concluding r =>
    let (events, reply) := Dispatcher.conclude h.envelope r
    let stage := match reply with
      | some e => .replying e
      | none => .leaving
    some (events.map .logged, s.setStage i h stage)
  | .replying e =>
    some (if isWritable e then [s.write e] else [], s.setStage i h .leaving)
  | .leaving =>
    let stage := if s.barrier.isLast then .notifying else .releasing
    some ([], { s with barrier := s.barrier.leave }.setStage i h stage)
  | .notifying => some ([], { s with barrier := s.barrier.notify }.setStage i h .releasing)
  | .releasing =>
    some ([], { s with
      handlers := s.handlers.eraseIdx i
      free := s.free.map (· + 1) })

/-- Which part of a session moves. -/
inductive Move
  | loop
  | handler (i : Nat)
  /-- the supervisor learns that the session has ended -/
  | join
  /-- the supervisor learns of the interrupt -/
  | interrupt
  /-- the supervisor gives the session up -/
  | expire
  /-- the read loop of a session that has been given up goes away -/
  | drop
  deriving DecidableEq, Repr

def stepJoin (s : Session) : Option Result :=
  match s.watch, s.loop with
  | .waiting, .finished e => some ([], { s with watch := .returned e })
  | .grace _, .finished e => some ([], { s with watch := .returned e })
  | _, _ => none

def stepInterrupt (c : Setup) (s : Session) : Option Result :=
  match s.watch with
  | .waiting =>
    if s.interrupted then
      some ([], { s with
        phase := s.phase.request (.cancelled interruptReason)
        watch := .grace (s.clock + c.grace.getD 0) })
    else none
  | _ => none

def stepExpire (s : Session) : Option Result :=
  match s.watch, s.loop with
  | .grace _, .finished _ => none
  | .grace deadline, _ =>
    if deadline ≤ s.clock then
      some ([], { s with watch := .returned (.cancelled interruptReason) })
    else none
  | _, _ => none

def stepDrop (s : Session) : Option Result :=
  match s.watch with
  | .returned _ => if s.loop.isSuspended then some ([], { s with loop := .dropped }) else none
  | _ => none

def step (c : Setup) (s : Session) : Move → Option Result
  | .loop => stepLoop c s
  | .handler i => s.handlers[i]?.bind (stepHandler c s i)
  | .join => s.stepJoin
  | .interrupt => stepInterrupt c s
  | .expire => s.stepExpire
  | .drop => s.stepDrop

/-- What the world does to a session. -/
inductive Command
  | arrive (bs : List UInt8)
  | hangUp
  | failRead (message : String)
  | requestClose
  | cancel (reason : String)
  | release (gate : String)
  | breakWriter
  /-- writes succeed again -/
  | mendWriter
  /-- shutting down will fail, of which the session only warns -/
  | breakClose
  | interrupt
  | advance (ms : Nat)
  deriving DecidableEq, Repr

def obey (s : Session) : Command → Session
  | .arrive bs => { s with inbound := s.inbound.arrive bs }
  | .hangUp => { s with inbound := s.inbound.hangUp }
  | .failRead m => { s with inbound := s.inbound.failNext m }
  | .requestClose => { s with phase := s.phase.request .closeRequested }
  | .cancel reason => { s with phase := s.phase.request (.cancelled reason) }
  | .release gate => { s with permits := s.permits ++ [gate] }
  | .breakWriter => { s with outlet := { s.outlet with broken := true } }
  | .mendWriter => { s with outlet := { s.outlet with broken := false } }
  | .breakClose => { s with outlet := { s.outlet with closeFails := true } }
  | .interrupt => { s with interrupted := true }
  | .advance ms => { s with clock := s.clock + ms }

inductive Action
  | move (m : Move)
  | command (k : Command)
  deriving DecidableEq, Repr

def act (c : Setup) (s : Session) : Action → Option Result
  | .move m => s.step c m
  | .command k => some ([], s.obey k)

/-- Takes the actions in order; each of them has to be possible. -/
def run (c : Setup) (s : Session) : List Action → Option Result
  | [] => some ([], s)
  | a :: as => do
    let (es, s) ← s.act c a
    let (fs, s) ← run c s as
    pure (es ++ fs, s)

end Session

end ContextServer
