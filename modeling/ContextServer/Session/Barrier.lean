/-!
The barrier that a session waits at until no handler runs. A handler that leaves counts itself out
first and, if it was the last one, notifies the waiter in a step of its own. The waiter enables its
notification before it looks at the count, and parks only if handlers are left.
-/

namespace ContextServer

/-- Where the waiter stands; `woken` tells whether its notification has arrived. -/
inductive Waiter
  | away
  | enabled (woken : Bool)
  | parked (woken : Bool)
  | through
  deriving DecidableEq, Repr

/-- `count` handlers run and `notifying` have counted themselves out as the last one, but not yet
notified. -/
structure Barrier where
  count : Nat
  notifying : Nat
  waiter : Waiter
  deriving DecidableEq, Repr

namespace Barrier

def idle : Barrier := ⟨0, 0, .away⟩

def enter (b : Barrier) : Barrier := { b with count := b.count + 1 }

/-- Whether a handler that leaves now is the last one. -/
def isLast (b : Barrier) : Bool := b.count == 1

def leave (b : Barrier) : Barrier :=
  { b with
    count := b.count - 1
    notifying := if b.isLast then b.notifying + 1 else b.notifying }

def wake : Waiter → Waiter
  | .enabled _ => .enabled true
  | .parked _ => .parked true
  | w => w

def notify (b : Barrier) : Barrier :=
  { b with notifying := b.notifying - 1, waiter := wake b.waiter }

/-- The next step of the waiter, if it has one. -/
def wait (b : Barrier) : Option Barrier :=
  match b.waiter with
  | .away => some { b with waiter := .enabled false }
  | .enabled woken => some { b with waiter := if b.count = 0 then .through else .parked woken }
  | .parked true => some { b with waiter := .away }
  | .parked false => none
  | .through => none

inductive Move
  | enter
  | leave
  | notify
  | wait
  deriving DecidableEq, Repr

def step (b : Barrier) : Move → Option Barrier
  | .enter => some b.enter
  | .leave => if 0 < b.count then some b.leave else none
  | .notify => if 0 < b.notifying then some b.notify else none
  | .wait => b.wait

def run (b : Barrier) : List Move → Option Barrier
  | [] => some b
  | m :: ms => (b.step m).bind (run · ms)

end Barrier

end ContextServer
