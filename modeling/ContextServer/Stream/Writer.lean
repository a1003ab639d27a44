import ContextServer.Stream.Framing

/-!
The write side of a byte stream, shared by writers that take turns under a lock. The stream takes
as many bytes of what it is offered as it likes, at least one at a time, until it breaks; from then
on every offer fails.
-/

namespace ContextServer

/-- How far a write has come: `pending` holds the pieces that are still to be accepted. -/
inductive WriteState
  | waiting (frame : List (List UInt8))
  | sending (pending : List (List UInt8))
  | done
  | failed
  deriving DecidableEq, Repr

/-- The stream as its writers see it. -/
structure Channel where
  sent : List UInt8
  broken : Bool
  holder : Option Nat
  writes : List WriteState
  deriving DecidableEq, Repr

namespace Channel

def empty : Channel := ⟨[], false, none, []⟩

inductive Move
  /-- writer `i` takes the free lock -/
  | acquire (i : Nat)
  /-- the stream takes `n` bytes of the piece that writer `i` offers -/
  | accept (i n : Nat)
  /-- writer `i` has no piece left and frees the lock -/
  | finish (i : Nat)
  /-- an offer of writer `i` to the broken stream fails, and the lock is freed -/
  | refuse (i : Nat)
  | snap
  deriving DecidableEq, Repr

def set (c : Channel) (i : Nat) (w : WriteState) : Channel := { c with writes := c.writes.set i w }

/-- Pieces without the empty ones at the front, which need no offer. -/
def offer (ps : List (List UInt8)) : List (List UInt8) := ps.dropWhile List.isEmpty

def step (c : Channel) : Move → Option Channel
  | .acquire i =>
    match c.holder, c.writes[i]? with
    | none, some (.waiting ps) => some { c.set i (.sending (offer ps)) with holder := some i }
    | _, _ => none
  | .accept i n =>
    match c.writes[i]? with
    | some (.sending (p :: ps)) =>
      if c.broken = false ∧ 0 < n ∧ n ≤ p.length then
        some { c.set i (.sending (offer (p.drop n :: ps))) with sent := c.sent ++ p.take n }
      else none
    | _ => none
  | .finish i =>
    match c.writes[i]? with
    | some (.sending []) =>
      if c.broken then none else some { c.set i .done with holder := none }
    | _ => none
  | .refuse i =>
    match c.writes[i]? with
    | some (.sending _) => if c.broken then some { c.set i .failed with holder := none } else none
    | _ => none
  | .snap => some { c with broken := true }

def run (c : Channel) : List Move → Option Channel
  | [] => some c
  | m :: ms => (c.step m).bind (run · ms)

/-- Adds a write and returns its number. -/
def submit (c : Channel) (frame : List (List UInt8)) : Channel × Nat :=
  ({ c with writes := c.writes ++ [.waiting frame] }, c.writes.length)

/-- The moves of a writer that nobody disturbs and whose pieces are taken whole. -/
def aloneMoves (i : Nat) (frame : List (List UInt8)) : List Move :=
  .acquire i :: ((frame.filter (! ·.isEmpty)).map fun p => .accept i p.length) ++ [.finish i]

/-- Writes one frame with nobody else at the stream. -/
def write (c : Channel) (frame : List (List UInt8)) : Channel × Bool :=
  let (c, i) := c.submit frame
  if c.broken then ((c.run [.acquire i, .refuse i]).getD c, false)
  else
    match c.run (aloneMoves i frame) with
    | some c => (c, true)
    | none => (c, false)

end Channel

/-- The write side as a session sees it: whether writes fail, whether shutting it down fails, and
how often it has been shut down. -/
structure Outlet where
  broken : Bool
  /-- A session only warns of this and ends as it would have, so that no step looks at it. -/
  closeFails : Bool
  closes : Nat
  deriving DecidableEq, Repr

namespace Outlet

def fresh : Outlet := ⟨false, false, 0⟩

/-- An attempt counts even when it fails. -/
def close (o : Outlet) : Outlet := { o with closes := o.closes + 1 }

end Outlet

end ContextServer
