import ContextServer.CommandLine
import ContextServer.Text.Timestamp
import Std.Time.DateTime.Timestamp

/-!
The program: it carries bytes between the standard streams and the session, and asks for the time.
-/

namespace ContextServer.Main

def keys : List String :=
  ["MCP_SERVER_NAME", "MCP_SERVER_VERSION", "MCP_FRAMING", "MCP_MAX_MESSAGE_BYTES",
    "MCP_MAX_IN_FLIGHT"]

def environment : IO (List (String × String)) :=
  keys.filterMapM fun k => return (← IO.getEnv k).map (k, ·)

def now : IO String := do
  let t ← Std.Time.Timestamp.now
  return Text.Timestamp.utc t.toSecondsSinceUnixEpoch.val.toNat

def emit (output : IO.FS.Stream) (c : Setup) (effects : List Effect) : IO Unit := do
  for frame in CommandLine.frames c effects do
    output.write ⟨frame.toArray⟩
  output.flush

/-- Feeds the session until it ends. The set-up is made anew for each piece of input, since the
clock has moved on. -/
partial def serve (input output : IO.FS.Stream) (setup : IO Setup) (s : Session) : IO Session := do
  if s.ending?.isSome then return s
  let bs ← input.read Source.capacity.toUSize
  let c ← setup
  if bs.isEmpty then
    let (effects, s) := s.perform c .hangUp
    emit output c effects
    return s
  let (effects, s) := s.perform c (.arrive bs.toList)
  emit output c effects
  serve input output setup s

def fail (f : CommandLine.Failure) : IO UInt32 := do
  (← IO.getStderr).putStr f.report
  return UInt32.ofNat f.status

end ContextServer.Main

open ContextServer ContextServer.Main in
def main : IO UInt32 := do
  let env ← environment
  match Settings.ofVariables (env.lookup ·) with
  | .error e => fail (.settings e)
  | .ok settings =>
    match CommandLine.setup settings (← now) with
    | .error e => fail e
    | .ok c =>
      let setup : IO Setup := do
        match CommandLine.setup settings (← now) with
        | .ok c => return c
        | .error _ => return c
      let s ← serve (← IO.getStdin) (← IO.getStdout) setup (Session.opened c)
      match CommandLine.failure? s with
      | some f => fail f
      | none => return 0
