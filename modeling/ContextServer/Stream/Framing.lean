import ContextServer.Envelope.Wire
import ContextServer.Text.Blank
import ContextServer.Text.Quoted

/-!
The two ways in which envelopes are laid on a byte stream: one envelope a line, or a header with
the length of the body before it.
-/

namespace ContextServer

inductive Framing
  | line
  | header
  deriving DecidableEq, Repr

namespace Framing

instance : Inhabited Framing := ⟨line⟩

def name : Framing → String
  | line => "line"
  | header => "header"

/-- Blanks around the word and the case of its ASCII letters do not matter. -/
def ofWord? (s : String) : Option Framing :=
  let word := Text.lower (Text.trim s.toList)
  if word = "line".toList ∨ word = "ndjson".toList then some line
  else if word = "header".toList ∨ word = "content-length".toList then some header
  else none

def unknownMessage (s : String) : String :=
  "unknown framing " ++ Text.Quoted.quote s ++ ", expected \"line\" or \"header\""

def newline : UInt8 := 10

def carriageReturn : UInt8 := 13

/-- The header of a body of `n` bytes, with the empty line that ends it. -/
def headerBytes (n : Nat) : List UInt8 :=
  Text.Utf8.encode ("Content-Length: ".toList ++ Text.decimal n ++ ['\r', '\n', '\r', '\n'])

/-- The pieces of a frame, each of them handed over as a whole. -/
def pieces (framing : Framing) (body : List UInt8) : List (List UInt8) :=
  match framing with
  | line => [body ++ [newline]]
  | header => [headerBytes body.length, body]

def frameOf (framing : Framing) (body : List UInt8) : List UInt8 := (framing.pieces body).flatten

def frame (framing : Framing) (e : Envelope) : List UInt8 := framing.frameOf e.toBytes

end Framing

end ContextServer
