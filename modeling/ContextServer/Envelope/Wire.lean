import ContextServer.Envelope.Basic
import ContextServer.Json.Parser

/-!
Envelopes as text. An envelope is written with the members that it has, in a fixed order. It is
read from an object whose members all have the right types and whose version is right; what it is
depends on which of identifier and method are there. From an object that is refused, the
identifier is recovered where it is one, so that the refusal can be answered.
-/

namespace ContextServer

inductive EnvelopeError
  | malformed
  | notAnObject
  | badMember (id : Option RequestId) (cause : DecodeError)
  | unsupportedVersion (id : Option RequestId)
  deriving Repr, Inhabited

namespace EnvelopeError

/-- The reason alone, for an object that does not have the shape of an envelope. -/
def message : EnvelopeError → String
  | malformed => "malformed json"
  | notAnObject => "invalid envelope: envelope must be a json object"
  | badMember _ cause => "invalid envelope: " ++ cause.message
  | unsupportedVersion _ => "unsupported jsonrpc version"

def recoveredId : EnvelopeError → Option RequestId
  | badMember id _ => id
  | unsupportedVersion id => id
  | _ => none

end EnvelopeError

namespace Envelope

/-- The members of an envelope. A result may be `null`; every other member that is `null` counts
as absent. -/
structure Parts where
  version : Option String
  id : Option RequestId
  method : Option String
  params : Option Json
  result : Option Json
  error : Option ErrorObject
  deriving Repr

/-- A member that is there even when it is `null`. -/
def presentCodec : Codec (Option Json) where
  encode j := j.getD .null
  decode j := .ok (some j)

def errorCodec : Codec ErrorObject := { ErrorObject.shape.codec with encode := ErrorObject.wire }

def Parts.shape : Shape Parts where
  title := "struct Envelope"
  τ := _
  make := Parts.mk
  fields :=
    .field (.optional "jsonrpc" (·.version) .string)
      (.field (.optional "id" (·.id) RequestId.codec)
        (.field (.optional "method" (·.method) .string)
          (.field (.optional "params" (·.params) .json)
            (.field ⟨"result", (·.result), presentCodec, some none, Option.isNone⟩
              (.field (.optional "error" (·.error) errorCodec) .done)))))

def rpcVersion : String := "2.0"

def parts : Envelope → Parts
  | request id method params => ⟨some rpcVersion, some id, some method, params, none, none⟩
  | notification method params => ⟨some rpcVersion, none, some method, params, none, none⟩
  | response r => ⟨some rpcVersion, r.id, none, none, r.result, r.error⟩

def ofParts (p : Parts) : Envelope :=
  match p.id, p.method with
  | some id, some method => .request id method p.params
  | none, some method => .notification method p.params
  | id, none => .response ⟨id, p.result, p.error⟩

/-- The identifier that an object carries, whatever else is wrong with it. -/
def recoverId (ms : List (String × Json)) : Option RequestId :=
  match ms.lookup "id" with
  | some j => (RequestId.codec.decode j).toOption
  | none => none

def ofJson : Json → Except EnvelopeError Envelope
  | .obj ms =>
    match Parts.shape.decodeMembers ms with
    | .ok p =>
      if p.version = some rpcVersion then .ok (ofParts p)
      else .error (.unsupportedVersion (recoverId ms))
    | .error e => .error (.badMember (recoverId ms) e)
  | _ => .error .notAnObject

def ofBytes (bs : List UInt8) : Except EnvelopeError Envelope :=
  match Json.ofBytes? bs with
  | some j => ofJson j
  | none => .error .malformed

def toJson (e : Envelope) : Json := Parts.shape.wire e.parts

def print (e : Envelope) : List Char := e.toJson.print

def toBytes (e : Envelope) : List UInt8 := Text.Utf8.encode e.print

end Envelope

end ContextServer
