import ContextServer.Codec.Record

/-!
JSON-RPC envelopes: requests, notifications and responses, the identifiers that tie a response to
its request, and the error object of a response.
-/

namespace ContextServer

/-- Ties a response to its request. A numeric identifier is kept as the number that arrived. -/
inductive RequestId
  | number (n : Number)
  | text (s : String)
  deriving DecidableEq, Repr

namespace RequestId

/-- Whether the identifier is a number that fits 64 bits with a sign. -/
def isInteger : RequestId → Bool
  | number (.int n _) => n < 9223372036854775808
  | _ => false

def display : RequestId → String
  | number n => String.ofList n.print
  | text s => Text.Quoted.quote s

def codec : Codec RequestId where
  encode
    | number n => .num n
    | text s => .str s
  decode
    | .num n => .ok (number n)
    | .str s => .ok (text s)
    | _ => .error .noIdentifier

theorem codec_lawful : codec.Lawful
  | number _ => rfl
  | text _ => rfl

end RequestId

/-- The error of a response. -/
structure ErrorObject where
  code : Int64
  message : String
  data : Option Json
  deriving Repr

namespace ErrorObject

def shape : Shape ErrorObject where
  title := "struct ErrorObject"
  τ := _
  make := ErrorObject.mk
  fields :=
    .field (.required "code" (·.code) .int64)
      (.field (.required "message" (·.message) .string)
        (.field (.optional "data" (·.data) .json) .done))

def invalidRequestCode : Int64 := -32600
def methodNotFoundCode : Int64 := -32601
def invalidParamsCode : Int64 := -32602
def internalCode : Int64 := -32603

def plain (code : Int64) (message : String) : ErrorObject := ⟨code, message, none⟩

def invalidRequest (message : String) : ErrorObject := plain invalidRequestCode message

def methodNotFound (method : String) : ErrorObject :=
  plain methodNotFoundCode ("method not found: " ++ method)

def invalidParams : ErrorObject := plain invalidParamsCode "invalid params"

def internal (message : String) : ErrorObject := plain internalCode message

/-- The members in the order in which an envelope carries them. -/
def wire (e : ErrorObject) : Json := shape.wire e

end ErrorObject

/-- A response as the peer sent it. The server itself makes only `success` and `failure`. -/
structure Response where
  id : Option RequestId
  result : Option Json
  error : Option ErrorObject
  deriving Repr

namespace Response

def success (id : RequestId) (result : Json) : Response := ⟨some id, some result, none⟩

def failure (id : RequestId) (error : ErrorObject) : Response := ⟨some id, none, some error⟩

/-- Exactly one of result and error is there. -/
def isWellFormed (r : Response) : Bool := r.result.isSome != r.error.isSome

def illFormedMessage : String := "response must carry exactly one of result or error"

@[simp] theorem isWellFormed_success (id : RequestId) (j : Json) :
    (success id j).isWellFormed = true := rfl

@[simp] theorem isWellFormed_failure (id : RequestId) (e : ErrorObject) :
    (failure id e).isWellFormed = true := rfl

end Response

inductive Envelope
  | request (id : RequestId) (method : String) (params : Option Json)
  | notification (method : String) (params : Option Json)
  | response (r : Response)
  deriving Repr

namespace Envelope

def id? : Envelope → Option RequestId
  | request id _ _ => some id
  | notification _ _ => none
  | response r => r.id

/-- The identifier to which the envelope wants an answer. -/
def requestId? : Envelope → Option RequestId
  | request id _ _ => some id
  | _ => none

def method? : Envelope → Option String
  | request _ m _ => some m
  | notification m _ => some m
  | response _ => none

def params? : Envelope → Option Json
  | request _ _ p => p
  | notification _ p => p
  | response _ => none

def isRequest (e : Envelope) : Bool := e.requestId?.isSome

/-- Whether the envelope is a response that carries an error. -/
def isError : Envelope → Bool
  | response r => r.error.isSome
  | _ => false

def success (id : RequestId) (result : Json) : Envelope := .response (.success id result)

def failure (id : RequestId) (error : ErrorObject) : Envelope := .response (.failure id error)

end Envelope

end ContextServer
