import ContextServer.Envelope.Basic

/-!
Failures that a provider reports. Only their message reaches the peer.
-/

namespace ContextServer

inductive ProviderError
  | badRequest (code message : String)
  | notFound (code message : String)
  | internal (message : String)
  deriving DecidableEq, Repr, Inhabited

namespace ProviderError

def code : ProviderError → String
  | badRequest code _ => code
  | notFound code _ => code
  | internal _ => "internal_error"

def message : ProviderError → String
  | badRequest _ m => m
  | notFound _ m => m
  | internal m => m

def display : ProviderError → String
  | badRequest _ m => "bad request: " ++ m
  | notFound _ m => m
  | internal m => m

/-- The error object that the peer sees. The caller is at fault only for a bad request. -/
def toErrorObject : ProviderError → ErrorObject
  | badRequest _ m => .plain ErrorObject.invalidParamsCode m
  | notFound _ m => .internal m
  | internal m => .internal m

end ProviderError

end ContextServer
