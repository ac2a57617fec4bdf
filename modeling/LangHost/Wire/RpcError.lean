import LangHost.Fault
/-!
# Errors of remote calls

A call that cannot be answered gets an error with a number, a text and sometimes more data.
-/

namespace LangHost

/-- The error that answers a call. -/
structure RpcError where
  code : Int
  message : String
  data : Option Json := none

namespace RpcError

/-- The session has not been initialized. -/
def notInitialized : RpcError := { code := -32002, message := "Server not initialized" }

/-- The call is not allowed here. -/
def invalidRequest : RpcError := { code := -32600, message := "Invalid request" }

/-- No such method. -/
def methodNotFound : RpcError := { code := -32601, message := "Method not found" }

/-- The parameters do not fit the method. -/
def invalidParams (message : String) : RpcError := { code := -32602, message }

/-- The call was fine and could not be done. -/
def internalError (message : String) : RpcError := { code := -32603, message }

end RpcError

/-- The error that tells the client of a fault. Asking for a document that is not open, or that no
service handles, is the client's fault; all others are the host's. -/
def Fault.toRpcError (f : Fault) : RpcError :=
  match f with
  | .noLanguageService _ => .invalidParams f.message
  | .documentNotFound _ => .invalidParams f.message
  | .parse _ _ => .internalError f.message
  | .service _ => .internalError f.message
  | .json _ => .internalError f.message

end LangHost
