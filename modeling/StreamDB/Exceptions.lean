import Mathlib.Data.List.Basic

/-!
# Exceptions of a run

The exception classes the translator tells apart. `asyncio.CancelledError` is a `BaseException`
only; a group is an `Exception` exactly when every member is.
-/

namespace StreamDB

inductive PyException where
  | cancelled
  /-- `_ChannelCancelled`, the translator's own wrapper. -/
  | channelCancelled
  | exception (text : String)
  | baseException (text : String)
  | group (text : String) (exceptions : List PyException)

namespace PyException

/-- `str(exc)`. -/
def text : PyException → String
  | .cancelled => ""
  | .channelCancelled => ""
  | .exception text => text
  | .baseException text => text
  | .group text _ => text

def isCancelled : PyException → Bool
  | .cancelled => true
  | _ => false

mutual

/-- `isinstance(exc, Exception)`. -/
def isException : PyException → Bool
  | .cancelled => false
  | .channelCancelled => true
  | .exception _ => true
  | .baseException _ => false
  | .group _ exceptions => allExceptions exceptions

def allExceptions : List PyException → Bool
  | [] => true
  | e :: es => isException e && allExceptions es

end

mutual

/-- `_exception_message`. -/
def message : PyException → String
  | .group text exceptions => groupMessage text exceptions
  | .cancelled => ""
  | .channelCancelled => ""
  | .exception text => text
  | .baseException text => text

def groupMessage (text : String) : List PyException → String
  | [] => text
  | e :: es => if e.isCancelled then groupMessage text es else message e

end

mutual

/-- `_has_channel_cancelled`. -/
def hasChannelCancelled : PyException → Bool
  | .channelCancelled => true
  | .group _ exceptions => anyChannelCancelled exceptions
  | _ => false

def anyChannelCancelled : List PyException → Bool
  | [] => false
  | e :: es => hasChannelCancelled e || anyChannelCancelled es

end

end PyException

end StreamDB
