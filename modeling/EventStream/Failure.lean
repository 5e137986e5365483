import EventStream.Duration
import EventStream.Http.Status

/-! What can go wrong with a source, and which failures end it. -/

namespace EventStream

inductive Failure where
  | config (reason : String)
  /-- The response is no event stream; its content type, if it gave one. -/
  | contentType (value : Option String)
  | status (code : Nat)
  /-- No response was got, in the transport's own words. -/
  | transport (reason : String)
  | timeout (limit : Duration)
  /-- The source was closed before it connected, or was connected before. -/
  | closed
  deriving DecidableEq, Repr

namespace Failure

def message : Failure → String
  | .config reason => "Configuration error: " ++ reason
  | .contentType value => "Unexpected content type: " ++ value.getD "<none>"
  | .status code => "Unexpected status: " ++ Status.text code
  | .transport reason => "Transport error: " ++ reason
  | .timeout limit => "Connection timed out after " ++ limit.text
  | .closed => "Event source is closed"

/-- Rejections are permanent: asking again would be answered the same way. -/
def isPermanent : Failure → Bool
  | .config _ | .contentType _ | .status _ | .closed => true
  | .transport _ | .timeout _ => false

def cause? : Failure → Option String
  | .transport reason => some reason
  | _ => none

end Failure

end EventStream
