import EventStream.Failure
import EventStream.Feed
import EventStream.Http.Header
import EventStream.Http.MediaType

/-! The answer to a connection attempt, and whether it is an event stream. -/

namespace EventStream

structure Response where
  status : Nat
  headers : Headers
  body : Feed
  deriving DecidableEq, Repr

inductive Answer where
  | refused (reason : String)
  | response (response : Response)
  deriving DecidableEq, Repr

namespace Response

/-- What stands in a failure for a content type that is no ASCII text. -/
def unprintable : String := "<non-ascii>"

/-- Why a response with these headers and this status is no event stream. Of several content types
the first counts. -/
def rejection? (response : Response) : Option Failure :=
  if response.status ≠ Status.ok then some (.status response.status)
  else
    match (response.headers.values Headers.contentType).head? with
    | none => some (.contentType none)
    | some value =>
      match Headers.text? value with
      | none => some (.contentType (some unprintable))
      | some text => if MediaType.isEventStream value then none else some (.contentType (some text))

end Response

def Answer.body : Answer → Except Failure Feed
  | .refused reason => .error (.transport reason)
  | .response given =>
    match given.rejection? with
    | none => .ok given.body
    | some failure => .error failure

end EventStream
