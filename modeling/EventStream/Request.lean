import EventStream.Config

/-! The request of a connection attempt. -/

namespace EventStream

structure Request where
  uri : Uri
  headers : Headers
  deriving DecidableEq, Repr

namespace Request

def method : String := "GET"

def eventStreamType : Bytes := Bytes.ofText "text/event-stream"

def noCache : Bytes := Bytes.ofText "no-cache"

/-- Whether an id can be sent to say where to resume. -/
def isSendable (id : Bytes) : Bool := !id.isEmpty && Headers.isValue id

/-- The configured fields, with those of the job in their place. -/
def headersFor (config : Config) (id : Bytes) : Headers :=
  let asked := (config.headers.replace Headers.accept eventStreamType).replace
    Headers.cacheControl noCache
  if isSendable id then asked.replace Headers.lastEventId id else asked

/-- The request that asks for the events behind `id`. -/
def build (config : Config) (id : Bytes) : Except Failure Request :=
  match Uri.parse (Bytes.ofText config.url) with
  | .ok uri => .ok ⟨uri, headersFor config id⟩
  | .error fault => .error (.config ("Invalid request for " ++ config.url ++ ": " ++ fault.message))

end Request

end EventStream
