import EventStream.Failure
import EventStream.Http.Header
import EventStream.Http.Uri
import EventStream.Quoted
import EventStream.Record

/-! How a source is set up, and which settings can be used. -/

namespace EventStream

structure Config where
  url : String
  headers : Headers
  /-- How long an attempt may take until the response headers are there. -/
  connectTimeout : Duration
  /-- The wait before a reconnect until a stream asks for another one. -/
  retry : Duration
  /-- The longest line that a stream may hold, if there is a limit. -/
  maxLine : Option Nat
  capacity : Nat
  /-- How many reconnects in a row may fail, if there is a limit. -/
  maxAttempts : Option Nat
  deriving DecidableEq, Repr

inductive ConfigFault where
  | emptyUrl
  | invalidUrl (url : String) (fault : UriFault)
  | relativeUrl (url : String)
  | zeroTimeout
  | zeroLine
  | zeroCapacity
  deriving DecidableEq, Repr

def ConfigFault.message : ConfigFault → String
  | .emptyUrl => "URL cannot be empty"
  | .invalidUrl url fault => "Invalid URL " ++ Quoted.text url ++ ": " ++ fault.message
  | .relativeUrl url => "URL must be absolute: " ++ Quoted.text url
  | .zeroTimeout => "Connect timeout must be > 0"
  | .zeroLine => "Max line length must be > 0"
  | .zeroCapacity => "Event channel capacity must be > 0"

namespace Config

/-- The settings of a source for which only the place of the stream was chosen. -/
def forUrl (url : String) : Config where
  url
  headers := []
  connectTimeout := .ofSeconds 10
  retry := Record.defaultRetry
  maxLine := none
  capacity := 1
  maxAttempts := none

/-- The first reason not to use a configuration. The URL is looked at first, then the numbers. -/
def fault? (config : Config) : Option ConfigFault :=
  if config.url.isEmpty then some .emptyUrl
  else
    match Uri.parse (Bytes.ofText config.url) with
    | .error fault => some (.invalidUrl config.url fault)
    | .ok uri =>
      if !uri.isAbsolute then some (.relativeUrl config.url)
      else if config.connectTimeout.nanos = 0 then some .zeroTimeout
      else if config.maxLine = some 0 then some .zeroLine
      else if config.capacity = 0 then some .zeroCapacity
      else none

end Config

end EventStream
