import EventStream.Decoder
import EventStream.ReadyState
import EventStream.Request
import EventStream.Response

/-! A source: the state that its consumer sees, the queue of events between the two, and the phase
of the driver that connects, reads, hands events over and reconnects. Times are milliseconds on a
clock that the source is told about. -/

namespace EventStream

structure Call where
  /-- The id that the request carried, from which the stream goes on. -/
  resumeId : Bytes
  deadline : Nat
  answer : Option Answer
  deriving DecidableEq, Repr

structure Body where
  decoder : Decoder
  feed : Feed
  deriving DecidableEq, Repr

/-- Where the driver stands. In all phases but the last two it may still put events into the queue,
now or later. -/
inductive Phase where
  | unstarted
  /-- The first attempt, which the consumer waits for. -/
  | connecting (call : Call)
  | reading (body : Body)
  /-- An event is to be put into the queue before the body is read on. -/
  | handing (body : Body) (event : Event)
  /-- So many attempts failed since the stream was lost; the next one starts at `wake`. -/
  | waiting (failures wake : Nat)
  | reconnecting (failures : Nat) (call : Call)
  | finished
  /-- The consumer gave up waiting for the first attempt, and nobody is left to go on. -/
  | abandoned
  deriving DecidableEq, Repr

structure Source where
  config : Config
  state : ReadyState
  /-- The id of the event decoded last, over all streams. -/
  cursor : Bytes
  retryMillis : Nat
  cancelled : Bool
  /-- Events handed over and not received so far. -/
  queue : List Event
  /-- Whether there still is a consumer to receive them. -/
  consumed : Bool
  phase : Phase
  deriving DecidableEq, Repr

inductive Note where
  /-- The transport was called, at this time, with this request. -/
  | called (time : Nat) (request : Request)
  /-- The wait for the first attempt is over; without a failure a stream is open. -/
  | connected (failure : Option Failure)
  | decoded (event : Event)
  | received (event : Event)
  deriving DecidableEq, Repr

namespace Source

def create (config : Config) : Except Failure Source :=
  match config.fault? with
  | some fault => .error (.config fault.message)
  | none => .ok ⟨config, .connecting, [], config.retry.counted, false, [], true, .unstarted⟩

def retry (source : Source) : Duration := .ofMillis source.retryMillis

/-- Whether the driver has to stop: a close was asked for, or there is no consumer any more. -/
def isStopped (source : Source) : Bool := source.cancelled || !source.consumed

/-- Whether events may still come into the queue. -/
def mayHand (source : Source) : Bool :=
  match source.phase with
  | .finished | .abandoned => false
  | _ => true

def body? (source : Source) : Option Body :=
  match source.phase with
  | .reading body => some body
  | .handing body _ => some body
  | _ => none

def call? (source : Source) : Option Call :=
  match source.phase with
  | .connecting call => some call
  | .reconnecting _ call => some call
  | _ => none

def transition (source : Source) (next : ReadyState) : Source :=
  if source.state.isShuttingDown then source else { source with state := next }

/-- The driver is done: whatever it held is let go, and nothing comes into the queue any more. -/
def finish (source : Source) : Source := { source with state := .closed, phase := .finished }

end Source

end EventStream
