import EventStream.Source.Consumer
import EventStream.Source.Driver

/-! A source in use: what may happen to it, one thing at a time and in any order, and the history
that comes of it. -/

namespace EventStream

inductive Action where
  | connect
  /-- The consumer stops waiting for it. -/
  | abandon
  | close
  | receive
  | leave
  | turn
  | elapse (millis : Nat)
  | respond (answer : Answer)
  /-- Something arrives on the body that is held. -/
  | arrive (arrival : Arrival)
  | endBody
  deriving DecidableEq, Repr

structure Session where
  source : Source
  clock : Nat
  /-- Everything noted so far, oldest first. -/
  history : List Note
  deriving DecidableEq, Repr

namespace Session

def start (source : Source) : Session := ⟨source, 0, []⟩

def follow (session : Session) (source : Source) (notes : List Note) : Session :=
  { session with source, history := session.history ++ notes }

/-- Whether the driver can go no further for now. -/
def isBlocked (session : Session) : Bool := (session.source.turn session.clock).isBlocked

def act (session : Session) : Action → Session
  | .connect =>
    let (source, notes) := session.source.connect session.clock
    session.follow source notes
  | .abandon => session.follow session.source.abandon []
  | .close => session.follow session.source.close []
  | .receive =>
    let (receipt, source) := session.source.receive
    session.follow source receipt.notes
  | .leave => session.follow session.source.leave []
  | .turn =>
    let turn := session.source.turn session.clock
    session.follow turn.source turn.notes
  | .elapse millis => { session with clock := session.clock + millis }
  | .respond answer => session.follow (session.source.respond answer) []
  | .arrive arrival => session.follow (session.source.updateFeed (·.push arrival)) []
  | .endBody => session.follow (session.source.updateFeed Feed.close) []

def run (session : Session) (actions : List Action) : Session := actions.foldl act session

/-- What the wait for the first attempt came to, if that was noted; the latest such note counts. -/
def connected? (notes : List Note) : Option (Option Failure) :=
  (notes.filterMap fun
    | .connected failure => some failure
    | _ => none).getLast?

def calls (notes : List Note) : List (Nat × Request) :=
  notes.filterMap fun
    | .called time request => some (time, request)
    | _ => none

end Session

end EventStream
