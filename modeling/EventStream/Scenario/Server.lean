import EventStream.Request
import EventStream.Response

/-! A server that follows a script: for each attempt a reply that was written down beforehand. -/

namespace EventStream

/-- What the server does with an attempt once the delay of its reply is over. -/
inductive Reaction where
  | hang
  | refuse (reason : String)
  | respond (response : Response)
  deriving DecidableEq, Repr

structure Reply where
  delay : Nat
  reaction : Reaction
  deriving DecidableEq, Repr

namespace Reply

def eventStreamHeaders : Headers := Headers.ofList [(Headers.contentType, Request.eventStreamType)]

/-- An open stream without delay, for the attempts that the script has no reply for. -/
def openStream : Reply := ⟨0, .respond ⟨Status.ok, eventStreamHeaders, .empty⟩⟩

def answer? (reply : Reply) : Option Answer :=
  match reply.reaction with
  | .hang => none
  | .refuse reason => some (.refused reason)
  | .respond response => some (.response response)

def body? (reply : Reply) : Option Feed :=
  match reply.reaction with
  | .respond response => some response.body
  | _ => none

def weight (reply : Reply) : Nat :=
  reply.body?.elim 0 fun body => Feed.byteCount body.queued + body.queued.length

end Reply

structure Attempt where
  reply : Reply
  begun : Nat
  given : Bool
  ended : Bool
  deriving DecidableEq, Repr

namespace Attempt

def start (reply : Reply) (begun : Nat) : Attempt := ⟨reply, begun, false, false⟩

def answerTime? (attempt : Attempt) : Option Nat :=
  attempt.reply.answer?.map fun _ => attempt.begun + attempt.reply.delay

/-- The attempt once it is answered; a body may come with its end already announced. -/
def answered (attempt : Attempt) : Attempt :=
  match attempt.reply.body? with
  | some body => { attempt with given := true, ended := body.ended }
  | none => attempt

def isWritable (attempt : Attempt) : Bool := attempt.given && !attempt.ended

end Attempt

end EventStream
