import EventStream.Scenario.Server
import EventStream.Session

/-! A source against a scripted server, with closes set for given times. -/

namespace EventStream

structure Alarm where
  due : Nat
  /-- Whether it comes before the driver when both have their time at one moment: it was set before
  the driver was woken, or began its present wait. -/
  first : Bool
  deriving DecidableEq, Repr

structure Scenario where
  session : Session
  replies : List Reply
  attempts : List Attempt
  alarms : List Alarm
  /-- Whether the handle and the queue were parted, after which nobody can connect. -/
  parted : Bool
  deriving DecidableEq, Repr

namespace Scenario

def start (source : Source) (replies : List Reply) : Scenario :=
  ⟨.start source, replies, [], [], false⟩

def source (scenario : Scenario) : Source := scenario.session.source

def clock (scenario : Scenario) : Nat := scenario.session.clock

def notesUntil (scenario later : Scenario) : List Note :=
  later.session.history.drop scenario.session.history.length

def begin (scenario : Scenario) (time : Nat) : Scenario :=
  { scenario with
    replies := scenario.replies.tail
    attempts := scenario.attempts ++ [.start (scenario.replies.headD .openStream) time] }

/-- Let something happen to the source; the server sees the calls that come of it. -/
def act (scenario : Scenario) (action : Action) : Scenario :=
  let acted := { scenario with session := scenario.session.act action }
  (Session.calls (scenario.notesUntil acted)).foldl (fun scenario (time, _) => scenario.begin time)
    acted

/-- The attempt that is in flight and was not answered, as the server sees it. -/
def unanswered? (scenario : Scenario) : Option Attempt :=
  match scenario.source.call? with
  | some call => if call.answer.isNone then scenario.attempts.getLast? else none
  | none => none

def answerTime? (scenario : Scenario) : Option Nat :=
  scenario.unanswered?.bind Attempt.answerTime?

/-- Answer the attempt in flight, if the time for that has come. A source that has to stop does not
wait for the answer any more. -/
def answerDue (scenario : Scenario) : Scenario :=
  match scenario.unanswered? with
  | none => scenario
  | some attempt =>
    if !scenario.source.isStopped && attempt.answerTime?.any (· ≤ scenario.clock) then
      match attempt.reply.answer? with
      | some answer =>
        let responded := scenario.act (.respond answer)
        { responded with attempts := responded.attempts.dropLast ++ [attempt.answered] }
      | none => scenario
    else scenario

def isTiming (scenario : Scenario) : Bool :=
  match scenario.source.phase with
  | .waiting _ _ | .reconnecting _ _ => true
  | _ => false

def setAlarm (scenario : Scenario) (due : Nat) : Scenario :=
  let first := scenario.session.isBlocked && !scenario.isTiming
  { scenario with alarms := scenario.alarms ++ [⟨due, first⟩] }

def ring (scenario : Scenario) : Scenario :=
  let later := scenario.alarms.filter (scenario.clock < ·.due)
  let quiet := { scenario with alarms := later }
  if later.length < scenario.alarms.length then quiet.act .close else quiet

/-- Whether the source holds the body of an attempt; it can only be that of the latest. -/
def holds (scenario : Scenario) (number : Nat) : Bool :=
  scenario.source.body?.isSome && number + 1 == scenario.attempts.length

/-- The attempts whose body the source holds and the server has not ended. -/
def live (scenario : Scenario) : List Nat :=
  (List.range scenario.attempts.length).filter fun number =>
    scenario.holds number && scenario.attempts[number]?.any Attempt.isWritable

end Scenario

end EventStream
