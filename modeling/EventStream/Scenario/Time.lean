import EventStream.Scenario.Basic

/-! The passing of time in a scenario. The clock moves only when nothing more can happen at the
present moment, and then to the next time that something waits for. At one moment, what was set
going earlier goes first. -/

namespace EventStream.Scenario

/-- Let the driver take a turn, and tell whether it went on. A wait that begins with the turn begins
after every alarm that is set. -/
def turn (scenario : Scenario) : Bool × Scenario :=
  let answered := scenario.answerDue
  let turned := answered.act .turn
  if answered.session.isBlocked then (false, turned)
  else (true, { turned with alarms := turned.alarms.map ({ · with first := true }) })

def driveFor : Nat → Scenario → Scenario
  | 0, scenario => scenario
  | limit + 1, scenario =>
    match scenario.turn with
    | (true, moved) => driveFor limit moved
    | (false, blocked) => blocked

def undecoded (scenario : Scenario) : Nat :=
  scenario.source.body?.elim 0 fun body =>
    body.decoder.lines.bytes.length + Feed.byteCount body.feed.queued + body.feed.queued.length

/-- At least as many turns as the driver can take before it needs more than there is: an event takes
two, and a byte at the least; an attempt takes three besides. -/
def work (scenario : Scenario) : Nat :=
  4 * (scenario.undecoded + (scenario.replies.map (·.weight + 1)).foldr (· + ·) 0 +
    (scenario.attempts.map (·.reply.weight + 1)).foldr (· + ·) 0 + 4)

/-- Let the driver go on until it can go no further at this moment. -/
def drive (scenario : Scenario) : Scenario := driveFor scenario.work scenario

def driverFirst (scenario : Scenario) : Bool :=
  !scenario.alarms.any fun alarm => alarm.first && alarm.due ≤ scenario.clock

/-- Let everything happen that can happen at this moment. -/
def settle (scenario : Scenario) : Scenario :=
  if scenario.driverFirst then scenario.drive.ring.drive else scenario.ring.drive

def ownTimes (scenario : Scenario) : List Nat :=
  match scenario.source.phase with
  | .waiting _ wake => [wake]
  | .connecting call => [call.deadline]
  | .reconnecting _ call => [call.deadline]
  | _ => []

def times (scenario : Scenario) : List Nat :=
  scenario.ownTimes ++ scenario.answerTime?.toList ++ scenario.alarms.map (·.due)

/-- The next time after `now` that something waits for. -/
def nextTime? (scenario : Scenario) (now : Nat) : Option Nat :=
  (scenario.times.filter (now < ·)).min?

/-- Set the clock, which never goes back. -/
def setClock (scenario : Scenario) (time : Nat) : Scenario :=
  scenario.act (.elapse (time - scenario.clock))

/-- Let time pass from `now` to `target`. What is due before `target` happens on the way; what is
due at `target` is left to be settled. -/
def pass (scenario : Scenario) (now target : Nat) : Scenario :=
  let settled := (scenario.setClock now).settle
  match settled.nextTime? now with
  | none => settled.setClock target
  | some time =>
    if now < time ∧ time < target then pass settled time target else settled.setClock target
termination_by target - now
decreasing_by omega

end EventStream.Scenario
