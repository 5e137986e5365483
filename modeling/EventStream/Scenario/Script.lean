import EventStream.Scenario.Time

/-! The steps of a script, and what can be seen after each. -/

namespace EventStream.Scenario

/-- A step of a script. Attempts are numbered from zero; without a number the latest is meant. -/
inductive Step where
  /-- Connect, with a close some time from now, or with the consumer giving up some time from
  now. -/
  | connect (closeAfter abandonAfter : Option Nat)
  | write (attempt : Option Nat) (arrival : Arrival)
  | endBody (attempt : Option Nat)
  | advance (millis : Nat)
  | receive
  /-- Receive, and let the driver go on, until no event is there. -/
  | drain
  | close
  | askClosed
  | part
  | leave
  deriving DecidableEq, Repr

inductive Result where
  | nothing
  | connected (failure : Option Failure)
  | abandoned
  /-- What the step needs was given away before. -/
  | gone
  | sent
  | ended
  | dropped
  /-- No body was given out for the attempt, or it was ended. -/
  | noBody
  | noAttempt
  | receipt (receipt : Receipt)
  | drained (events : List Event) (last : Receipt)
  | state (state : ReadyState)
  | isClosed (closed : Bool)
  deriving DecidableEq, Repr

/-- Wait for the first attempt over the given moments. At each of them an answer that is there comes
first, then the end of the consumer's patience, then the alarms. -/
def await (patience : Option Nat) : List Nat → Scenario → Scenario
  | [], scenario => scenario
  | time :: later, scenario =>
    match (scenario.setClock time).turn with
    | (true, resolved) => resolved
    | (false, unresolved) =>
      if patience.any (· ≤ time) then unresolved.act .abandon
      else
        match unresolved.ring.turn with
        | (true, resolved) => resolved
        | (false, unresolved) => await patience later unresolved

/-- Connect, with a close after `closeAfter` and the consumer giving up after `abandonAfter`. -/
def connect (scenario : Scenario) (closeAfter abandonAfter : Option Nat) : Scenario × Result :=
  if scenario.parted then (scenario, .gone)
  else
    let begun := scenario.clock
    let patience := abandonAfter.map (begun + ·)
    let alarmed := closeAfter.elim scenario fun millis => scenario.setAlarm (begun + millis)
    let called := alarmed.act .connect
    let moments := (patience.toList ++ called.times).filter (begun < ·)
    let final :=
      match called.source.phase with
      | .connecting _ => await patience (begun :: moments.mergeSort) called
      | _ => called
    (final, (Session.connected? (scenario.notesUntil final)).elim .abandoned .connected)

/-- The number of the attempt that a step is about, if the server can still write to its body. -/
def writable (scenario : Scenario) (number : Option Nat) : Except Result Nat :=
  let number := number.getD (scenario.attempts.length - 1)
  match scenario.attempts[number]? with
  | none => .error .noAttempt
  | some attempt => if attempt.isWritable then .ok number else .error .noBody

def write (scenario : Scenario) (number : Option Nat) (arrival : Arrival) : Scenario × Result :=
  match scenario.writable number with
  | .error result => (scenario, result)
  | .ok number =>
    if scenario.holds number then (scenario.act (.arrive arrival), .sent) else (scenario, .dropped)

/-- End the body of an attempt, whether or not the source still holds it. -/
def endBody (scenario : Scenario) (number : Option Nat) : Scenario × Result :=
  match scenario.writable number with
  | .error result => (scenario, result)
  | .ok number =>
    let attempts := scenario.attempts.modify number ({ · with ended := true })
    let marked := { scenario with attempts }
    (if scenario.holds number then marked.act .endBody else marked, .ended)

def receive (scenario : Scenario) : Scenario × Receipt :=
  (scenario.act .receive, scenario.source.receive.1)

/-- Receive events and let the driver go on after each, `limit` events at most. -/
def drainFor : Nat → List Event → Scenario → Scenario × Result
  | 0, events, scenario => (scenario, .drained events .pending)
  | limit + 1, events, scenario =>
    match scenario.receive with
    | (received, .event event) => drainFor limit (events ++ [event]) received.settle
    | (received, receipt) => (received, .drained events receipt)

/-- Receive events and let the driver go on after each, until none is there. Every event is in the
queue or costs the driver a turn. -/
def drain (scenario : Scenario) : Scenario × Result :=
  drainFor (scenario.source.queue.length + scenario.work) [] scenario

def step (scenario : Scenario) : Step → Scenario × Result
  | .connect closeAfter abandonAfter => scenario.connect closeAfter abandonAfter
  | .write number arrival => scenario.write number arrival
  | .endBody number => scenario.endBody number
  | .advance millis =>
    let now := scenario.clock
    (if millis = 0 then scenario else scenario.pass now (now + millis), .nothing)
  | .receive =>
    let (received, receipt) := scenario.receive
    (received, .receipt receipt)
  | .drain => scenario.drain
  | .close =>
    let closed := scenario.act .close
    (closed, .state closed.source.state)
  | .askClosed => (scenario, .isClosed scenario.source.state.isClosed)
  | .part => ({ scenario with parted := true }, .nothing)
  | .leave => ({ scenario.act .leave with parted := true }, .nothing)

structure Entry where
  result : Result
  state : ReadyState
  cursor : Bytes
  retry : Duration
  calls : List (Nat × Request)
  live : List Nat
  deriving DecidableEq, Repr

/-- Take a step, let everything happen that can happen then unless told not to, and look. -/
def entry (scenario : Scenario) (step : Step) (settled : Bool) : Scenario × Entry :=
  let (stepped, result) := scenario.step step
  let final := if settled then stepped.settle else stepped
  (final,
    { result
      state := final.source.state
      cursor := final.source.cursor
      retry := final.source.retry
      calls := Session.calls (scenario.notesUntil final)
      live := final.live })

def entries (scenario : Scenario) : List (Step × Bool) → List Entry
  | [] => []
  | (step, settled) :: rest =>
    let (next, entry) := scenario.entry step settled
    entry :: next.entries rest

end EventStream.Scenario
