import EventStream.Source.Attempt

/-! What the consumer of a source can do: connect it, receive its events, close it, or go away. -/

namespace EventStream

inductive Receipt where
  | event (event : Event)
  | pending
  | ended
  /-- The consumer gave the queue up. -/
  | gone
  deriving DecidableEq, Repr

def Receipt.notes : Receipt → List Note
  | .event got => [.received got]
  | _ => []

namespace Source

/-- Ask for the first connection. Only the first such call has an effect, and none has after a
close. -/
def connect (source : Source) (now : Nat) : Source × List Note :=
  match source.phase with
  | .unstarted =>
    if source.isStopped then (source.finish, [.connected (some .closed)])
    else
      match source.call now with
      | .error failure => (source.finish, [.connected (some failure)])
      | .ok (request, call) =>
        ({ source with phase := .connecting call }, [.called now request])
  | _ => (source, [.connected (some .closed)])

def abandon (source : Source) : Source :=
  match source.phase with
  | .connecting _ => { source with phase := .abandoned }
  | _ => source

/-- Ask for a close. The driver sees to it at its next turn; before the first connection there is no
driver, and the source closes at once. -/
def close (source : Source) : Source :=
  let asked :=
    { source with
      state := if source.state.isShuttingDown then source.state else .closing
      cancelled := true }
  match source.phase with
  | .unstarted => asked.finish
  | _ => asked

def receive (source : Source) : Receipt × Source :=
  if !source.consumed then (.gone, source)
  else
    match source.queue with
    | event :: rest => (.event event, { source with queue := rest })
    | [] => (if source.mayHand then .pending else .ended, source)

/-- Give the queue up, with what is in it. -/
def leave (source : Source) : Source := { source with queue := [], consumed := false }

end Source

end EventStream
