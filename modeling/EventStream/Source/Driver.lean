import EventStream.Source.Attempt

/-! The driver of a source. It advances by turns, from one place where it may have to wait to the
next, and looks first whether it has to stop, wherever it stands. -/

namespace EventStream.Source

inductive Turn where
  | moved (source : Source) (notes : List Note)
  | blocked (source : Source)
  deriving DecidableEq, Repr

def Turn.source : Turn → Source
  | .moved source _ => source
  | .blocked source => source

def Turn.notes : Turn → List Note
  | .moved _ notes => notes
  | .blocked _ => []

def Turn.isBlocked : Turn → Bool
  | .moved _ _ => false
  | .blocked _ => true

/-- Keep the interval that a decoder learnt. -/
def learn (source : Source) (decoder : Decoder) : Source :=
  { source with retryMillis := decoder.retry.counted }

def isExhausted (source : Source) (failures : Nat) : Bool :=
  match source.config.maxAttempts with
  | some limit => limit ≤ failures
  | none => false

/-- The stream was lost, or an attempt to get it back failed: wait for the next attempt, or close
when there have been too many. The length of the wait is settled here and now. -/
def retryAfter (source : Source) (failures now : Nat) : Source :=
  if source.isExhausted failures then source.finish
  else { source.transition .connecting with phase := .waiting failures (now + source.retryMillis) }

def read (source : Source) (body : Body) : Source :=
  { source.transition .opened with phase := .reading body }

/-- A turn while the first attempt is in flight. Any failure is final. -/
def turnConnecting (source : Source) (call : Call) (now : Nat) : Turn :=
  if source.isStopped then .moved source.finish [.connected (some .closed)]
  else
    match source.outcome? call now with
    | none => .blocked source
    | some (.ok body) => .moved (source.read body) [.connected none]
    | some (.error failure) => .moved source.finish [.connected (some failure)]

/-- A turn while a body is read. The id of an event is kept as soon as the event is decoded, and an
interval as soon as the decoder gives something. -/
def turnReading (source : Source) (body : Body) (now : Nat) : Turn :=
  if source.isStopped then .moved (source.learn body.decoder).finish []
  else
    match body.decoder.poll body.feed with
    | (.pending, decoder, feed) => .blocked { source with phase := .reading ⟨decoder, feed⟩ }
    | (.event event, decoder, feed) =>
      let learnt := source.learn decoder
      .moved { learnt with cursor := event.id, phase := .handing ⟨decoder, feed⟩ event }
        [.decoded event]
    | (.ended, decoder, _) => .moved ((source.learn decoder).retryAfter 0 now) []
    | (.failed _, decoder, _) => .moved ((source.learn decoder).retryAfter 0 now) []

def turnHanding (source : Source) (body : Body) (event : Event) : Turn :=
  if source.isStopped then .moved (source.learn body.decoder).finish []
  else if source.queue.length < source.config.capacity then
    .moved { source with queue := source.queue ++ [event], phase := .reading body } []
  else .blocked source

def turnWaiting (source : Source) (failures wake now : Nat) : Turn :=
  if source.isStopped then .moved source.finish []
  else if now < wake then .blocked source
  else
    match source.call now with
    | .error _ => .moved source.finish []
    | .ok (request, call) =>
      .moved { source with phase := .reconnecting failures call } [.called now request]

/-- A turn while a later attempt is in flight. Only a permanent failure is final. -/
def turnReconnecting (source : Source) (failures : Nat) (call : Call) (now : Nat) : Turn :=
  if source.isStopped then .moved source.finish []
  else
    match source.outcome? call now with
    | none => .blocked source
    | some (.ok body) => .moved (source.read body) []
    | some (.error failure) =>
      if failure.isPermanent then .moved source.finish []
      else .moved (source.retryAfter (failures + 1) now) []

def turn (source : Source) (now : Nat) : Turn :=
  match source.phase with
  | .connecting call => source.turnConnecting call now
  | .reading body => source.turnReading body now
  | .handing body event => source.turnHanding body event
  | .waiting failures wake => source.turnWaiting failures wake now
  | .reconnecting failures call => source.turnReconnecting failures call now
  | .unstarted | .finished | .abandoned => .blocked source

end EventStream.Source
