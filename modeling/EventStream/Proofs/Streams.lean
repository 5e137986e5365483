import EventStream.Proofs.Decoding
import EventStream.Proofs.Bystanders

/-!
The streams of a session. A log beside it says which requests were made, which bodies came of them
and what was done to each body since. It is kept from outside: the driver neither writes nor reads
it, and what a stream yielded is told by its body and those steps alone.
-/

namespace EventStream

namespace Body

theorem run_append (body : Body) (first second : List Step) :
    body.run (first ++ second) = (body.run first).run second :=
  List.foldl_append

theorem items_append (body : Body) (first second : List Step) :
    body.items (first ++ second) = body.items first ++ (body.run first).items second := by
  induction first generalizing body with
  | nil => rfl
  | cons step rest ih =>
    rw [List.cons_append, items, items, ih, List.append_assoc]
    rfl

end Body

def Poll.event? : Poll → Option Event
  | .event given => some given
  | _ => none

def Item.event? (item : Item) : Option Event := item.poll.event?

theorem Body.events_poll (body : Body) :
    (body.items [.poll]).filterMap Item.event? = body.polled.1.event?.toList := by
  rw [items, items, List.append_nil, gives]
  cases body.polled.1 with
  | pending => rfl
  | ended => rfl
  | event event => rfl
  | failed error => rfl

/-- A body as it was opened, and what was done to it since. -/
structure Stream where
  opened : Body
  steps : List Body.Step
  deriving DecidableEq, Repr

namespace Stream

def body (stream : Stream) : Body := stream.opened.run stream.steps

def events (stream : Stream) : List Event :=
  (stream.opened.items stream.steps).filterMap Item.event?

def extend (stream : Stream) (steps : List Body.Step) : Stream :=
  { stream with steps := stream.steps ++ steps }

theorem body_extend (stream : Stream) (steps : List Body.Step) :
    (stream.extend steps).body = stream.body.run steps :=
  Body.run_append _ _ _

theorem events_extend (stream : Stream) (steps : List Body.Step) :
    (stream.extend steps).events =
      stream.events ++ (stream.body.items steps).filterMap Item.event? := by
  rw [events, extend, Body.items_append, List.filterMap_append]
  rfl

theorem extend_nil (stream : Stream) : stream.extend [] = stream := by
  rw [extend, List.append_nil]

end Stream

/-- A call of the transport, and the stream that came of it, if one did. -/
structure Connection where
  request : Request
  stream : Option Stream
  deriving DecidableEq, Repr

def Connection.events (connection : Connection) : List Event :=
  connection.stream.elim [] Stream.events

/-- All events that decoders yielded, in order. In a log the latest connection comes first. -/
def yielded : List Connection → List Event
  | [] => []
  | connection :: earlier => yielded earlier ++ connection.events

/-- Where a stream has to go on behind these events. -/
def lastId (events : List Event) : Bytes := (events.getLast?.map Event.id).getD []

@[simp] theorem lastId_append_single (events : List Event) (event : Event) :
    lastId (events ++ [event]) = event.id := by
  simp [lastId]

namespace Session

def steps (session : Session) : Action → List Body.Step
  | .arrive arrival => [.arrive arrival]
  | .endBody => [.finish]
  | .turn => if session.source.polls then [.poll] else []
  | _ => []

def record (session : Session) (action : Action) (log : List Connection) : List Connection :=
  let called := (calls (session.notes action)).map fun (_, request) => ⟨request, none⟩
  called.reverse ++
    match log, session.source.body?, (session.act action).source.body? with
    | ⟨request, some stream⟩ :: earlier, some _, _ =>
      ⟨request, some (stream.extend (session.steps action))⟩ :: earlier
    | ⟨request, none⟩ :: earlier, none, some body => ⟨request, some ⟨body, []⟩⟩ :: earlier
    | log, _, _ => log

section Record

variable {session : Session} {action : Action} {log : List Connection}

theorem record_same (uncalled : calls (session.notes action) = [])
    (idle : ∀ body, session.source.body? = some body → session.steps action = [])
    (unopened : session.source.body? = none → (session.act action).source.body? = none) :
    session.record action log = log := by
  unfold record
  rw [uncalled]
  split
  next held => rw [idle _ held, Stream.extend_nil]; rfl
  next none some => cases (unopened none).symm.trans some
  next => rfl

theorem record_called {now : Nat} {request : Request}
    (called : calls (session.notes action) = [(now, request)])
    (unheld : session.source.body? = none)
    (unopened : (session.act action).source.body? = none) :
    session.record action log = ⟨request, none⟩ :: log := by
  unfold record
  rw [called, unheld, unopened]
  split
  next some => cases some
  next some => cases some
  next => rfl

theorem record_opened {request : Request} {body : Body} {earlier : List Connection}
    (uncalled : calls (session.notes action) = []) (unheld : session.source.body? = none)
    (opened : (session.act action).source.body? = some body) :
    session.record action (⟨request, none⟩ :: earlier) = ⟨request, some ⟨body, []⟩⟩ :: earlier := by
  unfold record
  rw [uncalled, unheld, opened]
  rfl

theorem record_steps {request : Request} {stream : Stream} {earlier : List Connection} {body : Body}
    (uncalled : calls (session.notes action) = []) (held : session.source.body? = some body) :
    session.record action (⟨request, some stream⟩ :: earlier) =
      ⟨request, some (stream.extend (session.steps action))⟩ :: earlier := by
  unfold record
  rw [uncalled, held]
  rfl

end Record

def log (session : Session) : List Action → List Connection → List Connection
  | [], log => log
  | action :: rest, log => (session.act action).log rest (session.record action log)

def fresh (session : Session) (action : Action) : List Event :=
  match session.source.body? with
  | some body => (body.items (session.steps action)).filterMap Item.event?
  | none => []

theorem log_induction {motive : Session → List Connection → Prop}
    (step : ∀ session log action, motive session log →
      motive (session.act action) (session.record action log))
    {session : Session} {log : List Connection} (first : motive session log)
    (actions : List Action) : motive (session.run actions) (session.log actions log) := by
  induction actions generalizing session log with
  | nil => exact first
  | cons action actions ih => exact ih (step session log action first)

theorem steps_unpolled {session : Session} (idle : session.source.polls = false) :
    session.steps .turn = [] := by
  rw [steps, idle]
  rfl

/-- A turn that polls does this to the held body, and brings this out of it. -/
theorem polling_turn {session : Session} {body : Body} {poll : Poll} {decoder : Decoder}
    {feed : Feed} (goes : session.source.isStopped = false)
    (phase : session.source.phase = .reading body)
    (polled : body.decoder.poll body.feed = (poll, decoder, feed)) :
    session.source.body? = some body ∧ body.run (session.steps .turn) = ⟨decoder, feed⟩ ∧
      session.fresh .turn = poll.event?.toList := by
  have held : session.source.body? = some body := by rw [Source.body?, phase]
  have steps : session.steps .turn = [.poll] := by simp [steps, Source.polls, phase, goes]
  have left : body.polled = (poll, ⟨decoder, feed⟩) := by rw [Body.polled, polled]
  refine ⟨held, ?_, ?_⟩
  · rw [steps]
    exact congrArg Prod.snd left
  · rw [fresh, held, steps]
    exact (body.events_poll).trans (by rw [left])

theorem fresh_other (session : Session) {action : Action} (other : action ≠ .turn) :
    session.fresh action = [] := by
  unfold fresh
  split
  next body _ => cases action <;> first | rfl | exact absurd rfl other
  next => rfl

theorem fresh_unpolled {session : Session} (idle : session.source.polls = false) :
    session.fresh .turn = [] := by
  unfold fresh
  rw [steps_unpolled idle]
  split <;> rfl

end Session

end EventStream
