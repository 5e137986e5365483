import EventStream.Proofs.Delivery
import EventStream.Proofs.Fields
import Mathlib.Data.List.Basic

/-!
Where a source goes on after a drop. The id that it keeps is that of the event yielded last. Every
request asks for what comes behind that event and the stream that is opened starts from it, and by
then the event has been handed over. So an id counts once an event carries it, and not before.
-/

namespace EventStream

namespace OnePass

/-- The value that a line gives to the id, if it gives one. A value with a zero octet is none. -/
def idValue? (line : Bytes) : Option Bytes :=
  if line.head? = some Bytes.colon then none
  else
    let (name, value) := nameValue line
    if name = Bytes.ofText "id" ∧ 0 ∉ value then some value else none

def idInForce (id : Bytes) : List Bytes → Bytes
  | [] => id
  | line :: rest => idInForce ((idValue? line).getD id) rest

def events (maxLine : Option Nat) (resumeId : Bytes) (retry : Duration) (bytes : Bytes) :
    List Event :=
  (transcript maxLine resumeId retry bytes).filterMap Item.event?

namespace State

theorem field?_id {state next : State} {name value : Bytes}
    (known : state.field? name value = some next) :
    next.id = if name = Bytes.ofText "id" ∧ 0 ∉ value then value else state.id := by
  unfold field? at known
  split at known
  next data =>
    cases known
    rw [data, if_neg (fun same => absurd same.1 (by decide))]
  next =>
    split at known
    next event =>
      cases known
      rw [event, if_neg (fun same => absurd same.1 (by decide))]
    next =>
      split at known
      next id =>
        cases known
        by_cases zero : 0 ∈ value
        · rw [if_pos zero, if_neg fun same => same.2 zero]
        · rw [if_neg zero, if_pos ⟨id, zero⟩]
      next other =>
        split at known
        next =>
          cases known
          rw [if_neg fun same => other same.1]
          cases millis? value <;> rfl
        next => cases known

theorem field?_unknown {state : State} {name value : Bytes}
    (unknown : state.field? name value = none) : name ≠ Bytes.ofText "id" := by
  rintro rfl
  unfold field? at unknown
  rw [if_neg (by decide), if_neg (by decide), if_pos rfl] at unknown
  cases unknown

theorem read_id {state next : State} {line : Bytes} {event : Option Event}
    (read : state.read line = .ok (event, next)) :
    next.id = (idValue? line).getD state.id ∧
      ∀ given, event = some given → line = [] ∧ given.id = state.id := by
  unfold State.read at read
  unfold idValue?
  split at read
  next empty =>
    subst empty
    cases read
    refine ⟨rfl, ?_⟩
    intro given found
    split at found
    next => cases found
    next => cases found; exact ⟨rfl, rfl⟩
  next =>
    split at read
    next comment =>
      cases read
      rw [if_pos comment]
      exact ⟨rfl, nofun⟩
    next content =>
      rw [if_neg content]
      dsimp only at read ⊢
      split at read
      next unknown =>
        cases read
        rw [if_neg fun same => field?_unknown unknown same.1]
        exact ⟨rfl, nofun⟩
      next => cases read
      next known _ =>
        cases read
        rw [field?_id known]
        refine ⟨?_, nofun⟩
        split <;> rfl

end State

theorem unfinished {item : Item} {error : DecodeError} {last : Bytes} {retry : Duration}
    {event : Event}
    (inside : item ∈ [⟨.failed error, last, retry⟩, (⟨.ended, last, retry⟩ : Item)]) :
    item.event? ≠ some event := by
  simp only [List.mem_cons, List.not_mem_nil, or_false] at inside
  rcases inside with rfl | rfl <;> exact nofun

theorem items_id {maxLine : Option Nat} {last : Bytes} {state : State} {lines : List Bytes}
    {item : Item} {event : Event} (given : item.event? = some event)
    (inside : item ∈ items maxLine last state lines) :
    ∃ before after, lines = before ++ [] :: after ∧ event.id = idInForce state.id before := by
  induction lines generalizing last state with
  | nil =>
    rw [items, List.mem_singleton] at inside
    subst inside
    cases given
  | cons line rest ih =>
    unfold items at inside
    split at inside
    next => exact absurd given (unfinished inside)
    next =>
      split at inside
      next => exact absurd given (unfinished inside)
      next first next read =>
        obtain ⟨id, carries⟩ := State.read_id read
        obtain ⟨rfl, same⟩ := carries first rfl
        rcases List.mem_cons.mp inside with rfl | later
        · cases given
          exact ⟨[], rest, rfl, same⟩
        · obtain ⟨before, after, rfl, force⟩ := ih later
          exact ⟨[] :: before, after, rfl, by rw [force, id]; rfl⟩
      next next read =>
        obtain ⟨before, after, rfl, force⟩ := ih inside
        exact ⟨line :: before, after, rfl, by rw [force, (State.read_id read).1]; rfl⟩

end OnePass

namespace Decoder

def coming (decoder : Decoder) (rest : Bytes) : List Event :=
  (decoder.outlook rest).filterMap Item.event?

variable {decoder next : Decoder} {poll : Poll}

theorem Gives.coming (gives : Gives poll decoder next) (rest : Bytes) :
    decoder.coming rest = poll.event?.toList ++ next.coming rest := by
  by_cases past : poll = .ended
  · rw [Decoder.coming, Decoder.coming, gives.stays past, past]
    rfl
  · rw [Decoder.coming, gives.outlook, if_neg past]
    cases poll <;> rfl

theorem outlook_finished (past : decoder.lines.finished = true) (rest : Bytes) :
    decoder.outlook rest = decoder.outlook [] := by
  simp only [outlook, past, if_true]

/-- What a poll gives, and what the decoder behind it makes of some of the bytes that follow, it
made of those bytes and the ones that it took at the poll. -/
theorem Polls.takes {ended : Bool} {queue left : List Arrival}
    (polls : Polls ended decoder queue poll next left) (sound : decoder.Sound)
    (arrivals : List Arrival) {later : Bytes} (within : later <+: Feed.content (left ++ arrivals)) :
    ∃ taken, taken <+: Feed.content (queue ++ arrivals) ∧
      poll.event?.toList ++ next.coming later <+: decoder.coming taken := by
  induction polls with
  | answered found =>
    exact ⟨later, within, (((answer_gives sound found).coming later).symm ▸ List.prefix_rfl)⟩
  | pending idles =>
    refine ⟨later, within, ?_⟩
    rw [coming, coming, (answer_idles sound idles).outlook]
    exact List.prefix_rfl
  | @finished decoder idle next poll idles past found =>
    have kept := answer_idles sound idles
    have gives := answer_gives kept.sound.finish found
    refine ⟨[], List.nil_prefix, ?_⟩
    have same : next.coming later = next.coming [] := by
      rw [coming, outlook_finished gives.finished, ← coming]
    rw [same, ← gives.coming, coming, outlook_finish kept.sound kept.working, kept.outlook]
    exact List.prefix_rfl
  | broken idles => exact ⟨[], List.nil_prefix, List.nil_prefix⟩
  | @chunk decoder idle next bytes rest left poll idles _ ih =>
    obtain ⟨taken, fits, whole⟩ := ih ((answer_idles sound idles).sound.accept bytes) within
    refine ⟨bytes ++ taken, ?_, ?_⟩
    · rw [List.cons_append, Feed.content]
      exact (List.prefix_append_right_inj bytes).mpr fits
    · have same : (idle.accept bytes).coming taken = decoder.coming (bytes ++ taken) :=
        congrArg (List.filterMap Item.event?) (idle_accept sound idles bytes taken)
      rwa [← same]

end Decoder

namespace Body

def arrivals : List Step → List Arrival
  | [] => []
  | .arrive arrival :: rest => arrival :: arrivals rest
  | .finish :: rest => arrivals rest
  | .poll :: rest => arrivals rest

theorem items_taken {body : Body} (sound : body.decoder.Sound) (steps : List Step) :
    ∃ taken, taken <+: Feed.content (body.feed.queued ++ arrivals steps) ∧
      (body.items steps).filterMap Item.event? <+: body.decoder.coming taken := by
  induction steps generalizing body with
  | nil => exact ⟨[], List.nil_prefix, List.nil_prefix⟩
  | cons step rest ih =>
    cases step with
    | arrive arrival =>
      obtain ⟨taken, within, whole⟩ := @ih (body.step (.arrive arrival)) sound
      refine ⟨taken, ?_, whole⟩
      rwa [Body.step, Feed.push, List.append_assoc] at within
    | finish => exact @ih (body.step .finish) sound
    | poll =>
      cases found : body.decoder.poll body.feed with
      | mk poll state =>
        obtain ⟨next, left⟩ := state
        have polls := (Decoder.poll_polls sound found).1
        have after : body.polled = (poll, ⟨next, left⟩) := by rw [Body.polled, found]
        have stepped : body.step .poll = ⟨next, left⟩ := congrArg Prod.snd after
        obtain ⟨later, within, whole⟩ := @ih ⟨next, left⟩ (polls.sound sound)
        obtain ⟨taken, fits, first⟩ := polls.takes sound (arrivals rest) within
        refine ⟨taken, fits, ?_⟩
        have given := body.events_poll
        rw [items, items, List.append_nil, after] at given
        rw [items, List.filterMap_append, given, stepped]
        exact ((List.prefix_append_right_inj _).mpr whole).trans first

end Body

namespace Session

def arrived (stream : Stream) : Bytes :=
  Feed.content (stream.opened.feed.queued ++ Body.arrivals stream.steps)

/-- A connection that goes on behind an id: the request asks for it, or says what the settings say
if no header can carry the id, and the decoder starts with it. The events are those of bytes that
arrived, and each carries the id that the lines before it put in force, which is the one resumed
from until a line gives another. -/
structure Resumes (config : Config) (id : Bytes) (connection : Connection) : Prop where
  request : Request.build config id = .ok connection.request
  asks : connection.request.headers.values (Bytes.ofText "Last-Event-ID").lower =
    if Request.Sendable id then [id]
    else config.headers.values (Bytes.ofText "Last-Event-ID").lower
  stream : ∀ stream, connection.stream = some stream → ∃ retry taken,
    stream.opened.decoder = .start config.maxLine id retry ∧ taken <+: arrived stream ∧
      stream.events <+: OnePass.events config.maxLine id retry taken ∧
      ∀ event ∈ stream.events, ∃ before after,
        (OnePass.unmarked taken).lines = before ++ [] :: after ∧
          event.id = OnePass.idInForce id before

theorem Linked.resumes {config : Config} {connection : Connection} {earlier : List Connection}
    (linked : Linked config connection earlier) :
    Resumes config (lastId (yielded earlier)) connection := by
  refine ⟨linked.request, Request.lastEventId_values linked.request, ?_⟩
  intro stream same
  obtain ⟨retry, started⟩ := linked.decoder stream same
  have sound := Decoder.sound_start config.maxLine (lastId (yielded earlier)) retry
  rw [← started] at sound
  obtain ⟨taken, within, whole⟩ := Body.items_taken sound stream.steps
  have events : stream.events <+:
      OnePass.events config.maxLine (lastId (yielded earlier)) retry taken := by
    rwa [Decoder.coming, started, Decoder.outlook_start] at whole
  refine ⟨retry, taken, started, within, events, ?_⟩
  intro event inside
  obtain ⟨item, among, given⟩ := List.mem_filterMap.mp (events.subset inside)
  exact OnePass.items_id given among

theorem call_empties {session : Session} {action : Action}
    (called : calls (session.notes action) ≠ []) :
    session.source.isStopped = false ∧ session.source.held = [] := by
  obtain ⟨goes, -, unstarted | ⟨failures, wake, phase, -⟩⟩ := call_made called
  · exact ⟨goes, Source.held_of_phase (by simp [unstarted])⟩
  · exact ⟨goes, Source.held_of_phase (by simp [phase])⟩

theorem record_requests (session : Session) (action : Action) (log : List Connection) :
    ((session.record action log).map Connection.request).reverse =
      (log.map Connection.request).reverse ++ (calls (session.notes action)).map Prod.snd := by
  unfold record
  dsimp only
  rw [List.map_append, List.reverse_append, List.map_reverse, List.reverse_reverse, List.map_map]
  refine congrArg₂ (· ++ ·) ?_ rfl
  split <;> rfl

theorem run_requests (source : Source) (actions : List Action) :
    (calls ((start source).run actions).history).map Prod.snd =
      (((start source).log actions []).map Connection.request).reverse := by
  refine @log_induction
    (fun session log =>
      (calls session.history).map Prod.snd = (log.map Connection.request).reverse)
    ?_ (start source) [] rfl actions
  intro session log action same
  rw [act_history, calls_append, List.map_append, same, record_requests]

theorem lastId_append (before : List Event) (event : Event) (after : List Event) :
    lastId (before ++ event :: after) = lastId (event :: after) := by
  rw [lastId, lastId, List.getLast?_append, List.getLast?_cons]
  rfl

/-- After these a stream was lost behind an event and an id that no event carried, and it is time
for the next attempt. -/
def losing : List Action :=
  [.connect, .respond (streaming (Bytes.ofText "id:1\ndata:a\n\nid:2\n")), .turn, .turn, .turn,
    .receive, .endBody, .turn, .elapse 3000]

/-- Over a whole run: the id that is kept is that of the event yielded last, and so of the event
received last or of a later one. Every request resumes behind the events before it, all of which
were handed over when it was made. -/
theorem cursor_follows {config : Config} {source : Source}
    (created : Source.create config = .ok source) (actions : List Action) :
    let session := (start source).run actions
    let log := (start source).log actions []
    session.source.cursor = lastId (yielded log) ∧
      (∀ earlier event, received session.history = earlier ++ [event] →
        ∃ others, yielded log = earlier ++ event :: others ∧
          session.source.cursor = lastId (event :: others)) ∧
      (calls session.history).map Prod.snd = (log.map Connection.request).reverse ∧
      (∀ connection earlier, connection :: earlier <:+ log →
        Resumes config (lastId (yielded earlier)) connection) ∧
      ∀ action, calls (session.notes action) ≠ [] → session.delivered = yielded log := by
  intro session log
  have accounted := run_accounted created actions
  have settings : session.source.config = config := by
    rw [(run_keeps (start source) actions).1, create_eq created]
    rfl
  refine ⟨accounted.logged.cursor, ?_, run_requests source actions, ?_, ?_⟩
  · intro earlier event found
    have begun : earlier ++ [event] <+: yielded log := by
      refine List.IsPrefix.trans ?_ accounted.begun
      rw [delivered, found]
      exact List.prefix_append _ _
    obtain ⟨others, whole⟩ := begun
    rw [List.append_assoc, List.singleton_append] at whole
    refine ⟨others, whole.symm, ?_⟩
    rw [accounted.logged.cursor, ← whole, lastId_append]
  · intro connection earlier suffix
    exact settings ▸ (accounted.logged.linked connection earlier suffix).resumes
  · intro action called
    obtain ⟨goes, empty⟩ := call_empties called
    have whole := accounted.whole goes
    rwa [empty, List.append_nil] at whole

theorem cursor_follows_losing :
    let session := (start plainSource).run losing
    let log := (start plainSource).log losing []
    session.source.cursor = lastId (yielded log) ∧
      (∃ others, yielded log = ⟨[49], [], [97]⟩ :: others ∧
        session.source.cursor = lastId (⟨[49], [], [97]⟩ :: others)) ∧
      (∃ connection earlier, log = connection :: earlier ∧
        Resumes (.forUrl "http://a/") (lastId (yielded earlier)) connection) ∧
      session.delivered = yielded log ∧
      ∃ again first, (start plainSource).log (losing ++ [.turn]) [] = [again, first] ∧
        first.request.headers.values (Bytes.ofText "Last-Event-ID").lower = [] ∧
        again.request.headers.values (Bytes.ofText "Last-Event-ID").lower = [[49]] := by
  have follows := cursor_follows create_plain losing
  refine ⟨follows.1, follows.2.1 [] _ (by decide +kernel), ?_, ?_, ?_⟩
  · obtain ⟨connection, earlier, found⟩ := List.exists_cons_of_ne_nil
      (show (start plainSource).log losing [] ≠ [] by decide +kernel)
    refine ⟨connection, earlier, found, follows.2.2.2.1 connection earlier ?_⟩
    exact found ▸ List.suffix_refl _
  · exact follows.2.2.2.2 .turn (by decide +kernel)
  · obtain ⟨-, -, -, resumes, -⟩ := cursor_follows create_plain (losing ++ [.turn])
    have twice : ((start plainSource).log (losing ++ [.turn]) []).length = 2 := by decide +kernel
    have carried :
        lastId (yielded ((start plainSource).log (losing ++ [.turn]) []).tail) = [49] := by
      decide +kernel
    obtain ⟨again, first, entered⟩ := List.length_eq_two.mp twice
    rw [entered] at resumes carried
    have before := (resumes first [] ⟨[again], rfl⟩).asks
    have behind := (resumes again [first] (List.suffix_refl _)).asks
    have sendable : Request.Sendable [49] := (Request.isSendable_iff _).mp (by decide +kernel)
    rw [show lastId (yielded [first]) = [49] from carried, if_pos sendable] at behind
    rw [if_neg fun empty => empty.1 rfl] at before
    exact ⟨again, first, entered, before, behind⟩

end Session

end EventStream
