import EventStream.Proofs.Replay

/-!
The states of a source, one after the other. Where the driver stands and whether a close was asked
for fix the state between them, so every change of it has a cause among the actions. A close is the
last word: no later action opens the source again or calls the transport.
-/

namespace EventStream

def Response.IsStream (response : Response) : Prop :=
  response.status = Status.ok ∧ ∃ value,
    (response.headers.values Headers.contentType).head? = some value ∧
      Headers.text? value ≠ none ∧ MediaType.isEventStream value = true

theorem rejection?_eq_none {response : Response} :
    response.rejection? = none ↔ response.IsStream := by
  unfold Response.rejection? Response.IsStream
  by_cases status : response.status = Status.ok
  · rw [if_neg (not_not_intro status)]
    simp only [status, true_and]
    cases (response.headers.values Headers.contentType).head? with
    | none => simp
    | some value => cases text : Headers.text? value <;> simp [text]
  · simp [status]

theorem body_of_answer {answer : Answer} {feed : Feed} (opens : answer.body = .ok feed) :
    ∃ response, answer = .response response ∧ response.IsStream := by
  unfold Answer.body at opens
  split at opens
  next => cases opens
  next response =>
    split at opens
    next accepted => exact ⟨response, rfl, rejection?_eq_none.mp accepted⟩
    next => cases opens

namespace Source

def shown (source : Source) : ReadyState :=
  if source.phase = .finished then .closed
  else if source.cancelled then .closing
  else if source.body?.isSome then .opened
  else .connecting

structure Shows (source : Source) : Prop where
  state : source.state = source.shown
  unasked : source.phase = .unstarted → source.cancelled = false

theorem Shows.closed {source : Source} (shows : Shows source) :
    source.state = .closed ↔ source.phase = .finished := by
  rw [shows.state, shown]
  split
  next finished => simp [finished]
  next going =>
    simp only [going, iff_false]
    split
    next => nofun
    next => split <;> nofun

theorem Shows.going {source : Source} (shows : Shows source) (goes : source.isStopped = false)
    (unfinished : source.phase ≠ .finished) :
    source.state = if source.body?.isSome then .opened else .connecting := by
  rw [isStopped, Bool.or_eq_false_iff] at goes
  rw [shows.state, shown, if_neg unfinished, goes.1]
  rfl

theorem Shows.finish (source : Source) : Shows source.finish := ⟨rfl, nofun⟩

structure Stands (source next : Source) : Prop where
  state : next.state = source.state
  cancelled : next.cancelled = source.cancelled
  unstarted : next.phase = .unstarted → source.phase = .unstarted
  finished : next.phase = .finished ↔ source.phase = .finished
  body : next.body?.isSome = source.body?.isSome

theorem Shows.stands {source next : Source} (shows : Shows source) (stands : Stands source next) :
    Shows next := by
  refine ⟨?_, fun unstarted => stands.cancelled.trans (shows.unasked (stands.unstarted unstarted))⟩
  rw [stands.state, shows.state, shown, shown]
  simp only [stands.finished, stands.cancelled, stands.body]

theorem Stands.refl (source : Source) : Stands source source := ⟨rfl, rfl, id, Iff.rfl, rfl⟩

theorem Stands.of_phase {source next : Source} (state : next.state = source.state)
    (cancelled : next.cancelled = source.cancelled) (phase : next.phase = source.phase) :
    Stands source next :=
  ⟨state, cancelled, fun same => phase.symm.trans same, by rw [phase], by rw [body?, phase]; rfl⟩

theorem abandon_stands (source : Source) : Stands source source.abandon := by
  unfold abandon
  split
  next phase => exact ⟨rfl, rfl, nofun, by simp [phase], by simp [body?, phase]⟩
  next => exact .refl source

theorem receive_stands (source : Source) : Stands source source.receive.2 := by
  unfold receive
  split
  next => exact .refl source
  next => split <;> exact .of_phase rfl rfl rfl

theorem respond_stands (source : Source) (answer : Answer) :
    Stands source (source.respond answer) := by
  unfold respond
  split
  next phase => exact ⟨rfl, rfl, by simp, by simp [phase], by simp [body?, phase]⟩
  next phase => exact ⟨rfl, rfl, by simp, by simp [phase], by simp [body?, phase]⟩
  next => exact .refl source

theorem updateFeed_stands (source : Source) (change : Feed → Feed) :
    Stands source (source.updateFeed change) := by
  unfold updateFeed
  split
  next phase => exact ⟨rfl, rfl, by simp, by simp [phase], by simp [body?, phase]⟩
  next phase => exact ⟨rfl, rfl, by simp, by simp [phase], by simp [body?, phase]⟩
  next => exact .refl source

theorem connecting_of_call {source : Source} {call : Call} (shows : Shows source)
    (goes : source.isStopped = false) (calls : source.call? = some call) :
    source.state = .connecting := by
  have unfinished : source.phase ≠ .finished := by
    intro finished
    rw [call?, finished] at calls
    cases calls
  rw [shows.going goes unfinished, (asked_only calls).1]
  rfl

theorem opened_of_body {source : Source} {body : Body} (shows : Shows source)
    (goes : source.isStopped = false) (held : source.body? = some body) :
    source.state = .opened := by
  have unfinished : source.phase ≠ .finished := by
    intro finished
    rw [body?, finished] at held
    cases held
  rw [shows.going goes unfinished, held]
  rfl

theorem close_started {source : Source} (started : source.phase ≠ .unstarted) :
    source.close = { source with
      state := if source.state.isShuttingDown then source.state else .closing
      cancelled := true } := by
  unfold close
  dsimp only
  split
  next phase => exact absurd phase started
  next => rfl

theorem transition_open {source : Source} (open_ : source.state.isShuttingDown = false)
    (next : ReadyState) : source.transition next = { source with state := next } := by
  rw [transition, open_]
  rfl

theorem retryAfter_shows {source : Source} (goes : source.isStopped = false)
    (open_ : source.state.isShuttingDown = false) (failures now : Nat) :
    Shows (source.retryAfter failures now) ∧
      ((source.retryAfter failures now).state = .connecting ∨
        (source.retryAfter failures now).state = .closed) := by
  rw [isStopped, Bool.or_eq_false_iff] at goes
  unfold retryAfter
  split
  next => exact ⟨.finish source, .inr rfl⟩
  next =>
    rw [transition_open open_]
    exact ⟨⟨by simp [shown, body?, goes.1], by simp⟩, .inl rfl⟩

end Source

namespace Session

/-- The ways of a state to the next one. Only closed has none. -/
inductive Edge : ReadyState → ReadyState → Prop where
  | opens : Edge .connecting .opened
  | loses : Edge .opened .connecting
  | asked {state : ReadyState} (open_ : state = .connecting ∨ state = .opened) : Edge state .closing
  | ends {state : ReadyState} (before : state ≠ .closed) : Edge state .closed

/-- How an action may change the state, and what makes it do so. -/
inductive Moves (session : Session) (action : Action) : ReadyState → ReadyState → Prop where
  | stays {state : ReadyState} : Moves session action state state
  | opens {call : Call} {response : Response} (turns : action = .turn)
      (attempt : session.source.call? = some call)
      (answered : call.answer = some (.response response)) (accepted : response.IsStream) :
      Moves session action .connecting .opened
  | loses {body : Body} (turns : action = .turn) (held : session.source.body? = some body)
      (past : body.polled.1 = .ended ∨ ∃ error, body.polled.1 = .failed error) :
      Moves session action .opened .connecting
  | asked {state : ReadyState} (closes : action = .close)
      (open_ : state = .connecting ∨ state = .opened) : Moves session action state .closing
  | ends {state : ReadyState} (before : state ≠ .closed) : Moves session action state .closed

theorem Moves.edge {session : Session} {action : Action} {before after : ReadyState}
    (moves : Moves session action before after) : before = after ∨ Edge before after := by
  cases moves with
  | stays => exact .inl rfl
  | opens => exact .inr .opens
  | loses => exact .inr .loses
  | asked _ open_ => exact .inr (.asked open_)
  | ends before => exact .inr (.ends before)

theorem moves_closed (session : Session) (action : Action) (state : ReadyState) :
    Moves session action state .closed := by
  by_cases closed : state = .closed
  · rw [closed]
    exact .stays
  · exact .ends closed

/-- What an action leaves of the state, and the cause if it left another one. -/
structure Passed (session : Session) (action : Action) : Prop where
  shows : Source.Shows (session.act action).source
  moves : Moves session action session.source.state (session.act action).source.state

theorem passed_stands {session : Session} (shows : Source.Shows session.source) {action : Action}
    (stands : Source.Stands session.source (session.act action).source) : Passed session action :=
  ⟨shows.stands stands, stands.state ▸ .stays⟩

theorem passed_finish {session : Session} {action : Action} {before : Source}
    (finished : (session.act action).source = before.finish) : Passed session action := by
  refine ⟨finished ▸ .finish before, ?_⟩
  rw [finished]
  exact moves_closed _ _ _

section Turn

variable {session : Session} (shows : Source.Shows session.source)
  (goes : session.source.isStopped = false)
include shows goes

theorem opened_passed {call : Call} {body : Body} (attempt : session.source.call? = some call)
    (answer : session.source.outcome? call session.clock = some (.ok body))
    (reads : (session.act .turn).source = session.source.read body) : Passed session .turn := by
  have connecting := Source.connecting_of_call shows goes attempt
  have moved : session.source.read body =
      { session.source with state := .opened, phase := .reading body } := by
    rw [Source.read, Source.transition_open (by rw [connecting]; rfl)]
  rw [Source.isStopped, Bool.or_eq_false_iff] at goes
  obtain ⟨given, found, opens⟩ := Source.outcome_answered answer
  obtain ⟨response, rfl, accepted⟩ := body_of_answer opens
  rw [moved] at reads
  refine ⟨reads ▸ ⟨by simp [Source.shown, Source.body?, goes.1], by simp⟩, ?_⟩
  rw [reads, connecting]
  exact .opens rfl attempt found accepted

theorem failed_passed {call : Call} {failures : Nat}
    (phase : session.source.phase = .reconnecting failures call)
    (waits : (session.act .turn).source =
      session.source.retryAfter (failures + 1) session.clock) : Passed session .turn := by
  have connecting := Source.connecting_of_call shows goes (by rw [Source.call?, phase])
  obtain ⟨after, state⟩ := Source.retryAfter_shows goes (by rw [connecting]; rfl) (failures + 1)
    session.clock
  refine ⟨waits ▸ after, ?_⟩
  rw [waits, connecting]
  rcases state with again | closed
  · exact again ▸ .stays
  · exact closed ▸ .ends (by simp)

theorem lost_passed {body : Body} {poll : Poll} {decoder : Decoder} {feed : Feed}
    (phase : session.source.phase = .reading body)
    (polled : body.decoder.poll body.feed = (poll, decoder, feed))
    (ends : poll = .ended ∨ ∃ error, poll = .failed error)
    (waits : (session.act .turn).source =
      (session.source.learn decoder).retryAfter 0 session.clock) : Passed session .turn := by
  have held : session.source.body? = some body := by rw [Source.body?, phase]
  have opened := Source.opened_of_body shows goes held
  obtain ⟨after, state⟩ := @Source.retryAfter_shows (session.source.learn decoder) goes
    (by rw [Source.learn, opened]; rfl) 0 session.clock
  have past : body.polled.1 = .ended ∨ ∃ error, body.polled.1 = .failed error := by
    rwa [Body.polled, polled]
  refine ⟨waits ▸ after, ?_⟩
  rw [waits, opened]
  rcases state with again | closed
  · exact again ▸ .loses rfl held past
  · exact closed ▸ .ends (by simp)

end Turn

theorem turn_passed {session : Session} (shows : Source.Shows session.source) :
    Passed session .turn := by
  obtain ⟨turn, advances, source, -⟩ := turn_acts session
  have still (stands : Source.Stands session.source turn.source) : Passed session .turn :=
    passed_stands shows (source ▸ stands)
  cases advances with
  | idle => exact still (.refl _)
  | unanswered => exact still (.refl _)
  | full => exact still (.refl _)
  | sleeping => exact still (.refl _)
  | stopped => exact passed_finish source
  | refused => exact passed_finish source
  | unbuilt => exact passed_finish source
  | pending goes phase =>
    exact still ⟨rfl, rfl, by simp [Source.Turn.source], by simp [Source.Turn.source, phase],
      by simp [Source.Turn.source, Source.body?, phase]⟩
  | decoded goes phase =>
    exact still ⟨rfl, rfl, by simp [Source.Turn.source], by simp [Source.Turn.source, phase],
      by simp [Source.Turn.source, Source.body?, phase]⟩
  | handed goes phase =>
    exact still ⟨rfl, rfl, by simp [Source.Turn.source], by simp [Source.Turn.source, phase],
      by simp [Source.Turn.source, Source.body?, phase]⟩
  | called goes phase =>
    exact still ⟨rfl, rfl, by simp [Source.Turn.source], by simp [Source.Turn.source, phase],
      by simp [Source.Turn.source, Source.body?, phase]⟩
  | opened goes attempt answer => exact opened_passed shows goes attempt answer source
  | failed goes phase => exact failed_passed shows goes phase source
  | lost goes phase polled ends => exact lost_passed shows goes phase polled ends source

theorem close_passed {session : Session} (shows : Source.Shows session.source) :
    Passed session .close := by
  have source : (session.act .close).source = session.source.close := rfl
  by_cases unstarted : session.source.phase = .unstarted
  · have finished : session.source.close = { session.source with cancelled := true }.finish := by
      simp only [Source.close, unstarted]
      rfl
    exact passed_finish (source.trans finished)
  · rw [Source.close_started unstarted] at source
    -- What is shown of a source that was asked: the state itself, if it was left before.
    have shown : (session.act .close).source.shown =
        if session.source.phase = .finished then .closed else .closing := by
      rw [source]
      simp [Source.shown]
    have state : (session.act .close).source.state =
        if session.source.state.isShuttingDown then session.source.state else .closing := by
      rw [source]
    have started : (session.act .close).source.phase ≠ .unstarted := by
      rw [source]
      exact unstarted
    by_cases finished : session.source.phase = .finished
    · have closed := shows.closed.mpr finished
      rw [closed] at state
      rw [if_pos finished] at shown
      refine ⟨⟨state.trans shown.symm, fun same => absurd same started⟩, ?_⟩
      rw [state]
      exact moves_closed _ _ _
    · have closing : (session.act .close).source.state = .closing := by
        rw [state]
        cases before : session.source.state with
        | closed => exact absurd (shows.closed.mp before) finished
        | _ => rfl
      rw [if_neg finished] at shown
      refine ⟨⟨closing.trans shown.symm, fun same => absurd same started⟩, ?_⟩
      rw [closing]
      cases before : session.source.state with
      | connecting => exact .asked rfl (.inl rfl)
      | opened => exact .asked rfl (.inr rfl)
      | closing => exact .stays
      | closed => exact absurd (shows.closed.mp before) finished

theorem act_passed {session : Session} (shows : Source.Shows session.source) (action : Action) :
    Passed session action := by
  cases action with
  | connect =>
    obtain ⟨connected, connects, source, -⟩ := connect_acts session
    cases connects with
    | late => exact passed_stands shows (source ▸ .refl _)
    | stopped => exact passed_finish source
    | unbuilt => exact passed_finish source
    | called phase =>
      exact passed_stands shows (source ▸
        ⟨rfl, rfl, by simp, by simp [phase], by simp [Source.body?, phase]⟩)
  | abandon => exact passed_stands shows (Source.abandon_stands _)
  | close => exact close_passed shows
  | receive => exact passed_stands shows (Source.receive_stands _)
  | leave => exact passed_stands shows (.of_phase rfl rfl rfl)
  | turn => exact turn_passed shows
  | elapse millis => exact passed_stands shows (.refl _)
  | respond answer => exact passed_stands shows (Source.respond_stands _ answer)
  | arrive arrival => exact passed_stands shows (Source.updateFeed_stands _ (·.push arrival))
  | endBody => exact passed_stands shows (Source.updateFeed_stands _ Feed.close)

theorem run_shows {config : Config} {source : Source}
    (created : Source.create config = .ok source) (actions : List Action) :
    Source.Shows ((start source).run actions).source := by
  refine @log_induction (fun session _ => Source.Shows session.source)
    (fun _ _ action shows => (act_passed shows action).shows) (start source) [] ?_ actions
  rw [create_eq created]
  exact ⟨rfl, fun _ => rfl⟩

def states (session : Session) : List Action → List ReadyState
  | [] => [session.source.state]
  | action :: rest => session.source.state :: (session.act action).states rest

theorem states_chain {session : Session} (shows : Source.Shows session.source)
    (actions : List Action) :
    ∃ later, session.states actions = session.source.state :: later ∧
      List.IsChain (fun before after => before = after ∨ Edge before after)
        (session.source.state :: later) := by
  induction actions generalizing session with
  | nil => exact ⟨[], rfl, .singleton _⟩
  | cons action actions ih =>
    have passed := act_passed shows action
    obtain ⟨later, same, chain⟩ := ih passed.shows
    refine ⟨(session.act action).source.state :: later, by rw [states, same], ?_⟩
    exact .cons_cons passed.moves.edge chain

/-- Once a close was asked for the state stays behind open for good, and to ask again is nothing. -/
theorem asked_shutting {session : Session} (shows : Source.Shows session.source)
    (asked : session.source.cancelled = true) :
    session.source.state.isShuttingDown = true ∧
      (∀ next, session.source.transition next = session.source) ∧
      session.act .close = session := by
  have shutting : session.source.state.isShuttingDown = true := by
    rw [shows.state, Source.shown, asked]
    split <;> rfl
  refine ⟨shutting, ?_, ?_⟩
  · intro next
    rw [Source.transition, if_pos shutting]
  · have started : session.source.phase ≠ .unstarted := by
      intro unstarted
      cases asked.symm.trans (shows.unasked unstarted)
    rw [act, Source.close_started started, if_pos shutting, ← asked, follow, List.append_nil]

theorem run_uncalled {session : Session} (stops : session.source.isStopped = true)
    (actions : List Action) :
    calls (session.run actions).history = calls session.history := by
  induction actions generalizing session with
  | nil => rfl
  | cons action actions ih =>
    have uncalled : calls (session.notes action) = [] := by
      by_contra called
      cases stops.symm.trans (call_empties called).1
    have first : calls (session.act action).history = calls session.history := by
      rw [act_history, calls_append, uncalled, List.append_nil]
    exact (ih (act_isStopped stops action)).trans first

/-- Over a whole run, with whatever in between: the states begin with connecting and follow the
edges. Each action takes an edge only for its cause: the state opens for an accepted answer, a
stream that is over leads back, and a close leads on to closing. Once a close was asked for the
transport is not called, the state is closing or closed, no turn that is under way can take it back,
and to ask again changes nothing. -/
theorem lifecycle_follows {config : Config} {source : Source}
    (created : Source.create config = .ok source) (actions : List Action) :
    let session := (start source).run actions
    (∃ later, (start source).states actions = .connecting :: later ∧
      List.IsChain (fun before after => before = after ∨ Edge before after)
        (.connecting :: later)) ∧
      (∀ action, Moves session action session.source.state (session.act action).source.state) ∧
      ∀ before after, actions = before ++ .close :: after →
        calls session.history = calls ((start source).run before).history ∧
          (session.source.state = .closing ∨ session.source.state = .closed) ∧
          (∀ next, session.source.transition next = session.source) ∧
          session.act .close = session := by
  intro session
  have shows := run_shows created actions
  refine ⟨?_, fun action => (act_passed shows action).moves, ?_⟩
  · have begins : (start source).source.state = .connecting := by
      rw [create_eq created]
      rfl
    obtain ⟨later, same, chain⟩ := states_chain (run_shows created []) actions
    exact ⟨later, begins ▸ same, begins ▸ chain⟩
  · rintro before after rfl
    have asked : session.source.cancelled = true := by
      rw [(run_keeps (start source) _).2.1]
      simp
    obtain ⟨shutting, unmoved, idle⟩ := asked_shutting shows asked
    refine ⟨?_, ?_, unmoved, idle⟩
    · have split : session = (((start source).run before).act .close).run after :=
        List.foldl_append
      have closing := (@act_quiet ((start source).run before) .close nofun nofun).calls
      rw [split, run_uncalled (act_asks _ (.inl rfl)), closing]
    · cases state : session.source.state with
      | closing => exact .inl rfl
      | closed => exact .inr rfl
      | connecting => rw [state] at shutting; cases shutting
      | opened => rw [state] at shutting; cases shutting

/-- A close while an accepted answer is there and the driver has yet to see it. -/
theorem lifecycle_follows_answered :
    let session := (start plainSource).run [.connect, .respond (streaming []), .close]
    Moves session .turn .closing .closed ∧ calls session.history = calls
        ((start plainSource).run [.connect, .respond (streaming [])]).history ∧
      session.act .close = session := by
  intro session
  obtain ⟨-, moves, asked⟩ :=
    lifecycle_follows create_plain [.connect, .respond (streaming []), .close]
  obtain ⟨uncalled, -, -, idle⟩ := asked [.connect, .respond (streaming [])] [] rfl
  refine ⟨?_, uncalled, idle⟩
  have states : session.source.state = .closing ∧ (session.act .turn).source.state = .closed := by
    decide +kernel
  have turn := moves .turn
  rwa [states.1, states.2] at turn

end Session

end EventStream
