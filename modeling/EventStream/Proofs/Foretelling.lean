import EventStream.Proofs.Chunking
import EventStream.Proofs.Schedule
import EventStream.Proofs.Truncation

/-!
What the interval that a source reports says about its next wait. The source takes over the interval
of a decoder when an event comes, and otherwise when the stream is lost, but the decoder follows
each line. So while a stream is open the source reports the interval that was in force at the last
event, and the wait that a loss would bring is that of all lines.
-/

namespace EventStream

namespace OnePass

variable {maxLine : Option Nat}

def shown (retry : Duration) (items : List Item) : Duration :=
  (items.getLast?.map Item.retry).getD retry

theorem shown_cons (retry : Duration) (item : Item) (items : List Item) :
    shown retry (item :: items) = shown item.retry items := by
  unfold shown
  rw [List.getLast?_cons]
  cases items.getLast? <;> rfl

theorem shown_append (retry : Duration) (first second : List Item) :
    shown retry (first ++ second) = shown (shown retry first) second := by
  unfold shown
  rw [List.getLast?_append]
  cases second.getLast? <;> rfl

/-- The lines up to the last one that brought an event: a front with all events, and the shortest
one of these. -/
structure UpToLast (maxLine : Option Nat) (last : Bytes) (state : State) (events : List Event)
    (before : List Bytes) : Prop where
  all : eventsOf maxLine last state before = events
  least : ∀ front, front <+: before → eventsOf maxLine last state front = events → front = before

theorem State.read_interval {state next : State} {line : Bytes} {event : Option Event}
    (read : state.read line = .ok (event, next)) :
    next.retry = (retryValue? line).elim state.retry .ofMillis := by
  have record := read_record state line
  rw [read] at record
  cases parses : Line.parse line with
  | error fault => rw [parses] at record; cases record
  | ok parsed =>
    rw [parses] at record
    have moves := read_retry parses state.record
    have same : state.record.read parsed = (event, next.record) := Except.ok.inj record
    rw [same] at moves
    exact moves

section Step

variable {last : Bytes} {state next : State} {line : Bytes} {before : List Bytes}

theorem upToLast_none (last : Bytes) (state : State) : UpToLast maxLine last state [] [] :=
  ⟨rfl, fun _ begun _ => List.prefix_nil.mp begun⟩

theorem UpToLast.silent {event : Event} {events : List Event}
    (up : UpToLast maxLine last next (event :: events) before)
    (fits : maxLine.filter (· < line.length) = none)
    (read : state.read line = .ok (none, next)) :
    UpToLast maxLine last state (event :: events) (line :: before) := by
  have goes (rest : List Bytes) :
      eventsOf maxLine last state (line :: rest) = eventsOf maxLine last next rest := by
    simp only [eventsOf, items, fits, read]
  refine ⟨by rw [goes, up.all], ?_⟩
  intro front begun same
  cases front with
  | nil => cases same
  | cons first front =>
    obtain ⟨rfl, within⟩ := List.cons_prefix_cons.mp begun
    rw [goes] at same
    rw [up.least front within same]

theorem UpToLast.brings {event : Event} {events : List Event}
    (up : UpToLast maxLine event.id next events before)
    (fits : maxLine.filter (· < line.length) = none)
    (read : state.read line = .ok (some event, next)) :
    UpToLast maxLine last state (event :: events) (line :: before) := by
  have goes (rest : List Bytes) :
      eventsOf maxLine last state (line :: rest) = event :: eventsOf maxLine event.id next rest := by
    simp only [eventsOf, items, fits, read]
    rfl
  refine ⟨by rw [goes, up.all], ?_⟩
  intro front begun same
  cases front with
  | nil => cases same
  | cons first front =>
    obtain ⟨rfl, within⟩ := List.cons_prefix_cons.mp begun
    rw [goes, List.cons.injEq] at same
    rw [up.least front within same.2]

end Step

/-- What is known of a pass that got through all lines and waits behind them. It gave events and
nothing else, and the last item tells of the interval behind the line that brought it. -/
structure Waited (maxLine : Option Nat) (last : Bytes) (state : State) (lines : List Bytes)
    (given : List Item) (now : Duration) : Prop where
  events : ∀ item ∈ given, ∃ event, item.event? = some event
  now : now = interval state.retry lines
  upTo : ∃ before after, lines = before ++ after ∧
    UpToLast maxLine last state (given.filterMap Item.event?) before ∧
    shown state.retry given = interval state.retry before

section Waited

variable {last id : Bytes} {state next : State} {line : Bytes} {lines : List Bytes}
  {given : List Item} {now : Duration}

theorem waited_nil : Waited maxLine last state [] [] state.retry :=
  ⟨List.forall_mem_nil _, rfl, [], [], rfl, upToLast_none last state, rfl⟩

theorem Waited.silent (waited : Waited maxLine last next lines given now)
    (fits : maxLine.filter (· < line.length) = none) (read : state.read line = .ok (none, next)) :
    Waited maxLine last state (line :: lines) given now := by
  have moves := State.read_interval read
  obtain ⟨before, after, whole, up, told⟩ := waited.upTo
  rw [moves] at told
  refine ⟨waited.events, by rw [waited.now, moves, interval_cons], ?_⟩
  cases given with
  | nil => exact ⟨[], line :: lines, rfl, upToLast_none last state, rfl⟩
  | cons item rest =>
    obtain ⟨event, brought⟩ := waited.events item List.mem_cons_self
    rw [List.filterMap_cons_some brought] at up ⊢
    refine ⟨line :: before, after, by rw [whole]; rfl, up.silent fits read, ?_⟩
    rw [interval_cons, ← told, shown_cons, shown_cons]

theorem Waited.brings {event : Event} (waited : Waited maxLine event.id next lines given now)
    (fits : maxLine.filter (· < line.length) = none)
    (read : state.read line = .ok (some event, next)) :
    Waited maxLine last state (line :: lines) (⟨.event event, event.id, next.retry⟩ :: given)
      now := by
  have moves := State.read_interval read
  obtain ⟨before, after, whole, up, told⟩ := waited.upTo
  refine ⟨List.forall_mem_cons.mpr ⟨⟨event, rfl⟩, waited.events⟩,
    by rw [waited.now, moves, interval_cons], ?_⟩
  refine ⟨line :: before, after, by rw [whole]; rfl, up.brings fits read, ?_⟩
  rw [shown_cons, told, moves, interval_cons]

end Waited

theorem waited_lines {last id : Bytes} {state : State} {lines : List Bytes} {left : Bytes}
    {sequel : Sequel} {given : List Item} {now : Duration}
    (waits : goOn (behind maxLine left sequel) (items maxLine last state lines) =
      given ++ [⟨.pending, id, now⟩]) : Waited maxLine last state lines given now := by
  have unended (error : DecodeError) (last : Bytes) (retry : Duration) (given : List Item) :
      [⟨.failed error, last, retry⟩, ⟨.ended, last, retry⟩] ≠
        given ++ [(⟨.pending, id, now⟩ : Item)] := by
    intro same
    have final := congrArg List.getLast? same
    rw [List.getLast?_concat] at final
    cases final
  induction lines generalizing last state given with
  | nil =>
    simp only [items, goOn, behind] at waits
    split at waits
    next => exact absurd waits (unended _ _ _ _)
    next =>
      cases sequel with
      | breaks message => exact absurd waits (unended _ _ _ _)
      | stays =>
        cases given with
        | nil => cases waits; exact waited_nil
        | cons item given => simp [Sequel.items] at waits
  | cons line rest ih =>
    unfold items at waits
    split at waits
    next => exact absurd waits (unended _ _ _ _)
    next fits =>
      split at waits
      next => exact absurd waits (unended _ _ _ _)
      next event next read =>
        cases given with
        | nil => cases waits
        | cons item given =>
          obtain ⟨rfl, later⟩ := List.cons.inj waits
          exact (ih later).brings fits read
      next next read => exact (ih waits).silent fits read

theorem suspended_waited {resumeId id bytes : Bytes} {retry now : Duration} {sequel : Sequel}
    {given : List Item}
    (waits : suspended maxLine resumeId retry bytes sequel = given ++ [⟨.pending, id, now⟩]) :
    Waited maxLine resumeId (.start resumeId retry) (unmarked bytes).decided.1 given now := by
  unfold suspended at waits
  split at waits
  next undecided =>
    rw [Decoder.undecided_opening undecided]
    have empty : goOn (behind maxLine [] sequel)
        (items maxLine resumeId (.start resumeId retry) []) = sequel.items resumeId retry := by
      cases maxLine <;> rfl
    exact waited_lines (empty.trans waits)
  next => exact waited_lines waits

theorem lines_unread {bytes : Bytes} (nothing : unread bytes = []) :
    (unmarked bytes).lines = (unmarked bytes).decided.1 := by
  unfold unread at nothing
  split at nothing
  next undecided =>
    rw [Decoder.undecided_opening undecided, nothing]
    rfl
  next =>
    have whole := Bytes.lines_decided (unmarked bytes) []
    have none : Bytes.lines [] = [] := rfl
    rwa [List.append_nil, List.append_nil, nothing, none, List.append_nil] at whole

end OnePass

theorem Item.harmless (item : Item) {event : Event} (brought : item.event? = some event) :
    item.poll.isFault = false := by
  rw [event?] at brought
  cases poll : item.poll with
  | event given => rfl
  | _ => rw [poll] at brought; cases brought

namespace Body

variable {body : Body}

theorem ended_run (ended : body.feed.ended = true) (steps : List Step) :
    (body.run steps).feed.ended = true := by
  induction steps generalizing body with
  | nil => exact ended
  | cons step rest ih =>
    apply ih
    cases step with
    | arrive arrival => exact ended
    | finish => rfl
    | poll => exact (Decoder.pollQueue_ended _ _ _ _).trans ended

theorem gave_steps (unended : body.Unended) {steps : List Step}
    (open_ : (body.run steps).feed.ended = false) :
    Gave body (body.run steps) (arrivals steps) (body.items steps) := by
  induction steps generalizing body with
  | nil => exact ⟨unended, fun _ => rfl, fun _ _ => rfl⟩
  | cons step rest ih =>
    cases step with
    | arrive arrival =>
      have first := gave_arrive unended arrival
      exact first.trans (ih first.unended open_)
    | finish =>
      have ended := @ended_run (body.step .finish) rfl rest
      cases ended.symm.trans open_
    | poll =>
      have first := gave_poll unended
      exact first.trans (ih first.unended open_)

end Body

theorem Decoder.Polls.waits {ended : Bool} {decoder next : Decoder} {queue left : List Arrival}
    {poll : Poll} (polls : Polls ended decoder queue poll next left) (waits : poll = .pending) :
    ended = false ∧ left = [] := by
  induction polls with
  | answered found => exact absurd waits (answer_ne_pending found)
  | pending idle open_ => exact ⟨open_, rfl⟩
  | finished idles past found => exact absurd waits (answer_ne_pending found)
  | broken idles => cases waits
  | chunk idles later ih => exact ih waits

namespace Stream

theorem waited {stream : Stream} {maxLine : Option Nat} {resumeId : Bytes} {retry : Duration}
    (started : stream.opened.decoder = .start maxLine resumeId retry)
    (sound : stream.body.decoder.Sound) {next : Decoder} {left : Feed}
    (polled : stream.body.decoder.poll stream.body.feed = (.pending, next, left))
    (nothing : next.lines.bytes = []) :
    OnePass.Waited maxLine resumeId (.start resumeId retry)
      (OnePass.unmarked (Session.arrived stream)).lines (stream.opened.items stream.steps)
      next.retry := by
  obtain ⟨polls, -⟩ := Decoder.poll_polls sound polled
  obtain ⟨open_, -⟩ := polls.waits rfl
  have opened : stream.opened.Unended := by
    refine ⟨started ▸ ⟨Decoder.sound_start _ _ _, rfl⟩, Bool.eq_false_iff.mpr fun ended => ?_⟩
    cases (Body.ended_run ended stream.steps).symm.trans open_
  have gave := Body.gave_steps opened open_
  have brings := polls.brings open_ gave.unended.growing
  obtain ⟨item, rest⟩ := brings.last (.inl rfl)
  obtain ⟨prospect, unread⟩ := OnePass.prospect_start maxLine resumeId retry
    (stream.opened.feed.queued ++ Body.arrivals stream.steps)
  have waits : OnePass.suspended maxLine resumeId retry (Session.arrived stream)
      (Sequel.ofArrivals (stream.opened.feed.queued ++ Body.arrivals stream.steps)) =
        stream.opened.items stream.steps ++ [⟨.pending, next.lastEventId, next.retry⟩] := by
    have whole := (gave.prospect []).trans (congrArg _ (brings.prospect []))
    rw [List.append_nil, List.append_nil, item, Body.prospect, started, prospect] at whole
    exact whole
  have decided := OnePass.suspended_waited waits
  have harmless : Body.Harmless (stream.opened.items stream.steps) := by
    intro item inside
    obtain ⟨event, brought⟩ := decided.events item inside
    exact item.harmless brought
  have left := (brings.leftover rfl []).trans (gave.leftover harmless [])
  rw [List.append_nil, List.append_nil, rest, nothing, Body.leftover, started, unread] at left
  have whole : (OnePass.unmarked (Session.arrived stream)).lines =
      (OnePass.unmarked (Session.arrived stream)).decided.1 := OnePass.lines_unread left.symm
  rw [whole]
  exact decided

end Stream

namespace Decoder

theorem poll_idles {decoder next : Decoder} {feed left : Feed} (sound : decoder.Sound)
    (polled : decoder.poll feed = (.pending, next, left)) (nothing : feed.queued = []) :
    decoder.answer = (none, next) := by
  obtain ⟨polls, -⟩ := poll_polls sound polled
  rw [nothing] at polls
  generalize left.queued = rest at polls
  cases polls with
  | answered found => exact absurd rfl (answer_ne_pending found)
  | pending idle => exact idle
  | finished idles past found => exact absurd rfl (answer_ne_pending found)

theorem answer_empty {decoder next : Decoder} (idles : decoder.answer = (none, next))
    (empty : decoder.lines.bytes = []) : next.lines.bytes = [] ∧ next.retry = decoder.retry := by
  unfold answer at idles
  split at idles
  next => cases idles
  next => cases idles; exact ⟨empty, rfl⟩
  next =>
    rw [readLines_empty empty] at idles
    split at idles
    next found => cases found
    next found => cases found
    next found =>
      cases found
      rw [← (Prod.mk.inj idles).2]
      exact ⟨empty, rfl⟩

theorem finish_empty {decoder : Decoder} (empty : decoder.lines.bytes = []) :
    ∃ next, decoder.finish.answer = (some .ended, next) ∧ next.retry = decoder.retry := by
  have nothing : decoder.finish.lines.bytes = [] := empty
  unfold answer
  rw [readLines_empty nothing]
  exact ⟨_, rfl, rfl⟩

theorem poll_over {decoder next : Decoder} (idles : decoder.answer = (none, next))
    (empty : decoder.lines.bytes = []) {feed : Feed} (nothing : feed.queued = []) :
    ∃ last left, decoder.poll feed.close = (.ended, last, left) ∧ last.retry = decoder.retry := by
  obtain ⟨still, same⟩ := answer_empty idles empty
  obtain ⟨last, found, kept⟩ := finish_empty still
  refine ⟨last, ⟨[], true, feed.taken⟩, ?_, kept.trans same⟩
  rw [poll, show feed.close.queued = [] from nothing, pollQueue, idles]
  simp only [Feed.close, found]
  rfl

end Decoder

namespace Stream

def shown (stream : Stream) : Duration :=
  OnePass.shown stream.opened.decoder.retry (stream.opened.items stream.steps)

theorem shown_extend (stream : Stream) (steps : List Body.Step) :
    (stream.extend steps).shown = OnePass.shown stream.shown (stream.body.items steps) := by
  rw [shown, extend, Body.items_append, OnePass.shown_append]
  rfl

end Stream

namespace Session

def Shows (session : Session) (log : List Connection) : Prop :=
  ∀ body, session.source.body? = some body → ∃ request stream earlier,
    log = ⟨request, some stream⟩ :: earlier ∧ stream.body = body ∧
      session.source.retryMillis = stream.shown.counted

section Shows

variable {session : Session} {log : List Connection}

theorem shows_steps (shows : Shows session log) (logged : Logged session log) {action : Action}
    {body : Body} (held : session.source.body? = some body)
    (uncalled : calls (session.notes action) = [])
    (learns : ∀ shown : Duration, session.source.retryMillis = shown.counted →
      (session.act action).source.retryMillis =
        (OnePass.shown shown (body.items (session.steps action))).counted) :
    Shows (session.act action) (session.record action log) := by
  obtain ⟨request, stream, earlier, rfl, rfl, reports⟩ := shows body held
  have after := act_logged logged action
  rw [record_steps uncalled held] at after ⊢
  intro kept same
  obtain ⟨_, _, _, found, left⟩ := after.held kept same
  cases found
  exact ⟨request, _, earlier, rfl, left, by rw [Stream.shown_extend, learns _ reports]⟩

theorem shows_none (none : session.source.body? = Option.none) (log : List Connection) :
    Shows session log := by
  intro body held
  cases none.symm.trans held

theorem unheld_beside {source next : Source} (beside : Source.Beside source next)
    (unheld : source.body? = none) : next.body? = none := by
  cases beside.shifts with
  | stays same => rwa [Source.body?, same]
  | feeds before => rw [Source.body?, before] at unheld; cases unheld
  | feedsHeld before => rw [Source.body?, before] at unheld; cases unheld
  | asks _ after => rw [Source.body?, after]
  | ends _ after => rw [Source.body?, after]
  | abandons _ after => rw [Source.body?, after]
  | answers _ after => rw [Source.body?, after]
  | answersAgain _ after => rw [Source.body?, after]

theorem shows_beside (shows : Shows session log) (logged : Logged session log) {action : Action}
    (other : action ≠ .turn) : Shows (session.act action) (session.record action log) := by
  have beside := act_beside session other
  cases held : session.source.body? with
  | none => exact shows_none (unheld_beside beside held) _
  | some body =>
    refine shows_steps shows logged held ?_ ?_
    · refine act_uncalled other fun _ unstarted => ?_
      rw [Source.body?, unstarted] at held
      cases held
    · intro shown reports
      have nothing : body.items (session.steps action) = [] := by
        cases action with
        | turn => exact absurd rfl other
        | _ => rfl
      rw [beside.retryMillis, nothing]
      exact reports

theorem polled_shows (shows : Shows session log) (logged : Logged session log) {body : Body}
    {poll : Poll} {decoder : Decoder} {feed : Feed} (goes : session.source.isStopped = false)
    (phase : session.source.phase = .reading body)
    (polled : body.decoder.poll body.feed = (poll, decoder, feed))
    (uncalled : calls (session.notes .turn) = [])
    (learns : ∀ shown : Duration, session.source.retryMillis = shown.counted →
      (session.act .turn).source.retryMillis =
        (OnePass.shown shown (Decoder.given poll decoder)).counted) :
    Shows (session.act .turn) (session.record .turn log) := by
  have held : session.source.body? = some body := by rw [Source.body?, phase]
  have given : body.items (session.steps .turn) = Decoder.given poll decoder := by
    rw [polling_steps goes phase, Body.items, Body.items, List.append_nil, Body.gives, Body.polled,
      polled]
    cases poll <;> rfl
  exact shows_steps shows logged held uncalled (given ▸ learns)

theorem turn_shows {config : Config} {past : List Entry} (shows : Shows session log)
    (logged : Logged session log) (timed : Timed config session log past) :
    Shows (session.act .turn) (session.record .turn log) := by
  obtain ⟨turn, advances, source, notes⟩ := turn_acts session
  have drops (body : turn.source.body? = none) :
      Shows (session.act .turn) (session.record .turn log) := shows_none (source ▸ body) _
  have hands {body : Body} {event : Event} (phase : session.source.phase = .handing body event)
      (same : turn.source.retryMillis = session.source.retryMillis)
      (uncalled : calls turn.notes = []) : Shows (session.act .turn) (session.record .turn log) := by
    have idle : session.steps .turn = [] := steps_unpolled (by rw [Source.polls, phase])
    refine shows_steps shows logged (by rw [Source.body?, phase]) (notes ▸ uncalled) ?_
    intro shown reports
    rw [source, same, idle]
    exact reports
  cases advances with
  | idle absent => exact drops (Source.idle_only absent).2.1
  | unanswered _ asked => exact drops (Source.asked_only asked).1
  | sleeping _ phase => exact drops (by rw [Source.Turn.source, Source.body?, phase])
  | stopped => exact drops rfl
  | refused => exact drops rfl
  | unbuilt => exact drops rfl
  | called => exact drops rfl
  | failed => exact drops (Source.retryAfter_holds _ _ _).1
  | lost => exact drops (Source.retryAfter_holds _ _ _).1
  | full _ phase => exact hands phase rfl rfl
  | handed _ phase => exact hands phase rfl rfl
  | pending goes phase polled =>
    refine polled_shows shows logged goes phase polled (by rw [notes]; rfl) ?_
    intro shown reports
    rw [source]
    exact reports
  | decoded goes phase polled =>
    refine polled_shows shows logged goes phase polled (by rw [notes]; rfl) ?_
    intro shown reports
    rw [source]
    rfl
  | @opened call body _ asked answer =>
    obtain ⟨feed, rfl⟩ := Source.outcome_body answer
    obtain ⟨-, request, earlier, rfl⟩ := logged.asked call asked
    have unheld := (Source.asked_only asked).1
    have opened : (session.act .turn).source.body? = some
        ⟨.start session.source.config.maxLine call.resumeId session.source.retry, feed⟩ := by
      rw [source]
      rfl
    rw [record_opened (by rw [notes]; exact calls_tells _ _) unheld opened]
    intro body held
    cases opened.symm.trans held
    refine ⟨request, _, earlier, rfl, rfl, ?_⟩
    have kept := timed.kept unheld (hands_of_call asked)
    have fits : session.source.retryMillis ≤ counterMax := kept ▸ interval_le _ _
    have reads : (session.act .turn).source.retryMillis = session.source.retryMillis := by
      obtain ⟨state, moved⟩ := Source.transition_frame session.source .opened
      rw [source, Source.Turn.source, Source.read, moved]
    rw [reads]
    exact (counted_ofMillis fits).symm

end Shows

theorem run_shows_interval {config : Config} {source : Source}
    (created : Source.create config = .ok source) (actions : List Action) :
    Shows ((start source).run actions) ((start source).log actions []) := by
  refine (@chronicle_induction
    (fun session log past => session.source.config = config ∧ Logged session log ∧
      Timed config session log past ∧ Shows session log)
    ?_ (start source) [] [] ⟨?_, logged_start created, run_timed created [], ?_⟩ actions).2.2.2
  · rintro session log past action ⟨settings, logged, timed, shows⟩
    refine ⟨(act_keeps session action).1.trans settings, act_logged logged action,
      act_timed timed logged settings action, ?_⟩
    by_cases turns : action = .turn
    · subst turns
      exact turn_shows shows logged timed
    · exact shows_beside shows logged turns
  · rw [create_eq created]
    rfl
  · rw [create_eq created]
    exact shows_none rfl _

/-- The stream of the body that a run holds: it went on behind the last event of the earlier ones,
with the interval that these left, and the source reports what it shows. -/
theorem run_streams {config : Config} {source : Source}
    (created : Source.create config = .ok source) (actions : List Action) {body : Body}
    (held : ((start source).run actions).source.body? = some body) :
    ∃ request stream earlier,
      (start source).log actions [] = ⟨request, some stream⟩ :: earlier ∧ stream.body = body ∧
        stream.GoesOn ∧
        stream.opened.decoder = .start config.maxLine (lastId (yielded earlier))
          (.ofMillis (interval config earlier)) ∧
        ((start source).run actions).source.retryMillis = stream.shown.counted := by
  obtain ⟨request, stream, earlier, resumeId, entered, rfl, goesOn, started⟩ :=
    (run_timed created actions).held body held
  obtain ⟨_, _, _, same, -, shows⟩ := run_shows_interval created actions stream.body held
  cases entered.symm.trans same
  have suffix : ⟨request, some stream⟩ :: earlier <:+ (start source).log actions [] :=
    entered ▸ List.suffix_rfl
  have linked := (run_accounted created actions).logged.linked _ earlier suffix
  obtain ⟨retry, begun⟩ := linked.decoder stream rfl
  rw [(run_reaches created actions).1] at begun
  obtain rfl : resumeId = lastId (yielded earlier) :=
    congrArg Decoder.lastEventId (started.symm.trans begun)
  exact ⟨request, stream, earlier, entered, rfl, goesOn, started, shows⟩

theorem blocked_reading {session : Session} {body : Body}
    (phase : session.source.phase = .reading body) (goes : session.source.isStopped = false)
    (blocked : session.isBlocked = true) :
    ∃ decoder feed, body.decoder.poll body.feed = (.pending, decoder, feed) := by
  cases polled : body.decoder.poll body.feed with
  | mk poll state =>
    cases poll with
    | pending => exact ⟨state.1, state.2, rfl⟩
    | _ =>
      rw [isBlocked, Source.turn, phase] at blocked
      simp [Source.turnReading, goes, polled, Source.Turn.isBlocked] at blocked

theorem retryAfter_retryMillis (source : Source) (failures now : Nat) :
    (source.retryAfter failures now).retryMillis = source.retryMillis := by
  rcases source.retryAfter_cases failures now with done | ⟨state, waits⟩
  · rw [done]
    rfl
  · rw [waits]

/-- Unless no attempt is allowed at all, the first one behind a loss waits for the interval that the
source knows of. -/
theorem retryAfter_first {source : Source} (more : source.config.maxAttempts ≠ some 0) (now : Nat) :
    (source.retryAfter 0 now).phase = .waiting 0 (now + source.retryMillis) := by
  have unexhausted : source.isExhausted 0 = false := by
    rw [Source.isExhausted]
    cases limit : source.config.maxAttempts with
    | none => rfl
    | some attempts =>
      have some : attempts ≠ 0 := by
        rintro rfl
        exact more limit
      simp [some]
  rw [Source.retryAfter, unexhausted]
  rfl

theorem ends_reading {session : Session} {body : Body}
    (phase : session.source.phase = .reading body) (goes : session.source.isStopped = false)
    (sound : body.decoder.Sound) (blocked : session.isBlocked = true)
    (taken : body.feed.queued = []) (empty : body.decoder.lines.bytes = []) :
    let lost := (session.act .endBody).act .turn
    lost.source.retryMillis = body.decoder.retry.counted ∧
      (session.source.config.maxAttempts ≠ some 0 →
        lost.source.phase = .waiting 0 (session.clock + body.decoder.retry.counted)) := by
  intro lost
  obtain ⟨decoder, feed, polled⟩ := blocked_reading phase goes blocked
  obtain ⟨last, left, ended, same⟩ :=
    Decoder.poll_over (Decoder.poll_idles sound polled taken) empty taken
  let fed := (session.act .endBody).source
  have reads : fed.phase = .reading { body with feed := body.feed.close } := by
    simp [fed, act, follow, Source.updateFeed, phase]
  have keeps := act_keeps session .endBody
  have goesOn : fed.isStopped = false := by
    rw [Source.isStopped, keeps.2.1, keeps.2.2, ← goes]
    simp [Source.isStopped]
  have turned : lost.source = (fed.learn last).retryAfter 0 session.clock := by
    have turn : fed.turn session.clock = .moved ((fed.learn last).retryAfter 0 session.clock) [] := by
      rw [Source.turn, reads]
      simp [Source.turnReading, goesOn, ended]
    exact congrArg Source.Turn.source turn
  have learnt : (fed.learn last).retryMillis = body.decoder.retry.counted :=
    congrArg Duration.counted same
  have settings : (fed.learn last).config = session.source.config := keeps.1
  rw [turned, ← learnt, ← settings]
  exact ⟨retryAfter_retryMillis _ _ _, fun more => retryAfter_first more _⟩

theorem interval_counted {millis : Nat} (fits : millis ≤ counterMax) (lines : List Bytes) :
    (OnePass.interval (.ofMillis millis) lines).counted =
      (lines.filterMap OnePass.retryValue?).getLast?.getD millis := by
  unfold OnePass.interval
  cases found : (lines.filterMap OnePass.retryValue?).getLast? with
  | none => exact counted_ofMillis fits
  | some value =>
    obtain ⟨line, -, valid⟩ := List.mem_filterMap.mp (List.mem_of_getLast? found)
    exact counted_ofMillis (OnePass.retryValue?_le valid)

/-- Over a whole run, whenever the driver waits for a body with no line begun: the interval that the
source reports is the one that the lines up to that of the last event have put in force. The wait
that the end of the body would bring is as long as all lines say. So the source tells the next wait
exactly when no line behind the last event gives an interval, or the last one that does gives the
reported one. -/
theorem retry_foretells_iff {config : Config} {source : Source}
    (created : Source.create config = .ok source) (actions : List Action) :
    let session := (start source).run actions
    let lost := (session.act .endBody).act .turn
    ∀ body, session.source.phase = .reading body → session.source.isStopped = false →
      session.isBlocked = true → body.feed.queued = [] → body.decoder.lines.bytes = [] →
      ∃ request stream earlier before after,
        (start source).log actions [] = ⟨request, some stream⟩ :: earlier ∧ stream.body = body ∧
        (OnePass.unmarked (arrived stream)).lines = before ++ after ∧
        OnePass.UpToLast config.maxLine (lastId (yielded earlier))
          (.start (lastId (yielded earlier)) (.ofMillis (interval config earlier)))
          stream.events before ∧
        session.source.retryMillis =
          (before.filterMap OnePass.retryValue?).getLast?.getD (interval config earlier) ∧
        lost.source.retryMillis =
          ((before ++ after).filterMap OnePass.retryValue?).getLast?.getD
            (interval config earlier) ∧
        (config.maxAttempts ≠ some 0 →
          lost.source.phase = .waiting 0 (session.clock + lost.source.retryMillis)) ∧
        (session.source.retryMillis = lost.source.retryMillis ↔
          ∀ millis, (after.filterMap OnePass.retryValue?).getLast? = some millis →
            millis = session.source.retryMillis) := by
  intro session lost body phase goes blocked taken empty
  have held : session.source.body? = some body := by rw [Source.body?, phase]
  obtain ⟨request, stream, earlier, entered, rfl, goesOn, started, shows⟩ :=
    run_streams created actions held
  have fits := interval_le config earlier
  obtain ⟨decoder, feed, polled⟩ := blocked_reading phase goes blocked
  obtain ⟨still, kept⟩ :=
    Decoder.answer_empty (Decoder.poll_idles goesOn.sound polled taken) empty
  have waited := stream.waited started goesOn.sound polled still
  obtain ⟨before, after, lines, upTo, told⟩ := waited.upTo
  obtain ⟨learns, waits⟩ := ends_reading phase goes goesOn.sound blocked taken empty
  have reported : session.source.retryMillis =
      (before.filterMap OnePass.retryValue?).getLast?.getD (interval config earlier) := by
    rw [← interval_counted fits before]
    rw [shows, Stream.shown, started]
    exact congrArg Duration.counted told
  have ends : lost.source.retryMillis =
      ((before ++ after).filterMap OnePass.retryValue?).getLast?.getD
        (interval config earlier) := by
    rw [← interval_counted fits, ← lines, learns, ← kept, waited.now]
    rfl
  refine ⟨request, stream, earlier, before, after, entered, rfl, lines, upTo, reported, ends, ?_, ?_⟩
  · rw [(run_reaches created actions).1] at waits
    exact fun more => learns ▸ waits more
  · rw [ends, List.filterMap_append, List.getLast?_append, reported]
    cases (after.filterMap OnePass.retryValue?).getLast? with
    | none => simp
    | some millis => simp [eq_comm]

/-- A server asked for another interval in a record without data. The source reports the old one,
and will wait for as long as the new one says. -/
theorem retry_misleads :
    let session := (start plainSource).run
      [.connect, .respond (streaming (Bytes.ofText "retry:7\n\n")), .turn, .turn]
    let lost := (session.act .endBody).act .turn
    session.source.state = .opened ∧ session.source.isStopped = false ∧ session.isBlocked = true ∧
      session.source.body?.map (fun body => (body.decoder.lines.bytes, body.feed.queued)) =
        some ([], []) ∧
      session.source.retry = .ofMillis 3000 ∧
      lost.source.phase = .waiting 0 (session.clock + 7) := by
  decide +kernel

/-- The event is decoded and handed over, and the interval behind it is not learnt so far. -/
theorem retry_foretells_announced :
    let announced := Bytes.ofText "retry:5\ndata:a\n\nretry:7\n\n"
    let session := (start plainSource).run
      [.connect, .respond (streaming announced), .turn, .turn, .turn, .turn]
    let lost := (session.act .endBody).act .turn
    session.source.retryMillis = 5 ∧ lost.source.retryMillis = 7 ∧
      lost.source.phase = .waiting 0 (session.clock + lost.source.retryMillis) ∧
      ∃ after : List Bytes, ∃ millis,
        (after.filterMap OnePass.retryValue?).getLast? = some millis ∧ millis ≠ 5 := by
  intro announced session lost
  have reports : session.source.retryMillis = 5 := by decide +kernel
  have waits : lost.source.retryMillis = 7 := by decide +kernel
  obtain ⟨-, -, -, -, after, -, -, -, -, -, -, sleeps, agrees⟩ :=
    retry_foretells_iff create_plain
      [.connect, .respond (streaming announced), .turn, .turn, .turn, .turn]
      ⟨⟨⟨[], 0, none, false⟩, ⟨[], [], none, .ofMillis 7⟩, [], .reading⟩, ⟨[], false, 1⟩⟩
      (by decide +kernel) (by decide +kernel) (by decide +kernel) rfl rfl
  refine ⟨reports, waits, sleeps nofun, after, ?_⟩
  by_contra quiet
  have same : session.source.retryMillis = lost.source.retryMillis := by
    apply agrees.mpr
    intro millis last
    by_contra other
    exact quiet ⟨millis, last, reports ▸ other⟩
  rw [reports, waits] at same
  cases same

end Session

end EventStream
