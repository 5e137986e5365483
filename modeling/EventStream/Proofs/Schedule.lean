import EventStream.Proofs.Chronicle
import EventStream.Proofs.Interval

/-!
When a source goes back to its server. Each wait lasts as long as the interval that the lines read
so far have put in force, over all streams. On a clock that waits for the driver whenever it can go
on, the calls are made at the very end of the waits.
-/

namespace EventStream

theorem counted_ofMillis {millis : Nat} (fits : millis ≤ counterMax) :
    (Duration.ofMillis millis).counted = millis := by
  have whole : (Duration.ofMillis millis).millis = millis :=
    Nat.mul_div_cancel millis (by decide)
  rw [Duration.counted, whole, Nat.min_eq_right fits]

namespace Session

def passed : List Connection → List Bytes
  | [] => []
  | connection :: earlier => passed earlier ++ connection.stream.elim [] Stream.passed

/-- The interval in force, in milliseconds: the value of the last valid retry field, or the one of
the settings before there was any. -/
def interval (config : Config) (log : List Connection) : Nat :=
  ((passed log).filterMap OnePass.retryValue?).getLast?.getD config.retry.counted

theorem interval_asked (config : Config) (request : Request) (log : List Connection) :
    interval config (⟨request, none⟩ :: log) = interval config log := by
  have lines : passed (⟨request, none⟩ :: log) = passed log := List.append_nil _
  rw [interval, interval, lines]

theorem interval_le (config : Config) (log : List Connection) :
    interval config log ≤ counterMax := by
  unfold interval
  cases found : ((passed log).filterMap OnePass.retryValue?).getLast? with
  | none => exact Nat.min_le_left _ _
  | some millis =>
    obtain ⟨line, -, valid⟩ := List.mem_filterMap.mp (List.mem_of_getLast? found)
    exact OnePass.retryValue?_le valid

theorem interval_stream (config : Config) (request : Request) (stream : Stream)
    (earlier : List Connection) :
    OnePass.interval (.ofMillis (interval config earlier)) stream.passed =
      .ofMillis (interval config (⟨request, some stream⟩ :: earlier)) := by
  have lines : passed (⟨request, some stream⟩ :: earlier) = passed earlier ++ stream.passed := rfl
  rw [OnePass.interval, interval, interval, lines, List.filterMap_append, List.getLast?_append]
  cases (stream.passed.filterMap OnePass.retryValue?).getLast? <;> rfl

/-- What holds of the times of a session at any moment, with the log and the chronicle beside it.
The stream that is held began with the interval in force before it, and without a stream the source
has the interval itself. A wait ends an interval after what it began with, and an attempt has its
deadline. -/
structure Timed (config : Config) (session : Session) (log : List Connection) (past : List Entry) :
    Prop where
  held : ∀ body, session.source.body? = some body → ∃ request stream earlier resumeId,
    log = ⟨request, some stream⟩ :: earlier ∧ stream.body = body ∧ stream.GoesOn ∧
      stream.opened.decoder = .start config.maxLine resumeId (.ofMillis (interval config earlier))
  kept : session.source.body? = none → session.source.mayHand = true →
    session.source.retryMillis = interval config log
  waits : ∀ failures wake, session.source.phase = .waiting failures wake →
    ∃ entry earlier, past = entry :: earlier ∧ (entry.kind = .loses ∨ entry.kind = .fails) ∧
      wake = entry.time + interval config log
  asks : ∀ call, session.source.call? = some call → ∃ time earlier,
    past = ⟨time, .called⟩ :: earlier ∧ call.deadline = time + config.connectTimeout.millisUp
  fresh : session.source.phase = .unstarted → past = []

structure Keeps (source next : Source) : Prop where
  body : next.body? = source.body?
  asks : ∀ call, next.call? = some call →
    ∃ before, source.call? = some before ∧ before.deadline = call.deadline
  waits : ∀ failures wake, next.phase = .waiting failures wake →
    source.phase = .waiting failures wake
  retryMillis : next.retryMillis = source.retryMillis
  hands : next.mayHand = true → source.mayHand = true
  fresh : next.phase = .unstarted → source.phase = .unstarted

theorem Keeps.of_phase {source next : Source} (phase : next.phase = source.phase)
    (retryMillis : next.retryMillis = source.retryMillis) : Keeps source next := by
  refine ⟨by rw [Source.body?, phase]; rfl, ?_, ?_, retryMillis, ?_, phase.symm.trans⟩
  · intro call same
    exact ⟨call, by rwa [Source.call?, phase] at same, rfl⟩
  · intro failures wake same
    exact phase.symm.trans same
  · intro hands
    rwa [Source.mayHand, phase] at hands

theorem keeps_of_beside {source next : Source} (beside : Source.Beside source next)
    (passes : Passes source next) : Keeps source next := by
  have retry := beside.retryMillis
  cases beside.shifts with
  | stays same => exact .of_phase same retry
  | asks before after =>
    obtain ⟨call, asked, -⟩ := passes.asked _ (show next.call? = some _ by rw [Source.call?, after])
    rw [Source.call?, before] at asked
    cases asked
  | ends before after =>
    exact ⟨passes.body, of_none (by rw [Source.call?, after]), by simp [after], retry,
      by simp [Source.mayHand, after], by simp [after]⟩
  | abandons before after =>
    exact ⟨passes.body, of_none (by rw [Source.call?, after]), by simp [after], retry,
      by simp [Source.mayHand, after], by simp [after]⟩
  | answers before after =>
    exact ⟨passes.body, by simp [Source.call?, before, after], by simp [after], retry,
      by simp [Source.mayHand, before], by simp [after]⟩
  | answersAgain before after =>
    exact ⟨passes.body, by simp [Source.call?, before, after], by simp [after], retry,
      by simp [Source.mayHand, before], by simp [after]⟩
  | feeds before after =>
    exact ⟨passes.body, of_none (by rw [Source.call?, after]), by simp [after], retry,
      by simp [Source.mayHand, before], by simp [after]⟩
  | feedsHeld before after =>
    exact ⟨passes.body, of_none (by rw [Source.call?, after]), by simp [after], retry,
      by simp [Source.mayHand, before], by simp [after]⟩

theorem timed_finished {session : Session} (phase : session.source.phase = .finished)
    (config : Config) (log : List Connection) (past : List Entry) :
    Timed config session log past := by
  refine ⟨of_none (by rw [Source.body?, phase]), ?_, by simp [phase],
    of_none (by rw [Source.call?, phase]), by simp [phase]⟩
  simp [Source.mayHand, phase]

theorem timed_waits {config : Config} {session : Session} {source : Source} {failures now : Nat}
    {entry : Entry} {log : List Connection} {past : List Entry}
    (after : session.source = source.retryAfter failures now) (time : entry.time = now)
    (gone : entry.kind = .loses ∨ entry.kind = .fails)
    (retry : source.retryMillis = interval config log) :
    Timed config session log (entry :: past) := by
  rcases source.retryAfter_cases failures now with same | ⟨state, same⟩
  · exact timed_finished (by rw [after, same]; rfl) config log _
  · rw [same] at after
    refine ⟨of_none (by rw [after]; rfl), ?_, ?_, of_none (by rw [after]; rfl), ?_⟩
    · intro _ _
      rw [after]
      exact retry
    · intro others wake phase
      rw [after] at phase
      cases phase
      exact ⟨entry, past, rfl, gone, by rw [time, retry]⟩
    · intro phase
      rw [after] at phase
      cases phase

theorem timed_reads {config : Config} {session : Session} {body : Body} {request : Request}
    {stream : Stream} {earlier : List Connection} {resumeId : Bytes}
    (held : session.source.body? = some body) (whole : stream.body = body) (goes : stream.GoesOn)
    (started : stream.opened.decoder =
      .start config.maxLine resumeId (.ofMillis (interval config earlier))) (past : List Entry) :
    Timed config session (⟨request, some stream⟩ :: earlier) past := by
  refine ⟨?_, ?_, ?_, of_none (Source.body_only held), ?_⟩
  · intro other same
    cases held.symm.trans same
    exact ⟨request, stream, earlier, resumeId, rfl, whole, goes, started⟩
  · intro unheld
    cases held.symm.trans unheld
  · intro failures wake phase
    rw [Source.body?, phase] at held
    cases held
  · intro phase
    rw [Source.body?, phase] at held
    cases held

section Timed

variable {config : Config} {session : Session} {action : Action} {log : List Connection}
  {past : List Entry} (timed : Timed config session log past)
include timed

theorem timed_keeps (keeps : Keeps session.source (session.act action).source)
    (idle : ∀ body, session.source.body? = some body → session.steps action = [])
    (uncalled : calls (session.notes action) = [])
    (nothing : session.happening? action = none) :
    Timed config (session.act action) (session.record action log) (session.enter action past) := by
  rw [record_same uncalled idle keeps.body.trans, enter_none nothing]
  refine ⟨fun body held => timed.held body (keeps.body ▸ held), ?_, ?_, ?_, ?_⟩
  · intro unheld hands
    exact keeps.retryMillis.trans (timed.kept (keeps.body ▸ unheld) (keeps.hands hands))
  · exact fun failures wake phase => timed.waits failures wake (keeps.waits failures wake phase)
  · intro call asked
    obtain ⟨before, found, deadline⟩ := keeps.asks call asked
    exact deadline ▸ timed.asks before found
  · exact fun phase => timed.fresh (keeps.fresh phase)

theorem timed_called (settings : session.source.config = config) {now : Nat} {request : Request}
    {call : Call}
    (unheld : session.source.body? = none) (hands : session.source.mayHand = true)
    (built : session.source.call session.clock = .ok (request, call))
    (unopened : (session.act action).source.body? = none)
    (asked : (session.act action).source.call? = some call)
    (retry : (session.act action).source.retryMillis = session.source.retryMillis)
    (called : session.notes action = [.called now request]) :
    Timed config (session.act action) (session.record action log)
      (session.enter action past) := by
  have entered : session.record action log = ⟨request, none⟩ :: log :=
    record_called (by rw [called]; rfl) unheld unopened
  have happened : session.enter action past = ⟨session.clock, .called⟩ :: past :=
    enter_some (happening_called (by rw [called]; nofun)) past
  rw [entered, happened]
  refine ⟨of_none unopened, ?_, ?_, ?_, ?_⟩
  · intro _ _
    rw [retry, interval_asked]
    exact timed.kept unheld hands
  · intro failures wake phase
    rw [Source.call?, phase] at asked
    cases asked
  · intro other same
    cases asked.symm.trans same
    refine ⟨session.clock, past, rfl, ?_⟩
    unfold Source.call at built
    split at built
    next => cases built
    next => cases built; rw [settings]
  · intro phase
    rw [Source.call?, phase] at asked
    cases asked

theorem timed_steps {body : Body} (held : session.source.body? = some body)
    (kept : (session.act action).source.body? = some (body.run (session.steps action)))
    (goes : ∀ stream : Stream, stream.body = body → stream.GoesOn →
      (stream.extend (session.steps action)).GoesOn)
    (uncalled : calls (session.notes action) = []) :
    Timed config (session.act action) (session.record action log)
      (session.enter action past) := by
  obtain ⟨request, stream, earlier, resumeId, rfl, whole, before, started⟩ := timed.held body held
  rw [record_steps uncalled held]
  exact timed_reads kept (by rw [Stream.body_extend, whole]) (goes stream whole before) started _

end Timed

theorem hands_of_call {source : Source} {call : Call} (asked : source.call? = some call) :
    source.mayHand = true := by
  unfold Source.call? at asked
  split at asked
  next phase => rw [Source.mayHand, phase]
  next phase => rw [Source.mayHand, phase]
  next => cases asked

theorem polling_steps {session : Session} {body : Body} (goes : session.source.isStopped = false)
    (phase : session.source.phase = .reading body) : session.steps .turn = [.poll] := by
  simp [steps, Source.polls, phase, goes]

section Turn

variable {config : Config} {session : Session} {log : List Connection} {past : List Entry}
  (timed : Timed config session log past)
include timed

theorem opened_timed (logged : Logged session log) (settings : session.source.config = config)
    {call : Call} {body : Body} (asked : session.source.call? = some call)
    (answer : session.source.outcome? call session.clock = some (.ok body))
    (reads : (session.act .turn).source = session.source.read body)
    (uncalled : calls (session.notes .turn) = []) :
    Timed config (session.act .turn) (session.record .turn log) (session.enter .turn past) := by
  obtain ⟨feed, rfl⟩ := Source.outcome_body answer
  obtain ⟨-, request, earlier, rfl⟩ := logged.asked call asked
  have unheld := (Source.asked_only asked).1
  have kept := timed.kept unheld (hands_of_call asked)
  have opened : (session.act .turn).source.body? = some
      ⟨.start session.source.config.maxLine call.resumeId session.source.retry, feed⟩ := by
    rw [reads]
    rfl
  have started : Decoder.start session.source.config.maxLine call.resumeId session.source.retry =
      .start config.maxLine call.resumeId (.ofMillis (interval config earlier)) := by
    rw [← interval_asked config request, ← kept, settings]
    rfl
  have fresh := @Stream.goesOn_opened ⟨.start session.source.config.maxLine call.resumeId
    session.source.retry, feed⟩ (Decoder.sound_start _ _ _) (by simp [Decoder.start]) rfl
  rw [record_opened uncalled unheld opened]
  exact timed_reads opened rfl fresh started _

variable (goes : session.source.isStopped = false)
include goes

theorem failed_timed {call : Call} {failure : Failure} {failures : Nat}
    (phase : session.source.phase = .reconnecting failures call)
    (answer : session.source.outcome? call session.clock = some (.error failure))
    (passing : failure.isPermanent = false)
    (waits : (session.act .turn).source = session.source.retryAfter (failures + 1) session.clock)
    (uncalled : calls (session.notes .turn) = []) :
    Timed config (session.act .turn) (session.record .turn log) (session.enter .turn past) := by
  have asked : session.source.call? = some call := by rw [Source.call?, phase]
  obtain ⟨happening, found, kind⟩ := happening_comes goes uncalled asked answer
  have idle : session.source.polls = false := by rw [Source.polls, phase]
  have unopened : (session.act .turn).source.body? = none := by
    rw [waits]
    exact (session.source.retryAfter_holds (failures + 1) session.clock).1
  have fails : happening.kind = .fails := by
    rw [kind, outcomeKind, passing]
    rfl
  rw [record_same uncalled (fun _ _ => steps_unpolled idle) fun _ => unopened, enter_some found]
  exact timed_waits waits rfl (.inr fails)
    (timed.kept (by rw [Source.body?, phase]) (hands_of_call asked))

/-- The driver learns the interval of a stream when it loses it. -/
theorem lost_timed {body : Body} {poll : Poll} {decoder : Decoder} {feed : Feed}
    (phase : session.source.phase = .reading body)
    (polled : body.decoder.poll body.feed = (poll, decoder, feed))
    (ends : poll = .ended ∨ ∃ error, poll = .failed error)
    (waits : (session.act .turn).source =
      (session.source.learn decoder).retryAfter 0 session.clock)
    (uncalled : calls (session.notes .turn) = []) :
    Timed config (session.act .turn) (session.record .turn log) (session.enter .turn past) := by
  obtain ⟨held, left, -⟩ := polling_turn goes phase polled
  obtain ⟨request, stream, earlier, resumeId, rfl, rfl, before, started⟩ := timed.held body held
  have found := happening_poll goes uncalled phase
  rw [Body.polled, polled] at found
  obtain ⟨error, loss⟩ := Poll.loss_found ends
  have last : stream.body.polled.1.isOver = true := by
    rw [Body.polled, polled]
    rcases ends with rfl | ⟨error, rfl⟩ <;> rfl
  have kept : (stream.extend [.poll]).body = ⟨decoder, feed⟩ := by
    rw [Stream.body_extend, ← polling_steps goes phase, left]
  have settled := before.settles started last
  rw [kept, interval_stream config request] at settled
  rw [record_steps uncalled held, polling_steps goes phase, enter_some (found.trans loss)]
  refine timed_waits waits rfl (.inl rfl) ?_
  rw [Source.learn]
  exact (congrArg Duration.counted settled).trans (counted_ofMillis (interval_le _ _))

theorem polled_timed {body : Body} {poll : Poll} {decoder : Decoder} {feed : Feed}
    (phase : session.source.phase = .reading body)
    (polled : body.decoder.poll body.feed = (poll, decoder, feed)) (more : poll.isOver = false)
    (holds : (session.act .turn).source.body? = some ⟨decoder, feed⟩)
    (uncalled : calls (session.notes .turn) = []) :
    Timed config (session.act .turn) (session.record .turn log) (session.enter .turn past) := by
  obtain ⟨held, left, -⟩ := polling_turn goes phase polled
  refine timed_steps timed held (by rw [left, holds]) ?_ uncalled
  rw [polling_steps goes phase]
  rintro stream rfl before
  exact before.poll.1 (by rwa [Body.polled, polled])

end Turn

theorem turn_timed {config : Config} {session : Session} {log : List Connection}
    {past : List Entry} (timed : Timed config session log past) (logged : Logged session log)
    (settings : session.source.config = config) :
    Timed config (session.act .turn) (session.record .turn log) (session.enter .turn past) := by
  obtain ⟨turn, advances, source, notes⟩ := turn_acts session
  have still (blocked : turn = .blocked session.source) (idle : session.source.polls = false)
      (nothing : session.happening? .turn = none) :
      Timed config (session.act .turn) (session.record .turn log) (session.enter .turn past) := by
    subst blocked
    refine timed_keeps timed ?_ (fun _ _ => steps_unpolled idle) (by rw [notes]; rfl) nothing
    rw [source]
    exact .of_phase rfl rfl
  have done (phase : turn.source.phase = .finished) :
      Timed config (session.act .turn) (session.record .turn log) (session.enter .turn past) :=
    timed_finished (source ▸ phase) _ _ _
  cases advances with
  | idle absent =>
    obtain ⟨uncalled, -, idle⟩ := Source.idle_only absent
    exact still rfl idle (happening_idle (by rw [notes]; rfl) uncalled idle)
  | unanswered goes asked open_ =>
    have nothing := happening_outcome goes (by rw [notes]; rfl) asked
    rw [Source.outcome_open open_] at nothing
    exact still rfl (Source.asked_only asked).2.1 nothing
  | full goes phase =>
    have idle : session.source.polls = false := by rw [Source.polls, phase]
    exact still rfl idle (happening_idle (by rw [notes]; rfl) (by rw [Source.call?, phase]) idle)
  | sleeping goes phase =>
    have idle : session.source.polls = false := by rw [Source.polls, phase]
    exact still rfl idle (happening_idle (by rw [notes]; rfl) (by rw [Source.call?, phase]) idle)
  | stopped => exact done rfl
  | refused => exact done rfl
  | unbuilt => exact done rfl
  | opened _ asked answer =>
    exact opened_timed timed logged settings asked answer source
      (by rw [notes]; exact calls_tells _ _)
  | failed goes phase answer passing =>
    exact failed_timed timed goes phase answer passing source (by rw [notes]; rfl)
  | pending goes phase polled =>
    exact polled_timed timed goes phase polled rfl (by rw [source]; rfl) (by rw [notes]; rfl)
  | decoded goes phase polled =>
    exact polled_timed timed goes phase polled rfl (by rw [source]; rfl) (by rw [notes]; rfl)
  | lost goes phase polled ends =>
    exact lost_timed timed goes phase polled ends source (by rw [notes]; rfl)
  | @handed body event goes phase room =>
    have held : session.source.body? = some body := by rw [Source.body?, phase]
    have idle : session.steps .turn = [] := steps_unpolled (by rw [Source.polls, phase])
    refine timed_steps timed held (by rw [idle, source]; rfl) ?_ (by rw [notes]; rfl)
    rintro stream - before
    rwa [idle, Stream.extend_nil]
  | @called failures wake request call goes phase due built =>
    exact timed_called timed settings (by rw [Source.body?, phase]) (by rw [Source.mayHand, phase])
      built (by rw [source]; rfl) (by rw [source]; rfl) (by rw [source]; rfl) notes

theorem connect_timed {config : Config} {session : Session} {log : List Connection}
    {past : List Entry} (timed : Timed config session log past)
    (settings : session.source.config = config) :
    Timed config (session.act .connect) (session.record .connect log)
      (session.enter .connect past) := by
  obtain ⟨connected, connects, source, notes⟩ := connect_acts session
  cases connects with
  | late =>
    refine timed_keeps timed ?_ (fun _ _ => rfl) (by rw [notes]; rfl)
      (happening_other (by simp) (by rw [notes]; rfl))
    rw [source]
    exact .of_phase rfl rfl
  | stopped => exact timed_finished (by rw [source]; rfl) _ _ _
  | unbuilt => exact timed_finished (by rw [source]; rfl) _ _ _
  | called phase goes built =>
    exact timed_called timed settings (by rw [Source.body?, phase]) (by rw [Source.mayHand, phase])
      built (by rw [source]; rfl) (by rw [source]; rfl) (by rw [source]) notes

theorem updateFeed_unheld {source : Source} (unheld : source.body? = none) (change : Feed → Feed) :
    source.updateFeed change = source := by
  unfold Source.updateFeed
  split
  next phase => rw [Source.body?, phase] at unheld; cases unheld
  next phase => rw [Source.body?, phase] at unheld; cases unheld
  next => rfl

theorem updateFeed_timed {config : Config} {session : Session} {log : List Connection}
    {past : List Entry} (timed : Timed config session log past) {action : Action}
    {change : Feed → Feed} {step : Body.Step} (other : step ≠ .poll)
    (changes : session.act action = session.follow (session.source.updateFeed change) [])
    (steps : session.steps action = [step]) (turns : action ≠ .turn)
    (stepped : ∀ body : Body, body.step step = { body with feed := change body.feed }) :
    Timed config (session.act action) (session.record action log)
      (session.enter action past) := by
  obtain ⟨body, -⟩ := updateFeed_holds session.source change
  have source : (session.act action).source = session.source.updateFeed change := by
    rw [changes]
    rfl
  have uncalled : calls (session.notes action) = [] := by
    rw [Session.notes, changes, notes_follow]
    rfl
  rw [← source] at body
  cases held : session.source.body? with
  | some opened =>
    rw [held] at body
    refine timed_steps timed held ?_ ?_ uncalled
    · rw [body, steps]
      exact congrArg some (stepped opened).symm
    · rw [steps]
      exact fun stream _ before => before.other other
  | none =>
    refine timed_keeps timed ?_ (of_none held) uncalled (happening_other turns uncalled)
    rw [source, updateFeed_unheld held]
    exact .of_phase rfl rfl

theorem act_rests {session : Session} {action : Action} (turns : action ≠ .turn)
    (unconnected : action ≠ .connect) (unfed : ∀ arrival, action ≠ .arrive arrival)
    (unended : action ≠ .endBody) :
    Keeps session.source (session.act action).source ∧ session.steps action = [] ∧
      calls (session.notes action) = [] := by
  have silent := @act_uncalled session action turns fun same => absurd same unconnected
  have rests (passes : Passes session.source (session.act action).source) :=
    keeps_of_beside (act_beside session turns) passes
  cases action with
  | connect => exact absurd rfl unconnected
  | turn => exact absurd rfl turns
  | arrive arrival => exact absurd rfl (unfed arrival)
  | endBody => exact absurd rfl unended
  | abandon => exact ⟨rests (abandon_passes _), rfl, silent⟩
  | close => exact ⟨rests (close_passes _), rfl, silent⟩
  | receive => exact ⟨rests (receive_passes _), rfl, silent⟩
  | leave => exact ⟨rests (.of_phase rfl rfl rfl), rfl, silent⟩
  | respond answer => exact ⟨rests (respond_passes _ _), rfl, silent⟩
  | elapse millis => exact ⟨.of_phase rfl rfl, rfl, silent⟩

theorem act_timed {config : Config} {session : Session} {log : List Connection}
    {past : List Entry} (timed : Timed config session log past) (logged : Logged session log)
    (settings : session.source.config = config) (action : Action) :
    Timed config (session.act action) (session.record action log) (session.enter action past) := by
  have rests := @act_rests session action
  cases action with
  | connect => exact connect_timed timed settings
  | turn => exact turn_timed timed logged settings
  | arrive arrival =>
    exact @updateFeed_timed _ _ _ _ timed _ (·.push arrival) (.arrive arrival) nofun rfl rfl nofun
      fun _ => rfl
  | endBody =>
    exact @updateFeed_timed _ _ _ _ timed _ Feed.close .finish nofun rfl rfl nofun fun _ => rfl
  | _ =>
    obtain ⟨keeps, idle, silent⟩ := rests nofun nofun nofun nofun
    exact timed_keeps timed keeps (fun _ _ => idle) silent (happening_other nofun silent)

theorem run_timed {config : Config} {source : Source}
    (created : Source.create config = .ok source) (actions : List Action) :
    Timed config ((start source).run actions) ((start source).log actions [])
      ((start source).chronicle actions []) := by
  refine (@chronicle_induction
    (fun session log past => session.source.config = config ∧ Logged session log ∧
      Timed config session log past)
    ?_ (start source) [] [] ⟨?_, logged_start created, ?_⟩ actions).2.2
  · rintro session log past action ⟨settings, logged, timed⟩
    exact ⟨(act_keeps session action).1.trans settings, act_logged logged action,
      act_timed timed logged settings action⟩
  · rw [create_eq created]
    rfl
  · rw [create_eq created]
    exact ⟨of_none rfl, fun _ _ => rfl, nofun, of_none rfl, fun _ => rfl⟩

/-- No time passes at an action while the driver could go on. -/
def Prompt (session : Session) : Action → Prop
  | .elapse millis => ∀ passed < millis, (session.act (.elapse passed)).isBlocked = true
  | _ => True

def Timely (session : Session) : List Action → Prop
  | [] => True
  | action :: rest => session.Prompt action ∧ (session.act action).Timely rest

structure Punctual (session : Session) : Prop where
  waits : ∀ failures wake, session.source.phase = .waiting failures wake → session.clock ≤ wake
  asks : ∀ call, session.source.call? = some call → session.clock ≤ call.deadline

theorem comes_none {call : Call} {now : Nat} (open_ : call.comes? now = none) :
    call.answer = none ∧ now < call.deadline := by
  unfold Call.comes? at open_
  split at open_
  next => cases open_
  next none =>
    split at open_
    next early => exact ⟨none, early⟩
    next => cases open_

theorem blocked_early {session : Session} (blocked : session.isBlocked = true) :
    (∀ failures wake, session.source.phase = .waiting failures wake → session.clock < wake) ∧
      ∀ call, session.source.call? = some call →
        call.answer = none ∧ session.clock < call.deadline := by
  have advances := Source.turn_advances session.source session.clock
  rw [isBlocked] at blocked
  generalize session.source.turn session.clock = turn at advances blocked
  cases advances with
  | idle absent =>
    refine ⟨?_, of_none (Source.idle_only absent).1⟩
    intro failures wake phase
    rw [Source.isRunning, phase] at absent
    cases absent
  | @unanswered call goes asked open_ =>
    refine ⟨?_, ?_⟩
    · intro failures wake phase
      rw [Source.call?, phase] at asked
      cases asked
    · intro other same
      cases asked.symm.trans same
      exact comes_none (Source.outcome_open open_)
  | pending goes phase => exact ⟨by simp [phase], of_none (by rw [Source.call?, phase])⟩
  | full goes phase => exact ⟨by simp [phase], of_none (by rw [Source.call?, phase])⟩
  | @sleeping failures wake goes phase early =>
    refine ⟨?_, of_none (by rw [Source.call?, phase])⟩
    intro others later same
    cases phase.symm.trans same
    exact early
  | _ => cases blocked

/-- What a source waits for behind a step, if that is new, is still to come. -/
structure Dues (source next : Source) (now : Nat) : Prop where
  waits : ∀ failures wake, next.phase = .waiting failures wake →
    source.phase = .waiting failures wake ∨ now ≤ wake
  asks : ∀ call, next.call? = some call →
    (∃ before, source.call? = some before ∧ before.deadline = call.deadline) ∨ now ≤ call.deadline

theorem Keeps.dues {source next : Source} (keeps : Keeps source next) (now : Nat) :
    Dues source next now :=
  ⟨fun failures wake phase => .inl (keeps.waits failures wake phase),
    fun call asked => .inl (keeps.asks call asked)⟩

theorem dues_called {source next before : Source} {now : Nat} {request : Request} {call : Call}
    (built : before.call now = .ok (request, call)) (asked : next.call? = some call) :
    Dues source next now := by
  refine ⟨?_, ?_⟩
  · intro failures wake phase
    rw [Source.call?, phase] at asked
    cases asked
  · intro other same
    cases asked.symm.trans same
    unfold Source.call at built
    split at built
    next => cases built
    next => cases built; exact .inr (Nat.le_add_right _ _)

theorem dues_waits (source before : Source) (failures now : Nat) :
    Dues source (before.retryAfter failures now) now := by
  refine ⟨?_, of_none (before.retryAfter_holds failures now).2.1⟩
  intro others wake phase
  rcases before.retryAfter_cases failures now with same | ⟨state, same⟩
  · rw [same] at phase
    cases phase
  · rw [same] at phase
    cases phase
    exact .inr (Nat.le_add_right _ _)

theorem turn_dues (source : Source) (now : Nat) : Dues source (source.turn now).source now := by
  have advances := Source.turn_advances source now
  generalize source.turn now = turn at advances ⊢
  cases advances with
  | called goes phase due built => exact dues_called built rfl
  | failed => exact dues_waits _ _ _ _
  | lost => exact dues_waits _ _ _ _
  | idle => exact (Keeps.of_phase rfl rfl).dues now
  | unanswered => exact (Keeps.of_phase rfl rfl).dues now
  | full => exact (Keeps.of_phase rfl rfl).dues now
  | sleeping => exact (Keeps.of_phase rfl rfl).dues now
  | opened => exact ⟨nofun, of_none rfl⟩
  | _ => exact ⟨nofun, of_none rfl⟩

theorem updateFeed_dues (source : Source) (change : Feed → Feed) (now : Nat) :
    Dues source (source.updateFeed change) now := by
  unfold Source.updateFeed
  split
  next => exact ⟨nofun, of_none rfl⟩
  next => exact ⟨nofun, of_none rfl⟩
  next => exact (Keeps.of_phase rfl rfl).dues now

theorem act_dues (session : Session) (action : Action) :
    Dues session.source (session.act action).source session.clock := by
  have rests := @act_rests session action
  cases action with
  | turn => exact turn_dues _ _
  | connect =>
    have connects := Source.connect_connects session.source session.clock
    simp only [act, follow]
    generalize session.source.connect session.clock = connected at connects ⊢
    cases connects with
    | late => exact (Keeps.of_phase rfl rfl).dues _
    | called _ _ built => exact dues_called built rfl
    | _ => exact ⟨by simp [Source.finish], of_none rfl⟩
  | arrive arrival => exact updateFeed_dues _ (·.push arrival) _
  | endBody => exact updateFeed_dues _ Feed.close _
  | _ => exact (rests (by simp) (by simp) (by simp) (by simp)).1.dues _

/-- Before a moment at which the driver could go on no time passes beyond it. -/
theorem elapse_prompt {session : Session} {millis due : Nat}
    (prompt : session.Prompt (.elapse millis)) (early : session.clock ≤ due)
    (free : (session.act (.elapse (due - session.clock))).isBlocked = false) :
    session.clock + millis ≤ due := by
  by_contra late
  have blocked := prompt (due - session.clock) (by omega)
  cases free.symm.trans blocked

theorem elapse_punctual {session : Session} (punctual : Punctual session) {millis : Nat}
    (prompt : session.Prompt (.elapse millis)) : Punctual (session.act (.elapse millis)) := by
  refine ⟨?_, ?_⟩
  · intro failures wake phase
    have early := punctual.waits failures wake phase
    refine elapse_prompt prompt early (Bool.eq_false_iff.mpr fun blocked => ?_)
    have sooner := (blocked_early blocked).1 failures wake phase
    simp only [act] at sooner
    omega
  · intro call asked
    have early := punctual.asks call asked
    refine elapse_prompt prompt early (Bool.eq_false_iff.mpr fun blocked => ?_)
    have sooner := ((blocked_early blocked).2 call asked).2
    simp only [act] at sooner
    omega

theorem act_clock {session : Session} {action : Action}
    (stands : ∀ millis, action ≠ .elapse millis) : (session.act action).clock = session.clock := by
  cases action with
  | elapse millis => exact absurd rfl (stands millis)
  | _ => rfl

theorem act_punctual {session : Session} (punctual : Punctual session) {action : Action}
    (prompt : session.Prompt action) : Punctual (session.act action) := by
  by_cases passes : ∃ millis, action = .elapse millis
  · obtain ⟨millis, rfl⟩ := passes
    exact elapse_punctual punctual prompt
  · have clock := @act_clock session action fun millis same => passes ⟨millis, same⟩
    have dues := act_dues session action
    refine ⟨?_, ?_⟩
    · intro failures wake phase
      rw [clock]
      rcases dues.waits failures wake phase with before | ahead
      · exact punctual.waits failures wake before
      · exact ahead
    · intro call asked
      rw [clock]
      rcases dues.asks call asked with ⟨before, found, deadline⟩ | ahead
      · exact deadline ▸ punctual.asks before found
      · exact ahead

theorem run_punctual {session : Session} (punctual : Punctual session) {actions : List Action}
    (timely : session.Timely actions) : Punctual (session.run actions) := by
  induction actions generalizing session with
  | nil => exact punctual
  | cons action actions ih => exact ih (act_punctual punctual timely.1) timely.2

theorem timedOut_due {session : Session} {action : Action}
    (found : session.happening? action = some .timedOut) :
    ∃ call, session.source.call? = some call ∧ call.deadline ≤ session.clock := by
  unfold happening? at found
  split at found
  next => cases found
  next =>
    split at found
    next => cases found
    next =>
      split at found
      next _ call asked =>
        unfold Call.comes? at found
        split at found
        next => cases found
        next =>
          split at found
          next => cases found
          next late => exact ⟨call, asked, Nat.le_of_not_lt late⟩
      next =>
        split at found
        next =>
          unfold Poll.loss? at found
          split at found <;> cases found
        next => cases found
      next => cases found

/-- After these a stream was lost behind a retry field in a record that was never dispatched, and
the seven milliseconds that it asked for have passed. -/
def learning : List Action :=
  [.connect, .respond (streaming (Bytes.ofText "retry:7\ndata:a")), .turn, .endBody, .turn,
    .elapse 7]

/-- When a source calls again, over a whole run. A wait ends an interval after the loss or the
failure that it began with, where the interval is the one that all lines so far have put in force,
and unless the source is stopped the call is made then and not before. A stream begins with that
interval too. An attempt ends with an answer, or when its time is up. On a clock that waits for the
driver each call but the first is made exactly at the end of its wait, and an attempt without an
answer ends exactly with its time. -/
theorem schedule_exact {config : Config} {source : Source}
    (created : Source.create config = .ok source) (actions : List Action) :
    let session := (start source).run actions
    let log := (start source).log actions []
    let entries := (start source).chronicle actions []
    (∀ failures wake, session.source.phase = .waiting failures wake →
      (∃ entry earlier, entries = entry :: earlier ∧
        (entry.kind = .loses ∨ entry.kind = .fails) ∧ wake = entry.time + interval config log) ∧
      (session.source.isStopped = false → ∀ millis, let later := session.act (.elapse millis)
        if later.clock < wake then later.isBlocked = true ∧ later.notes .turn = []
        else ∃ request, later.notes .turn = [.called later.clock request])) ∧
    (∀ body, session.source.body? = some body → ∃ request stream earlier resumeId,
      log = ⟨request, some stream⟩ :: earlier ∧ stream.body = body ∧
        stream.opened.decoder =
          .start config.maxLine resumeId (.ofMillis (interval config earlier))) ∧
    (∀ call, session.source.call? = some call →
      (∃ time earlier, entries = ⟨time, .called⟩ :: earlier ∧
        call.deadline = time + config.connectTimeout.millisUp) ∧
      (call.answer ≠ none → session.isBlocked = false)) ∧
    ((start source).Timely actions →
      (∀ failures wake, session.source.phase = .waiting failures wake → session.clock ≤ wake) ∧
      (∀ action, calls (session.notes action) ≠ [] → entries ≠ [] → ∃ entry earlier,
        entries = entry :: earlier ∧ (entry.kind = .loses ∨ entry.kind = .fails) ∧
          session.clock = entry.time + interval config log) ∧
      (session.happening? .turn = some .timedOut → ∃ time earlier,
        entries = ⟨time, .called⟩ :: earlier ∧
          session.clock = time + config.connectTimeout.millisUp)) := by
  intro session log entries
  have timed : Timed config session log entries := run_timed created actions
  refine ⟨?_, ?_, ?_, ?_⟩
  · intro failures wake phase
    refine ⟨timed.waits failures wake phase, ?_⟩
    intro goes millis later
    exact @waiting_calls later goes (run_reaches created actions).2 failures wake phase
  · intro body held
    obtain ⟨request, stream, earlier, resumeId, same, whole, -, started⟩ := timed.held body held
    exact ⟨request, stream, earlier, resumeId, same, whole, started⟩
  · intro call asked
    refine ⟨timed.asks call asked, ?_⟩
    intro answered
    exact Bool.eq_false_iff.mpr fun blocked => answered ((blocked_early blocked).2 call asked).1
  · intro timely
    have punctual : Punctual session := by
      refine run_punctual ?_ timely
      rw [create_eq created]
      exact ⟨nofun, of_none rfl⟩
    refine ⟨punctual.waits, ?_, ?_⟩
    · intro action called begun
      obtain ⟨-, -, unstarted | ⟨failures, wake, phase, due⟩⟩ := call_made called
      · exact absurd (timed.fresh unstarted) begun
      · obtain ⟨entry, earlier, same, gone, ends⟩ := timed.waits failures wake phase
        exact ⟨entry, earlier, same, gone,
          (Nat.le_antisymm (punctual.waits failures wake phase) due).trans ends⟩
    · intro found
      obtain ⟨call, asked, late⟩ := timedOut_due found
      obtain ⟨time, earlier, same, deadline⟩ := timed.asks call asked
      exact ⟨time, earlier, same,
        (Nat.le_antisymm (punctual.asks call asked) late).trans deadline⟩

theorem schedule_exact_learning :
    let session := (start plainSource).run learning
    let log := (start plainSource).log learning []
    let entries := (start plainSource).chronicle learning []
    let waiting := (start plainSource).run (learning.take 5)
    waiting.source.phase = .waiting 0 7 ∧ (waiting.act (.elapse 6)).isBlocked = true ∧
      session.clock = 7 ∧ (∃ request, session.notes .turn = [.called 7 request]) ∧
      interval (.forUrl "http://a/") log = 7 ∧
      (∃ entry earlier, entries = entry :: earlier ∧
        7 = entry.time + interval (.forUrl "http://a/") log) ∧
      ∃ entry earlier, entries = entry :: earlier ∧
        session.clock = entry.time + interval (.forUrl "http://a/") log := by
  intro session log entries waiting
  obtain ⟨waits, -, -, timely⟩ := schedule_exact create_plain learning
  obtain ⟨sleeps, -⟩ := schedule_exact create_plain (learning.take 5)
  have phase : waiting.source.phase = .waiting 0 7 := by decide +kernel
  obtain ⟨-, blocks⟩ := sleeps 0 7 phase
  have early := blocks (by decide +kernel) 6
  rw [if_pos (by decide +kernel)] at early
  have due := blocks (by decide +kernel) 7
  rw [if_neg (by decide +kernel)] at due
  have clock : session.clock = 7 := by decide +kernel
  obtain ⟨request, called⟩ := due
  have calls : session.notes .turn = [.called 7 request] := clock ▸ called
  obtain ⟨⟨entry, earlier, same, -, ends⟩, -⟩ := waits 0 7 (by decide +kernel)
  refine ⟨phase, early.1, clock, ⟨request, calls⟩, by decide +kernel,
    ⟨entry, earlier, same, ends⟩, ?_⟩
  have prompt : ∀ passed < 7, (((start plainSource).run (learning.take 5)).act
      (.elapse passed)).isBlocked = true := by
    decide +kernel
  obtain ⟨-, punctual, -⟩ :=
    timely ⟨trivial, trivial, trivial, trivial, trivial, prompt, trivial⟩
  obtain ⟨entry, earlier, same, -, ends⟩ := punctual .turn (by decide +kernel) (by decide +kernel)
  exact ⟨entry, earlier, same, ends⟩

end Session

end EventStream
