import EventStream.Proofs.Streams

/-!
The log of the streams fits the session that it is kept for, whatever happens. What the driver holds
is what the log says, and each stream was asked for and begun behind the event before it.
-/

namespace EventStream.Session

theorem of_none {α : Type} {found : Option α} (none : found = none) {claim : α → Prop} (value : α)
    (same : found = some value) : claim value := by
  rw [none] at same
  cases same

/-- A connection that stands where it belongs: it was asked for behind the events before it, and its
decoder starts there too. -/
structure Linked (config : Config) (connection : Connection) (earlier : List Connection) :
    Prop where
  request : Request.build config (lastId (yielded earlier)) = .ok connection.request
  decoder : ∀ stream, connection.stream = some stream → ∃ retry,
    stream.opened.decoder = .start config.maxLine (lastId (yielded earlier)) retry

/-- The log fits the session: what is held is the latest stream, an attempt in flight is the latest
request, and the id that is kept is that of the last event. -/
structure Logged (session : Session) (log : List Connection) : Prop where
  held : ∀ body, session.source.body? = some body →
    ∃ request stream earlier, log = ⟨request, some stream⟩ :: earlier ∧ stream.body = body
  asked : ∀ call, session.source.call? = some call → call.resumeId = session.source.cursor ∧
    ∃ request earlier, log = ⟨request, none⟩ :: earlier
  cursor : session.source.cursor = lastId (yielded log)
  linked : ∀ connection earlier, connection :: earlier <:+ log →
    Linked session.source.config connection earlier

theorem create_eq {config : Config} {source : Source}
    (created : Source.create config = .ok source) :
    source = ⟨config, .connecting, [], config.retry.counted, false, [], true, .unstarted⟩ := by
  unfold Source.create at created
  split at created
  next => cases created
  next => exact (Except.ok.inj created).symm

theorem logged_start {config : Config} {source : Source}
    (created : Source.create config = .ok source) : Logged (start source) [] := by
  rw [create_eq created]
  refine ⟨of_none rfl, of_none rfl, rfl, ?_⟩
  intro connection earlier suffix
  cases List.eq_nil_of_suffix_nil suffix

theorem yielded_asked (asked : List (Nat × Request)) (log : List Connection) :
    yielded ((asked.map fun (_, request) => ⟨request, none⟩).reverse ++ log) = yielded log := by
  induction asked generalizing log with
  | nil => rfl
  | cons first rest ih =>
    rw [List.map_cons, List.reverse_cons, List.append_assoc, ih]
    exact List.append_nil _

theorem yielded_record {session : Session} {log : List Connection} (logged : Logged session log)
    (action : Action) :
    yielded (session.record action log) = yielded log ++ session.fresh action := by
  unfold record
  dsimp only
  rw [yielded_asked]
  split
  next request stream earlier body held =>
    obtain ⟨_, _, _, found, whole⟩ := logged.held body held
    cases found
    calc yielded earlier ++ (stream.extend (session.steps action)).events
      _ = yielded earlier ++ (stream.events ++ session.fresh action) := by
          rw [stream.events_extend, whole, fresh, held]
      _ = _ := (List.append_assoc _ _ _).symm
  next none _ =>
    rw [fresh, none, List.append_nil]
    rfl
  next other _ =>
    cases held : session.source.body? with
    | none => rw [fresh, held, List.append_nil]
    | some body =>
      obtain ⟨request, stream, earlier, found, -⟩ := logged.held body held
      exact (other request stream earlier body found held).elim

structure Passes (source next : Source) : Prop where
  body : next.body? = source.body?
  asked : ∀ call, next.call? = some call →
    ∃ before, source.call? = some before ∧ before.resumeId = call.resumeId
  cursor : next.cursor = source.cursor
  config : next.config = source.config

theorem Passes.refl (source : Source) : Passes source source :=
  ⟨rfl, fun call same => ⟨call, same, rfl⟩, rfl, rfl⟩

theorem Passes.of_phase {source next : Source} (phase : next.phase = source.phase)
    (cursor : next.cursor = source.cursor) (config : next.config = source.config) :
    Passes source next := by
  refine ⟨by rw [Source.body?, phase]; rfl, ?_, cursor, config⟩
  intro call same
  exact ⟨call, by rwa [Source.call?, phase] at same, rfl⟩

theorem abandon_passes (source : Source) : Passes source source.abandon := by
  unfold Source.abandon
  split
  next phase => exact ⟨by rw [Source.body?, Source.body?, phase], of_none rfl, rfl, rfl⟩
  next => exact .refl source

theorem close_passes (source : Source) : Passes source source.close := by
  unfold Source.close
  dsimp only
  split
  next phase => exact ⟨by rw [Source.body?, Source.body?, phase]; rfl, of_none rfl, rfl, rfl⟩
  next => exact .of_phase rfl rfl rfl

theorem receive_passes (source : Source) : Passes source source.receive.2 := by
  unfold Source.receive
  split
  next => exact .refl source
  next => split <;> exact .of_phase rfl rfl rfl

theorem respond_passes (source : Source) (answer : Answer) :
    Passes source (source.respond answer) := by
  unfold Source.respond
  split
  next call phase =>
    refine ⟨by rw [Source.body?, Source.body?, phase], ?_, rfl, rfl⟩
    intro answered same
    cases same
    exact ⟨call, by rw [Source.call?, phase], rfl⟩
  next failures call phase =>
    refine ⟨by rw [Source.body?, Source.body?, phase], ?_, rfl, rfl⟩
    intro answered same
    cases same
    exact ⟨call, by rw [Source.call?, phase], rfl⟩
  next => exact .refl source

theorem linked_cons {config : Config} {first : Connection} {rest : List Connection}
    (head : Linked config first rest)
    (tail : ∀ connection earlier, connection :: earlier <:+ rest → Linked config connection earlier)
    (connection : Connection) (earlier : List Connection)
    (suffix : connection :: earlier <:+ first :: rest) : Linked config connection earlier := by
  rcases List.suffix_cons_iff.mp suffix with same | within
  · cases same
    exact head
  · exact tail connection earlier within

section Record

variable {session : Session} {log : List Connection} (logged : Logged session log) {action : Action}
include logged

theorem logged_passes (passes : Passes session.source (session.act action).source)
    (idle : ∀ body, session.source.body? = some body → session.steps action = [])
    (uncalled : calls (session.notes action) = []) :
    Logged (session.act action) (session.record action log) := by
  rw [record_same uncalled idle passes.body.trans]
  refine ⟨fun body held => logged.held body (passes.body ▸ held), ?_,
    passes.cursor.trans logged.cursor, passes.config ▸ logged.linked⟩
  intro call found
  obtain ⟨before, asked, id⟩ := passes.asked call found
  obtain ⟨cursor, request⟩ := logged.asked before asked
  exact ⟨(id.symm.trans cursor).trans passes.cursor.symm, request⟩

/-- What is done to the held body is entered with it, whether it is kept or let go. -/
theorem logged_steps {body : Body} (held : session.source.body? = some body)
    (next : ∀ kept, (session.act action).source.body? = some kept →
      kept = body.run (session.steps action))
    (asked : (session.act action).source.call? = none)
    (cursor : (session.act action).source.cursor = lastId (yielded log ++ session.fresh action))
    (config : (session.act action).source.config = session.source.config)
    (uncalled : calls (session.notes action) = []) :
    Logged (session.act action) (session.record action log) := by
  rw [← yielded_record logged] at cursor
  obtain ⟨request, stream, earlier, found, whole⟩ := logged.held body held
  have entered : session.record action log =
      ⟨request, some (stream.extend (session.steps action))⟩ :: earlier := by
    rw [found, record_steps uncalled held]
  refine ⟨?_, of_none asked, cursor, ?_⟩
  · intro kept same
    rw [entered]
    refine ⟨request, _, earlier, rfl, ?_⟩
    rw [Stream.body_extend, whole, next kept same]
  · rw [entered, config]
    have links := found ▸ logged.linked
    have head := links _ earlier (List.suffix_refl _)
    refine linked_cons ⟨head.request, ?_⟩ fun connection rest suffix =>
      links connection rest (suffix.trans (List.suffix_cons _ _))
    intro extended same
    cases same
    exact head.decoder stream rfl

theorem logged_open {call : Call} {feed : Feed} (none : session.source.body? = none)
    (asked : session.source.call? = some call)
    (opened : (session.act action).source.body? =
      some ⟨.start session.source.config.maxLine call.resumeId session.source.retry, feed⟩)
    (answered : (session.act action).source.call? = Option.none)
    (cursor : (session.act action).source.cursor = session.source.cursor)
    (config : (session.act action).source.config = session.source.config)
    (uncalled : calls (session.notes action) = []) :
    Logged (session.act action) (session.record action log) := by
  obtain ⟨id, request, earlier, found⟩ := logged.asked call asked
  have entered : session.record action log = ⟨request, some ⟨⟨.start session.source.config.maxLine
      call.resumeId session.source.retry, feed⟩, []⟩⟩ :: earlier := by
    rw [found, record_opened uncalled none opened]
  have same : yielded (session.record action log) = yielded log := by
    rw [yielded_record logged, fresh, none, List.append_nil]
  refine ⟨?_, of_none answered, by rw [cursor, logged.cursor, same], ?_⟩
  · intro body held
    rw [opened] at held
    cases held
    exact ⟨_, _, _, entered, rfl⟩
  · rw [entered, config]
    have links := found ▸ logged.linked
    have head := links _ earlier (List.suffix_refl _)
    refine linked_cons ⟨head.request, ?_⟩ fun connection rest suffix =>
      links connection rest (suffix.trans (List.suffix_cons _ _))
    intro stream same
    cases same
    have before : yielded log = yielded earlier := by
      rw [found]
      exact List.append_nil _
    exact ⟨session.source.retry, by rw [id, logged.cursor, before]⟩

theorem logged_called {now : Nat} {request : Request} {call : Call}
    (none : session.source.body? = none) (closed : (session.act action).source.body? = Option.none)
    (built : session.source.call now = .ok (request, call))
    (asked : (session.act action).source.call? = some call)
    (cursor : (session.act action).source.cursor = session.source.cursor)
    (config : (session.act action).source.config = session.source.config)
    (called : session.notes action = [.called now request]) :
    Logged (session.act action) (session.record action log) := by
  have entered : session.record action log = ⟨request, Option.none⟩ :: log :=
    record_called (by rw [called]; rfl) none closed
  obtain ⟨id, build⟩ := Source.call_built built
  refine ⟨of_none closed, ?_, ?_, ?_⟩
  · intro found same
    rw [asked] at same
    cases same
    exact ⟨by rw [id, cursor], request, log, entered⟩
  · rw [cursor, logged.cursor, entered]
    exact congrArg lastId (List.append_nil _).symm
  · rw [entered, config]
    exact linked_cons ⟨logged.cursor ▸ build, nofun⟩ logged.linked

theorem logged_drops (idle : session.steps action = [])
    (body : (session.act action).source.body? = none)
    (asked : (session.act action).source.call? = none)
    (cursor : (session.act action).source.cursor = session.source.cursor)
    (config : (session.act action).source.config = session.source.config)
    (uncalled : calls (session.notes action) = []) :
    Logged (session.act action) (session.record action log) := by
  cases held : session.source.body? with
  | none =>
    exact logged_passes logged ⟨body.trans held.symm, of_none asked, cursor, config⟩
      (fun _ _ => idle) uncalled
  | some kept =>
    refine logged_steps logged held (of_none body) asked ?_ config uncalled
    rw [cursor, logged.cursor, fresh, held, idle]
    exact congrArg lastId (List.append_nil _).symm

end Record

theorem turn_logged {session : Session} {log : List Connection} (logged : Logged session log) :
    Logged (session.act .turn) (session.record .turn log) := by
  have config := (act_keeps session .turn).1
  obtain ⟨turn, advances, source, notes⟩ := turn_acts session
  -- A turn that goes nowhere, and one that lets go of what is held.
  have still (blocked : turn = .blocked session.source) (idle : session.source.polls = false) :
      Logged (session.act .turn) (session.record .turn log) := by
    subst blocked
    refine logged_passes logged ?_ (fun _ _ => steps_unpolled idle) (by rw [notes]; rfl)
    rw [source]
    exact .refl _
  have drops (idle : session.source.polls = false) (body : turn.source.body? = none)
      (asked : turn.source.call? = none) (cursor : turn.source.cursor = session.source.cursor)
      (uncalled : calls turn.notes = []) :
      Logged (session.act .turn) (session.record .turn log) :=
    logged_drops logged (steps_unpolled idle) (source ▸ body) (source ▸ asked) (source ▸ cursor)
      config (notes ▸ uncalled)
  cases advances with
  | idle absent => exact still rfl (Source.idle_only absent).2.2
  | unanswered _ asked => exact still rfl (Source.asked_only asked).2.1
  | full _ phase => exact still rfl (by rw [Source.polls, phase])
  | sleeping _ phase => exact still rfl (by rw [Source.polls, phase])
  | stopped _ stops => exact drops (Source.stopped_unpolled stops) rfl rfl rfl (calls_tells _ _)
  | refused _ asked => exact drops (Source.asked_only asked).2.1 rfl rfl rfl (calls_tells _ _)
  | unbuilt _ phase => exact drops (by rw [Source.polls, phase]) rfl rfl rfl rfl
  | @failed call failure failures _ phase =>
    obtain ⟨body, asked, -, cursor, -⟩ :=
      Source.retryAfter_holds session.source (failures + 1) session.clock
    exact drops (by rw [Source.polls, phase]) body asked cursor rfl
  | @opened call body _ asked answer =>
    obtain ⟨feed, rfl⟩ := Source.outcome_body answer
    refine logged_open logged (Source.asked_only asked).1 asked (by rw [source]; rfl)
      (by rw [source]; rfl) ?_ config (by rw [notes]; exact calls_tells _ _)
    rw [source]
    exact (Source.read_holds session.source _).1
  | @pending body decoder feed goes phase polled =>
    obtain ⟨held, left, fresh⟩ := polling_turn goes phase polled
    refine logged_steps logged held ?_ (by rw [source]; rfl) ?_ config (by rw [notes]; rfl)
    · rw [source, left]
      rintro kept ⟨⟩
      rfl
    · rw [source, fresh]
      exact logged.cursor.trans (congrArg lastId (List.append_nil _).symm)
  | @decoded body event decoder feed goes phase polled =>
    obtain ⟨held, left, fresh⟩ := polling_turn goes phase polled
    refine logged_steps logged held ?_ (by rw [source]; rfl) ?_ config (by rw [notes]; rfl)
    · rw [source, left]
      rintro kept ⟨⟩
      rfl
    · rw [source, fresh]
      exact (lastId_append_single _ event).symm
  | @lost body poll decoder feed goes phase polled ends =>
    obtain ⟨held, -, fresh⟩ := polling_turn goes phase polled
    obtain ⟨body, asked, -, cursor, -⟩ :=
      Source.retryAfter_holds (session.source.learn decoder) 0 session.clock
    have nothing : poll.event? = none := by rcases ends with rfl | ⟨error, rfl⟩ <;> rfl
    refine logged_steps logged held ?_ (source ▸ asked) ?_ config (by rw [notes]; rfl)
    · rw [source]
      intro kept same
      cases body.symm.trans same
    · rw [fresh, nothing, source]
      exact cursor.trans (logged.cursor.trans (congrArg lastId (List.append_nil _).symm))
  | @handed body event goes phase room =>
    have idle : session.source.polls = false := by rw [Source.polls, phase]
    refine logged_passes logged ?_ (fun _ _ => steps_unpolled idle) (by rw [notes]; rfl)
    rw [source]
    exact ⟨by rw [Source.body?, Source.body?, phase]; rfl, of_none rfl, rfl, rfl⟩
  | @called failures wake request call goes phase due built =>
    refine logged_called logged (by rw [Source.body?, phase]) (by rw [source]; rfl) built
      (by rw [source]; rfl) (by rw [source]; rfl) config notes

theorem connect_logged {session : Session} {log : List Connection} (logged : Logged session log) :
    Logged (session.act .connect) (session.record .connect log) := by
  have config := (act_keeps session .connect).1
  obtain ⟨connected, connects, source, notes⟩ := connect_acts session
  cases connects with
  | late started =>
    exact logged_passes logged (source ▸ .refl _) (fun _ _ => rfl) (notes ▸ rfl)
  | stopped =>
    exact logged_drops logged rfl (by rw [source]; rfl) (by rw [source]; rfl) (by rw [source]; rfl)
      config (by rw [notes]; rfl)
  | unbuilt =>
    exact logged_drops logged rfl (by rw [source]; rfl) (by rw [source]; rfl) (by rw [source]; rfl)
      config (by rw [notes]; rfl)
  | called phase goes built =>
    exact logged_called logged (by rw [Source.body?, phase]) (by rw [source]; rfl) built
      (by rw [source]; rfl) (by rw [source]) config notes

theorem updateFeed_holds (source : Source) (change : Feed → Feed) :
    (source.updateFeed change).body? =
        source.body?.map (fun body => { body with feed := change body.feed }) ∧
      (source.updateFeed change).call? = source.call? ∧
      (source.updateFeed change).cursor = source.cursor := by
  unfold Source.updateFeed
  split
  next phase => simp [Source.body?, Source.call?, phase]
  next phase => simp [Source.body?, Source.call?, phase]
  next reading handing =>
    refine ⟨?_, rfl, rfl⟩
    unfold Source.body?
    split
    next phase => exact absurd phase (reading _)
    next phase => exact absurd phase (handing _ _)
    next => rfl

theorem updateFeed_logged {session : Session} {log : List Connection} (logged : Logged session log)
    {action : Action} {change : Feed → Feed}
    (changes : session.act action = session.follow (session.source.updateFeed change) [])
    (steps : ∀ body : Body,
      body.run (session.steps action) = { body with feed := change body.feed })
    (nothing : ∀ body : Body, body.items (session.steps action) = []) :
    Logged (session.act action) (session.record action log) := by
  obtain ⟨body, asked, cursor⟩ := updateFeed_holds session.source change
  have config := (act_keeps session action).1
  have source : (session.act action).source = session.source.updateFeed change := by
    rw [changes]
    rfl
  have uncalled : calls (session.notes action) = [] := by
    rw [Session.notes, changes, notes_follow]
    rfl
  rw [← source] at body asked cursor
  cases held : session.source.body? with
  | none =>
    refine logged_passes logged ⟨by rw [body, held]; rfl, ?_, cursor, config⟩ (of_none held)
      uncalled
    rw [asked]
    exact fun call same => ⟨call, same, rfl⟩
  | some opened =>
    rw [held] at body
    refine logged_steps logged held ?_ (asked.trans (Source.body_only held)) ?_ config uncalled
    · rw [body, steps]
      rintro kept ⟨⟩
      rfl
    · rw [cursor, logged.cursor, fresh, held]
      simp only [nothing]
      exact congrArg lastId (List.append_nil _).symm

theorem act_logged {session : Session} {log : List Connection} (logged : Logged session log)
    (action : Action) : Logged (session.act action) (session.record action log) := by
  have beside {source : Source} {action : Action} {notes : List Note}
      (acts : session.act action = session.follow source notes)
      (passes : Passes session.source source) (idle : session.steps action = [])
      (uncalled : calls notes = []) :
      Logged (session.act action) (session.record action log) := by
    refine logged_passes logged ?_ (fun _ _ => idle) ?_
    · rw [acts]
      exact passes
    · rw [Session.notes, acts, notes_follow, uncalled]
  cases action with
  | connect => exact connect_logged logged
  | abandon => exact beside rfl (abandon_passes _) rfl rfl
  | close => exact beside rfl (close_passes _) rfl rfl
  | receive => exact beside rfl (receive_passes _) rfl (calls_receipt _)
  | leave => exact beside rfl (.of_phase rfl rfl rfl) rfl rfl
  | turn => exact turn_logged logged
  | elapse millis =>
    exact logged_passes logged (.refl _) (fun _ _ => rfl) (by simp [Session.notes, act, calls])
  | respond answer => exact beside rfl (respond_passes _ _) rfl rfl
  | arrive arrival =>
    exact @updateFeed_logged _ _ logged _ (·.push arrival) rfl (fun _ => rfl) fun _ => rfl
  | endBody => exact updateFeed_logged logged rfl (fun _ => rfl) fun _ => rfl

end EventStream.Session
