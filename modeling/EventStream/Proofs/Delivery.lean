import EventStream.Proofs.Logbook
import EventStream.Proofs.Stopping

/-!
What becomes of the events that decoders yield. Each goes from the driver's hand into the queue and
from the queue to the consumer. Until a stop is asked for none is lost on the way, none comes twice
and none overtakes another; a stop costs what is in the driver's hand, and nothing else.
-/

namespace EventStream.Session

/-- The events that were handed over, received or not. -/
def delivered (session : Session) : List Event :=
  received session.history ++ session.source.queue

theorem delivered_follow (session : Session) {source : Source} {notes : List Note}
    (same : received notes ++ source.queue = session.source.queue) :
    (session.follow source notes).delivered = session.delivered := by
  simp only [delivered, follow, received_append, List.append_assoc, same]

structure Hands (session next : Session) : Prop where
  delivered : next.delivered = session.delivered
  held : next.source.held = session.source.held

theorem act_hands (session : Session) {action : Action} (other : action ≠ .turn)
    (stays : action ≠ .leave) : Hands session (session.act action) := by
  refine ⟨?_, ?_⟩
  · rw [delivered, act_history, received_append, List.append_assoc, act_receives other stays]
    rfl
  · cases (act_beside session other).shifts with
    | stays same => rw [Source.held, same]; rfl
    | _ before after => simp [Source.held, before, after]

/-- A turn takes what the decoder yields into its hand, or hands over what it holds. -/
theorem turn_delivers {session : Session} (goes : session.source.isStopped = false) :
    (session.act .turn).delivered ++ (session.act .turn).source.held =
      session.delivered ++ session.source.held ++ session.fresh .turn := by
  have advances := Source.turn_advances session.source session.clock
  generalize same : session.source.turn session.clock = turn at advances
  have acts : session.act .turn = session.follow turn.source turn.notes := by rw [act, same]
  rw [acts]
  -- A turn with nothing in its hand, before it and behind it, and one that goes nowhere.
  have empty (before : session.source.held = []) (behind : turn.source.held = [])
      (queue : turn.source.queue = session.source.queue) (unreceived : received turn.notes = [])
      (nothing : session.fresh .turn = []) :
      (session.follow turn.source turn.notes).delivered ++ turn.source.held =
        session.delivered ++ session.source.held ++ session.fresh .turn := by
    rw [delivered_follow session (by rw [unreceived, queue]; rfl), before, behind, nothing,
      List.append_nil, List.append_nil]
  have still (blocked : turn = .blocked session.source) (idle : session.source.polls = false) :
      (session.follow turn.source turn.notes).delivered ++ turn.source.held =
        session.delivered ++ session.source.held ++ session.fresh .turn := by
    subst blocked
    rw [delivered_follow session rfl, fresh_unpolled idle, List.append_nil]
    rfl
  cases advances with
  | idle absent => exact still rfl (Source.idle_only absent).2.2
  | stopped _ stops => rw [goes] at stops; cases stops
  | unanswered _ asked => exact still rfl (Source.asked_only asked).2.1
  | full _ phase => exact still rfl (by rw [Source.polls, phase])
  | sleeping _ phase => exact still rfl (by rw [Source.polls, phase])
  | opened _ asked =>
    exact empty (Source.asked_only asked).2.2 rfl (Source.read_holds session.source _).2
      (received_tells _ _) (fresh_unpolled (Source.asked_only asked).2.1)
  | refused _ asked =>
    exact empty (Source.asked_only asked).2.2 rfl rfl (received_tells _ _)
      (fresh_unpolled (Source.asked_only asked).2.1)
  | @failed call failure failures _ phase =>
    obtain ⟨-, -, held, -, queue⟩ :=
      Source.retryAfter_holds session.source (failures + 1) session.clock
    exact empty (Source.held_of_phase (by simp [phase])) held queue rfl
      (fresh_unpolled (by rw [Source.polls, phase]))
  | pending _ phase polled =>
    obtain ⟨-, -, fresh⟩ := polling_turn goes phase polled
    exact empty (Source.held_of_phase (by simp [phase])) rfl rfl rfl fresh
  | @decoded body event decoder feed _ phase polled =>
    have before : session.source.held = [] := Source.held_of_phase (by simp [phase])
    obtain ⟨-, -, fresh⟩ := polling_turn goes phase polled
    rw [delivered_follow session rfl, fresh, before, List.append_nil]
    rfl
  | @lost body poll decoder feed _ phase polled ends =>
    obtain ⟨-, -, held, -, queue⟩ :=
      Source.retryAfter_holds (session.source.learn decoder) 0 session.clock
    obtain ⟨-, -, fresh⟩ := polling_turn goes phase polled
    have nothing : poll.event? = none := by rcases ends with rfl | ⟨error, rfl⟩ <;> rfl
    rw [nothing] at fresh
    exact empty (Source.held_of_phase (by simp [phase])) held queue rfl fresh
  | @handed body event _ phase =>
    have before : session.source.held = [event] := by rw [Source.held, phase]
    rw [fresh_unpolled (by rw [Source.polls, phase]), before, List.append_nil]
    simp [delivered, follow, received, Source.Turn.source, Source.Turn.notes, Source.held]
  | unbuilt _ phase =>
    exact empty (Source.held_of_phase (by simp [phase])) rfl rfl rfl
      (fresh_unpolled (by rw [Source.polls, phase]))
  | called _ phase =>
    exact empty (Source.held_of_phase (by simp [phase])) rfl rfl rfl
      (fresh_unpolled (by rw [Source.polls, phase]))

/-- A stop costs what is in the driver's hand: from then on nothing is handed over. -/
theorem act_stopped {session : Session} (stops : session.source.isStopped = true)
    {action : Action} (stays : action ≠ .leave) :
    (session.act action).delivered = session.delivered ∧ session.fresh action = [] := by
  by_cases turns : action = .turn
  · subst turns
    have nothing := fresh_unpolled (Source.stopped_unpolled stops)
    refine ⟨?_, nothing⟩
    by_cases present : session.source.isRunning = true
    · obtain ⟨retryMillis, moved⟩ := Source.turn_stops present stops session.clock
      simp only [act, moved]
      exact delivered_follow session (by rw [Source.Turn.notes, received_tells]; rfl)
    · rw [Bool.not_eq_true] at present
      simp only [act, Source.turn_rests present]
      exact delivered_follow session rfl
  · exact ⟨(act_hands session turns stays).delivered, fresh_other session turns⟩

theorem act_goes {session : Session} (goes : session.source.isStopped = false)
    {action : Action} (stays : action ≠ .leave) :
    (session.act action).delivered ++ (session.act action).source.held =
      session.delivered ++ session.source.held ++ session.fresh action := by
  by_cases turns : action = .turn
  · subst turns
    exact turn_delivers goes
  · have hands := act_hands session turns stays
    rw [hands.delivered, hands.held, fresh_other session turns, List.append_nil]

theorem leave_delivers (session : Session) :
    (session.act .leave).delivered <+: session.delivered := by
  rw [delivered, delivered, act, follow, List.append_nil]
  exact ⟨session.source.queue, by simp [Source.leave]⟩

/-- What was handed over, against the log of what was yielded. -/
structure Accounted (session : Session) (log : List Connection) : Prop where
  logged : Logged session log
  begun : session.delivered <+: yielded log
  whole : session.source.isStopped = false →
    session.delivered ++ session.source.held = yielded log

theorem act_accounted {session : Session} {log : List Connection}
    (accounted : Accounted session log) (action : Action) :
    Accounted (session.act action) (session.record action log) := by
  have logged := act_logged accounted.logged action
  have grows := yielded_record accounted.logged action
  by_cases leaves : action = .leave
  · subst leaves
    rw [@fresh_other session .leave nofun, List.append_nil] at grows
    refine ⟨logged, grows ▸ (leave_delivers session).trans accounted.begun, ?_⟩
    intro goes
    rw [act_asks session (.inr rfl)] at goes
    cases goes
  · cases stops : session.source.isStopped with
    | false =>
      have whole := act_goes stops leaves
      rw [accounted.whole stops, ← grows] at whole
      exact ⟨logged, ⟨_, whole⟩, fun _ => whole⟩
    | true =>
      obtain ⟨same, nothing⟩ := act_stopped stops leaves
      rw [nothing, List.append_nil] at grows
      refine ⟨logged, by rw [same, grows]; exact accounted.begun, ?_⟩
      intro goes
      rw [act_isStopped stops action] at goes
      cases goes

theorem run_accounted {config : Config} {source : Source}
    (created : Source.create config = .ok source) (actions : List Action) :
    Accounted ((start source).run actions) ((start source).log actions []) := by
  refine @log_induction Accounted (fun _ _ action kept => act_accounted kept action) _ _ ?_ actions
  have logged := logged_start created
  rw [create_eq created] at logged ⊢
  exact ⟨logged, List.prefix_rfl, fun _ => rfl⟩

theorem run_stopped {session : Session} {log : List Connection} (logged : Logged session log)
    (stops : session.source.isStopped = true) {actions : List Action} (stays : .leave ∉ actions) :
    (session.run actions).delivered = session.delivered ∧
      yielded (session.log actions log) = yielded log := by
  induction actions generalizing session log with
  | nil => exact ⟨rfl, rfl⟩
  | cons action actions ih =>
    rw [List.mem_cons, not_or] at stays
    obtain ⟨same, nothing⟩ := act_stopped stops (Ne.symm stays.1)
    obtain ⟨delivered, last⟩ := ih (act_logged logged action) (act_isStopped stops action) stays.2
    rw [yielded_record logged, nothing, List.append_nil] at last
    exact ⟨delivered.trans same, last⟩

theorem run_goes {config : Config} {source : Source} (created : Source.create config = .ok source)
    {actions : List Action} (unclosed : .close ∉ actions) (stays : .leave ∉ actions) :
    ((start source).run actions).source.isStopped = false := by
  obtain ⟨-, cancelled, consumed⟩ := run_keeps (start source) actions
  rw [Source.isStopped, cancelled, consumed, create_eq created]
  simp [start, unclosed, stays]

theorem log_append (session : Session) (before after : List Action) (log : List Connection) :
    session.log (before ++ after) log =
      (session.run before).log after (session.log before log) := by
  induction before generalizing session log with
  | nil => rfl
  | cons action before ih => exact ih (session.act action) (session.record action log)

theorem close_loses {config : Config} {source : Source}
    (created : Source.create config = .ok source) {before after : List Action}
    (unclosed : .close ∉ before) (stays : .leave ∉ before ++ .close :: after) :
    ((start source).run (before ++ .close :: after)).delivered ++
        ((start source).run before).source.held =
      yielded ((start source).log (before ++ .close :: after) []) := by
  have there : .leave ∉ before ∧ .leave ∉ after := by
    simpa using stays
  have accounted := run_accounted created before
  have closing := act_logged accounted.logged .close
  have asked := act_asks ((start source).run before) (.inl rfl)
  obtain ⟨same, last⟩ := run_stopped closing asked there.2
  have kept := (@act_hands ((start source).run before) .close nofun nofun).delivered
  have grows := yielded_record accounted.logged .close
  rw [@fresh_other _ .close nofun, List.append_nil] at grows
  have split : (start source).run (before ++ .close :: after) =
      (((start source).run before).act .close).run after := List.foldl_append
  rw [split, same, kept, accounted.whole (run_goes created unclosed there.1), log_append]
  exact (last.trans grows).symm

theorem turn_capacity (source : Source) (now : Nat)
    (fits : source.queue.length ≤ source.config.capacity) :
    (source.turn now).source.queue.length ≤ source.config.capacity := by
  have advances := Source.turn_advances source now
  generalize source.turn now = turn at advances ⊢
  cases advances with
  | opened => exact (congrArg List.length (source.read_holds _).2).trans_le fits
  | failed =>
    obtain ⟨-, -, -, -, queue⟩ := source.retryAfter_holds _ now
    exact (congrArg List.length queue).trans_le fits
  | @lost body poll decoder =>
    obtain ⟨-, -, -, -, queue⟩ := (source.learn decoder).retryAfter_holds 0 now
    exact (congrArg List.length queue).trans_le fits
  | handed _ _ room =>
    simp only [Source.Turn.source, List.length_append, List.length_singleton]
    omega
  | _ => exact fits

theorem act_capacity {session : Session}
    (fits : session.source.queue.length ≤ session.source.config.capacity) (action : Action) :
    (session.act action).source.queue.length ≤ (session.act action).source.config.capacity := by
  rw [(act_keeps session action).1]
  by_cases turns : action = .turn
  · subst turns
    exact turn_capacity session.source session.clock fits
  · exact (act_beside session turns).queue.length_le.trans fits

theorem run_capacity {config : Config} {source : Source}
    (created : Source.create config = .ok source) (actions : List Action) :
    ((start source).run actions).source.queue.length ≤ config.capacity := by
  have same := create_eq created
  have fits := @log_induction
    (fun session _ => session.source.queue.length ≤ session.source.config.capacity)
    (fun _ _ action fits => act_capacity fits action) (start source) []
    (by rw [same]; exact Nat.zero_le _) actions
  rw [(run_keeps (start source) actions).1] at fits
  rwa [show (start source).source.config = config by rw [same]; rfl] at fits

theorem handing_keeps {session : Session} {body : Body} {event : Event}
    (phase : session.source.phase = .handing body event) (action : Action) :
    (∃ kept, (session.act action).source.body? = some kept ∧ Untouched body kept) ∨
      ((session.act action).source.body? = none ∧ session.source.isStopped = true) := by
  have held : session.source.body? = some body := by rw [Source.body?, phase]
  by_cases turns : action = .turn
  · subst turns
    have handing : session.source.turn session.clock = session.source.turnHanding body event := by
      rw [Source.turn, phase]
    simp only [act, handing, Source.turnHanding]
    split
    next stops => exact .inr ⟨rfl, stops⟩
    next =>
      split
      next => exact .inl ⟨body, rfl, untouched_refl body⟩
      next => exact .inl ⟨body, held, untouched_refl body⟩
  · left
    cases (act_beside session turns).shifts with
    | stays same => exact ⟨body, by rw [Source.body?, same, phase], untouched_refl body⟩
    | feedsHeld before after untouched =>
      cases phase.symm.trans before
      exact ⟨_, by rw [Source.body?, after], untouched⟩
    | _ before => cases phase.symm.trans before

theorem handing_blocked {session : Session} {body : Body} {event : Event}
    (phase : session.source.phase = .handing body event)
    (fits : session.source.queue.length ≤ session.source.config.capacity) :
    session.isBlocked = true ↔
      session.source.isStopped = false ∧
        session.source.queue.length = session.source.config.capacity := by
  have turns : session.source.turn session.clock = session.source.turnHanding body event := by
    rw [Source.turn, phase]
  rw [isBlocked, turns, Source.turnHanding]
  split
  next stops => simp [Source.Turn.isBlocked, stops]
  next goes =>
    rw [Bool.not_eq_true] at goes
    split
    next room =>
      simp only [Source.Turn.isBlocked, goes, true_and, Bool.false_eq_true, false_iff]
      omega
    next room =>
      simp only [Source.Turn.isBlocked, goes, true_and, true_iff]
      omega

/-- A body is let go, unless for a stop, when all that it yielded was handed over. -/
theorem dropped_delivers {session : Session} {log : List Connection}
    (accounted : Accounted session log) {action : Action}
    (goes : session.source.isStopped = false) (reading : session.source.body? ≠ none)
    (dropped : (session.act action).source.body? = none) :
    (session.act action).delivered = yielded (session.record action log) := by
  have unclosed : action ≠ .close := by
    rintro rfl
    exact reading ((close_passes session.source).body.symm.trans dropped)
  have stays : action ≠ .leave := by
    rintro rfl
    exact reading dropped
  have still : (session.act action).source.isStopped = false := by
    obtain ⟨-, cancelled, consumed⟩ := act_keeps session action
    rw [Source.isStopped, cancelled, consumed]
    simpa [unclosed, stays, Source.isStopped] using goes
  have whole := (act_accounted accounted action).whole still
  have empty : (session.act action).source.held = [] := by
    apply Source.held_of_phase
    intro body event phase
    rw [Source.body?, phase] at dropped
    cases dropped
  rwa [empty, List.append_nil] at whole

/-- Over a whole run, with whatever in between: what decoders yielded is what the consumer received,
then what is in the queue, then what is in the driver's hand. The queue keeps to its capacity, and
the driver is held up by it only when it is full. A body is not read while an event waits to be
handed over, and it is let go only when every event of it was. A close costs the event in the
driver's hand. -/
theorem delivery_exact {config : Config} {source : Source}
    (created : Source.create config = .ok source) (actions : List Action) :
    let session := (start source).run actions
    let log := (start source).log actions []
    Logged session log ∧
      (.close ∉ actions → .leave ∉ actions →
        session.delivered ++ session.source.held = yielded log) ∧
      session.source.queue.length ≤ config.capacity ∧
      (∀ body event, session.source.phase = .handing body event →
        (session.isBlocked = true ↔
          session.source.isStopped = false ∧ session.source.queue.length = config.capacity) ∧
        ∀ action, (∃ kept, (session.act action).source.body? = some kept ∧ Untouched body kept) ∨
          ((session.act action).source.body? = none ∧ session.source.isStopped = true)) ∧
      (∀ action, session.source.isStopped = false → session.source.body? ≠ none →
        (session.act action).source.body? = none →
          (session.act action).delivered = yielded (session.record action log)) ∧
      session.delivered <+: yielded log ∧
      ∀ before after, actions = before ++ .close :: after → .close ∉ before → .leave ∉ actions →
        session.delivered ++ ((start source).run before).source.held = yielded log := by
  intro session log
  have accounted := run_accounted created actions
  have fits := run_capacity created actions
  have settings : session.source.config = config := by
    rw [(run_keeps (start source) actions).1, create_eq created]
    rfl
  refine ⟨accounted.logged, ?_, fits, ?_, ?_, accounted.begun, ?_⟩
  · intro unclosed stays
    exact accounted.whole (run_goes created unclosed stays)
  · intro body event phase
    refine ⟨?_, handing_keeps phase⟩
    have blocked := handing_blocked phase (settings.symm ▸ fits)
    rwa [settings] at blocked
  · intro action goes reading dropped
    exact dropped_delivers accounted goes reading dropped
  · rintro before after rfl unclosed stays
    exact close_loses created unclosed stays

theorem delivery_exact_blocked :
    blockedSession.delivered ++ blockedSession.source.held =
        yielded ((start plainSource).log blocking []) ∧
      blockedSession.source.isStopped = false ∧ blockedSession.source.queue.length = 1 ∧
      ((start plainSource).run (blocking ++ [.close, .turn])).delivered ++
          blockedSession.source.held =
        yielded ((start plainSource).log (blocking ++ [.close, .turn]) []) ∧
      (((start plainSource).run ending).act .turn).delivered =
        yielded (((start plainSource).run ending).record .turn
          ((start plainSource).log ending [])) := by
  obtain ⟨-, whole, -, waits, -⟩ := delivery_exact create_plain blocking
  obtain ⟨-, -, -, -, -, -, loses⟩ := delivery_exact create_plain (blocking ++ [.close, .turn])
  obtain ⟨-, -, -, -, drops, -⟩ := delivery_exact create_plain ending
  have holds : blockedSession.source.held ≠ [] := by decide +kernel
  obtain ⟨body, event, phase⟩ := Source.handing_of_held holds
  obtain ⟨goes, full⟩ := (waits body event phase).1.mp (by decide +kernel)
  refine ⟨whole (by decide) (by decide), goes, full, ?_, ?_⟩
  · exact loses blocking [.turn] rfl (by decide) (by decide)
  · exact drops .turn (by decide +kernel) (by decide +kernel) (by decide +kernel)

end EventStream.Session
