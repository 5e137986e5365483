import EventStream.Proofs.Turns

/-!
What may happen to a source when it is not its driver's turn. The consumer and the transport change
little: the phase moves in few ways, and nothing comes into the queue.
-/

namespace EventStream

def Untouched (body kept : Body) : Prop :=
  kept.decoder = body.decoder ∧ kept.feed.taken = body.feed.taken ∧
    body.feed.queued <+: kept.feed.queued

theorem untouched_refl (body : Body) : Untouched body body := ⟨rfl, rfl, List.prefix_rfl⟩

namespace Source

inductive Connects (source : Source) (now : Nat) : Source × List Note → Prop where
  | late (started : source.phase ≠ .unstarted) :
      Connects source now (source, [.connected (some .closed)])
  | stopped (phase : source.phase = .unstarted) (stops : source.isStopped = true) :
      Connects source now (source.finish, [.connected (some .closed)])
  | unbuilt {failure : Failure} (phase : source.phase = .unstarted)
      (goes : source.isStopped = false) (built : source.call now = .error failure) :
      Connects source now (source.finish, [.connected (some failure)])
  | called {request : Request} {call : Call} (phase : source.phase = .unstarted)
      (goes : source.isStopped = false) (built : source.call now = .ok (request, call)) :
      Connects source now ({ source with phase := .connecting call }, [.called now request])

theorem connect_connects (source : Source) (now : Nat) :
    Connects source now (source.connect now) := by
  unfold connect
  split
  next phase =>
    split
    next stops => exact .stopped phase stops
    next goes =>
      rw [Bool.not_eq_true] at goes
      split
      next failure built => exact .unbuilt phase goes built
      next request call built => exact .called phase goes built
  next started => exact .late started

theorem connect_started {source : Source} (started : source.phase ≠ .unstarted) (now : Nat) :
    source.connect now = (source, [.connected (some .closed)]) := by
  have connects := connect_connects source now
  generalize source.connect now = connected at connects ⊢
  cases connects with
  | late => rfl
  | _ phase => exact absurd phase started

/-- The ways in which the phase may move. -/
inductive Shifts (source next : Source) : Prop where
  | stays (same : next.phase = source.phase)
  | asks {call : Call} (before : source.phase = .unstarted) (after : next.phase = .connecting call)
  | ends (before : source.phase = .unstarted) (after : next.phase = .finished)
  | abandons {call : Call} (before : source.phase = .connecting call)
      (after : next.phase = .abandoned)
  | answers {call : Call} {answer : Answer} (before : source.phase = .connecting call)
      (after : next.phase = .connecting { call with answer := some answer })
  | answersAgain {failures : Nat} {call : Call} {answer : Answer}
      (before : source.phase = .reconnecting failures call)
      (after : next.phase = .reconnecting failures { call with answer := some answer })
  | feeds {body kept : Body} (before : source.phase = .reading body)
      (after : next.phase = .reading kept) (untouched : Untouched body kept)
  | feedsHeld {body kept : Body} {event : Event} (before : source.phase = .handing body event)
      (after : next.phase = .handing kept event) (untouched : Untouched body kept)

/-- What is left alone besides. A state is left for a close that is asked for, or for good. -/
structure Beside (source next : Source) : Prop where
  shifts : Shifts source next
  config : next.config = source.config
  cursor : next.cursor = source.cursor
  retryMillis : next.retryMillis = source.retryMillis
  queue : next.queue <:+ source.queue
  state : next.state = source.state ∨
    next.state = .closing ∧ source.state.isShuttingDown = false ∨
    next.state = .closed ∧ next.phase = .finished ∧ source.phase = .unstarted

theorem Beside.refl (source : Source) : Beside source source :=
  ⟨.stays rfl, rfl, rfl, rfl, List.suffix_refl _, .inl rfl⟩

theorem connect_beside (source : Source) (now : Nat) : Beside source (source.connect now).1 := by
  have connects := connect_connects source now
  generalize source.connect now = connected at connects ⊢
  cases connects with
  | late => exact .refl source
  | stopped phase =>
    exact ⟨.ends phase rfl, rfl, rfl, rfl, List.suffix_refl _, .inr (.inr ⟨rfl, rfl, phase⟩)⟩
  | unbuilt phase =>
    exact ⟨.ends phase rfl, rfl, rfl, rfl, List.suffix_refl _, .inr (.inr ⟨rfl, rfl, phase⟩)⟩
  | called phase => exact ⟨.asks phase rfl, rfl, rfl, rfl, List.suffix_refl _, .inl rfl⟩

theorem abandon_beside (source : Source) : Beside source source.abandon := by
  unfold abandon
  split
  next phase => exact ⟨.abandons phase rfl, rfl, rfl, rfl, List.suffix_refl _, .inl rfl⟩
  next => exact .refl source

theorem close_beside (source : Source) : Beside source source.close := by
  unfold close
  dsimp only
  split
  next phase =>
    exact ⟨.ends phase rfl, rfl, rfl, rfl, List.suffix_refl _, .inr (.inr ⟨rfl, rfl, phase⟩)⟩
  next =>
    refine ⟨.stays rfl, rfl, rfl, rfl, List.suffix_refl _, ?_⟩
    by_cases shutting : source.state.isShuttingDown = true
    · exact .inl (if_pos shutting)
    · exact .inr (.inl ⟨if_neg shutting, Bool.eq_false_iff.mpr shutting⟩)

theorem receive_beside (source : Source) : Beside source source.receive.2 := by
  unfold receive
  split
  next => exact .refl source
  next =>
    split
    next event rest queue =>
      exact ⟨.stays rfl, rfl, rfl, rfl, queue ▸ List.suffix_cons event rest, .inl rfl⟩
    next => exact .refl source

theorem leave_beside (source : Source) : Beside source source.leave :=
  ⟨.stays rfl, rfl, rfl, rfl, List.nil_suffix, .inl rfl⟩

theorem respond_beside (source : Source) (answer : Answer) :
    Beside source (source.respond answer) := by
  unfold respond
  split
  next phase => exact ⟨.answers phase rfl, rfl, rfl, rfl, List.suffix_refl _, .inl rfl⟩
  next phase => exact ⟨.answersAgain phase rfl, rfl, rfl, rfl, List.suffix_refl _, .inl rfl⟩
  next => exact .refl source

theorem updateFeed_beside (source : Source) {change : Feed → Feed}
    (grows : ∀ feed, (change feed).taken = feed.taken ∧ feed.queued <+: (change feed).queued) :
    Beside source (source.updateFeed change) := by
  unfold updateFeed
  split
  next phase =>
    exact ⟨.feeds phase rfl ⟨rfl, grows _⟩, rfl, rfl, rfl, List.suffix_refl _, .inl rfl⟩
  next phase =>
    exact ⟨.feedsHeld phase rfl ⟨rfl, grows _⟩, rfl, rfl, rfl, List.suffix_refl _, .inl rfl⟩
  next => exact .refl source

end Source

namespace Session

def notes (session : Session) (action : Action) : List Note :=
  (session.act action).history.drop session.history.length

def received (notes : List Note) : List Event :=
  notes.filterMap fun
    | .received event => some event
    | _ => none

@[simp] theorem notes_follow (session : Session) (source : Source) (notes : List Note) :
    (session.follow source notes).history.drop session.history.length = notes := by
  simp [follow]

@[simp] theorem calls_append (first second : List Note) :
    calls (first ++ second) = calls first ++ calls second := by
  simp [calls]

@[simp] theorem received_append (first second : List Note) :
    received (first ++ second) = received first ++ received second := by
  simp [received]

@[simp] theorem calls_receipt (receipt : Receipt) : calls receipt.notes = [] := by
  cases receipt <;> rfl

@[simp] theorem calls_tells (source : Source) (failure : Option Failure) :
    calls (source.tells failure) = [] := by
  unfold Source.tells
  split <;> rfl

@[simp] theorem received_tells (source : Source) (failure : Option Failure) :
    received (source.tells failure) = [] := by
  unfold Source.tells
  split <;> rfl

theorem act_history (session : Session) (action : Action) :
    (session.act action).history = session.history ++ session.notes action := by
  have follows {source : Source} {noted : List Note}
      (acts : session.act action = session.follow source noted) :
      (session.act action).history = session.history ++ session.notes action := by
    rw [notes, acts, notes_follow]
    rfl
  cases action with
  | elapse millis => simp [notes, act]
  | _ => exact follows rfl

theorem act_beside (session : Session) {action : Action} (other : action ≠ .turn) :
    Source.Beside session.source (session.act action).source := by
  cases action with
  | connect => exact Source.connect_beside _ _
  | abandon => exact Source.abandon_beside _
  | close => exact Source.close_beside _
  | receive => exact Source.receive_beside _
  | leave => exact Source.leave_beside _
  | turn => exact absurd rfl other
  | elapse millis => exact .refl _
  | respond answer => exact Source.respond_beside _ _
  | arrive arrival =>
    exact @Source.updateFeed_beside _ (·.push arrival) fun _ => ⟨rfl, List.prefix_append _ _⟩
  | endBody => exact @Source.updateFeed_beside _ Feed.close fun _ => ⟨rfl, List.prefix_rfl⟩

theorem unstarted_rests {session : Session} (unstarted : session.source.phase = .unstarted)
    {action : Action} (unconnected : action ≠ .connect) (open_ : action ≠ .close) :
    (session.act action).source.phase = .unstarted := by
  cases action with
  | connect => exact absurd rfl unconnected
  | close => exact absurd rfl open_
  | receive =>
    simp only [act, follow, Source.receive]
    split
    next => exact unstarted
    next => split <;> exact unstarted
  | _ =>
    simp only [act, follow, Source.abandon, Source.leave, Source.turn, Source.Turn.source,
      Source.respond, Source.updateFeed, unstarted]

theorem act_uncalled {session : Session} {action : Action} (other : action ≠ .turn)
    (late : action = .connect → session.source.phase ≠ .unstarted) :
    calls (session.notes action) = [] := by
  cases action with
  | connect => rw [notes, act, notes_follow, Source.connect_started (late rfl)]; rfl
  | receive => rw [notes, act, notes_follow, calls_receipt]
  | turn => exact absurd rfl other
  | elapse millis => simp [notes, act, calls]
  | _ => rw [notes, act, notes_follow]; rfl

theorem turn_acts (session : Session) :
    ∃ turn, Source.Advances session.source session.clock turn ∧
      (session.act .turn).source = turn.source ∧ session.notes .turn = turn.notes :=
  ⟨session.source.turn session.clock, Source.turn_advances _ _, rfl, notes_follow _ _ _⟩

theorem connect_acts (session : Session) :
    ∃ connected, Source.Connects session.source session.clock connected ∧
      (session.act .connect).source = connected.1 ∧ session.notes .connect = connected.2 :=
  ⟨session.source.connect session.clock, Source.connect_connects _ _, rfl, notes_follow _ _ _⟩

/-- The transport is called by a driver that goes on, at the start or at the end of a wait, and once
at a time. -/
theorem call_made {session : Session} {action : Action}
    (called : calls (session.notes action) ≠ []) :
    session.source.isStopped = false ∧
      (∃ request, session.notes action = [.called session.clock request]) ∧
      (session.source.phase = .unstarted ∨
        ∃ failures wake, session.source.phase = .waiting failures wake ∧ wake ≤ session.clock) := by
  by_cases turns : action = .turn
  · subst turns
    obtain ⟨turn, advances, -, notes⟩ := turn_acts session
    rw [notes] at called ⊢
    cases advances with
    | called goes phase due => exact ⟨goes, ⟨_, rfl⟩, .inr ⟨_, _, phase, due⟩⟩
    | stopped => exact absurd (calls_tells _ _) called
    | opened => exact absurd (calls_tells _ _) called
    | refused => exact absurd (calls_tells _ _) called
    | _ => exact absurd rfl called
  · by_cases connects : action = .connect
    · subst connects
      obtain ⟨connected, connects, -, notes⟩ := connect_acts session
      rw [notes] at called ⊢
      cases connects with
      | called phase goes => exact ⟨goes, ⟨_, rfl⟩, .inl phase⟩
      | _ => exact absurd rfl called
    · exact absurd (act_uncalled turns fun same => absurd same connects) called

theorem connect_receives (source : Source) (now : Nat) :
    received (source.connect now).2 ++ (source.connect now).1.queue = source.queue := by
  have connects := Source.connect_connects source now
  generalize source.connect now = connected at connects ⊢
  cases connects <;> rfl

theorem receive_receives (source : Source) :
    received source.receive.1.notes ++ source.receive.2.queue = source.queue := by
  unfold Source.receive
  split
  next => rfl
  next =>
    split
    next queue => rw [queue]; rfl
    next => split <;> rfl

/-- What leaves the queue is received, unless the consumer gives the queue up. -/
theorem act_receives {session : Session} {action : Action} (other : action ≠ .turn)
    (stays : action ≠ .leave) :
    received (session.notes action) ++ (session.act action).source.queue =
      session.source.queue := by
  have passes {source : Source} {noted : List Note}
      (acts : session.act action = session.follow source noted)
      (same : received noted ++ source.queue = session.source.queue) :
      received (session.notes action) ++ (session.act action).source.queue =
        session.source.queue := by
    rw [notes, acts, notes_follow]
    exact same
  cases action with
  | connect => exact passes rfl (connect_receives _ _)
  | abandon =>
    refine passes rfl ?_
    unfold Source.abandon
    split <;> rfl
  | close =>
    refine passes rfl ?_
    unfold Source.close
    dsimp only
    split <;> rfl
  | receive => exact passes rfl (receive_receives _)
  | leave => exact absurd rfl stays
  | turn => exact absurd rfl other
  | elapse millis => simp [notes, act, received]
  | respond answer =>
    refine passes rfl ?_
    unfold Source.respond
    split <;> rfl
  | arrive arrival =>
    refine passes rfl ?_
    unfold Source.updateFeed
    split <;> rfl
  | endBody =>
    refine passes rfl ?_
    unfold Source.updateFeed
    split <;> rfl

theorem act_keeps (session : Session) (action : Action) :
    (session.act action).source.config = session.source.config ∧
      (session.act action).source.cancelled = (session.source.cancelled || action = .close) ∧
      (session.act action).source.consumed = (session.source.consumed && action ≠ .leave) := by
  have kept {next : Source} (config : next.config = session.source.config)
      (cancelled : next.cancelled = session.source.cancelled)
      (consumed : next.consumed = session.source.consumed) (other : action ≠ .close)
      (stays : action ≠ .leave) : next.config = session.source.config ∧
        next.cancelled = (session.source.cancelled || action = .close) ∧
        next.consumed = (session.source.consumed && action ≠ .leave) := by
    simp [config, cancelled, consumed, other, stays]
  cases action with
  | connect =>
    have connects := Source.connect_connects session.source session.clock
    simp only [act]
    generalize session.source.connect session.clock = connected at connects ⊢
    cases connects <;> exact kept rfl rfl rfl nofun nofun
  | abandon =>
    simp only [act, Source.abandon]
    split <;> exact kept rfl rfl rfl nofun nofun
  | close =>
    simp only [act, Source.close]
    split <;> simp [follow, Source.finish]
  | receive =>
    simp only [act, Source.receive]
    split
    next => exact kept rfl rfl rfl nofun nofun
    next => split <;> exact kept rfl rfl rfl nofun nofun
  | leave => simp [act, follow, Source.leave]
  | turn =>
    obtain ⟨config, cancelled, consumed⟩ := Source.turn_keeps session.source session.clock
    exact kept config cancelled consumed nofun nofun
  | elapse millis => exact kept rfl rfl rfl nofun nofun
  | respond answer =>
    simp only [act, Source.respond]
    split <;> exact kept rfl rfl rfl nofun nofun
  | arrive arrival =>
    simp only [act, Source.updateFeed]
    split <;> exact kept rfl rfl rfl nofun nofun
  | endBody =>
    simp only [act, Source.updateFeed]
    split <;> exact kept rfl rfl rfl nofun nofun

theorem run_keeps (session : Session) (actions : List Action) :
    (session.run actions).source.config = session.source.config ∧
      (session.run actions).source.cancelled = (session.source.cancelled || .close ∈ actions) ∧
      (session.run actions).source.consumed = (session.source.consumed && .leave ∉ actions) := by
  induction actions generalizing session with
  | nil => simp [run]
  | cons action actions ih =>
    obtain ⟨config, cancelled, consumed⟩ := act_keeps session action
    obtain ⟨last, asked, present⟩ := ih (session.act action)
    refine ⟨last.trans config, ?_, ?_⟩
    · refine asked.trans ?_
      rw [cancelled, Bool.or_assoc]
      simp [eq_comm]
    · refine present.trans ?_
      rw [consumed, Bool.and_assoc]
      simp [eq_comm]

end Session

end EventStream
