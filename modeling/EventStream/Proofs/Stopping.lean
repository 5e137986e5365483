import EventStream.Proofs.Bystanders

/-!
A driver that is asked to stop. Whatever it waits for, its next turn is the last one: it lets go of
what it holds, and from then on the transport is not called and the queue only gets shorter.
-/

namespace EventStream.Session

structure Quiet (session next : Session) : Prop where
  calls : calls next.history = calls session.history
  queue : next.source.queue <:+ session.source.queue

theorem Quiet.refl (session : Session) : Quiet session session := ⟨rfl, List.suffix_refl _⟩

theorem Quiet.trans {first second third : Session} (sooner : Quiet first second)
    (later : Quiet second third) : Quiet first third :=
  ⟨later.calls.trans sooner.calls, later.queue.trans sooner.queue⟩

theorem quiet_follow (session : Session) {source : Source} {notes : List Note}
    (uncalled : Session.calls notes = []) (queue : source.queue <:+ session.source.queue) :
    Quiet session (session.follow source notes) := by
  refine ⟨?_, queue⟩
  rw [follow, calls_append, uncalled, List.append_nil]

theorem act_quiet {session : Session} {action : Action}
    (late : action = .connect → session.source.phase ≠ .unstarted)
    (passive : action = .turn → session.source.isRunning = false) :
    Quiet session (session.act action) := by
  by_cases turns : action = .turn
  · subst turns
    simp only [act, Source.turn_rests (passive rfl)]
    exact quiet_follow session rfl (List.suffix_refl _)
  · refine ⟨?_, (act_beside session turns).queue⟩
    rw [act_history, calls_append, act_uncalled turns late, List.append_nil]

/-- Where the driver stands, when only what is held there may change. -/
def Stays (source next : Source) : Prop :=
  next.isRunning = source.isRunning ∧ ∀ failure, next.tells failure = source.tells failure

theorem act_waits {session : Session} (present : session.source.isRunning = true)
    {action : Action} (other : action ≠ .turn) :
    Stays session.source (session.act action).source ∨
      (session.act action).source.phase = .abandoned := by
  have absent (phase : session.source.phase = .unstarted) : False := by
    simp [Source.isRunning, phase] at present
  cases (act_beside session other).shifts with
  | stays same => exact .inl ⟨by rw [Source.isRunning, same]; rfl, by simp [Source.tells, same]⟩
  | asks before => exact (absent before).elim
  | ends before => exact (absent before).elim
  | abandons _ after => exact .inr after
  | answers before after => simp [Stays, Source.isRunning, Source.tells, before, after]
  | answersAgain before after => simp [Stays, Source.isRunning, Source.tells, before, after]
  | feeds before after => simp [Stays, Source.isRunning, Source.tells, before, after]
  | feedsHeld before after => simp [Stays, Source.isRunning, Source.tells, before, after]

theorem started_of_gone {source : Source} (gone : source.mayHand = false) :
    source.phase ≠ .unstarted := by
  intro phase
  simp [Source.mayHand, phase] at gone

theorem isRunning_of_gone {source : Source} (gone : source.mayHand = false) :
    source.isRunning = false := by
  unfold Source.mayHand at gone
  unfold Source.isRunning
  split at gone
  next phase => rw [phase]
  next phase => rw [phase]
  next => cases gone

theorem act_gone {session : Session} (gone : session.source.mayHand = false) (action : Action) :
    (session.act action).source.phase = session.source.phase ∧
      (session.source.state = .closed → (session.act action).source.state = .closed) := by
  by_cases turns : action = .turn
  · subst turns
    simp only [act, Source.turn_rests (isRunning_of_gone gone)]
    exact ⟨rfl, id⟩
  · have beside := act_beside session turns
    refine ⟨?_, ?_⟩
    · cases beside.shifts with
      | stays same => exact same
      | _ before => simp [Source.mayHand, before] at gone
    · intro closed
      rcases beside.state with same | ⟨-, opened⟩ | ⟨shut, -⟩
      · exact same.trans closed
      · simp [closed, ReadyState.isShuttingDown] at opened
      · exact shut

/-- After the last turn the state stays closed, and nothing is called or queued. -/
theorem run_gone {session : Session} (gone : session.source.mayHand = false)
    (closed : session.source.state = .closed) (actions : List Action) :
    (session.run actions).source.phase = session.source.phase ∧
      (session.run actions).source.state = .closed ∧ Quiet session (session.run actions) := by
  induction actions generalizing session with
  | nil => exact ⟨rfl, closed, .refl session⟩
  | cons action actions ih =>
    obtain ⟨phase, still⟩ := act_gone gone action
    have first := @act_quiet session action (fun _ => started_of_gone gone)
      fun _ => isRunning_of_gone gone
    have last : (session.act action).source.mayHand = false := by
      rwa [Source.mayHand, phase]
    obtain ⟨same, shut, later⟩ := ih last (still closed)
    exact ⟨same.trans phase, shut, first.trans later⟩

theorem act_isStopped {session : Session} (stops : session.source.isStopped = true)
    (action : Action) : (session.act action).source.isStopped = true := by
  obtain ⟨-, cancelled, consumed⟩ := act_keeps session action
  simp only [Source.isStopped, cancelled, consumed, Bool.or_eq_true, Bool.not_eq_true'] at stops ⊢
  rcases stops with cancelled | consumed
  · simp [cancelled]
  · simp [consumed]

theorem act_asks (session : Session) {stop : Action} (asks : stop = .close ∨ stop = .leave) :
    (session.act stop).source.isStopped = true := by
  obtain ⟨-, cancelled, consumed⟩ := act_keeps session stop
  rw [Source.isStopped, cancelled, consumed]
  rcases asks with rfl | rfl <;> simp

theorem run_isStopped {session : Session} (stops : session.source.isStopped = true)
    (actions : List Action) : (session.run actions).source.isStopped = true := by
  induction actions generalizing session with
  | nil => exact stops
  | cons action actions ih => exact ih (act_isStopped stops action)

theorem run_abandoned {session : Session} (phase : session.source.phase = .abandoned)
    (actions : List Action) : (session.run actions).source.phase = .abandoned := by
  induction actions generalizing session with
  | nil => exact phase
  | cons action actions ih =>
    have gone : session.source.mayHand = false := by rw [Source.mayHand, phase]
    exact ih ((act_gone gone action).1.trans phase)

theorem started_of_running {source : Source} (present : source.isRunning = true) :
    source.phase ≠ .unstarted := by
  intro phase
  simp [Source.isRunning, phase] at present

theorem run_waits {session : Session} (present : session.source.isRunning = true)
    {actions : List Action} (still : .turn ∉ actions)
    (waited : (session.run actions).source.phase ≠ .abandoned) :
    Stays session.source (session.run actions).source ∧ Quiet session (session.run actions) := by
  induction actions generalizing session with
  | nil => exact ⟨⟨rfl, fun _ => rfl⟩, .refl session⟩
  | cons action actions ih =>
    rw [List.mem_cons, not_or] at still
    have first := @act_quiet session action (fun _ => started_of_running present)
      fun turn => absurd turn.symm still.1
    rcases act_waits present (Ne.symm still.1) with stays | phase
    · obtain ⟨last, later⟩ := ih (stays.1.trans present) still.2 waited
      exact ⟨⟨last.1.trans stays.1, fun failure => (last.2 failure).trans (stays.2 failure)⟩,
        first.trans later⟩
    · exact absurd (run_abandoned phase actions) waited

/-- The turn of a driver that was asked to stop: the source is closed, what was held is let go, the
queue is as it was, and only a wait for the first attempt hears of it. -/
theorem turn_closes {session : Session} (present : session.source.isRunning = true)
    (stops : session.source.isStopped = true) :
    session.isBlocked = false ∧ (session.act .turn).source.state = .closed ∧
      (session.act .turn).source.phase = .finished ∧
      (session.act .turn).source.queue = session.source.queue ∧
      (session.act .turn).history = session.history ++ session.source.tells (some .closed) := by
  obtain ⟨retryMillis, moved⟩ := Source.turn_stops present stops session.clock
  simp only [isBlocked, act, moved]
  exact ⟨rfl, rfl, rfl, rfl, rfl⟩

/-- What is left when the driver is done: no body, no attempt, nothing more for the queue, and no
call or event since `session`. -/
structure Shut (session last : Session) : Prop where
  state : last.source.state = .closed
  body : last.source.body? = none
  attempt : last.source.call? = none
  sender : last.source.mayHand = false
  quiet : Quiet session last

theorem shut_finished {session last : Session} (state : last.source.state = .closed)
    (phase : last.source.phase = .finished) (quiet : Quiet session last) : Shut session last where
  state := state
  body := by rw [Source.body?, phase]
  attempt := by rw [Source.call?, phase]
  sender := by rw [Source.mayHand, phase]
  quiet := quiet

theorem shut_run {session last : Session} (phase : last.source.phase = .finished)
    (shut : Shut session last) (actions : List Action) : Shut session (last.run actions) := by
  obtain ⟨same, state, quiet⟩ := run_gone shut.sender shut.state actions
  exact shut_finished state (same.trans phase) (shut.quiet.trans quiet)

theorem close_unstarted {source : Source} (unstarted : source.phase = .unstarted) :
    source.close.state = .closed ∧ source.close.phase = .finished ∧
      source.close.queue = source.queue := by
  simp only [Source.close, unstarted]
  exact ⟨rfl, rfl, rfl⟩

def plainSource : Source :=
  ⟨.forUrl "http://a/", .connecting, [], 3000, false, [], true, .unstarted⟩

def streaming (bytes : Bytes) : Answer :=
  .response ⟨Status.ok, [⟨Headers.contentType, Request.eventStreamType⟩],
    ⟨[.chunk bytes], false, 0⟩⟩

theorem create_plain : Source.create (.forUrl "http://a/") = .ok plainSource := by rfl

/-- After these one event is in the queue, which is full, and the driver holds the next one. -/
def blocking : List Action :=
  [.connect, .respond (streaming (Bytes.ofText "id:1\ndata:a\n\ndata:b\n\n")), .turn, .turn, .turn,
    .turn]

def blockedSession : Session := (start plainSource).run blocking

/-- After these the only event is in the queue, and the driver has yet to learn of the end. -/
def ending : List Action :=
  [.connect, .respond (streaming (Bytes.ofText "data:a\n\n")), .turn, .turn, .turn, .endBody]

/-- A driver that waits, for an answer, for bytes, for the clock or for room in the queue, is asked
to stop, by a close or by a consumer that goes away. Whatever happens in between, its next turn is
not held up and is its last: the source is closed for good, and no call and no event followed the
request. Who waits for the first attempt learns of the close. A source without a driver closes at
once. -/
theorem stop_shuts (session : Session) :
    (∀ stop between, session.source.isRunning = true → stop = .close ∨ stop = .leave →
      .turn ∉ between → (session.run (stop :: between)).source.phase ≠ .abandoned →
      let stopped := session.run (stop :: between)
      let last := stopped.act .turn
      stopped.isBlocked = false ∧ last.source.queue = stopped.source.queue ∧ Shut session last ∧
        (∀ call, session.source.phase = .connecting call →
          last.history = stopped.history ++ [.connected (some .closed)]) ∧
        ∀ after, Shut session (last.run after)) ∧
      (session.source.phase = .unstarted →
        ∀ after, Shut session ((session.act .close).run after)) := by
  refine ⟨?_, ?_⟩
  · intro stop between present asks still waited stopped last
    have passive : .turn ∉ stop :: between := by
      rcases asks with rfl | rfl <;> simpa using still
    obtain ⟨⟨running, tells⟩, before⟩ := run_waits present passive waited
    have stops : stopped.source.isStopped = true := run_isStopped (act_asks session asks) between
    obtain ⟨free, state, phase, queue, history⟩ := turn_closes (running.trans present) stops
    have quiet : Quiet stopped last := by
      refine ⟨?_, queue ▸ List.suffix_refl _⟩
      rw [history, calls_append, calls_tells, List.append_nil]
    have shut := shut_finished state phase (before.trans quiet)
    refine ⟨free, queue, shut, ?_, shut_run phase shut⟩
    intro call connecting
    rw [history, tells, Source.tells, connecting]
  · intro unstarted after
    obtain ⟨state, phase, queue⟩ := close_unstarted unstarted
    have quiet : Quiet session (session.act .close) := quiet_follow session rfl (by simp [queue])
    exact shut_run phase (shut_finished state phase quiet) after

theorem stop_shuts_blocked :
    blockedSession.isBlocked = true ∧
      Shut blockedSession (blockedSession.run [.close, .receive, .turn]) ∧
      Shut (start plainSource) ((start plainSource).act .close) :=
  ⟨by decide +kernel,
    ((stop_shuts blockedSession).1 .close [.receive] (by decide +kernel) (.inl rfl) (by decide)
      (by decide +kernel)).2.2.1,
    (stop_shuts (start plainSource)).2 rfl []⟩

end EventStream.Session
