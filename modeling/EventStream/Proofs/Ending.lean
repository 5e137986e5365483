import EventStream.Proofs.Lifecycle

/-!
The end of the queue. Someone can still put events into it exactly as long as the source is not
closed, if the first connection is waited for. So a consumer that finds the end finds a closed
source, and a source that closed leaves the consumer what was handed over before, and then the end.
-/

namespace EventStream

namespace Source

def isAwaited (source : Source) : Bool :=
  match source.phase with
  | .connecting _ => true
  | _ => false

theorem mayHand_iff {source : Source} :
    source.mayHand = true ↔ source.phase = .unstarted ∨ source.isRunning = true := by
  cases phase : source.phase <;> simp [mayHand, isRunning, phase]

theorem Shows.mayHand {source : Source} (shows : Shows source)
    (waited : source.phase ≠ .abandoned) : source.mayHand = true ↔ source.state ≠ .closed := by
  rw [Ne, shows.closed]
  cases phase : source.phase with
  | abandoned => exact absurd phase waited
  | _ => simp [Source.mayHand, phase]

theorem receive_ended {source : Source} (ended : source.receive.1 = .ended) :
    source.mayHand = false := by
  unfold receive at ended
  split at ended
  next => cases ended
  next =>
    split at ended
    next => cases ended
    next =>
      dsimp only at ended
      split at ended
      next => cases ended
      next gone => exact Bool.eq_false_iff.mpr gone

theorem receive_gone {source : Source} (present : source.consumed = true)
    (gone : source.mayHand = false) :
    source.receive.1 = source.queue.head?.elim .ended .event ∧
      source.receive.2.queue = source.queue.tail := by
  cases queue : source.queue <;> simp [receive, present, gone, queue]

theorem turn_appends (source : Source) (now : Nat) :
    source.queue <+: (source.turn now).source.queue := by
  have advances := turn_advances source now
  generalize source.turn now = turn at advances ⊢
  cases advances with
  | opened => exact (source.read_holds _).2 ▸ List.prefix_rfl
  | failed =>
    obtain ⟨-, -, -, -, queue⟩ := source.retryAfter_holds _ now
    exact queue ▸ List.prefix_rfl
  | @lost body poll decoder =>
    obtain ⟨-, -, -, -, queue⟩ := (source.learn decoder).retryAfter_holds 0 now
    exact queue ▸ List.prefix_rfl
  | handed => exact List.prefix_append _ _
  | _ => exact List.prefix_rfl

theorem turn_unreceived (source : Source) (now : Nat) :
    Session.received (source.turn now).notes = [] := by
  have advances := turn_advances source now
  generalize source.turn now = turn at advances ⊢
  cases advances with
  | stopped => exact Session.received_tells _ _
  | opened => exact Session.received_tells _ _
  | refused => exact Session.received_tells _ _
  | _ => rfl

theorem turn_waits {source : Source} (waited : source.phase ≠ .abandoned) (now : Nat) :
    (source.turn now).source.phase ≠ .abandoned := by
  rcases source.turn_leads now with same | ⟨-, led⟩
  · rwa [same]
  · exact led

end Source

namespace Session

/-- Whether nobody gives up waiting for the first attempt. -/
def awaits (session : Session) : List Action → Bool
  | [] => true
  | action :: rest =>
    !(action = .abandon && session.source.isAwaited) && (session.act action).awaits rest

def puts (session : Session) (action : Action) : List Event :=
  (session.act action).source.queue.drop session.source.queue.length

def handed (session : Session) : List Action → List Event
  | [] => []
  | action :: rest => session.puts action ++ (session.act action).handed rest

/-- What the consumer is told when it asks for events, each time that it does. -/
def receipts (session : Session) : List Action → List Receipt
  | [] => []
  | .receive :: rest => session.source.receive.1 :: (session.act .receive).receipts rest
  | action :: rest => (session.act action).receipts rest

theorem act_awaits {session : Session} (waited : session.source.phase ≠ .abandoned)
    {action : Action} (awaited : (action = .abandon && session.source.isAwaited) = false) :
    (session.act action).source.phase ≠ .abandoned := by
  cases action with
  | connect =>
    obtain ⟨connected, connects, source, -⟩ := connect_acts session
    rw [source]
    cases connects with
    | late => exact waited
    | _ => intro same; cases same
  | abandon =>
    simp only [act, Source.abandon]
    split
    next phase => simp [Source.isAwaited, phase] at awaited
    next => exact waited
  | close =>
    simp only [act, Source.close]
    split
    next => intro same; cases same
    next => exact waited
  | receive =>
    simp only [act, Source.receive]
    split
    next => exact waited
    next => split <;> exact waited
  | leave => exact waited
  | turn => exact Source.turn_waits waited session.clock
  | elapse millis => exact waited
  | respond answer =>
    simp only [act, Source.respond]
    split
    next => intro same; cases same
    next => intro same; cases same
    next => exact waited
  | arrive arrival =>
    simp only [act, Source.updateFeed]
    split
    next => intro same; cases same
    next => intro same; cases same
    next => exact waited
  | endBody =>
    simp only [act, Source.updateFeed]
    split
    next => intro same; cases same
    next => intro same; cases same
    next => exact waited

theorem run_awaits {session : Session} (waited : session.source.phase ≠ .abandoned)
    {actions : List Action} (awaited : session.awaits actions = true) :
    (session.run actions).source.phase ≠ .abandoned := by
  induction actions generalizing session with
  | nil => exact waited
  | cons action actions ih =>
    rw [awaits, Bool.and_eq_true, Bool.not_eq_true'] at awaited
    exact ih (act_awaits waited awaited.1) awaited.2

theorem act_unreceived (session : Session) {action : Action} (other : action ≠ .receive) :
    received (session.notes action) = [] := by
  cases action with
  | connect =>
    obtain ⟨connected, connects, -, notes⟩ := connect_acts session
    rw [notes]
    cases connects <;> rfl
  | receive => exact absurd rfl other
  | turn =>
    rw [notes, act, notes_follow]
    exact Source.turn_unreceived session.source session.clock
  | elapse millis => simp [notes, act, received]
  | _ => rw [notes, act, notes_follow]; rfl

theorem act_puts (session : Session) {action : Action} (stays : action ≠ .leave) :
    (session.act action).delivered = session.delivered ++ session.puts action := by
  have moved : received (session.notes action) ++ (session.act action).source.queue =
      session.source.queue ++ session.puts action := by
    by_cases turns : action = .turn
    · subst turns
      have appends : session.source.queue <+: (session.act .turn).source.queue :=
        Source.turn_appends session.source session.clock
      rw [@act_unreceived session .turn nofun, List.nil_append]
      exact (List.prefix_iff_eq_append.mp appends).symm
    · have passed := @act_receives session action turns stays
      have nothing : session.puts action = [] := by
        rw [puts, ← passed, List.length_append]
        exact List.drop_of_length_le (Nat.le_add_left _ _)
      rw [passed, nothing, List.append_nil]
  rw [delivered, act_history, received_append, List.append_assoc, moved, delivered,
    List.append_assoc]

theorem run_puts (session : Session) {actions : List Action} (stays : .leave ∉ actions) :
    (session.run actions).delivered = session.delivered ++ session.handed actions := by
  induction actions generalizing session with
  | nil => exact (List.append_nil _).symm
  | cons action actions ih =>
    rw [List.mem_cons, not_or] at stays
    have later := ih (session.act action) stays.2
    rw [act_puts session (Ne.symm stays.1), List.append_assoc] at later
    exact later

/-- Once nothing more is put into the queue the consumer gets what is there and then the end. -/
theorem receipts_gone {session : Session} (present : session.source.consumed = true)
    (gone : session.source.mayHand = false) {actions : List Action} (stays : .leave ∉ actions) :
    let asked := actions.count Action.receive
    session.receipts actions = (session.source.queue.take asked).map Receipt.event ++
      List.replicate (asked - session.source.queue.length) Receipt.ended := by
  induction actions generalizing session with
  | nil => simp [receipts]
  | cons action actions ih =>
    rw [List.mem_cons, not_or] at stays
    obtain ⟨-, -, consumed⟩ := act_keeps session action
    have still : (session.act action).source.mayHand = false := by
      rw [Source.mayHand, (act_gone gone action).1]
      exact gone
    have later := ih (by simp [consumed, present, Ne.symm stays.1]) still stays.2
    by_cases receives : action = .receive
    · subst receives
      obtain ⟨receipt, queue⟩ := Source.receive_gone present gone
      have left : (session.act .receive).source.queue = session.source.queue.tail := queue
      rw [left] at later
      dsimp only at later ⊢
      rw [receipts, receipt, later, List.count_cons_self]
      cases session.source.queue with
      | nil => simp [List.replicate_succ]
      | cons event rest => simp
    · have same : (session.act action).source.queue = session.source.queue := by
        by_cases turns : action = .turn
        · subst turns
          simp only [act, Source.turn_rests (isRunning_of_gone gone)]
          rfl
        · have passed := @act_receives session action turns (Ne.symm stays.1)
          rwa [act_unreceived session receives] at passed
      dsimp only at later ⊢
      rw [List.count_cons_of_ne receives, ← same, ← later]
      cases action with
      | receive => exact absurd rfl receives
      | _ => rfl

/-- Over a whole run in which the first connection is waited for: as long as the source is not
closed somebody can put events into the queue, it is the source itself before the first connection
and its driver afterwards. A consumer that finds the end of the queue finds the source closed. Once
it is closed it stays so, the queue holds what was put into it and was not received, no more than
the capacity, and the consumer is given that, in order, and then the end each time that it asks. -/
theorem ended_closed {config : Config} {source : Source}
    (created : Source.create config = .ok source) {actions : List Action}
    (awaited : (start source).awaits actions = true) :
    let session := (start source).run actions
    (session.source.phase = .unstarted ∨ session.source.isRunning = true ↔
        session.source.state ≠ .closed) ∧
      (session.source.receive.1 = .ended → session.source.state = .closed) ∧
      (session.source.state = .closed → .leave ∉ actions →
        received session.history ++ session.source.queue = (start source).handed actions ∧
        session.source.queue.length ≤ config.capacity ∧
        ∀ after, .leave ∉ after →
          let asked := after.count Action.receive
          (session.run after).source.state = .closed ∧
          session.receipts after = (session.source.queue.take asked).map Receipt.event ++
            List.replicate (asked - session.source.queue.length) Receipt.ended) := by
  intro session
  have shows := run_shows created actions
  have created_waits : (start source).source.phase ≠ .abandoned := by
    rw [create_eq created]
    nofun
  have mayHand := shows.mayHand (run_awaits created_waits awaited)
  refine ⟨Source.mayHand_iff.symm.trans mayHand, ?_, ?_⟩
  · intro ended
    by_contra going
    exact Bool.false_ne_true ((Source.receive_ended ended).symm.trans (mayHand.mpr going))
  · intro closed stays
    have gone : session.source.mayHand = false :=
      Bool.eq_false_iff.mpr fun still => mayHand.mp still closed
    have present : session.source.consumed = true := by
      rw [(run_keeps (start source) actions).2.2, create_eq created]
      simpa [start] using stays
    have none : (start source).delivered = [] := by
      rw [create_eq created]
      rfl
    have handed := run_puts (start source) stays
    rw [none, List.nil_append] at handed
    refine ⟨handed, run_capacity created actions, ?_⟩
    intro after still
    exact ⟨(run_gone gone closed after).2.1, receipts_gone present gone still⟩

/-- A close while the queue is full and the driver holds another event. -/
theorem ended_closed_blocked :
    let session := (start plainSource).run (blocking ++ [.close, .turn])
    session.source.state = .closed ∧ session.source.isRunning = false ∧
      session.source.queue = (start plainSource).handed (blocking ++ [.close, .turn]) ∧
      session.receipts [.receive, .connect, .receive, .turn, .receive] =
        [.event ⟨[49], [], [97]⟩, .ended, .ended] := by
  intro session
  obtain ⟨going, ended, left⟩ := @ended_closed _ _ create_plain (blocking ++ [.close, .turn])
    (by decide +kernel)
  have closed : session.source.state = .closed := by decide +kernel
  obtain ⟨handed, -, later⟩ := left closed (by decide)
  have unreceived : received session.history = [] := by decide +kernel
  have one : session.source.queue = [⟨[49], [], [97]⟩] := by decide +kernel
  refine ⟨closed, ?_, ?_, ?_⟩
  · by_contra running
    exact going.mp (.inr (Bool.eq_true_of_not_eq_false running)) closed
  · rwa [unreceived] at handed
  · have receipts := (later [.receive, .connect, .receive, .turn, .receive] (by decide)).2
    rwa [one] at receipts

end Session

end EventStream
