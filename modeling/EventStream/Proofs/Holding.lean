import EventStream.Proofs.Lifecycle

/-!
What a source holds of its connections. A call of the transport is held while it is in flight, and
the body of its answer from then on. A call is made only with nothing in hand, so that there is never
a second one, and what was begun before was let go before. The state tells which of the two it is.
-/

namespace EventStream

/-- A connection at one time: the call while it is in flight, or the body of its answer. -/
inductive Hold where
  | call (call : Call)
  | body (body : Body)
  deriving DecidableEq, Repr

inductive Hold.Continues : Hold → Hold → Prop where
  | same (hold : Hold) : Continues hold hold
  | answered (call : Call) (answer : Answer) :
      Continues (.call call) (.call { call with answer := some answer })
  | opened {call : Call} {answer : Answer} {body : Body} (answered : call.answer = some answer)
      (accepted : answer.body = .ok body.feed) : Continues (.call call) (.body body)
  | fed {body kept : Body} (untouched : Untouched body kept) : Continues (.body body) (.body kept)
  | polled (body : Body) : Continues (.body body) (.body body.polled.2)

theorem Hold.Continues.of_poll {body : Body} {poll : Poll} {decoder : Decoder} {feed : Feed}
    (polled : body.decoder.poll body.feed = (poll, decoder, feed)) :
    Continues (.body body) (.body ⟨decoder, feed⟩) := by
  have left := Continues.polled body
  rwa [Body.polled, polled] at left

namespace Source

def holds (source : Source) : List Hold :=
  source.call?.toList.map .call ++ source.body?.toList.map .body

theorem holds_of_phase {source next : Source} (same : next.phase = source.phase) :
    next.holds = source.holds := by
  rw [holds, call?, body?, same]
  rfl

theorem holds_call {source : Source} {call : Call} (asked : source.call? = some call) :
    source.holds = [.call call] := by
  rw [holds, asked, (asked_only asked).1]
  rfl

theorem holds_body {source : Source} {body : Body} (held : source.body? = some body) :
    source.holds = [.body body] := by
  rw [holds, held, body_only held]
  rfl

theorem holds_nothing {source : Source} (unasked : source.call? = none)
    (unheld : source.body? = none) : source.holds = [] := by
  rw [holds, unasked, unheld]
  rfl

theorem holds_idle {source : Source} (idle : source.isRunning = false) : source.holds = [] :=
  holds_nothing (idle_only idle).1 (idle_only idle).2.1

theorem holds_waiting {source : Source} {failures wake : Nat}
    (phase : source.phase = .waiting failures wake) : source.holds = [] :=
  holds_nothing (by rw [call?, phase]) (by rw [body?, phase])

theorem holds_cases (source : Source) : source.holds = [] ∨ ∃ hold, source.holds = [hold] := by
  cases asked : source.call? with
  | some call => exact .inr ⟨_, holds_call asked⟩
  | none =>
    cases held : source.body? with
    | some body => exact .inr ⟨_, holds_body held⟩
    | none => exact .inl (holds_nothing asked held)

theorem holds_retryAfter (source : Source) (failures now : Nat) :
    (source.retryAfter failures now).holds = [] := by
  obtain ⟨unheld, unasked, -⟩ := source.retryAfter_holds failures now
  exact holds_nothing unasked unheld

theorem mem_holds_body {source : Source} :
    (∃ body, .body body ∈ source.holds) ↔ source.body?.isSome = true := by
  cases held : source.body? with
  | some body => simp [holds_body held]
  | none => simp [holds, held]

theorem turnReading_frees {source : Source} {body : Body}
    (past : body.polled.1 = .ended ∨ ∃ error, body.polled.1 = .failed error) (now : Nat) :
    (source.turnReading body now).source.holds = [] := by
  unfold turnReading
  split
  next => exact holds_idle rfl
  next =>
    rw [Body.polled] at past
    split
    next polled => simp [polled] at past
    next polled => simp [polled] at past
    next => exact holds_retryAfter _ _ _
    next => exact holds_retryAfter _ _ _

theorem turn_frees {source : Source} {call : Call} {failure : Failure} {now : Nat}
    (asked : source.call? = some call)
    (failed : source.outcome? call now = some (.error failure)) :
    (source.turn now).source.holds = [] := by
  unfold call? at asked
  split at asked
  next phase =>
    cases asked
    simp only [turn, phase, turnConnecting, failed]
    split <;> exact holds_idle rfl
  next phase =>
    cases asked
    simp only [turn, phase, turnReconnecting, failed]
    split
    next => exact holds_idle rfl
    next =>
      split
      next => exact holds_idle rfl
      next => exact holds_retryAfter _ _ _
  next => cases asked

theorem Shifts.started {source next : Source} (shifts : Shifts source next)
    (started : source.phase ≠ .unstarted) : next.phase ≠ .unstarted := by
  cases shifts with
  | stays same => rwa [same]
  | asks _ after => simp [after]
  | ends _ after => simp [after]
  | abandons _ after => simp [after]
  | answers _ after => simp [after]
  | answersAgain _ after => simp [after]
  | feeds _ after => simp [after]
  | feedsHeld _ after => simp [after]

theorem Shows.opened {source : Source} (shows : Shows source) (unasked : source.state ≠ .closing)
    (unclosed : source.state ≠ .closed) :
    source.body?.isSome = true ↔ source.state = .opened := by
  have unfinished : source.phase ≠ .finished := fun finished =>
    unclosed (shows.closed.mpr finished)
  rw [shows.state, shown, if_neg unfinished] at unasked ⊢
  cases asked : source.cancelled with
  | true => simp [asked] at unasked
  | false => cases source.body?.isSome <;> simp

theorem Shifts.holds {source next : Source} (shifts : Shifts source next)
    (started : source.phase ≠ .unstarted) :
    next.holds = [] ∨ ∃ hold kept, source.holds = [hold] ∧ next.holds = [kept] ∧
      hold.Continues kept := by
  cases shifts with
  | stays same =>
    rw [holds_of_phase same]
    rcases source.holds_cases with nothing | ⟨hold, held⟩
    · exact .inl nothing
    · exact .inr ⟨hold, hold, held, held, .same hold⟩
  | asks before => exact absurd before started
  | ends before => exact absurd before started
  | abandons before after =>
    exact .inl (holds_idle (by rw [isRunning, after]))
  | answers before after =>
    exact .inr ⟨_, _, holds_call (by rw [call?, before]), holds_call (by rw [call?, after]),
      .answered _ _⟩
  | answersAgain before after =>
    exact .inr ⟨_, _, holds_call (by rw [call?, before]), holds_call (by rw [call?, after]),
      .answered _ _⟩
  | feeds before after untouched =>
    exact .inr ⟨_, _, holds_body (by rw [body?, before]), holds_body (by rw [body?, after]),
      .fed untouched⟩
  | feedsHeld before after untouched =>
    exact .inr ⟨_, _, holds_body (by rw [body?, before]), holds_body (by rw [body?, after]),
      .fed untouched⟩

end Source

namespace Session

/-- How an action passes on what is held. A connection begins with a call of the transport, and only
when there is none. -/
inductive Carries (session : Session) (action : Action) : List Hold → List Hold → Prop where
  | begins {request : Request} {call : Call}
      (called : session.notes action = [.called session.clock request])
      (resumes : call.resumeId = session.source.cursor) : Carries session action [] [.call call]
  | keeps {hold kept : Hold} (uncalled : calls (session.notes action) = [])
      (continues : hold.Continues kept) : Carries session action [hold] [kept]
  | frees {held : List Hold} (uncalled : calls (session.notes action) = []) :
      Carries session action held []

section Step

variable {session : Session}

theorem carries_same {action : Action} (uncalled : calls (session.notes action) = [])
    (same : (session.act action).source.phase = session.source.phase) :
    session.Carries action session.source.holds (session.act action).source.holds := by
  rw [Source.holds_of_phase same]
  rcases session.source.holds_cases with nothing | ⟨hold, held⟩
  · rw [nothing]
    exact .frees uncalled
  · rw [held]
    exact .keeps uncalled (.same hold)

theorem turn_carries :
    session.Carries .turn session.source.holds (session.act .turn).source.holds := by
  obtain ⟨turn, advances, source, notes⟩ := turn_acts session
  have same (uncalled : calls turn.notes = []) (phase : turn.source.phase = session.source.phase) :
      session.Carries .turn session.source.holds (session.act .turn).source.holds :=
    carries_same (notes ▸ uncalled) (source ▸ phase)
  have frees (uncalled : calls turn.notes = []) (nothing : turn.source.holds = []) :
      session.Carries .turn session.source.holds (session.act .turn).source.holds := by
    rw [source, nothing]
    exact .frees (notes ▸ uncalled)
  have keeps {hold kept : Hold} (uncalled : calls turn.notes = [])
      (before : session.source.holds = [hold]) (after : turn.source.holds = [kept])
      (continues : hold.Continues kept) :
      session.Carries .turn session.source.holds (session.act .turn).source.holds := by
    rw [source, before, after]
    exact .keeps (notes ▸ uncalled) continues
  cases advances with
  | idle => exact same rfl rfl
  | unanswered => exact same rfl rfl
  | full => exact same rfl rfl
  | sleeping => exact same rfl rfl
  | stopped => exact frees (calls_tells _ _) rfl
  | refused => exact frees (calls_tells _ _) rfl
  | unbuilt => exact frees rfl rfl
  | failed => exact frees rfl (Source.holds_retryAfter _ _ _)
  | lost => exact frees rfl (Source.holds_retryAfter _ _ _)
  | opened _ asked answer =>
    obtain ⟨given, answered, accepted⟩ := Source.outcome_answered answer
    exact keeps (calls_tells _ _) (Source.holds_call asked) (Source.holds_body rfl)
      (.opened answered accepted)
  | pending _ phase polled =>
    exact keeps rfl (Source.holds_body (by rw [Source.body?, phase])) (Source.holds_body rfl)
      (.of_poll polled)
  | decoded _ phase polled =>
    exact keeps rfl (Source.holds_body (by rw [Source.body?, phase])) (Source.holds_body rfl)
      (.of_poll polled)
  | handed _ phase =>
    exact keeps rfl (Source.holds_body (by rw [Source.body?, phase])) (Source.holds_body rfl)
      (.same _)
  | called _ phase _ built =>
    rw [Source.holds_waiting phase, source]
    exact .begins notes (Source.call_built built).1

theorem act_carries (action : Action) :
    session.Carries action session.source.holds (session.act action).source.holds := by
  by_cases turns : action = .turn
  · exact turns ▸ turn_carries
  · by_cases first : action = .connect ∧ session.source.phase = .unstarted
    · obtain ⟨rfl, unstarted⟩ := first
      obtain ⟨connected, connects, source, notes⟩ := connect_acts session
      have nothing : session.source.holds = [] :=
        Source.holds_idle (by rw [Source.isRunning, unstarted])
      cases connects with
      | late started => exact absurd unstarted started
      | stopped => exact source ▸ .frees (by rw [notes]; rfl)
      | unbuilt => exact source ▸ .frees (by rw [notes]; rfl)
      | called _ _ built =>
        rw [nothing, source]
        exact .begins notes (Source.call_built built).1
    · have uncalled := act_uncalled turns fun connects unstarted => first ⟨connects, unstarted⟩
      by_cases unstarted : session.source.phase = .unstarted
      · by_cases closes : action = .close
        · subst closes
          have finished : (session.act .close).source.phase = .finished :=
            (close_unstarted unstarted).2.1
          exact Source.holds_idle (by rw [Source.isRunning, finished]) ▸ .frees uncalled
        · have rests := unstarted_rests unstarted (fun same => first ⟨same, unstarted⟩) closes
          exact carries_same uncalled (rests.trans unstarted.symm)
      · rcases (act_beside session turns).shifts.holds unstarted with
          nothing | ⟨hold, kept, before, after, continues⟩
        · exact nothing ▸ .frees uncalled
        · rw [before, after]
          exact .keeps uncalled continues

end Step

/-- What actions let go of, in order: what is held before an action, if nothing is held behind it. -/
def releases (session : Session) : List Action → List Hold
  | [] => []
  | action :: rest =>
    (if (session.act action).source.holds = [] then session.source.holds else []) ++
      (session.act action).releases rest

theorem Carries.counts {session : Session} {action : Action} {before after : List Hold}
    (carries : session.Carries action before after) :
    before.length + (calls (session.notes action)).length =
      (if after = [] then before else []).length + after.length := by
  cases carries with
  | begins called => rw [called]; rfl
  | keeps uncalled => rw [uncalled]; rfl
  | frees uncalled => rw [uncalled, if_pos rfl]; rfl

/-- Over a run every call of the transport is let go once or is held in the end. -/
theorem run_counts (session : Session) (actions : List Action) :
    (calls session.history).length + (session.releases actions).length +
        (session.run actions).source.holds.length =
      session.source.holds.length + (calls (session.run actions).history).length := by
  induction actions generalizing session with
  | nil =>
    rw [releases, List.length_nil, Nat.add_zero, Nat.add_comm]
    rfl
  | cons action actions ih =>
    have first := (@act_carries session action).counts
    have later := ih (session.act action)
    have runs : session.run (action :: actions) = (session.act action).run actions := rfl
    rw [act_history, calls_append, List.length_append] at later
    rw [runs, releases, List.length_append]
    omega

/-- Where a connection is let go. One that is lost or refused is not held during the wait for the
next one, and not any more when somebody hears of the failure. -/
structure Frees (session : Session) : Prop where
  lost : ∀ body, session.source.phase = .reading body →
    (body.polled.1 = .ended ∨ ∃ error, body.polled.1 = .failed error) →
      (session.act .turn).source.holds = []
  refused : ∀ call answer, session.source.call? = some call → call.answer = some answer →
    (∀ response, answer = .response response → ¬response.IsStream) →
      (session.act .turn).source.holds = []
  overdue : ∀ call, session.source.call? = some call → call.answer = none →
    call.deadline ≤ session.clock → (session.act .turn).source.holds = []
  waits : ∀ failures wake, session.source.phase = .waiting failures wake →
    session.source.holds = []
  reports : ∀ action failure, .connected (some failure) ∈ session.notes action →
    (action = .connect → session.source.phase = .unstarted) →
      (session.act action).source.holds = []

theorem act_reports {session : Session} {action : Action} {failure : Failure}
    (noted : .connected (some failure) ∈ session.notes action)
    (first : action = .connect → session.source.phase = .unstarted) :
    (session.act action).source.holds = [] := by
  cases action with
  | turn =>
    obtain ⟨turn, advances, source, notes⟩ := turn_acts session
    rw [source]
    rw [notes] at noted
    cases advances with
    | stopped => exact Source.holds_idle rfl
    | refused => exact Source.holds_idle rfl
    | opened =>
      simp only [Source.Turn.notes, Source.tells] at noted
      split at noted <;> simp at noted
    | called => simp [Source.Turn.notes] at noted
    | decoded => simp [Source.Turn.notes] at noted
    | _ => cases noted
  | connect =>
    obtain ⟨connected, connects, source, notes⟩ := connect_acts session
    rw [source]
    rw [notes] at noted
    cases connects with
    | late started => exact absurd (first rfl) started
    | stopped => exact Source.holds_idle rfl
    | unbuilt => exact Source.holds_idle rfl
    | called => simp at noted
  | receive =>
    rw [notes, act, notes_follow] at noted
    cases receipt : session.source.receive.1 <;> simp [receipt, Receipt.notes] at noted
  | elapse millis => simp [notes, act] at noted
  | _ =>
    rw [notes, act, notes_follow] at noted
    cases noted

theorem frees (session : Session) : session.Frees where
  lost := by
    intro body phase past
    have turns : session.source.turn session.clock =
        session.source.turnReading body session.clock := by rw [Source.turn, phase]
    simp only [act, follow, turns]
    exact Source.turnReading_frees past _
  refused := by
    intro call answer asked answered other
    cases accepted : answer.body with
    | ok feed =>
      obtain ⟨response, same, stream⟩ := body_of_answer accepted
      exact absurd stream (other response same)
    | error failure =>
      have failed : session.source.outcome? call session.clock = some (.error failure) := by
        simp only [Source.outcome?, answered, accepted]
      exact Source.turn_frees asked failed
  overdue := by
    intro call asked unanswered due
    have failed : session.source.outcome? call session.clock =
        some (.error (.timeout session.source.config.connectTimeout)) := by
      simp only [Source.outcome?, unanswered]
      exact if_neg (Nat.not_lt.mpr due)
    exact Source.turn_frees asked failed
  waits := fun _ _ phase => Source.holds_waiting phase
  reports := fun _ _ noted first => act_reports noted first

theorem act_started {session : Session} (started : session.source.phase ≠ .unstarted)
    (action : Action) : (session.act action).source.phase ≠ .unstarted := by
  by_cases turns : action = .turn
  · subst turns
    rcases session.source.turn_leads session.clock with same | ⟨led, -⟩
    · exact same.trans_ne started
    · exact led
  · exact (act_beside session turns).shifts.started started

theorem run_started {session : Session} (started : session.source.phase ≠ .unstarted)
    (actions : List Action) : (session.run actions).source.phase ≠ .unstarted := by
  induction actions generalizing session with
  | nil => exact started
  | cons action actions ih => exact ih (act_started started action)

theorem act_begins (session : Session) {first : Action} (begins : first = .connect ∨ first = .close) :
    (session.act first).source.phase ≠ .unstarted := by
  by_cases unstarted : session.source.phase = .unstarted
  · rcases begins with rfl | rfl
    · obtain ⟨connected, connects, source, -⟩ := connect_acts session
      rw [source]
      cases connects with
      | late started => exact absurd unstarted started
      | _ => nofun
    · have finished : (session.act .close).source.phase = .finished :=
        (close_unstarted unstarted).2.1
      rw [finished]
      nofun
  · exact act_started unstarted first

/-- At every moment of a run at most one call or body is held, and every action passes it on or lets
it go. So there are as many calls of the transport as connections that were let go and one that is
held, if there is one. While no close was asked for the source holds a body exactly when it is open,
and a closed one holds nothing. What is lost or refused is not held while the source waits, nor when
somebody hears of it. A further connect, or one behind a close, is told that the source is closed and
changes nothing. -/
theorem single_connection {config : Config} {source : Source}
    (created : Source.create config = .ok source) (actions : List Action) :
    let session := (start source).run actions
    session.source.holds.length ≤ 1 ∧
      (∀ action,
        session.Carries action session.source.holds (session.act action).source.holds) ∧
      (calls session.history).length =
        ((start source).releases actions).length + session.source.holds.length ∧
      (session.source.state ≠ .closing → session.source.state ≠ .closed →
        ((∃ body, .body body ∈ session.source.holds) ↔ session.source.state = .opened)) ∧
      (session.source.state = .closed → session.source.holds = []) ∧
      session.Frees ∧
      ∀ before first after, actions = before ++ first :: after →
        first = .connect ∨ first = .close →
          session.act .connect = session.follow session.source [.connected (some .closed)] := by
  intro session
  have shows := run_shows created actions
  refine ⟨?_, fun action => act_carries action, ?_, ?_, ?_, session.frees, ?_⟩
  · rcases session.source.holds_cases with nothing | ⟨hold, held⟩
    · rw [nothing]
      exact Nat.zero_le 1
    · rw [held]
      exact Nat.le_refl 1
  · have counts := run_counts (start source) actions
    have nothing : (start source).source.holds = [] := by
      rw [create_eq created]
      rfl
    have silent : calls (start source).history = [] := rfl
    rw [nothing, silent] at counts
    simp only [List.length_nil, Nat.zero_add] at counts
    exact counts.symm
  · intro unasked unclosed
    rw [Source.mem_holds_body]
    exact shows.opened unasked unclosed
  · intro closed
    exact Source.holds_idle (by rw [Source.isRunning, shows.closed.mp closed])
  · rintro before first after rfl begins
    have split : session = (((start source).run before).act first).run after := List.foldl_append
    have started : session.source.phase ≠ .unstarted := by
      rw [split]
      exact run_started (act_begins _ begins) after
    rw [act, Source.connect_started started]

/-- A stream ends and the transport is called again. By then the stream is let go. -/
theorem single_connection_again :
    let actions := [.connect, .respond (streaming []), .turn, .endBody, .turn, .elapse 3000, .turn]
    let session := (start plainSource).run actions
    (calls session.history).length = 2 ∧ ((start plainSource).releases actions).length = 1 ∧
      session.source.holds.length = 1 ∧
      session.act .connect = session.follow session.source [.connected (some .closed)] := by
  intro actions session
  obtain ⟨-, -, counts, -, -, -, late⟩ := single_connection create_plain actions
  have called : (calls session.history).length = 2 := by decide +kernel
  have released : ((start plainSource).releases actions).length = 1 := by decide +kernel
  refine ⟨called, released, ?_, late [] .connect _ rfl (.inl rfl)⟩
  rw [called, released] at counts
  exact (Nat.add_left_cancel counts).symm

end Session

end EventStream
