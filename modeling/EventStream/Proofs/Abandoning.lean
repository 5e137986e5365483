import EventStream.Proofs.Ending

/-!
A first attempt that is given up while it is in flight. The duty to close goes with the wait for the
attempt: as long as somebody waits a close is seen to, and when nobody does it never is. The source
then stays as it was, or closing for good once a close is asked for, while its consumer is already
at the end of the queue.
-/

namespace EventStream

namespace Source

def isUnopened (source : Source) : Bool :=
  match source.phase with
  | .unstarted | .connecting _ | .abandoned => true
  | _ => false

theorem turn_unopened {source : Source} {now : Nat}
    (unopened : (source.turn now).source.isUnopened = true) :
    (source.turn now).source = source := by
  have retries (source : Source) (failures : Nat) :
      (source.retryAfter failures now).isUnopened = false := by
    rcases retryAfter_cases source failures now with same | ⟨state, same⟩ <;> rw [same] <;> rfl
  have advances := turn_advances source now
  generalize source.turn now = turn at advances unopened ⊢
  cases advances with
  | idle => rfl
  | unanswered => rfl
  | full => rfl
  | sleeping => rfl
  | failed => cases (retries _ _).symm.trans unopened
  | lost => cases (retries _ _).symm.trans unopened
  | _ => cases unopened

end Source

namespace Session

theorem act_unopened {session : Session} {action : Action}
    (unopened : (session.act action).source.isUnopened = true) :
    session.source.isUnopened = true ∧
      (session.act action).source.queue <:+ session.source.queue := by
  by_cases turns : action = .turn
  · subst turns
    have same : (session.act .turn).source = session.source := Source.turn_unopened unopened
    rw [same] at unopened ⊢
    exact ⟨unopened, List.suffix_refl _⟩
  · have beside := act_beside session turns
    refine ⟨?_, beside.queue⟩
    rw [Source.isUnopened] at unopened ⊢
    cases beside.shifts with
    | stays same => rwa [same] at unopened
    | asks before => rw [before]
    | ends before => rw [before]
    | abandons before => rw [before]
    | answers before => rw [before]
    | answersAgain _ after => rw [after] at unopened; cases unopened
    | feeds _ after => rw [after] at unopened; cases unopened
    | feedsHeld _ after => rw [after] at unopened; cases unopened

theorem run_unopened {session : Session} {actions : List Action}
    (unopened : (session.run actions).source.isUnopened = true) :
    session.source.isUnopened = true ∧
      (session.run actions).source.queue <:+ session.source.queue := by
  induction actions generalizing session with
  | nil => exact ⟨unopened, List.suffix_refl _⟩
  | cons action actions ih =>
    obtain ⟨before, later⟩ := ih unopened
    obtain ⟨first, sooner⟩ := act_unopened before
    exact ⟨first, later.trans sooner⟩

theorem run_quiet {session : Session} (gone : session.source.mayHand = false)
    (actions : List Action) : Quiet session (session.run actions) := by
  induction actions generalizing session with
  | nil => exact .refl session
  | cons action actions ih =>
    have first := @act_quiet session action (fun _ => started_of_gone gone)
      fun _ => isRunning_of_gone gone
    have still : (session.act action).source.mayHand = false := by
      rw [Source.mayHand, (act_gone gone action).1]
      exact gone
    exact first.trans (ih still)

def Abandons (session : Session) (actions : List Action) : Prop :=
  ∃ before call after, actions = before ++ .abandon :: after ∧
    (session.run before).source.phase = .connecting call

theorem abandons_iff {session : Session} (waited : session.source.phase ≠ .abandoned)
    (actions : List Action) :
    session.Abandons actions ↔ (session.run actions).source.phase = .abandoned := by
  constructor
  · rintro ⟨before, call, after, rfl, attempt⟩
    have given : ((session.run before).act .abandon).source.phase = .abandoned := by
      simp only [act, follow, Source.abandon, attempt]
    have split : session.run (before ++ .abandon :: after) =
        ((session.run before).act .abandon).run after := List.foldl_append
    rw [split]
    exact run_abandoned given after
  · intro abandoned
    induction actions generalizing session with
    | nil => exact absurd abandoned waited
    | cons action actions ih =>
      by_cases awaited : (action = .abandon && session.source.isAwaited) = false
      · obtain ⟨before, call, after, rfl, attempt⟩ := ih (act_awaits waited awaited) abandoned
        exact ⟨action :: before, call, after, rfl, attempt⟩
      · simp only [Bool.not_eq_false, Bool.and_eq_true, decide_eq_true_eq] at awaited
        obtain ⟨rfl, awaited⟩ := awaited
        unfold Source.isAwaited at awaited
        split at awaited
        next call attempt => exact ⟨[], call, actions, rfl, attempt⟩
        next => cases awaited

theorem close_ends {session : Session} (shows : Source.Shows session.source)
    (waited : session.source.phase ≠ .abandoned) :
    (session.run [.close, .turn]).source.state = .closed := by
  show ((session.act .close).act .turn).source.state = .closed
  by_cases unstarted : session.source.phase = .unstarted
  · obtain ⟨closed, finished, -⟩ := close_unstarted unstarted
    have gone : (session.act .close).source.mayHand = false := by
      show session.source.close.mayHand = false
      rw [Source.mayHand, finished]
    exact (act_gone gone .turn).2 closed
  · have phase : (session.act .close).source.phase = session.source.phase := by
      show session.source.close.phase = _
      rw [Source.close_started unstarted]
    by_cases finished : session.source.phase = .finished
    · have gone : session.source.mayHand = false := by rw [Source.mayHand, finished]
      have closed := (act_gone gone .close).2 (shows.closed.mpr finished)
      exact (act_gone (by rw [Source.mayHand, phase, finished]) .turn).2 closed
    · have running : (session.act .close).source.isRunning = true := by
        rw [Source.isRunning, phase]
        cases at_ : session.source.phase with
        | unstarted => exact absurd at_ unstarted
        | finished => exact absurd at_ finished
        | abandoned => exact absurd at_ waited
        | _ => rfl
      exact (turn_closes running (act_asks session (.inl rfl))).2.1

/-- What is left of a source whose first attempt was given up. -/
structure Forsaken (session : Session) : Prop where
  state : session.source.state = if session.source.cancelled then .closing else .connecting
  receipt : session.source.receive.1 = if session.source.consumed then .ended else .gone
  blocked : session.isBlocked = true
  connect : session.notes .connect = [.connected (some .closed)]

theorem forsaken_of_abandoned {session : Session} (shows : Source.Shows session.source)
    (phase : session.source.phase = .abandoned) (empty : session.source.queue = []) :
    Forsaken session := by
  have absent : session.source.isRunning = false := by rw [Source.isRunning, phase]
  have started : session.source.phase ≠ .unstarted := by simp [phase]
  have unfinished : session.source.phase ≠ .finished := by simp [phase]
  constructor
  · rw [shows.state, Source.shown, if_neg unfinished, Source.body?, phase]
    rfl
  · rw [Source.receive, empty, Source.mayHand, phase]
    cases session.source.consumed <;> rfl
  · rw [isBlocked, Source.turn_rests absent]
    rfl
  · rw [notes, act, notes_follow, Source.connect_started started]

/-- A source that is asked to close does so at its next turn at the latest, unless its first attempt
was given up while it was in flight. In that case nothing that happens ever closes it: it stays
connecting, and closing once a close was asked for, whether before or after. The consumer is at the
end of the queue all the while, a connect answers that the source is closed, no turn goes on, and
the transport is not called any more. -/
theorem closes_unless_abandoned {config : Config} {source : Source}
    (created : Source.create config = .ok source) (actions : List Action) :
    let session := (start source).run actions
    (¬(start source).Abandons actions ↔ (session.run [.close, .turn]).source.state = .closed) ∧
      ((start source).Abandons actions → ∀ after,
        let later := session.run after
        later.source.state = (if .close ∈ actions ++ after then .closing else .connecting) ∧
          later.source.receive.1 = (if .leave ∈ actions ++ after then .gone else .ended) ∧
          later.isBlocked = true ∧ later.notes .connect = [.connected (some .closed)] ∧
          calls later.history = calls session.history) := by
  intro session
  have fresh : (start source).source.phase ≠ .abandoned := by
    rw [create_eq created]
    nofun
  have forsaken (after : List Action) (abandoned : session.source.phase = .abandoned) :
      Forsaken (session.run after) := by
    have split : session.run after = (start source).run (actions ++ after) :=
      List.foldl_append.symm
    have phase := run_abandoned abandoned after
    rw [split] at phase ⊢
    have empty : ((start source).run (actions ++ after)).source.queue = [] := by
      obtain ⟨-, behind⟩ := @run_unopened (start source) (actions ++ after)
        (by rw [Source.isUnopened, phase])
      rw [create_eq created] at behind ⊢
      exact List.suffix_nil.mp behind
    exact forsaken_of_abandoned (run_shows created _) phase empty
  rw [abandons_iff fresh]
  refine ⟨⟨close_ends (run_shows created actions), ?_⟩, ?_⟩
  · intro closed abandoned
    rw [(forsaken _ abandoned).state] at closed
    split at closed <;> cases closed
  · intro abandoned after later
    have left : Forsaken later := forsaken after abandoned
    have split : later = (start source).run (actions ++ after) := List.foldl_append.symm
    obtain ⟨-, cancelled, consumed⟩ := run_keeps (start source) (actions ++ after)
    rw [← split, create_eq created] at cancelled consumed
    refine ⟨?_, ?_, left.blocked, left.connect, ?_⟩
    · rw [left.state, cancelled]
      simp [start]
    · rw [left.receipt, consumed]
      simp only [start, Bool.true_and, decide_eq_true_eq]
      exact ite_not _ _ _
    · have gone : session.source.mayHand = false := by
        rw [Source.mayHand, abandoned]
      exact (run_quiet gone after).calls

/-- A first attempt that hangs is given up, and then the source is closed: it is not closed now, nor
after anything that may still happen, though the consumer is told that the queue has ended. -/
theorem abandoned_unclosed :
    let session := (start plainSource).run [.connect, .abandon, .close]
    session.source.state = .closing ∧ session.source.receive.1 = .ended ∧
      ∀ after, (session.run after).source.state ≠ .closed := by
  intro session
  refine ⟨by decide +kernel, by decide +kernel, ?_⟩
  intro after closed
  have phase : (session.run after).source.phase = .abandoned :=
    run_abandoned (by decide +kernel) after
  have split : session.run after =
      (start plainSource).run ([.connect, .abandon, .close] ++ after) := List.foldl_append.symm
  rw [split] at closed phase
  have finished := (run_shows create_plain _).closed.mp closed
  cases phase.symm.trans finished

/-- The attempt is given up with an accepted answer there and a close asked for, one turn before the
close would have been seen to. -/
theorem closes_unless_abandoned_answered :
    let actions := [.connect, .respond (streaming []), .close, .abandon]
    (start plainSource).Abandons actions ∧
      ((start plainSource).run (actions ++ [.turn, .elapse 20000, .turn])).source.state =
        .closing ∧
      ((start plainSource).run (actions ++ [.turn, .elapse 20000, .turn])).source.receive.1 =
        .ended ∧
      ((start plainSource).run ([.connect, .respond (streaming []), .close] ++
        [.close, .turn])).source.state = .closed := by
  intro actions
  obtain ⟨-, stays⟩ := closes_unless_abandoned create_plain actions
  obtain ⟨closes, -⟩ :=
    closes_unless_abandoned create_plain [.connect, .respond (streaming []), .close]
  have abandons : (start plainSource).Abandons actions :=
    ⟨[.connect, .respond (streaming []), .close], _, [], rfl, rfl⟩
  have waited : ¬(start plainSource).Abandons [.connect, .respond (streaming []), .close] := by
    rw [abandons_iff (by decide +kernel)]
    decide +kernel
  obtain ⟨state, receipt, -⟩ := stays abandons [.turn, .elapse 20000, .turn]
  exact ⟨abandons, state, receipt, closes.mp waited⟩

end Session

end EventStream
