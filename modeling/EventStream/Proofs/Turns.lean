import EventStream.Session

/-!
What a turn of the driver can do, phase by phase. Everything that is known of turns follows from the
list of cases here.
-/

namespace EventStream.Source

def isRunning (source : Source) : Bool :=
  match source.phase with
  | .unstarted | .finished | .abandoned => false
  | _ => true

/-- The event that is decoded and not yet in the queue. -/
def held (source : Source) : List Event :=
  match source.phase with
  | .handing _ event => [event]
  | _ => []

def polls (source : Source) : Bool :=
  match source.phase with
  | .reading _ => !source.isStopped
  | _ => false

/-- What is noted when the attempt in flight comes to its end: only for the first one somebody
waits. -/
def tells (source : Source) (failure : Option Failure) : List Note :=
  match source.phase with
  | .connecting _ => [.connected failure]
  | _ => []

/-- The cases of a turn. A driver that is there looks first whether it has to stop. -/
inductive Advances (source : Source) (now : Nat) : Turn → Prop where
  | idle (absent : source.isRunning = false) : Advances source now (.blocked source)
  | stopped (present : source.isRunning = true) (stops : source.isStopped = true)
      (retryMillis : Nat) :
      Advances source now
        (.moved { source with retryMillis }.finish (source.tells (some .closed)))
  | unanswered {call : Call} (goes : source.isStopped = false) (calls : source.call? = some call)
      (answer : source.outcome? call now = none) : Advances source now (.blocked source)
  | opened {call : Call} {body : Body} (goes : source.isStopped = false)
      (calls : source.call? = some call) (answer : source.outcome? call now = some (.ok body)) :
      Advances source now (.moved (source.read body) (source.tells none))
  | refused {call : Call} {failure : Failure} (goes : source.isStopped = false)
      (calls : source.call? = some call) (answer : source.outcome? call now = some (.error failure))
      (final : source.phase = .connecting call ∨ failure.isPermanent = true) :
      Advances source now (.moved source.finish (source.tells (some failure)))
  | failed {call : Call} {failure : Failure} {failures : Nat} (goes : source.isStopped = false)
      (phase : source.phase = .reconnecting failures call)
      (answer : source.outcome? call now = some (.error failure))
      (passing : failure.isPermanent = false) :
      Advances source now (.moved (source.retryAfter (failures + 1) now) [])
  | pending {body : Body} {decoder : Decoder} {feed : Feed} (goes : source.isStopped = false)
      (phase : source.phase = .reading body)
      (polled : body.decoder.poll body.feed = (.pending, decoder, feed)) :
      Advances source now (.blocked { source with phase := .reading ⟨decoder, feed⟩ })
  | decoded {body : Body} {event : Event} {decoder : Decoder} {feed : Feed}
      (goes : source.isStopped = false) (phase : source.phase = .reading body)
      (polled : body.decoder.poll body.feed = (.event event, decoder, feed)) :
      Advances source now (.moved
        { source.learn decoder with cursor := event.id, phase := .handing ⟨decoder, feed⟩ event }
        [.decoded event])
  | lost {body : Body} {poll : Poll} {decoder : Decoder} {feed : Feed}
      (goes : source.isStopped = false) (phase : source.phase = .reading body)
      (polled : body.decoder.poll body.feed = (poll, decoder, feed))
      (ends : poll = .ended ∨ ∃ error, poll = .failed error) :
      Advances source now (.moved ((source.learn decoder).retryAfter 0 now) [])
  | handed {body : Body} {event : Event} (goes : source.isStopped = false)
      (phase : source.phase = .handing body event)
      (room : source.queue.length < source.config.capacity) :
      Advances source now
        (.moved { source with queue := source.queue ++ [event], phase := .reading body } [])
  | full {body : Body} {event : Event} (goes : source.isStopped = false)
      (phase : source.phase = .handing body event)
      (room : source.config.capacity ≤ source.queue.length) : Advances source now (.blocked source)
  | sleeping {failures wake : Nat} (goes : source.isStopped = false)
      (phase : source.phase = .waiting failures wake) (early : now < wake) :
      Advances source now (.blocked source)
  | unbuilt {failures wake : Nat} {failure : Failure} (goes : source.isStopped = false)
      (phase : source.phase = .waiting failures wake) (due : wake ≤ now)
      (built : source.call now = .error failure) : Advances source now (.moved source.finish [])
  | called {failures wake : Nat} {request : Request} {call : Call}
      (goes : source.isStopped = false) (phase : source.phase = .waiting failures wake)
      (due : wake ≤ now) (built : source.call now = .ok (request, call)) :
      Advances source now
        (.moved { source with phase := .reconnecting failures call } [.called now request])

theorem turnConnecting_advances {source : Source} {call : Call}
    (phase : source.phase = .connecting call) (now : Nat) :
    Advances source now (source.turnConnecting call now) := by
  have calls : source.call? = some call := by rw [call?, phase]
  unfold turnConnecting
  split
  next stops =>
    have stop := @Advances.stopped source now (by rw [isRunning, phase]) stops source.retryMillis
    rwa [tells, phase] at stop
  next goes =>
    rw [Bool.not_eq_true] at goes
    split
    next answer => exact .unanswered goes calls answer
    next body answer =>
      have done := Advances.opened goes calls answer
      rwa [tells, phase] at done
    next failure answer =>
      have done := Advances.refused goes calls answer (.inl phase)
      rwa [tells, phase] at done

theorem turnReading_advances {source : Source} {body : Body}
    (phase : source.phase = .reading body) (now : Nat) :
    Advances source now (source.turnReading body now) := by
  unfold turnReading
  split
  next stops =>
    have stop := @Advances.stopped source now (by rw [isRunning, phase]) stops
      body.decoder.retry.counted
    rwa [tells, phase] at stop
  next goes =>
    rw [Bool.not_eq_true] at goes
    split
    next decoder feed polled => exact .pending goes phase polled
    next event decoder feed polled => exact .decoded goes phase polled
    next decoder feed polled => exact .lost goes phase polled (.inl rfl)
    next error decoder feed polled =>
      exact .lost goes phase polled (.inr ⟨error, rfl⟩)

theorem turnHanding_advances {source : Source} {body : Body} {event : Event}
    (phase : source.phase = .handing body event) (now : Nat) :
    Advances source now (source.turnHanding body event) := by
  unfold turnHanding
  split
  next stops =>
    have stop := @Advances.stopped source now (by rw [isRunning, phase]) stops
      body.decoder.retry.counted
    rwa [tells, phase] at stop
  next goes =>
    rw [Bool.not_eq_true] at goes
    split
    next room => exact .handed goes phase room
    next room => exact .full goes phase (Nat.le_of_not_lt room)

theorem turnWaiting_advances {source : Source} {failures wake : Nat}
    (phase : source.phase = .waiting failures wake) (now : Nat) :
    Advances source now (source.turnWaiting failures wake now) := by
  unfold turnWaiting
  split
  next stops =>
    have stop := @Advances.stopped source now (by rw [isRunning, phase]) stops source.retryMillis
    rwa [tells, phase] at stop
  next goes =>
    rw [Bool.not_eq_true] at goes
    split
    next early => exact .sleeping goes phase early
    next due =>
      split
      next failure built => exact .unbuilt goes phase (Nat.le_of_not_lt due) built
      next request call built => exact .called goes phase (Nat.le_of_not_lt due) built

theorem turnReconnecting_advances {source : Source} {failures : Nat} {call : Call}
    (phase : source.phase = .reconnecting failures call) (now : Nat) :
    Advances source now (source.turnReconnecting failures call now) := by
  have calls : source.call? = some call := by rw [call?, phase]
  unfold turnReconnecting
  split
  next stops =>
    have stop := @Advances.stopped source now (by rw [isRunning, phase]) stops source.retryMillis
    rwa [tells, phase] at stop
  next goes =>
    rw [Bool.not_eq_true] at goes
    split
    next answer => exact .unanswered goes calls answer
    next body answer =>
      have done := Advances.opened goes calls answer
      rwa [tells, phase] at done
    next failure answer =>
      by_cases final : failure.isPermanent = true
      · rw [if_pos final]
        have done := Advances.refused goes calls answer (.inr final)
        rwa [tells, phase] at done
      · rw [if_neg final]
        exact .failed goes phase answer (Bool.eq_false_iff.mpr final)

theorem turn_advances (source : Source) (now : Nat) : Advances source now (source.turn now) := by
  unfold turn
  split
  next call phase => exact turnConnecting_advances phase now
  next body phase => exact turnReading_advances phase now
  next body event phase => exact turnHanding_advances phase now
  next failures wake phase => exact turnWaiting_advances phase now
  next failures call phase => exact turnReconnecting_advances phase now
  next phase => exact .idle (by rw [isRunning, phase])
  next phase => exact .idle (by rw [isRunning, phase])
  next phase => exact .idle (by rw [isRunning, phase])

theorem turn_stops {source : Source} (present : source.isRunning = true)
    (stops : source.isStopped = true) (now : Nat) :
    ∃ retryMillis, source.turn now =
      .moved { source with retryMillis }.finish (source.tells (some .closed)) := by
  have advances := turn_advances source now
  generalize source.turn now = turn at advances ⊢
  cases advances with
  | idle absent => rw [present] at absent; cases absent
  | stopped _ _ retryMillis => exact ⟨retryMillis, rfl⟩
  | _ goes => rw [stops] at goes; cases goes

theorem turn_rests {source : Source} (absent : source.isRunning = false) (now : Nat) :
    source.turn now = .blocked source := by
  unfold isRunning at absent
  unfold turn
  split at absent
  next phase => simp only [phase]
  next phase => simp only [phase]
  next phase => simp only [phase]
  next => cases absent

theorem transition_frame (source : Source) (state : ReadyState) :
    ∃ moved, source.transition state = { source with state := moved } := by
  unfold transition
  split
  next => exact ⟨source.state, rfl⟩
  next => exact ⟨state, rfl⟩

theorem retryAfter_cases (source : Source) (failures now : Nat) :
    source.retryAfter failures now = source.finish ∨ ∃ state, source.retryAfter failures now =
      { source with state, phase := .waiting failures (now + source.retryMillis) } := by
  obtain ⟨state, moved⟩ := transition_frame source .connecting
  unfold retryAfter
  rw [moved]
  split
  next => exact .inl rfl
  next => exact .inr ⟨state, rfl⟩

theorem retryAfter_holds (source : Source) (failures now : Nat) :
    (source.retryAfter failures now).body? = none ∧
      (source.retryAfter failures now).call? = none ∧
      (source.retryAfter failures now).held = [] ∧
      (source.retryAfter failures now).cursor = source.cursor ∧
      (source.retryAfter failures now).queue = source.queue := by
  rcases retryAfter_cases source failures now with same | ⟨state, same⟩ <;>
    rw [same] <;>
    exact ⟨rfl, rfl, rfl, rfl, rfl⟩

theorem read_holds (source : Source) (body : Body) :
    (source.read body).cursor = source.cursor ∧ (source.read body).queue = source.queue := by
  obtain ⟨state, moved⟩ := transition_frame source .opened
  rw [read, moved]
  exact ⟨rfl, rfl⟩

theorem call_built {source : Source} {now : Nat} {request : Request} {call : Call}
    (built : source.call now = .ok (request, call)) :
    call.resumeId = source.cursor ∧ Request.build source.config source.cursor = .ok request := by
  unfold Source.call at built
  split at built
  next => cases built
  next request build =>
    cases built
    exact ⟨rfl, build⟩

theorem outcome_body {source : Source} {call : Call} {now : Nat} {body : Body}
    (found : source.outcome? call now = some (.ok body)) :
    ∃ feed, body = ⟨.start source.config.maxLine call.resumeId source.retry, feed⟩ := by
  unfold outcome? at found
  split at found
  next =>
    split at found
    next => cases found
    next feed _ => cases found; exact ⟨feed, rfl⟩
  next => split at found <;> cases found

theorem outcome_answered {source : Source} {call : Call} {now : Nat} {body : Body}
    (found : source.outcome? call now = some (.ok body)) :
    ∃ answer, call.answer = some answer ∧ answer.body = .ok body.feed := by
  unfold outcome? at found
  split at found
  next answer answered =>
    split at found
    next => cases found
    next feed accepted => cases found; exact ⟨answer, answered, accepted⟩
  next => split at found <;> cases found

theorem asked_only {source : Source} {call : Call} (asked : source.call? = some call) :
    source.body? = none ∧ source.polls = false ∧ source.held = [] := by
  unfold call? at asked
  split at asked
  next phase => exact ⟨by rw [body?, phase], by rw [polls, phase], by rw [held, phase]⟩
  next phase => exact ⟨by rw [body?, phase], by rw [polls, phase], by rw [held, phase]⟩
  next => cases asked

theorem body_only {source : Source} {body : Body} (found : source.body? = some body) :
    source.call? = none := by
  cases asked : source.call? with
  | none => rfl
  | some call => rw [(asked_only asked).1] at found; cases found

theorem idle_only {source : Source} (absent : source.isRunning = false) :
    source.call? = none ∧ source.body? = none ∧ source.polls = false := by
  unfold isRunning at absent
  split at absent
  next phase => exact ⟨by rw [call?, phase], by rw [body?, phase], by rw [polls, phase]⟩
  next phase => exact ⟨by rw [call?, phase], by rw [body?, phase], by rw [polls, phase]⟩
  next phase => exact ⟨by rw [call?, phase], by rw [body?, phase], by rw [polls, phase]⟩
  next => cases absent

theorem stopped_unpolled {source : Source} (stops : source.isStopped = true) :
    source.polls = false := by
  unfold polls
  split
  next => simp [stops]
  next => rfl

theorem held_of_phase {source : Source} (other : ∀ body event, source.phase ≠ .handing body event) :
    source.held = [] := by
  unfold held
  split
  next phase => exact absurd phase (other _ _)
  next => rfl

theorem handing_of_held {source : Source} (holds : source.held ≠ []) :
    ∃ body event, source.phase = .handing body event := by
  unfold held at holds
  split at holds
  next body event phase => exact ⟨body, event, phase⟩
  next => exact absurd rfl holds

/-- A turn leaves the driver where it is, or leads to where a driver is at work or done. -/
theorem turn_leads (source : Source) (now : Nat) :
    (source.turn now).source.phase = source.phase ∨
      (source.turn now).source.phase ≠ .unstarted ∧
        (source.turn now).source.phase ≠ .abandoned := by
  have retries (source : Source) (failures : Nat) :
      (source.retryAfter failures now).phase ≠ .unstarted ∧
        (source.retryAfter failures now).phase ≠ .abandoned := by
    rcases retryAfter_cases source failures now with same | ⟨state, same⟩ <;>
      rw [same] <;>
      exact ⟨nofun, nofun⟩
  have advances := turn_advances source now
  generalize source.turn now = turn at advances ⊢
  cases advances with
  | idle => exact .inl rfl
  | unanswered => exact .inl rfl
  | full => exact .inl rfl
  | sleeping => exact .inl rfl
  | failed => exact .inr (retries _ _)
  | lost => exact .inr (retries _ _)
  | _ => exact .inr ⟨nofun, nofun⟩

theorem turn_keeps (source : Source) (now : Nat) :
    (source.turn now).source.config = source.config ∧
      (source.turn now).source.cancelled = source.cancelled ∧
      (source.turn now).source.consumed = source.consumed := by
  have retries (source : Source) (failures : Nat) :
      (source.retryAfter failures now).config = source.config ∧
        (source.retryAfter failures now).cancelled = source.cancelled ∧
        (source.retryAfter failures now).consumed = source.consumed := by
    rcases retryAfter_cases source failures now with same | ⟨state, same⟩ <;>
      rw [same] <;>
      exact ⟨rfl, rfl, rfl⟩
  have advances := turn_advances source now
  generalize source.turn now = turn at advances ⊢
  cases advances with
  | opened =>
    obtain ⟨state, moved⟩ := transition_frame source .opened
    simp only [Turn.source, read, moved, and_self]
  | failed => exact retries source _
  | @lost _ _ decoder => exact retries (source.learn decoder) 0
  | _ => exact ⟨rfl, rfl, rfl⟩

end EventStream.Source
