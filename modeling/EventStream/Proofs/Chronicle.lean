import EventStream.Proofs.Lifecycle

/-!
What befell a source, one thing after the other. A chronicle beside a run says when the transport
was called, what came of each attempt, and when a stream was lost. Like the log of the streams it is
kept from outside, and the driver neither writes nor reads it.
-/

namespace EventStream

instance (response : Response) : Decidable response.IsStream :=
  decidable_of_iff _ rejection?_eq_none

inductive Happening where
  | called
  | answered (answer : Answer)
  | timedOut
  | lost (error : Option DecodeError)
  deriving DecidableEq, Repr

/-- What counts of a happening for the driver. -/
inductive Kind where
  | calls
  | opens
  | rejects
  | fails
  | loses
  deriving DecidableEq, Repr

def Happening.kind : Happening → Kind
  | .called => .calls
  | .answered (.refused _) => .fails
  | .answered (.response response) => if response.IsStream then .opens else .rejects
  | .timedOut => .fails
  | .lost _ => .loses

theorem kind_called {happening : Happening} : happening.kind = .calls ↔ happening = .called := by
  cases happening with
  | answered answer =>
    cases answer with
    | refused reason => simp [Happening.kind]
    | response response => by_cases accepted : response.IsStream <;> simp [Happening.kind, accepted]
  | _ => simp [Happening.kind]

def Call.comes? (call : Call) (now : Nat) : Option Happening :=
  match call.answer with
  | some answer => some (.answered answer)
  | none => if now < call.deadline then none else some .timedOut

def Poll.loss? : Poll → Option Happening
  | .ended => some (.lost none)
  | .failed error => some (.lost (some error))
  | _ => none

theorem Poll.loss_found {poll : Poll} (ends : poll = .ended ∨ ∃ error, poll = .failed error) :
    ∃ error, poll.loss? = some (.lost error) := by
  rcases ends with rfl | ⟨error, rfl⟩
  · exact ⟨none, rfl⟩
  · exact ⟨some error, rfl⟩

/-- What the driver does with the outcome of an attempt: the first failure is final in any case, and
a later one if it is permanent. -/
def outcomeKind {α : Type} : Except Failure α → Kind
  | .ok _ => .opens
  | .error failure => if failure.isPermanent then .rejects else .fails

theorem answer_kind (answer : Answer) :
    (Happening.answered answer).kind = outcomeKind answer.body := by
  cases answer with
  | refused reason => rfl
  | response response =>
    cases rejection : response.rejection? with
    | none =>
      rw [Happening.kind, if_pos (rejection?_eq_none.mp rejection), Answer.body, rejection]
      rfl
    | some failure =>
      have declined : ¬response.IsStream := by
        rw [← rejection?_eq_none, rejection]
        nofun
      have permanent : failure.isPermanent = true := by
        unfold Response.rejection? at rejection
        split at rejection
        next => cases rejection; rfl
        next =>
          split at rejection
          next => cases rejection; rfl
          next =>
            split at rejection
            next => cases rejection; rfl
            next =>
              split at rejection
              next => cases rejection
              next => cases rejection; rfl
      rw [Happening.kind, if_neg declined, Answer.body, rejection]
      exact (if_pos permanent).symm

theorem Source.outcome_comes {source : Source} {call : Call} {now : Nat}
    {outcome : Except Failure Body} (found : source.outcome? call now = some outcome) :
    ∃ happening, call.comes? now = some happening ∧ happening.kind = outcomeKind outcome := by
  unfold Source.outcome? at found
  split at found
  next answer given =>
    have kind := answer_kind answer
    refine ⟨.answered answer, by rw [Call.comes?, given], ?_⟩
    split at found
    next body => cases found; rw [kind, body]; rfl
    next body => cases found; rw [kind, body]; rfl
  next given =>
    split at found
    next => cases found
    next late => cases found; exact ⟨.timedOut, by rw [Call.comes?, given]; exact if_neg late, rfl⟩

theorem Source.outcome_open {source : Source} {call : Call} {now : Nat}
    (open_ : source.outcome? call now = none) : call.comes? now = none := by
  unfold Source.outcome? at open_
  split at open_
  next => split at open_ <;> cases open_
  next given =>
    split at open_
    next early => rw [Call.comes?, given]; exact if_pos early
    next => cases open_

def Config.Reaches (config : Config) : Prop :=
  ∃ uri, Uri.parse (Bytes.ofText config.url) = .ok uri

theorem reaches_of_created {config : Config} {source : Source}
    (created : Source.create config = .ok source) : config.Reaches := by
  unfold Source.create at created
  split at created
  next => cases created
  next sound =>
    unfold Config.fault? at sound
    split at sound
    next => cases sound
    next =>
      split at sound
      next => cases sound
      next uri parsed => exact ⟨uri, parsed⟩

theorem Source.call_reaches {source : Source} (reaches : source.config.Reaches) {now : Nat}
    {failure : Failure} : source.call now ≠ .error failure := by
  obtain ⟨uri, parsed⟩ := reaches
  rw [Source.call, Request.build, parsed]
  nofun

structure Entry where
  time : Nat
  happening : Happening
  deriving DecidableEq, Repr

def Entry.kind (entry : Entry) : Kind := entry.happening.kind

namespace Session

/-- What an action lets happen. The driver finds out at its turn what an attempt or a stream has
come to. -/
def happening? (session : Session) (action : Action) : Option Happening :=
  if calls (session.notes action) ≠ [] then some .called
  else if action ≠ .turn ∨ session.source.isStopped then none
  else
    match session.source.call?, session.source.body? with
    | some call, _ => call.comes? session.clock
    | none, some body => if session.source.polls then body.polled.1.loss? else none
    | none, none => none

def enter (session : Session) (action : Action) (past : List Entry) : List Entry :=
  ((session.happening? action).map (Entry.mk session.clock)).toList ++ past

def chronicle (session : Session) : List Action → List Entry → List Entry
  | [], past => past
  | action :: rest, past => (session.act action).chronicle rest (session.enter action past)

theorem chronicle_induction {motive : Session → List Connection → List Entry → Prop}
    (step : ∀ session log past action, motive session log past →
      motive (session.act action) (session.record action log) (session.enter action past))
    {session : Session} {log : List Connection} {past : List Entry}
    (first : motive session log past) (actions : List Action) :
    motive (session.run actions) (session.log actions log) (session.chronicle actions past) := by
  induction actions generalizing session log past with
  | nil => exact first
  | cons action actions ih => exact ih (step session log past action first)

section Enter

variable {session : Session} {action : Action}

theorem enter_none (nothing : session.happening? action = none) (past : List Entry) :
    session.enter action past = past := by
  rw [enter, nothing]
  rfl

theorem enter_some {happening : Happening} (found : session.happening? action = some happening)
    (past : List Entry) : session.enter action past = ⟨session.clock, happening⟩ :: past := by
  rw [enter, found]
  rfl

theorem happening_called (called : calls (session.notes action) ≠ []) :
    session.happening? action = some .called :=
  if_pos called

theorem happening_other (other : action ≠ .turn) (uncalled : calls (session.notes action) = []) :
    session.happening? action = none := by
  rw [happening?, if_neg (not_not_intro uncalled), if_pos (.inl other)]

theorem happening_idle (uncalled : calls (session.notes action) = [])
    (asked : session.source.call? = none) (idle : session.source.polls = false) :
    session.happening? action = none := by
  cases held : session.source.body? <;> simp [happening?, uncalled, asked, idle, held]

end Enter

section Turn

variable {session : Session} (goes : session.source.isStopped = false)
  (uncalled : calls (session.notes .turn) = [])
include goes uncalled

theorem happening_outcome {call : Call} (asked : session.source.call? = some call) :
    session.happening? .turn = call.comes? session.clock := by
  simp [happening?, uncalled, goes, asked]

theorem happening_poll {body : Body} (phase : session.source.phase = .reading body) :
    session.happening? .turn = body.polled.1.loss? := by
  simp [happening?, uncalled, goes, Source.call?, Source.body?, Source.polls, phase]

end Turn

theorem happening_comes {session : Session} (goes : session.source.isStopped = false)
    (uncalled : calls (session.notes .turn) = []) {call : Call}
    (asked : session.source.call? = some call) {outcome : Except Failure Body}
    (answer : session.source.outcome? call session.clock = some outcome) :
    ∃ happening, session.happening? .turn = some happening ∧
      happening.kind = outcomeKind outcome := by
  obtain ⟨happening, comes, kind⟩ := Source.outcome_comes answer
  exact ⟨happening, (happening_outcome goes uncalled asked).trans comes, kind⟩

def callTimes (entries : List Entry) : List Nat :=
  entries.filterMap fun entry => if entry.kind = .calls then some entry.time else none

theorem happening_uncalled {session : Session} {action : Action}
    (uncalled : calls (session.notes action) = []) {happening : Happening}
    (found : session.happening? action = some happening) : happening ≠ .called := by
  rw [happening?, if_neg (not_not_intro uncalled)] at found
  split at found
  next => cases found
  next =>
    split at found
    next =>
      unfold Call.comes? at found
      split at found
      next => cases found; nofun
      next => split at found <;> cases found; nofun
    next =>
      split at found
      next =>
        unfold Poll.loss? at found
        split at found <;> cases found <;> nofun
      next => cases found
    next => cases found

theorem enter_calls (session : Session) (action : Action) (past : List Entry) :
    (callTimes (session.enter action past)).reverse =
      (callTimes past).reverse ++ (calls (session.notes action)).map Prod.fst := by
  by_cases uncalled : calls (session.notes action) = []
  · rw [uncalled, List.map_nil, List.append_nil]
    cases found : session.happening? action with
    | none => rw [enter_none found]
    | some happening =>
      have other := kind_called.not.mpr (happening_uncalled uncalled found)
      simp [enter_some found, callTimes, Entry.kind, other]
  · obtain ⟨-, ⟨request, noted⟩, -⟩ := call_made uncalled
    rw [enter_some (happening_called uncalled), noted]
    simp [callTimes, Entry.kind, Happening.kind, calls]

theorem run_calls (source : Source) (actions : List Action) :
    (calls ((start source).run actions).history).map Prod.fst =
      (callTimes ((start source).chronicle actions [])).reverse := by
  refine @chronicle_induction
    (fun session _ past => (calls session.history).map Prod.fst = (callTimes past).reverse)
    ?_ (start source) [] [] rfl actions
  intro session log past action same
  rw [act_history, calls_append, List.map_append, same, enter_calls]

/-- The next turn of a driver that waits calls the transport if its time has come, and is held up
otherwise. -/
theorem waiting_calls {session : Session} (goes : session.source.isStopped = false)
    (reaches : session.source.config.Reaches) {failures wake : Nat}
    (phase : session.source.phase = .waiting failures wake) :
    if session.clock < wake then session.isBlocked = true ∧ session.notes .turn = []
    else ∃ request, session.notes .turn = [.called session.clock request] := by
  have notes : session.notes .turn = (session.source.turn session.clock).notes :=
    notes_follow _ _ _
  rw [notes, isBlocked, Source.turn, phase]
  simp only [Source.turnWaiting, goes, Bool.false_eq_true, if_false]
  split
  next => exact ⟨rfl, rfl⟩
  next =>
    split
    next failure built => exact absurd built (Source.call_reaches reaches)
    next request call built => exact ⟨request, rfl⟩

theorem run_reaches {config : Config} {source : Source}
    (created : Source.create config = .ok source) (actions : List Action) :
    ((start source).run actions).source.config = config ∧
      ((start source).run actions).source.config.Reaches := by
  have settings : ((start source).run actions).source.config = config := by
    rw [(run_keeps (start source) actions).1, create_eq created]
    rfl
  exact ⟨settings, settings.symm ▸ reaches_of_created created⟩

end Session

end EventStream
