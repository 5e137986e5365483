import EventStream.Proofs.Chronicle
import EventStream.Proofs.Stopping

/-!
Why a source closes, as long as nobody asks it to. What happened so far decides it: the first
attempt came to nothing, a later one was answered with something that is no stream, or as many
attempts in a row failed as are allowed. In all other cases there is one more attempt.
-/

namespace EventStream

/-- How many attempts failed since a stream was lost, if nothing else has happened since. -/
def failures? : List Kind → Option Nat
  | .loses :: _ => some 0
  | .fails :: .calls :: past => (failures? past).map (· + 1)
  | _ => none

/-- What closes a source whose attempts are limited like that, the latest first. -/
inductive Ends (limit : Option Nat) : List Kind → Prop where
  | first {outcome : Kind} (came : outcome = .rejects ∨ outcome = .fails) :
      Ends limit [outcome, .calls]
  | rejected {past : List Kind} : Ends limit (.rejects :: .calls :: past)
  | exhausted {past : List Kind} {most : Nat} (limited : limit = some most)
      (failed : failures? past = some most) : Ends limit past

/-- What may happen next. Each call comes to something, a stream that was opened can be lost, and
what does not end the source leads to the next call. -/
inductive Follows (limit : Option Nat) : List Kind → Kind → Prop where
  | first : Follows limit [] .calls
  | opens {past : List Kind} : Follows limit (.calls :: past) .opens
  | rejects {past : List Kind} : Follows limit (.calls :: past) .rejects
  | fails {past : List Kind} : Follows limit (.calls :: past) .fails
  | loses {past : List Kind} : Follows limit (.opens :: past) .loses
  | again {before : Kind} {past : List Kind} (gone : before = .loses ∨ before = .fails)
      (goes : ¬Ends limit (before :: past)) : Follows limit (before :: past) .calls

def Course (limit : Option Nat) (kinds : List Kind) : Prop :=
  ∀ kind past, kind :: past <:+ kinds → Follows limit past kind

theorem ends_iff {limit : Option Nat} {past : List Kind} {failures : Nat}
    (failed : failures? past = some failures) : Ends limit past ↔ limit = some failures := by
  refine ⟨?_, fun limited => .exhausted limited failed⟩
  intro ends
  cases ends with
  | first came => rcases came with rfl | rfl <;> cases failed
  | rejected => cases failed
  | exhausted limited counted => rw [limited, ← counted, failed]

theorem below_limit {limit : Option Nat} {past : List Kind} {failures : Nat}
    (failed : failures? past = some failures)
    (within : ∀ most, limit = some most → failures ≤ most) (goes : ¬Ends limit past) (most : Nat)
    (limited : limit = some most) : failures < most := by
  refine Nat.lt_of_le_of_ne (within most limited) ?_
  rintro rfl
  exact goes ((ends_iff failed).mpr limited)

theorem gone_of_failures {past : List Kind} {failures : Nat}
    (failed : failures? past = some failures) :
    ∃ before earlier, past = before :: earlier ∧ (before = .loses ∨ before = .fails) := by
  unfold failures? at failed
  split at failed
  next => exact ⟨_, _, rfl, .inl rfl⟩
  next => exact ⟨_, _, rfl, .inr rfl⟩
  next => cases failed

theorem Ends.head {limit : Option Nat} {kinds : List Kind} (ends : Ends limit kinds) :
    ∃ before past, kinds = before :: past ∧
      (before = .rejects ∨ before = .fails ∨ before = .loses) := by
  cases ends with
  | first came => exact ⟨_, _, rfl, came.imp_right .inl⟩
  | rejected => exact ⟨_, _, rfl, .inl rfl⟩
  | exhausted limited failed =>
    obtain ⟨before, past, same, gone⟩ := gone_of_failures failed
    exact ⟨before, past, same, .inr gone.symm⟩

namespace Course

variable {limit : Option Nat} {kind : Kind} {past : List Kind}

theorem tail (course : Course limit (kind :: past)) : Course limit past :=
  fun other rest suffix => course other rest (suffix.trans (List.suffix_cons _ _))

theorem head (course : Course limit (kind :: past)) : Follows limit past kind :=
  course kind past (List.suffix_refl _)

theorem cons (course : Course limit past) (follows : Follows limit past kind) :
    Course limit (kind :: past) := by
  intro other rest suffix
  rcases List.suffix_cons_iff.mp suffix with same | within
  · cases same
    exact follows
  · exact course other rest within

theorem called {between earlier : List Kind}
    (course : Course limit (.calls :: (between ++ .opens :: earlier))) :
    (between.head? = some .loses ∨ between.head? = some .fails) ∧
      ¬Ends limit (between ++ .opens :: earlier) := by
  have again := course.head
  cases between with
  | nil => cases again with | again gone => simp at gone
  | cons before rest => cases again with | again gone goes => exact ⟨by simpa using gone, goes⟩

theorem counts {earlier : List Kind} : (between : List Kind) →
    Course limit (between ++ .opens :: earlier) → .opens ∉ between →
    (between.head? = some .loses ∨ between.head? = some .fails) →
    failures? (between ++ .opens :: earlier) = some (between.count .fails) ∧
      ∀ most, limit = some most → between.count .fails ≤ most
  | [.loses], _, _, _ => ⟨rfl, fun most _ => Nat.zero_le most⟩
  | .loses :: before :: rest, course, shut, _ => by
    cases course.head
    exact absurd (List.mem_cons_of_mem _ List.mem_cons_self) shut
  | [.fails], course, _, _ => nomatch course.head
  | .fails :: before :: rest, course, shut, _ => by
    cases course.head
    obtain ⟨gone, goes⟩ := course.tail.called
    obtain ⟨failed, within⟩ := counts rest course.tail.tail
      (fun inside => shut (by simp [inside])) gone
    have count : (Kind.fails :: .calls :: rest).count .fails = rest.count .fails + 1 := by simp
    rw [count]
    refine ⟨congrArg (Option.map (· + 1)) failed, ?_⟩
    exact below_limit failed within goes

theorem between {earlier later between : List Kind}
    (course : Course limit (later ++ .opens :: (between ++ .opens :: earlier)))
    (shut : .opens ∉ between) {most : Nat} (limited : limit = some most) :
    between.count .fails < most := by
  have opened : Course limit (.opens :: (between ++ .opens :: earlier)) :=
    fun kind past suffix => course kind past (suffix.trans (List.suffix_append _ _))
  have follows := opened.head
  cases between with
  | nil => cases follows
  | cons latest rest =>
    cases follows
    obtain ⟨gone, goes⟩ := opened.tail.called
    obtain ⟨failed, within⟩ := opened.tail.tail.counts rest (fun inside => shut (by simp [inside]))
      gone
    have count : (Kind.calls :: rest).count .fails = rest.count .fails := by simp
    rw [count]
    exact below_limit failed within goes most limited

end Course

/-- Where the driver stands goes with what happened so far. -/
def Fits (limit : Option Nat) : Phase → List Kind → Prop
  | .unstarted, kinds => kinds = []
  | .connecting _, kinds => kinds = [.calls]
  | .abandoned, kinds => kinds = [.calls]
  | .reading _, kinds => ∃ past, kinds = .opens :: past
  | .handing _ _, kinds => ∃ past, kinds = .opens :: past
  | .waiting failures _, kinds =>
    failures? kinds = some failures ∧ ∀ most, limit = some most → failures < most
  | .reconnecting failures _, kinds => ∃ past, kinds = .calls :: past ∧
    failures? past = some failures ∧ ∀ most, limit = some most → failures < most
  | .finished, kinds => Ends limit kinds

theorem Source.retryAfter_fits {source : Source} {failures : Nat} {kinds : List Kind}
    (failed : failures? kinds = some failures)
    (within : ∀ most, source.config.maxAttempts = some most → failures ≤ most) (now : Nat) :
    Fits source.config.maxAttempts (source.retryAfter failures now).phase kinds := by
  unfold retryAfter
  split
  next exhausted =>
    unfold isExhausted at exhausted
    split at exhausted
    next most limited =>
      rw [decide_eq_true_iff] at exhausted
      have same : failures = most := Nat.le_antisymm (within most limited) exhausted
      exact .exhausted limited (same ▸ failed)
    next => cases exhausted
  next more =>
    refine ⟨failed, ?_⟩
    intro most limited
    rw [isExhausted, limited] at more
    simpa using more

theorem Fits.asked {limit : Option Nat} {source : Source} {call : Call} {kinds : List Kind}
    (fits : Fits limit source.phase kinds) (asked : source.call? = some call) :
    ∃ past, kinds = .calls :: past := by
  unfold Source.call? at asked
  split at asked
  next phase => rw [phase] at fits; exact ⟨[], fits⟩
  next phase => rw [phase] at fits; exact ⟨_, fits.choose_spec.1⟩
  next => cases asked

theorem Fits.waits {limit : Option Nat} {phase : Phase} {before : Kind} {past : List Kind}
    (fits : Fits limit phase (before :: past)) (gone : before = .loses ∨ before = .fails)
    (goes : ¬Ends limit (before :: past)) : ∃ failures wake, phase = .waiting failures wake := by
  cases phase with
  | waiting failures wake => exact ⟨failures, wake, rfl⟩
  | finished => exact absurd fits goes
  | unstarted => cases fits
  | connecting => cases fits; simp at gone
  | abandoned => cases fits; simp at gone
  | reading => obtain ⟨_, same⟩ := fits; cases same; simp at gone
  | handing => obtain ⟨_, same⟩ := fits; cases same; simp at gone
  | reconnecting => obtain ⟨_, same, -⟩ := fits; cases same; simp at gone

theorem Fits.finished {limit : Option Nat} {phase : Phase} {kinds : List Kind}
    (fits : Fits limit phase kinds) (ends : Ends limit kinds) : phase = .finished := by
  obtain ⟨before, past, same, last⟩ := ends.head
  cases phase with
  | finished => rfl
  | waiting failures wake =>
    obtain ⟨failed, below⟩ := fits
    exact absurd (below failures ((ends_iff failed).mp ends)) (Nat.lt_irrefl failures)
  | unstarted => cases fits.symm.trans same
  | connecting => cases fits.symm.trans same; simp at last
  | abandoned => cases fits.symm.trans same; simp at last
  | reading => obtain ⟨_, opened⟩ := fits; cases opened.symm.trans same; simp at last
  | handing => obtain ⟨_, opened⟩ := fits; cases opened.symm.trans same; simp at last
  | reconnecting => obtain ⟨_, called, -⟩ := fits; cases called.symm.trans same; simp at last

namespace Session

/-- What happens at an action follows what happened before, and goes with where the driver stands
behind it. -/
structure Told (session : Session) (action : Action) (past : List Entry) : Prop where
  course : Course session.source.config.maxAttempts ((session.enter action past).map Entry.kind)
  fits : Fits session.source.config.maxAttempts (session.act action).source.phase
    ((session.enter action past).map Entry.kind)

section Told

variable {session : Session} {action : Action} {past : List Entry}
  (course : Course session.source.config.maxAttempts (past.map Entry.kind))
include course

theorem told_none (nothing : session.happening? action = none)
    (fits : Fits session.source.config.maxAttempts (session.act action).source.phase
      (past.map Entry.kind)) : Told session action past := by
  rw [← enter_none nothing past] at course fits
  exact ⟨course, fits⟩

theorem told_some {happening : Happening} (found : session.happening? action = some happening)
    (follows : Follows session.source.config.maxAttempts (past.map Entry.kind) happening.kind)
    (fits : Fits session.source.config.maxAttempts (session.act action).source.phase
      (happening.kind :: past.map Entry.kind)) : Told session action past := by
  have entered : (session.enter action past).map Entry.kind =
      happening.kind :: past.map Entry.kind := by
    rw [enter_some found]
    rfl
  exact ⟨entered ▸ course.cons follows, entered ▸ fits⟩

theorem told_called {failures wake : Nat}
    (fits : Fits session.source.config.maxAttempts (.waiting failures wake) (past.map Entry.kind))
    (called : calls (session.notes action) ≠ []) {call : Call}
    (asked : (session.act action).source.phase = .reconnecting failures call) :
    Told session action past := by
  obtain ⟨failed, below⟩ := fits
  obtain ⟨before, earlier, same, gone⟩ := gone_of_failures failed
  refine told_some course (happening_called called) ?_ ?_
  · have goes : ¬Ends session.source.config.maxAttempts (before :: earlier) := by
      rw [← same, ends_iff failed]
      exact fun limited => absurd (below failures limited) (Nat.lt_irrefl failures)
    rw [same]
    exact .again gone goes
  · rw [asked]
    exact ⟨_, rfl, failed, below⟩

end Told

theorem connect_told {session : Session} {past : List Entry}
    (goes : session.source.isStopped = false) (reaches : session.source.config.Reaches)
    (course : Course session.source.config.maxAttempts (past.map Entry.kind))
    (fits : Fits session.source.config.maxAttempts session.source.phase (past.map Entry.kind)) :
    Told session .connect past := by
  obtain ⟨connected, connects, source, notes⟩ := connect_acts session
  cases connects with
  | late =>
    exact told_none course (happening_other (by simp) (notes ▸ rfl)) (source ▸ fits)
  | stopped _ stops => cases goes.symm.trans stops
  | unbuilt _ _ built => exact absurd built (Source.call_reaches reaches)
  | called phase =>
    rw [phase] at fits
    have nothing : past.map Entry.kind = [] := fits
    refine told_some course (happening_called (by simp [notes, calls])) ?_ ?_
    · rw [nothing]
      exact .first
    · rw [nothing, source]
      rfl

theorem beside_told {session : Session} {past : List Entry}
    (course : Course session.source.config.maxAttempts (past.map Entry.kind))
    (fits : Fits session.source.config.maxAttempts session.source.phase (past.map Entry.kind))
    {action : Action} (other : action ≠ .turn) (unconnected : action ≠ .connect)
    (open_ : action ≠ .close) : Told session action past := by
  refine told_none course (happening_other other
    (act_uncalled other fun same => absurd same unconnected)) ?_
  by_cases unstarted : session.source.phase = .unstarted
  · rwa [unstarted_rests unstarted unconnected open_, ← unstarted]
  · cases (act_beside session other).shifts with
    | stays same => rwa [same]
    | asks before => exact absurd before unstarted
    | ends before => exact absurd before unstarted
    | abandons before after => rw [before] at fits; rw [after]; exact fits
    | answers before after => rw [before] at fits; rw [after]; exact fits
    | answersAgain before after => rw [before] at fits; rw [after]; exact fits
    | feeds before after => rw [before] at fits; rw [after]; exact fits
    | feedsHeld before after => rw [before] at fits; rw [after]; exact fits

section Turn

variable {session : Session} {past : List Entry} (goes : session.source.isStopped = false)
  (course : Course session.source.config.maxAttempts (past.map Entry.kind))
  (fits : Fits session.source.config.maxAttempts session.source.phase (past.map Entry.kind))
include goes course fits

theorem opened_told {call : Call} {body : Body} (asked : session.source.call? = some call)
    (answer : session.source.outcome? call session.clock = some (.ok body))
    (reads : (session.act .turn).source = session.source.read body)
    (uncalled : calls (session.notes .turn) = []) : Told session .turn past := by
  obtain ⟨happening, found, kind⟩ := happening_comes goes uncalled asked answer
  obtain ⟨earlier, before⟩ := fits.asked asked
  refine told_some course found ?_ ?_
  · rw [kind, before]
    exact .opens
  · rw [kind, reads]
    exact ⟨_, rfl⟩

/-- A refusal is final when it is the first answer, or when it is permanent. -/
theorem refused_told {call : Call} {failure : Failure} (asked : session.source.call? = some call)
    (answer : session.source.outcome? call session.clock = some (.error failure))
    (final : session.source.phase = .connecting call ∨ failure.isPermanent = true)
    (finishes : (session.act .turn).source = session.source.finish)
    (uncalled : calls (session.notes .turn) = []) : Told session .turn past := by
  obtain ⟨happening, found, kind⟩ := happening_comes goes uncalled asked answer
  obtain ⟨earlier, before⟩ := fits.asked asked
  have came : happening.kind = .rejects ∨ happening.kind = .fails := by
    rw [kind, outcomeKind]
    split
    next => exact .inl rfl
    next => exact .inr rfl
  refine told_some course found ?_ ?_
  · rw [before]
    rcases came with rejects | fails
    · exact rejects ▸ .rejects
    · exact fails ▸ .fails
  · rw [finishes]
    rcases final with phase | permanent
    · rw [phase] at fits
      rw [show past.map Entry.kind = [.calls] from fits]
      exact .first came
    · rw [kind, outcomeKind, permanent, before]
      exact .rejected

theorem failed_told {call : Call} {failure : Failure} {failures : Nat}
    (phase : session.source.phase = .reconnecting failures call)
    (answer : session.source.outcome? call session.clock = some (.error failure))
    (passing : failure.isPermanent = false)
    (waits : (session.act .turn).source = session.source.retryAfter (failures + 1) session.clock)
    (uncalled : calls (session.notes .turn) = []) : Told session .turn past := by
  have asked : session.source.call? = some call := by rw [Source.call?, phase]
  obtain ⟨happening, found, kind⟩ := happening_comes goes uncalled asked answer
  rw [outcomeKind, passing] at kind
  rw [phase] at fits
  obtain ⟨earlier, before, failed, below⟩ := fits
  have counted : failures? (.fails :: .calls :: earlier) = some (failures + 1) :=
    congrArg (Option.map (· + 1)) failed
  refine told_some course found ?_ ?_
  · rw [kind, before]
    exact .fails
  · rw [kind, before, waits]
    exact Source.retryAfter_fits counted below session.clock

theorem lost_told {body : Body} {poll : Poll} {decoder : Decoder} {feed : Feed}
    (phase : session.source.phase = .reading body)
    (polled : body.decoder.poll body.feed = (poll, decoder, feed))
    (ends : poll = .ended ∨ ∃ error, poll = .failed error)
    (waits : (session.act .turn).source =
      (session.source.learn decoder).retryAfter 0 session.clock)
    (uncalled : calls (session.notes .turn) = []) : Told session .turn past := by
  have found := happening_poll goes uncalled phase
  rw [Body.polled, polled] at found
  rw [phase] at fits
  obtain ⟨earlier, before⟩ := fits
  obtain ⟨error, loss⟩ := Poll.loss_found ends
  refine told_some course (found.trans loss) ?_ ?_
  · rw [before]
    exact .loses
  · rw [waits]
    exact @Source.retryAfter_fits (session.source.learn decoder) 0 _ rfl
      (fun most _ => Nat.zero_le most) session.clock

end Turn

theorem turn_told {session : Session} {past : List Entry}
    (goes : session.source.isStopped = false) (reaches : session.source.config.Reaches)
    (course : Course session.source.config.maxAttempts (past.map Entry.kind))
    (fits : Fits session.source.config.maxAttempts session.source.phase (past.map Entry.kind)) :
    Told session .turn past := by
  obtain ⟨turn, advances, source, notes⟩ := turn_acts session
  have still (asked : session.source.call? = none) (idle : session.source.polls = false)
      (uncalled : calls turn.notes = [])
      (fits : Fits session.source.config.maxAttempts turn.source.phase (past.map Entry.kind)) :
      Told session .turn past := by
    refine told_none course (happening_idle (notes ▸ uncalled) asked idle) ?_
    rwa [source]
  cases advances with
  | idle absent =>
    obtain ⟨uncalled, -, idle⟩ := Source.idle_only absent
    exact still uncalled idle rfl fits
  | stopped _ stops => cases goes.symm.trans stops
  | unbuilt _ _ _ built => exact absurd built (Source.call_reaches reaches)
  | full _ phase => exact still (by rw [Source.call?, phase]) (by rw [Source.polls, phase]) rfl fits
  | sleeping _ phase =>
    exact still (by rw [Source.call?, phase]) (by rw [Source.polls, phase]) rfl fits
  | handed _ phase =>
    rw [phase] at fits
    exact still (by rw [Source.call?, phase]) (by rw [Source.polls, phase]) rfl fits
  | unanswered _ asked open_ =>
    have nothing := happening_outcome goes (notes ▸ rfl) asked
    rw [Source.outcome_open open_] at nothing
    exact told_none course nothing (source ▸ fits)
  | opened _ asked answer =>
    exact opened_told goes course fits asked answer source (notes ▸ calls_tells _ _)
  | refused _ asked answer final =>
    exact refused_told goes course fits asked answer final source (notes ▸ calls_tells _ _)
  | failed _ phase answer passing =>
    exact failed_told goes course fits phase answer passing source (notes ▸ rfl)
  | lost _ phase polled ends =>
    exact lost_told goes course fits phase polled ends source (notes ▸ rfl)
  | @pending body decoder feed _ phase polled =>
    have nothing := happening_poll goes (notes ▸ rfl) phase
    rw [Body.polled, polled] at nothing
    rw [phase] at fits
    exact told_none course nothing (source ▸ fits)
  | @decoded body event decoder feed _ phase polled =>
    have nothing := happening_poll goes (notes ▸ rfl) phase
    rw [Body.polled, polled] at nothing
    rw [phase] at fits
    exact told_none course nothing (source ▸ fits)
  | @called failures wake request call _ phase due built =>
    rw [phase] at fits
    exact told_called course fits (by simp [notes, Source.Turn.notes, calls]) (by rw [source]; rfl)

theorem went_of_goes {session : Session} {action : Action}
    (goes : (session.act action).source.isStopped = false) : session.source.isStopped = false := by
  by_contra stops
  rw [act_isStopped (Bool.eq_true_of_not_eq_false stops)] at goes
  cases goes

theorem act_told {session : Session} {past : List Entry} {action : Action}
    (goes : (session.act action).source.isStopped = false)
    (reaches : session.source.config.Reaches)
    (course : Course session.source.config.maxAttempts (past.map Entry.kind))
    (fits : Fits session.source.config.maxAttempts session.source.phase (past.map Entry.kind)) :
    Told session action past := by
  by_cases turns : action = .turn
  · exact turns ▸ turn_told (went_of_goes goes) reaches course fits
  · by_cases connects : action = .connect
    · exact connects ▸ connect_told (went_of_goes goes) reaches course fits
    · refine beside_told course fits turns connects ?_
      rintro rfl
      cases goes.symm.trans (act_asks session (.inl rfl))

theorem run_told {config : Config} {source : Source}
    (created : Source.create config = .ok source) (actions : List Action) :
    let session := (start source).run actions
    let kinds := ((start source).chronicle actions []).map Entry.kind
    session.source.isStopped = false →
      Course config.maxAttempts kinds ∧ Fits config.maxAttempts session.source.phase kinds := by
  have reaches := reaches_of_created created
  refine (@chronicle_induction
    (fun session _ past => session.source.config = config ∧ (session.source.isStopped = false →
      Course config.maxAttempts (past.map Entry.kind) ∧
        Fits config.maxAttempts session.source.phase (past.map Entry.kind)))
    ?_ (start source) [] [] ?_ actions).2
  · rintro session log past action ⟨same, before⟩
    refine ⟨(act_keeps session action).1.trans same, ?_⟩
    intro goes
    obtain ⟨course, fits⟩ := before (went_of_goes goes)
    subst same
    have told := act_told goes reaches course fits
    exact ⟨told.course, told.fits⟩
  · rw [create_eq created]
    refine ⟨rfl, fun _ => ⟨?_, rfl⟩⟩
    intro kind past suffix
    cases List.eq_nil_of_suffix_nil suffix

/-- Why a source closes when nobody closes it and its consumer stays. At any moment of a run it is
closed exactly if what happened ends it, and then for good, without another call. What happened is
a course, whose calls are those that were made. Behind a loss or a failure that does not end it the
source waits for one thing, its next call. Between two streams fewer attempts fail than are
allowed. -/
theorem closing_exact {config : Config} {source : Source}
    (created : Source.create config = .ok source) {actions : List Action}
    (unclosed : .close ∉ actions) (stays : .leave ∉ actions) :
    let session := (start source).run actions
    let entries := (start source).chronicle actions []
    let kinds := entries.map Entry.kind
    (session.source.state = .closed ↔ Ends config.maxAttempts kinds) ∧
      (Ends config.maxAttempts kinds → ∀ after, (session.run after).source.state = .closed ∧
        calls (session.run after).history = calls session.history ∧
        (session.run after).isBlocked = true) ∧
      Course config.maxAttempts kinds ∧
      (calls session.history).map Prod.fst = (callTimes entries).reverse ∧
      (∀ latest past, kinds = latest :: past → latest = .loses ∨ latest = .fails →
        ¬Ends config.maxAttempts kinds → ∃ failures wake,
          session.source.phase = .waiting failures wake ∧
          ∀ millis, let later := session.act (.elapse millis)
            if later.clock < wake then later.isBlocked = true ∧ later.notes .turn = []
            else ∃ request, later.notes .turn = [.called later.clock request]) ∧
      ∀ most, config.maxAttempts = some most → ∀ later between earlier,
        kinds = later ++ .opens :: (between ++ .opens :: earlier) → .opens ∉ between →
          between.count .fails < most := by
  intro session entries kinds
  have goes := run_goes created unclosed stays
  obtain ⟨course, fits⟩ : Course config.maxAttempts kinds ∧
      Fits config.maxAttempts session.source.phase kinds := run_told created actions goes
  have finished : session.source.state = .closed ↔ session.source.phase = .finished :=
    (run_shows created actions).closed
  have ended : session.source.phase = .finished ↔ Ends config.maxAttempts kinds := by
    refine ⟨?_, fits.finished⟩
    intro phase
    have same := fits
    rwa [phase] at same
  refine ⟨finished.trans ended, ?_, course, run_calls source actions, ?_, ?_⟩
  · intro ends after
    have phase := ended.mpr ends
    have gone : session.source.mayHand = false := by rw [Source.mayHand, phase]
    obtain ⟨still, state, quiet⟩ := run_gone gone (finished.mpr phase) after
    refine ⟨state, quiet.calls, ?_⟩
    have absent : (session.run after).source.isRunning = false := by
      rw [Source.isRunning, still, phase]
    rw [isBlocked, Source.turn_rests absent]
    rfl
  · intro latest past same gone more
    rw [same] at fits more
    obtain ⟨failures, wake, phase⟩ := fits.waits gone more
    refine ⟨failures, wake, phase, ?_⟩
    intro millis later
    exact @waiting_calls later goes (run_reaches created actions).2 failures wake phase
  · rintro most limited later between earlier same shut
    exact Course.between (same ▸ course) shut limited

def patient : Config := { Config.forUrl "http://a/" with maxAttempts := some 2 }

/-- After these a stream was got back at the second attempt, was lost again, and one attempt has
failed since. -/
def struggling : List Action :=
  [.connect, .respond (streaming []), .turn, .endBody, .turn, .elapse 3000, .turn,
    .respond (.refused "down"), .turn, .elapse 3000, .turn, .respond (streaming []), .turn,
    .arrive (.failure "reset"), .turn, .elapse 3000, .turn, .elapse 10000, .turn]

/-- The next failure closes the source that struggles, and the one so far leads to another call. -/
theorem closing_exact_struggling :
    let source : Source := { plainSource with config := patient }
    let failing := struggling ++ [.elapse 3000, .turn, .respond (.refused "down"), .turn]
    ((start source).run failing).source.state = .closed ∧
      (∃ failures wake, ((start source).run struggling).source.phase = .waiting failures wake) ∧
      List.count .fails [Kind.calls, .fails, .calls, .loses] < 2 := by
  intro source failing
  have created : Source.create patient = .ok source := by rfl
  have first := @closing_exact _ _ created struggling (by decide) (by decide)
  have last := @closing_exact _ _ created failing (by decide) (by decide)
  have kinds : ((start source).chronicle struggling []).map Entry.kind =
      [.fails, .calls, .loses, .opens, .calls, .fails, .calls, .loses, .opens, .calls] := by
    decide +kernel
  obtain ⟨-, -, -, -, waits, bound⟩ := first
  refine ⟨last.1.mpr (.exhausted rfl (by decide +kernel)), ?_, ?_⟩
  · obtain ⟨failures, wake, phase, -⟩ := waits _ _ kinds (.inr rfl) (by
      rw [kinds, ends_iff rfl]
      decide)
    exact ⟨failures, wake, phase⟩
  · exact bound 2 rfl [.fails, .calls, .loses] _ [.calls] kinds (by decide)

end Session

end EventStream
