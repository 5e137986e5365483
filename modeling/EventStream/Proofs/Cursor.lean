import EventStream.Proofs.Replay

/-!
What the id that a source reports says about the events that its consumer gets. It is kept when an
event is decoded, so it runs ahead by the event in the driver's hand. A stop that comes then lets
go of the event and not of its id: who resumes behind that id misses the event.
-/

namespace EventStream

theorem lastId_mem (events : List Event) :
    lastId events = [] ∨ ∃ event ∈ events, event.id = lastId events := by
  cases last : events.getLast? with
  | none => exact .inl (by rw [lastId, last]; rfl)
  | some event =>
    exact .inr ⟨event, List.mem_of_getLast? last, by rw [lastId, last]; rfl⟩

namespace Session

/-- The events of a log that the consumer neither received nor can receive. -/
def missed (session : Session) (log : List Connection) : List Event :=
  (yielded log).drop session.delivered.length

/-- The id that is reported is the first one, or that of an event that the consumer received or can
receive. -/
def Vouches (session : Session) : Prop :=
  session.source.cursor = [] ∨ ∃ event ∈ session.delivered, event.id = session.source.cursor

instance (session : Session) : Decidable session.Vouches :=
  inferInstanceAs (Decidable (_ ∨ _))

theorem delivered_missed {session : Session} {log : List Connection}
    (begun : session.delivered <+: yielded log) :
    session.delivered ++ session.missed log = yielded log :=
  List.prefix_iff_eq_append.mp begun

theorem missed_of_append {session : Session} {log : List Connection} {events : List Event}
    (whole : session.delivered ++ events = yielded log) : session.missed log = events := by
  rw [missed, ← whole, List.drop_left]

theorem run_left {session : Session} {log : List Connection} (logged : Logged session log)
    (stops : session.source.isStopped = true) (empty : session.source.queue = [])
    (actions : List Action) :
    (session.run actions).delivered = session.delivered ∧
      yielded (session.log actions log) = yielded log := by
  induction actions generalizing session log with
  | nil => exact ⟨rfl, rfl⟩
  | cons action actions ih =>
    have first : (session.act action).delivered = session.delivered ∧
        session.fresh action = [] ∧ (session.act action).source.queue = [] := by
      by_cases leaves : action = .leave
      · subst leaves
        refine ⟨?_, fresh_other session nofun, rfl⟩
        exact delivered_follow session (by rw [empty]; rfl)
      · obtain ⟨same, nothing⟩ := act_stopped stops leaves
        refine ⟨same, nothing, ?_⟩
        rw [delivered, delivered, act_history, received_append, List.append_assoc, empty] at same
        exact (List.append_eq_nil_iff.mp (List.append_cancel_left same)).2
    obtain ⟨delivered, nothing, still⟩ := first
    obtain ⟨same, last⟩ := ih (act_logged logged action) (act_isStopped stops action) still
    rw [yielded_record logged, nothing, List.append_nil] at last
    exact ⟨same.trans delivered, last⟩

theorem leave_misses {config : Config} {source : Source}
    (created : Source.create config = .ok source) {before after : List Action}
    (unclosed : .close ∉ before) (stays : .leave ∉ before) :
    ((start source).run (before ++ .leave :: after)).delivered ++
        (((start source).run before).source.queue ++ ((start source).run before).source.held) =
      yielded ((start source).log (before ++ .leave :: after) []) := by
  have accounted := run_accounted created before
  have leaving := act_logged accounted.logged .leave
  have asked := act_asks ((start source).run before) (.inr rfl)
  obtain ⟨same, last⟩ := run_left leaving asked rfl after
  have grows := yielded_record accounted.logged .leave
  rw [@fresh_other _ .leave nofun, List.append_nil] at grows
  have split : (start source).run (before ++ .leave :: after) =
      (((start source).run before).act .leave).run after := List.foldl_append
  have kept : (((start source).run before).act .leave).delivered =
      received ((start source).run before).history := by
    simp [delivered, act, follow, Source.leave]
  have whole := accounted.whole (run_goes created unclosed stays)
  rw [delivered, List.append_assoc] at whole
  rw [split, same, kept, whole, log_append]
  exact (last.trans grows).symm

def overtaking : List Action :=
  [.connect, .respond (streaming (Bytes.ofText "id:1\ndata:a\n\nid:2\ndata:b\n\n")), .turn, .turn,
    .turn, .turn]

/-- Over a whole run: the id that is reported is that of the last of all events, those that the
consumer got or can get and those that it misses. It is the id of an event that the consumer got or
can get exactly when nothing is missed, or what is missed brought no new id. While nobody asks for
a stop the event in the driver's hand is missed, for now, and nothing else; a close makes that for
good, and a consumer that goes away misses what was in the queue too. -/
theorem cursor_vouches_iff {config : Config} {source : Source}
    (created : Source.create config = .ok source) (actions : List Action) :
    let session := (start source).run actions
    let missed := session.missed ((start source).log actions [])
    session.source.cursor = lastId (session.delivered ++ missed) ∧
      (session.Vouches ↔
        missed = [] ∨ lastId missed = [] ∨ ∃ event ∈ session.delivered, event.id = lastId missed) ∧
      (session.source.queue = [] →
        (session.source.cursor = lastId (received session.history) ↔
          missed = [] ∨ lastId missed = lastId (received session.history))) ∧
      (.close ∉ actions → .leave ∉ actions → missed = session.source.held) ∧
      (∀ before after, actions = before ++ .close :: after → .close ∉ before → .leave ∉ actions →
        missed = ((start source).run before).source.held) ∧
      ∀ before after, actions = before ++ .leave :: after → .close ∉ before → .leave ∉ before →
        missed = ((start source).run before).source.queue ++
          ((start source).run before).source.held := by
  intro session missed
  have accounted := run_accounted created actions
  have whole : session.delivered ++ missed = yielded ((start source).log actions []) :=
    delivered_missed accounted.begun
  have cursor : session.source.cursor = lastId (session.delivered ++ missed) :=
    accounted.logged.cursor.trans (congrArg lastId whole.symm)
  refine ⟨cursor, ?_, ?_, ?_, ?_, ?_⟩
  · rw [Vouches, cursor]
    cases missed with
    | nil => simpa using lastId_mem session.delivered
    | cons event rest => rw [lastId_append]; simp
  · intro drained
    have all : session.delivered = received session.history := by
      rw [delivered, drained, List.append_nil]
    rw [cursor, all]
    cases missed with
    | nil => simp
    | cons event rest => rw [lastId_append]; simp
  · intro unclosed stays
    exact missed_of_append (accounted.whole (run_goes created unclosed stays))
  · rintro before after rfl unclosed stays
    exact missed_of_append (close_loses created unclosed stays)
  · rintro before after rfl unclosed stays
    exact missed_of_append (leave_misses created unclosed stays)

/-- A source that closed with an event in the driver's hand: the consumer got all that it can get,
and the id that is reported belongs to none of it. -/
theorem cursor_overtakes :
    let session := (start plainSource).run (overtaking ++ [.close, .turn, .receive])
    session.source.state = .closed ∧ session.source.queue = [] ∧
      received session.history = [⟨[49], [], [97]⟩] ∧ session.source.cursor = [50] ∧
      ¬session.Vouches ∧ session.source.cursor ≠ lastId (received session.history) := by
  decide +kernel

theorem cursor_vouches_overtaken :
    let overtaken := (start plainSource).run overtaking
    let session := (start plainSource).run (overtaking ++ [.close, .turn, .receive])
    overtaken.source.held = [⟨[50], [], [98]⟩] ∧
      session.source.cursor = lastId (session.delivered ++ overtaken.source.held) ∧
      session.source.cursor ≠ lastId (received session.history) := by
  intro overtaken session
  obtain ⟨cursor, -, drained, -, closes, -⟩ :=
    cursor_vouches_iff create_plain (overtaking ++ [.close, .turn, .receive])
  rw [closes overtaking [.turn, .receive] rfl (by decide) (by decide)] at cursor drained
  have exact := drained (by decide +kernel)
  refine ⟨by decide +kernel, cursor, ?_⟩
  exact exact.not.mpr (by decide +kernel)

end Session

end EventStream
