import EventStream.Proofs.Decided
import EventStream.Proofs.Replay

/-!
A stream that breaks off. At its end the bytes that are left over become a line, a carriage return
in the last place ends one, and a mark that is begun is no mark. The whole stream may tell all of
that otherwise. It comes to no event, since an event takes an empty line, and a line that is empty
where the stream breaks off is empty whatever follows.
-/

namespace EventStream

namespace Bytes

theorem linesFrom_tail (begun other rest : Bytes) :
    (linesFrom begun rest).tail = (linesFrom other rest).tail := by
  induction rest generalizing begun other with
  | nil =>
    have alone (bytes : Bytes) : (linesFrom bytes []).tail = [] := by
      rw [linesFrom]
      split <;> rfl
    rw [alone, alone]
  | cons octet rest ih =>
    by_cases feed : octet = lineFeed
    · rw [feed, linesFrom_lineFeed, linesFrom_lineFeed, List.tail_cons, List.tail_cons]
    · by_cases ret : octet = carriageReturn
      · subst ret
        cases rest with
        | nil => rw [linesFrom_last, linesFrom_last, List.tail_cons, List.tail_cons]
        | cons next beyond =>
          by_cases both : next = lineFeed
          · rw [both, linesFrom_both, linesFrom_both, List.tail_cons, List.tail_cons]
          · rw [linesFrom_return both, linesFrom_return both, List.tail_cons, List.tail_cons]
      · have inner : ¬isBreak octet := by simp [isBreak, feed, ret]
        rw [linesFrom_inner inner, linesFrom_inner inner]
        exact ih _ _

theorem linesFrom_blank {begun rest : Bytes} (blank : [] ∈ linesFrom begun rest) :
    [] ∈ rest.lines := by
  by_cases nothing : begun = []
  · rwa [nothing] at blank
  · obtain ⟨line, others, same, starts⟩ := linesFrom_starts nothing rest
    rw [same, List.mem_cons] at blank
    rcases blank with rfl | behind
    · exact absurd (List.prefix_nil.mp starts) nothing
    · apply List.mem_of_mem_tail
      rw [lines, linesFrom_tail [] begun, same]
      exact behind

theorem linesFrom_nil (begun : Bytes) : [] ∉ linesFrom begun [] := by
  intro blank
  cases linesFrom_blank blank

/-- What bytes and a longer stream have behind their common lines: the bytes at most the start of a
line, which the stream goes on with. -/
def LeadsTo (left behind : List Bytes) : Prop :=
  left = [] ∨ ∃ begun line later, left = [begun] ∧ behind = line :: later ∧ begun <+: line

theorem linesFrom_leadsTo (begun rest : Bytes) :
    LeadsTo (linesFrom begun []) (linesFrom begun rest) := by
  by_cases nothing : begun = []
  · exact .inl (by rw [nothing]; rfl)
  · obtain ⟨line, later, same, starts⟩ := linesFrom_starts nothing rest
    exact .inr ⟨begun, line, later, by rw [linesFrom, if_neg nothing], same, starts⟩

/-- The lines of bytes and those of a longer stream are the same for a while. Behind these the bytes
have no empty line, and the stream has none but those of what follows the bytes. -/
theorem lines_append (bytes rest : Bytes) : ∃ common left behind,
    bytes.lines = common ++ left ∧ (bytes ++ rest).lines = common ++ behind ∧
      LeadsTo left behind ∧ [] ∉ left ∧ ([] ∈ behind → [] ∈ rest.lines) := by
  fun_induction decided bytes with
  | case1 bytes cut found ih =>
    obtain ⟨common, left, behind, part, whole, leads, open_, later⟩ := ih
    have alone := @linesFrom_cut false bytes [] cut [] found fun _ => rfl
    have first := @linesFrom_cut false bytes rest cut [] found (by simp)
    refine ⟨cut.line :: common, left, behind, ?_, ?_, leads, open_, later⟩
    · rw [List.append_nil, List.append_nil] at alone
      exact alone.trans (congrArg _ part)
    · exact first.trans (congrArg _ whole)
  | case2 bytes missed =>
    have plain := (cutLine_none missed).1
    have part := lines_take plain []
    have whole := lines_take plain rest
    rw [List.append_nil, List.append_nil] at part
    rcases LineBuffer.drop_settled bytes with nothing | ret
    · rw [nothing] at part whole
      exact ⟨[], _, _, part, whole, linesFrom_leadsTo _ _, linesFrom_nil _, linesFrom_blank⟩
    · rw [ret, linesFrom_last] at part
      rw [ret, List.singleton_append] at whole
      refine ⟨[bytes.take (LineBuffer.settled bytes)], [], ?_⟩
      cases rest with
      | nil => exact ⟨[], part, whole.trans (linesFrom_last _), .inl rfl, by simp, by simp⟩
      | cons next beyond =>
        by_cases feed : next = lineFeed
        · -- The line feed behind the carriage return is an empty line of what follows.
          subst feed
          refine ⟨_, part, whole.trans (linesFrom_both _ _), .inl rfl, by simp, fun _ => ?_⟩
          rw [lines, linesFrom_lineFeed]
          exact List.mem_cons_self
        · exact ⟨_, part, whole.trans (linesFrom_return feed _ _), .inl rfl, by simp, id⟩

end Bytes

namespace OnePass

theorem State.read_event {state next : State} {line : Bytes} {event : Event}
    (read : state.read line = .ok (some event, next)) : line = [] ∧ state.data ≠ [] := by
  unfold State.read at read
  split at read
  next blank =>
    refine ⟨blank, fun nothing => ?_⟩
    simp [State.dispatch, nothing] at read
  next =>
    split at read
    next => cases read
    next =>
      dsimp only at read
      split at read <;> cases read

def eventsOf (maxLine : Option Nat) (last : Bytes) (state : State) (lines : List Bytes) :
    List Event :=
  (items maxLine last state lines).filterMap Item.event?

section Lines

variable {maxLine : Option Nat} {last : Bytes} {state : State}

theorem eventsOf_cons (line : Bytes) :
    (∀ rest, eventsOf maxLine last state (line :: rest) = []) ∨
      ∃ event given next, (event ≠ none → line = [] ∧ state.data ≠ []) ∧
        ∀ rest, eventsOf maxLine last state (line :: rest) =
          event.toList ++ eventsOf maxLine given next rest := by
  unfold eventsOf
  simp only [items]
  cases maxLine.filter (· < line.length) with
  | some limit => exact .inl fun _ => rfl
  | none =>
    cases read : state.read line with
    | error fault => exact .inl fun _ => rfl
    | ok outcome =>
      obtain ⟨_ | event, next⟩ := outcome
      · exact .inr ⟨none, last, next, fun brings => absurd rfl brings, fun _ => rfl⟩
      · exact .inr ⟨some event, event.id, next, fun _ => State.read_event read, fun _ => rfl⟩

theorem eventsOf_open {lines : List Bytes} (open_ : [] ∉ lines) :
    eventsOf maxLine last state lines = [] := by
  induction lines generalizing last state with
  | nil => rfl
  | cons line rest ih =>
    rw [List.mem_cons, not_or] at open_
    rcases @eventsOf_cons maxLine last state line with stops | ⟨event, given, next, brings, goes⟩
    · exact stops rest
    · have silent : event = none := by
        by_contra some
        exact open_.1 (brings some).1.symm
      rw [goes, silent, ih open_.2]
      rfl

theorem eventsOf_fresh {lines : List Bytes} (fresh : state.data = []) (open_ : [] ∉ lines.tail) :
    eventsOf maxLine last state lines = [] := by
  cases lines with
  | nil => rfl
  | cons line rest =>
    rcases @eventsOf_cons maxLine last state line with stops | ⟨event, given, next, brings, goes⟩
    · exact stops rest
    · have silent : event = none := by
        by_contra some
        exact (brings some).2 fresh
      rw [goes, silent]
      exact eventsOf_open open_

theorem eventsOf_append (first : List Bytes) :
    ∃ further : List Bytes → List Event, (∀ behind, [] ∉ behind → further behind = []) ∧
      ∀ behind, eventsOf maxLine last state (first ++ behind) =
        eventsOf maxLine last state first ++ further behind := by
  induction first generalizing last state with
  | nil => exact ⟨eventsOf maxLine last state, fun _ => eventsOf_open, fun _ => rfl⟩
  | cons line rest ih =>
    rcases @eventsOf_cons maxLine last state line with stops | ⟨event, given, next, brings, goes⟩
    · refine ⟨fun _ => [], fun _ _ => rfl, fun behind => ?_⟩
      rw [List.cons_append, stops, stops]
      rfl
    · obtain ⟨further, silent, splits⟩ := @ih given next
      refine ⟨further, silent, fun behind => ?_⟩
      rw [List.cons_append, goes, goes, splits, List.append_assoc]

theorem eventsOf_cut (bytes rest : Bytes) :
    eventsOf maxLine last state bytes.lines <+: eventsOf maxLine last state (bytes ++ rest).lines ∧
      ([] ∉ rest.lines → eventsOf maxLine last state (bytes ++ rest).lines =
        eventsOf maxLine last state bytes.lines) := by
  obtain ⟨common, left, behind, part, whole, -, open_, later⟩ := Bytes.lines_append bytes rest
  obtain ⟨further, silent, splits⟩ := @eventsOf_append maxLine last state common
  have first : eventsOf maxLine last state bytes.lines = eventsOf maxLine last state common := by
    rw [part, splits, silent left open_, List.append_nil]
  rw [first, whole, splits]
  refine ⟨List.prefix_append _ _, fun unended => ?_⟩
  rw [silent behind fun blank => unended (later blank), List.append_nil]

end Lines

section Stream

variable (maxLine : Option Nat) (resumeId : Bytes) (retry : Duration)

theorem events_undecided {bytes rest : Bytes} (undecided : Decoder.marked? bytes = none)
    (open_ : [] ∉ rest.lines) : events maxLine resumeId retry (bytes ++ rest) = [] := by
  have whole : (bytes ++ rest).lines = Bytes.linesFrom bytes rest :=
    Bytes.linesFrom_plain (plain_undecided undecided) [] rest
  have unended : [] ∉ (bytes ++ rest).lines := by
    rw [whole]
    exact fun blank => open_ (Bytes.linesFrom_blank blank)
  unfold events transcript unmarked
  split
  next marked =>
    have split : (bytes ++ rest).lines =
        Bytes.linesFrom byteOrderMark ((bytes ++ rest).drop 3) := by
      conv => lhs; rw [← List.take_append_drop 3 (bytes ++ rest), marked]
      exact Bytes.linesFrom_plain plain_mark [] _
    apply eventsOf_fresh rfl
    rw [Bytes.lines, Bytes.linesFrom_tail [] byteOrderMark, ← split]
    exact fun blank => unended (List.mem_of_mem_tail blank)
  next => exact eventsOf_open unended

theorem events_cut (bytes rest : Bytes) :
    events maxLine resumeId retry bytes <+: events maxLine resumeId retry (bytes ++ rest) ∧
      ([] ∉ rest.lines →
        events maxLine resumeId retry (bytes ++ rest) = events maxLine resumeId retry bytes) := by
  cases marked : Decoder.marked? bytes with
  | some begins =>
    obtain ⟨left, same⟩ : ∃ left, ∀ rest, unmarked (bytes ++ rest) = left ++ rest := by
      cases begins with
      | true => exact ⟨_, marked_unmarked marked⟩
      | false => exact ⟨_, unmarked_of_marked marked⟩
    have alone := same []
    rw [List.append_nil, List.append_nil] at alone
    unfold events transcript
    rw [alone, same]
    exact eventsOf_cut left rest
  | none =>
    have nothing := @events_undecided maxLine resumeId retry bytes [] marked nofun
    rw [List.append_nil] at nothing
    rw [nothing]
    exact ⟨List.nil_prefix, events_undecided maxLine resumeId retry marked⟩

end Stream

end OnePass

namespace Body

/-- The events of chunks, polled at any time on the way and then to a clean end. -/
def endedEvents (maxLine : Option Nat) (resumeId : Bytes) (retry : Duration)
    (turns : List (Option Bytes)) : List Event :=
  let opened := fresh maxLine resumeId retry
  let left := opened.run (schedule turns)
  (opened.items (schedule turns) ++
    (left.decoder.drain left.feed.close).map Decoder.Polled.item).filterMap Item.event?

theorem endedEvents_eq (maxLine : Option Nat) (resumeId : Bytes) (retry : Duration)
    (turns : List (Option Bytes)) :
    endedEvents maxLine resumeId retry turns =
      OnePass.events maxLine resumeId retry (turns.filterMap id).flatten := by
  have items := items_outlook (flowing_fresh maxLine resumeId retry) turns
  have whole := Decoder.outlook_start maxLine resumeId retry (turns.filterMap id).flatten
  exact congrArg (List.filterMap Item.event?) (items.trans whole)

/-- Where a stream breaks off, its events are the first ones of the whole stream, however either of
them is cut into chunks and polled. They are all events of the whole stream unless an empty line
follows, so that nothing of a record which is open there reaches anyone. -/
theorem truncation_invents_nothing (maxLine : Option Nat) (resumeId : Bytes) (retry : Duration)
    {turns more : List (Option Bytes)} {rest : Bytes}
    (broken : (turns.filterMap id).flatten ++ rest = (more.filterMap id).flatten) :
    endedEvents maxLine resumeId retry turns <+: endedEvents maxLine resumeId retry more ∧
      ([] ∉ rest.lines →
        endedEvents maxLine resumeId retry more = endedEvents maxLine resumeId retry turns) := by
  rw [endedEvents_eq, endedEvents_eq, ← broken]
  exact OnePass.events_cut maxLine resumeId retry _ rest

/-- The cut is between the two octets of a line end, and the record behind it is left open. -/
theorem truncation_inside_line_end :
    let turns := [some [239], none, some [187, 191, 100, 97, 116, 97, 58, 195], none,
      some [169, 10, 13], none]
    let more := [some [239, 187, 191, 100, 97, 116, 97, 58, 195, 169, 10, 13, 10, 100, 97]]
    endedEvents none [] ⟨3⟩ turns = [⟨[], [], [195, 169]⟩] ∧
      endedEvents none [] ⟨3⟩ turns <+: endedEvents none [] ⟨3⟩ more :=
  ⟨by decide +kernel, (@truncation_invents_nothing none [] ⟨3⟩ _ _ [10, 100, 97] rfl).1⟩

end Body

end EventStream
