import EventStream.Proofs.Chunking
import EventStream.Proofs.Interval
import EventStream.Proofs.Truncation
import Mathlib.Data.List.Infix
import Mathlib.Data.List.TakeWhile

/-!
The interval of a stream that breaks off. A decoder takes the interval that a line gives as soon as
it has read the line, and the end of the stream completes a line that was begun. So the interval
where a stream breaks off is one that the whole stream has in force at some time, except when the
rest of a line that was cut gives an interval of its own.
-/

namespace EventStream

namespace Bytes

theorem decided_missed (bytes : Bytes) : cutLine false bytes.decided.2 = none := by
  fun_induction decided bytes with
  | case1 bytes cut found ih => exact ih
  | case2 bytes missed => exact missed

theorem lines_missed {bytes : Bytes} (missed : cutLine false bytes = none) :
    bytes.lines = [] ∨ ∃ line, bytes.lines = [line] := by
  have whole := lines_take (cutLine_none missed).1 []
  rw [List.append_nil, List.append_nil] at whole
  rw [whole]
  rcases LineBuffer.drop_settled bytes with nothing | ret
  · rw [nothing, linesFrom]
    split
    next => exact .inl rfl
    next => exact .inr ⟨_, rfl⟩
  · exact .inr ⟨_, by rw [ret, linesFrom_last]⟩

theorem prefix_lines {bytes : Bytes} {first : List Bytes} (begun : first <+: bytes.lines) :
    first <+: bytes.decided.1 ∨ first = bytes.lines := by
  have whole := lines_decided bytes []
  rw [List.append_nil, List.append_nil] at whole
  rcases lines_missed (decided_missed bytes) with none | ⟨line, single⟩
  · rw [whole, none, List.append_nil] at begun
    exact .inl begun
  · rw [single] at whole
    rw [whole, List.prefix_concat_iff] at begun
    rw [whole]
    exact begun.symm

theorem cutLine_snoc {bytes : Bytes} {octet : UInt8} {cut : Cut}
    (missed : cutLine false bytes = none) (found : cutLine false (bytes ++ [octet]) = some cut) :
    cutLine false cut.rest = none := by
  induction bytes generalizing cut with
  | nil =>
    simp only [List.nil_append, cutLine] at found
    split at found
    next => cases found; rfl
    next => split at found <;> cases found
  | cons first bytes ih =>
    rw [List.cons_append] at found
    unfold cutLine at missed found
    split at missed
    next => cases missed
    next notFeed =>
      rw [if_neg notFeed] at found
      split at missed
      next ret =>
        rw [if_pos ret] at found
        split at missed
        next =>
          simp only [List.nil_append] at found
          split at found
          next => cases found; rfl
          next other =>
            cases found
            simp [cutLine, other]
        next => split at missed <;> cases missed
      next notReturn =>
        rw [if_neg notReturn] at found
        obtain ⟨inner, same, rfl⟩ := Option.map_eq_some_iff.mp found
        have behind := ih (Option.map_eq_none_iff.mp missed) same
        exact behind

theorem decided_snoc (bytes : Bytes) (octet : UInt8) :
    (decided (bytes ++ [octet])).1 = bytes.decided.1 ∨
      ∃ line, (decided (bytes ++ [octet])).1 = bytes.decided.1 ++ [line] := by
  fun_induction decided bytes with
  | case1 bytes cut found ih =>
    rw [decided_cut (cutLine_append found [octet])]
    rcases ih with same | ⟨line, same⟩
    · exact .inl (congrArg (cut.line :: ·) same)
    · exact .inr ⟨line, congrArg (cut.line :: ·) same⟩
  | case2 bytes missed =>
    cases found : cutLine false (bytes ++ [octet]) with
    | none => exact .inl (by rw [decided_none found])
    | some cut =>
      refine .inr ⟨cut.line, ?_⟩
      rw [decided_cut found, decided_none (cutLine_snoc missed found)]
      rfl

theorem decided_prefix {bytes : Bytes} {first : List Bytes} (begun : first <+: bytes.decided.1) :
    ∃ taken, taken <+: bytes ∧ (decided taken).1 = first := by
  induction bytes using List.reverseRec with
  | nil =>
    rw [decided_none rfl, List.prefix_nil] at begun
    exact ⟨[], List.prefix_rfl, by rw [begun, decided_none rfl]⟩
  | append_singleton bytes octet ih =>
    have sooner (begun : first <+: (decided bytes).1) :
        ∃ taken, taken <+: bytes ++ [octet] ∧ (decided taken).1 = first := by
      obtain ⟨taken, within, same⟩ := ih begun
      exact ⟨taken, within.trans (List.prefix_append _ _), same⟩
    rcases decided_snoc bytes octet with same | ⟨line, more⟩
    · exact sooner (same ▸ begun)
    · rw [more, List.prefix_concat_iff] at begun
      rcases begun with rfl | earlier
      · exact ⟨_, List.prefix_rfl, more⟩
      · exact sooner earlier

end Bytes

namespace OnePass

variable {maxLine : Option Nat} {retry : Duration}

/-- What items tell of the interval: each the one that is in force behind some of these lines, and
the last the one behind all of them. -/
structure Reports (retry : Duration) (lines : List Bytes) (items : List Item) : Prop where
  each : ∀ item ∈ items, ∃ first, first <+: lines ∧ item.retry = interval retry first
  last : ∃ item, items.getLast? = some item ∧ item.retry = interval retry lines

section Reports

variable {line : Bytes} {lines : List Bytes} {item : Item} {items : List Item}

theorem reports_still (some : items ≠ []) (same : ∀ item ∈ items, item.retry = retry) :
    Reports retry [] items := by
  refine ⟨fun item inside => ⟨[], List.prefix_rfl, same item inside⟩, ?_⟩
  exact ⟨items.getLast some, List.getLast?_eq_some_getLast some, same _ (List.getLast_mem some)⟩

theorem Reports.cons_line
    (reports : Reports ((retryValue? line).elim retry .ofMillis) lines items) :
    Reports retry (line :: lines) items := by
  refine ⟨?_, ?_⟩
  · intro item inside
    obtain ⟨first, begun, same⟩ := reports.each item inside
    exact ⟨line :: first, (List.prefix_cons_inj line).mpr begun,
      same.trans (interval_cons retry line first).symm⟩
  · obtain ⟨item, found, same⟩ := reports.last
    exact ⟨item, found, same.trans (interval_cons retry line lines).symm⟩

theorem Reports.cons_item (reports : Reports retry lines items) (same : item.retry = retry) :
    Reports retry lines (item :: items) := by
  refine ⟨List.forall_mem_cons.mpr ⟨⟨[], List.nil_prefix, same⟩, reports.each⟩, ?_⟩
  obtain ⟨last, found, kept⟩ := reports.last
  exact ⟨last, by rw [List.getLast?_cons, found]; rfl, kept⟩

end Reports

theorem legible_iff {line : Bytes} : legible maxLine line = true ↔
    maxLine.filter (· < line.length) = none ∧ (Line.parse line).isOk = true := by
  rw [legible, Bool.and_eq_true, Option.isNone_iff_eq_none]

theorem goOn_reports {further : Bytes → Duration → List Item}
    (goes : ∀ last retry, further last retry ≠ [] ∧ ∀ item ∈ further last retry, item.retry = retry)
    (record : Record) (last : Bytes) (lines : List Bytes) :
    Reports record.retry (lines.takeWhile (legible maxLine))
      (goOn further (record.items maxLine last lines)) := by
  induction lines generalizing record last with
  | nil => exact reports_still (goes last record.retry).1 (goes last record.retry).2
  | cons line rest ih =>
    have stops (error : DecodeError) : Reports record.retry []
        [⟨.failed error, last, record.retry⟩, ⟨.ended, last, record.retry⟩] :=
      reports_still (List.cons_ne_nil _ _) (by simp)
    unfold Record.items
    rw [List.takeWhile_cons]
    cases fits : maxLine.filter (· < line.length) with
    | some limit =>
      rw [if_neg fun legible => by cases fits.symm.trans (legible_iff.mp legible).1]
      exact stops _
    | none =>
      cases parses : Line.parse line with
      | error fault =>
        rw [if_neg fun legible => by cases parses ▸ (legible_iff.mp legible).2]
        exact stops _
      | ok parsed =>
        rw [if_pos (legible_iff.mpr ⟨fits, by rw [parses]; rfl⟩)]
        have moves := read_retry parses record
        cases read : record.read parsed with
        | mk event next =>
          rw [read] at moves
          have later (last : Bytes) := moves ▸ ih next last
          simp only [Except.map, read]
          cases event with
          | none => exact (later last).cons_line
          | some event => exact ((later event.id).cons_item moves).cons_line

theorem goOn_ended (record : Record) (last : Bytes) (lines : List Bytes) :
    goOn (fun last retry => [⟨.ended, last, retry⟩]) (record.items maxLine last lines) =
      record.items maxLine last lines := by
  induction lines generalizing record last with
  | nil => rfl
  | cons line rest ih =>
    unfold Record.items
    split
    next => rfl
    next =>
      split
      next => rfl
      next => exact congrArg _ (ih _ _)
      next => exact ih _ _

theorem transcript_reports (resumeId bytes : Bytes) :
    Reports retry (passed maxLine true (unmarked bytes))
      (transcript maxLine resumeId retry bytes) := by
  rw [transcript, ← items_record, ← goOn_ended]
  refine goOn_reports (fun last retry => ?_) (State.start resumeId retry).record resumeId _
  simp

theorem suspended_reports (resumeId bytes : Bytes) :
    Reports retry (passed maxLine false (unmarked bytes))
      (suspended maxLine resumeId retry bytes .stays) := by
  have lines : passed maxLine false (unmarked bytes) =
      (unmarked bytes).decided.1.takeWhile (legible maxLine) := rfl
  unfold suspended
  rw [lines]
  split
  next undecided =>
    rw [Decoder.undecided_opening undecided]
    exact reports_still (List.cons_ne_nil _ _) (by simp [Sequel.items])
  next =>
    dsimp only
    rw [← items_record]
    refine goOn_reports (fun last retry => ?_) (State.start resumeId retry).record resumeId _
    unfold behind
    split <;> simp [Sequel.items]

theorem prefix_passed {first lines : List Bytes} (begun : first <+: lines)
    (legibles : ∀ line ∈ first, legible maxLine line = true) :
    first <+: lines.takeWhile (legible maxLine) := by
  obtain ⟨rest, rfl⟩ := begun
  rw [List.takeWhile_append_of_pos legibles]
  exact List.prefix_append _ _

theorem unmarked_append {bytes : Bytes} (settled : Decoder.marked? bytes ≠ none) (rest : Bytes) :
    unmarked (bytes ++ rest) = unmarked bytes ++ rest := by
  cases marked : Decoder.marked? bytes with
  | none => exact absurd marked settled
  | some begins =>
    have alone : unmarked (bytes ++ []) = unmarked bytes := by rw [List.append_nil]
    cases begins with
    | true => rw [← alone, marked_unmarked marked, marked_unmarked marked, List.append_nil]
    | false => rw [← alone, unmarked_of_marked marked, unmarked_of_marked marked, List.append_nil]

theorem decided_lines {taken bytes : Bytes} (within : taken <+: bytes) :
    (unmarked taken).decided.1 <+: (unmarked bytes).lines := by
  obtain ⟨rest, rfl⟩ := within
  by_cases undecided : Decoder.marked? taken = none
  · rw [Decoder.undecided_opening undecided]
    exact List.nil_prefix
  · rw [unmarked_append undecided, Bytes.lines_decided]
    exact List.prefix_append _ _

theorem decided_taken {bytes : Bytes} {first : List Bytes}
    (begun : first <+: (unmarked bytes).decided.1) :
    ∃ taken, taken <+: bytes ∧ (unmarked taken).decided.1 = first := by
  by_cases marked : bytes.take 3 = byteOrderMark
  · have whole : bytes = byteOrderMark ++ bytes.drop 3 := by
      rw [← marked, List.take_append_drop]
    rw [unmarked, if_pos marked] at begun
    obtain ⟨taken, within, same⟩ := Bytes.decided_prefix begun
    refine ⟨byteOrderMark ++ taken, ?_, same⟩
    rw [whole]
    exact (List.prefix_append_right_inj _).mpr within
  · rw [unmarked, if_neg marked] at begun
    obtain ⟨taken, within, same⟩ := Bytes.decided_prefix begun
    refine ⟨taken, within, ?_⟩
    have other : taken.take 3 ≠ byteOrderMark := by
      intro mark
      obtain ⟨rest, rfl⟩ := within
      apply marked
      have long : 3 ≤ taken.length := by
        have size := congrArg List.length mark
        rw [List.length_take] at size
        change min 3 taken.length = 3 at size
        omega
      rw [List.take_append_of_le_length long, mark]
    rw [unmarked_of_take other, same]

theorem interval_append (lines : List Bytes) (line : Bytes) :
    interval retry (lines ++ [line]) =
      (retryValue? line).elim (interval retry lines) .ofMillis := by
  unfold interval
  rw [List.filterMap_append]
  cases value : retryValue? line with
  | none => simp [value]
  | some millis => simp [value]

theorem interval_undecided {bytes : Bytes} (undecided : Decoder.marked? bytes = none) :
    interval retry (passed maxLine true (unmarked bytes)) = retry := by
  have fronts : ∀ front ∈ byteOrderMark.inits, ∀ line ∈ Bytes.lines front,
      retryValue? line = none := by
    decide
  have silent : ∀ line ∈ bytes.lines, retryValue? line = none := by
    apply fronts
    unfold Decoder.marked? at undecided
    split at undecided
    next => cases undecided
    next =>
      split at undecided
      next begins => exact (List.mem_inits _ _).mpr (List.isPrefixOf_iff_prefix.mp begins)
      next => cases undecided
  have none : (passed maxLine true bytes).filterMap retryValue? = [] := by
    apply List.filterMap_eq_nil_iff.mpr
    exact fun line inside => silent line (List.takeWhile_subset _ inside)
  rw [unmarked_of_open undecided, interval, none]
  rfl

/-- A stream that breaks off inside a line: what it has of the line is a valid retry line, and no
line up to there is an error. -/
inductive TornRetry (maxLine : Option Nat) (broken rest : Bytes) (millis : Nat) : Prop where
  | torn {earlier later : List Bytes} {begun line : Bytes}
      (seen : (unmarked broken).lines = earlier ++ [begun])
      (whole : (unmarked (broken ++ rest)).lines = earlier ++ line :: later)
      (starts : begun <+: line) (short : begun ≠ line) (value : retryValue? begun = some millis)
      (legibles : ∀ line ∈ earlier ++ [begun], legible maxLine line = true) :
      TornRetry maxLine broken rest millis

theorem TornRetry.interval_passed {broken rest : Bytes} {millis : Nat}
    (torn : TornRetry maxLine broken rest millis) :
    interval retry (passed maxLine true (unmarked broken)) = .ofMillis millis := by
  obtain ⟨seen, -, -, -, value, legibles⟩ := torn
  rw [passed, if_pos rfl, seen, List.takeWhile_eq_self_iff.mpr legibles, interval_append, value]
  rfl

/-- A broken stream leaves an interval that some front of the whole stream leaves, unless it breaks
off inside a valid retry line. -/
theorem passed_cut (broken rest : Bytes) :
    (∃ first, first <+: passed maxLine true (unmarked (broken ++ rest)) ∧
        interval retry (passed maxLine true (unmarked broken)) = interval retry first) ∨
      ∃ millis, TornRetry maxLine broken rest millis := by
  by_cases undecided : Decoder.marked? broken = none
  · exact .inl ⟨[], List.nil_prefix, interval_undecided undecided⟩
  obtain ⟨common, left, behind, part, whole, leads, -⟩ := Bytes.lines_append (unmarked broken) rest
  rw [unmarked_append undecided]
  have front : passed maxLine true (unmarked broken) <+: common ++ left :=
    part ▸ List.takeWhile_prefix _
  have legibles : ∀ line ∈ passed maxLine true (unmarked broken), legible maxLine line = true :=
    fun line => List.mem_takeWhile_imp
  have kept {first : List Bytes} (begun : first <+: common ++ behind)
      (among : first ⊆ passed maxLine true (unmarked broken)) :
      first <+: passed maxLine true (unmarked broken ++ rest) := by
    rw [← whole] at begun
    exact prefix_passed begun fun line inside => legibles line (among inside)
  rcases leads with rfl | ⟨begun, line, later, rfl, rfl, starts⟩
  · rw [List.append_nil] at front
    exact .inl ⟨_, kept (front.trans (List.prefix_append _ _)) (List.Subset.refl _), rfl⟩
  rcases List.prefix_concat_iff.mp front with all | earlier
  · by_cases same : begun = line
    · subst same
      have within : common ++ [begun] <+: common ++ begun :: later :=
        (List.prefix_append_right_inj _).mpr ⟨later, rfl⟩
      exact .inl ⟨_, kept (all ▸ within) (List.Subset.refl _), rfl⟩
    · rw [all, interval_append]
      cases value : retryValue? begun with
      | none =>
        refine .inl ⟨common, kept (List.prefix_append _ _) ?_, rfl⟩
        exact all ▸ List.subset_append_left _ _
      | some millis =>
        rw [← unmarked_append undecided] at whole
        exact .inr ⟨millis, part, whole, starts, same, value, all ▸ legibles⟩
  · exact .inl ⟨_, kept (earlier.trans (List.prefix_append _ _)) (List.Subset.refl _), rfl⟩

end OnePass

namespace Body

variable {maxLine : Option Nat} {resumeId : Bytes} {retry : Duration}

/-- All items of chunks, polled at any time on the way and then to a clean end. -/
def endedItems (maxLine : Option Nat) (resumeId : Bytes) (retry : Duration)
    (turns : List (Option Bytes)) : List Item :=
  let opened := fresh maxLine resumeId retry
  let left := opened.run (schedule turns)
  opened.items (schedule turns) ++ (left.decoder.drain left.feed.close).map Decoder.Polled.item

def endedRetry (maxLine : Option Nat) (resumeId : Bytes) (retry : Duration)
    (turns : List (Option Bytes)) : Option Duration :=
  (endedItems maxLine resumeId retry turns).getLast?.map Item.retry

/-- The intervals that a decoder can be seen to have while these bytes are on their way to it, cut
into any chunks, and when they have come to a clean end. -/
inductive Takes (maxLine : Option Nat) (resumeId : Bytes) (retry : Duration) (bytes : Bytes) :
    Duration → Prop where
  | underway {turns : List (Option Bytes)} {item : Item}
      (begun : (turns.filterMap id).flatten <+: bytes)
      (given : item ∈ (fresh maxLine resumeId retry).course turns .stays) :
      Takes maxLine resumeId retry bytes item.retry
  | ended {turns : List (Option Bytes)} {item : Item}
      (whole : (turns.filterMap id).flatten = bytes)
      (given : item ∈ endedItems maxLine resumeId retry turns) :
      Takes maxLine resumeId retry bytes item.retry

theorem endedItems_reports (turns : List (Option Bytes)) :
    OnePass.Reports retry
      (OnePass.passed maxLine true (OnePass.unmarked (turns.filterMap id).flatten))
      (endedItems maxLine resumeId retry turns) := by
  have items := items_outlook (flowing_fresh maxLine resumeId retry) turns
  have whole := Decoder.outlook_start maxLine resumeId retry (turns.filterMap id).flatten
  rw [endedItems, items.trans whole]
  exact OnePass.transcript_reports resumeId _

theorem Takes.passed {bytes : Bytes} {interval : Duration}
    (takes : Takes maxLine resumeId retry bytes interval) :
    ∃ first, first <+: OnePass.passed maxLine true (OnePass.unmarked bytes) ∧
      interval = OnePass.interval retry first := by
  cases takes with
  | @underway turns item begun given =>
    rw [(course_suspended maxLine resumeId retry turns .stays).1] at given
    obtain ⟨first, front, same⟩ := (OnePass.suspended_reports resumeId _).each item given
    refine ⟨first, ?_, same⟩
    apply OnePass.prefix_passed
    · exact front.trans ((List.takeWhile_prefix _).trans (OnePass.decided_lines begun))
    · exact fun line inside => List.mem_takeWhile_imp (front.subset inside)
  | @ended turns item whole given =>
    subst whole
    exact (endedItems_reports turns).each item given

theorem takes_interval {bytes : Bytes} {first : List Bytes}
    (begun : first <+: OnePass.passed maxLine true (OnePass.unmarked bytes)) :
    Takes maxLine resumeId retry bytes (OnePass.interval retry first) := by
  have legibles : first.takeWhile (OnePass.legible maxLine) = first :=
    List.takeWhile_eq_self_iff.mpr fun line inside => List.mem_takeWhile_imp (begun.subset inside)
  have content (bytes : Bytes) : ([some bytes].filterMap id).flatten = bytes :=
    List.append_nil bytes
  rcases Bytes.prefix_lines (begun.trans (List.takeWhile_prefix _)) with decided | whole
  · obtain ⟨taken, within, same⟩ := OnePass.decided_taken decided
    obtain ⟨item, last, kept⟩ := (@OnePass.suspended_reports maxLine retry resumeId taken).last
    have lines : OnePass.passed maxLine false (OnePass.unmarked taken) = first := by
      rw [OnePass.passed, if_neg Bool.false_ne_true, same, legibles]
    have given := (course_suspended maxLine resumeId retry [some taken] .stays).1
    rw [content] at given
    rw [← lines, ← kept]
    exact .underway ((content taken).symm ▸ within) (given ▸ List.mem_of_getLast? last)
  · obtain ⟨item, last, kept⟩ := (@endedItems_reports maxLine resumeId retry [some bytes]).last
    have lines : OnePass.passed maxLine true (OnePass.unmarked bytes) = first := by
      rw [OnePass.passed, if_pos rfl, ← whole, legibles]
    rw [content, lines] at kept
    rw [← kept]
    exact .ended (content bytes) (List.mem_of_getLast? last)

/-- A decoder has the intervals that are in force before the first line and behind each line up to
the first error, in whatever chunks it gets them. -/
theorem takes_iff {bytes : Bytes} {interval : Duration} :
    Takes maxLine resumeId retry bytes interval ↔
      ∃ first, first <+: OnePass.passed maxLine true (OnePass.unmarked bytes) ∧
        interval = OnePass.interval retry first := by
  refine ⟨Takes.passed, ?_⟩
  rintro ⟨first, begun, rfl⟩
  exact takes_interval begun

/-- Where a stream breaks off inside a valid retry line, with no error up to there, its interval is
the value of what it has of the line. Everywhere else it is one that the whole stream takes. -/
theorem truncation_retry (maxLine : Option Nat) (resumeId : Bytes) (retry : Duration)
    (turns : List (Option Bytes)) (rest : Bytes) :
    let broken := (turns.filterMap id).flatten
    ∃ interval, endedRetry maxLine resumeId retry turns = some interval ∧
      (∀ millis, OnePass.TornRetry maxLine broken rest millis → interval = .ofMillis millis) ∧
      ((¬∃ millis, OnePass.TornRetry maxLine broken rest millis) →
        Takes maxLine resumeId retry (broken ++ rest) interval) := by
  intro broken
  obtain ⟨item, last, kept⟩ := (@endedItems_reports maxLine resumeId retry turns).last
  refine ⟨item.retry, by rw [endedRetry, last]; rfl, ?_, ?_⟩
  · intro millis torn
    rw [kept, torn.interval_passed]
  · intro sound
    rw [kept, takes_iff]
    exact (OnePass.passed_cut broken rest).resolve_right sound

/-- A torn line over the limit is an error, and leaves the interval as it was. -/
example : endedRetry (some 7) [] (.ofMillis 3000) [some (Bytes.ofText "retry:10")] =
    some (.ofMillis 3000) := by decide +kernel

/-- A stream that is cut within the digits of an interval leaves one that nobody asked for. -/
theorem truncation_invents_retry :
    endedRetry none [] (.ofMillis 3000) [some (Bytes.ofText "retry:10")] = some (.ofMillis 10) ∧
      ¬Takes none [] (.ofMillis 3000) (Bytes.ofText "retry:10" ++ Bytes.ofText "00\n")
        (.ofMillis 10) := by
  refine ⟨by decide +kernel, ?_⟩
  rw [takes_iff]
  rintro ⟨first, begun, same⟩
  have fronts : ∀ front ∈ (OnePass.passed none true
      (OnePass.unmarked (Bytes.ofText "retry:10" ++ Bytes.ofText "00\n"))).inits,
      OnePass.interval (.ofMillis 3000) front ≠ .ofMillis 10 := by decide +kernel
  exact fronts first ((List.mem_inits _ _).mpr begun) same.symm

end Body

end EventStream
