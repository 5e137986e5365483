import EventStream.Proofs.Polling

/-!
A stream whose end is not in sight. Some of its lines are complete whatever follows, and those alone
can be read. What is behind them is held, and counts for nothing but the limit on a line.
-/

namespace EventStream

theorem cutLine_shorter {finished : Bool} {bytes : Bytes} {cut : Cut}
    (found : cutLine finished bytes = some cut) : cut.rest.length < bytes.length := by
  have whole := congrArg List.length (cutLine_bytes found)
  have ended : 0 < cut.ending.bytes.length := by cases cut.ending <;> simp [LineEnd.bytes]
  simp only [List.length_append] at whole
  omega

theorem cutLine_append {bytes : Bytes} {cut : Cut} (found : cutLine false bytes = some cut)
    (rest : Bytes) :
    cutLine false (bytes ++ rest) = some { cut with rest := cut.rest ++ rest } := by
  induction bytes generalizing cut with
  | nil => simp [cutLine] at found
  | cons octet bytes ih =>
    rw [List.cons_append]
    unfold cutLine at found ⊢
    split at found
    next feed => cases found; rw [if_pos feed]
    next notFeed =>
      rw [if_neg notFeed]
      split at found
      next ret =>
        rw [if_pos ret]
        split at found
        next => cases found
        next next beyond =>
          simp only [List.cons_append]
          split at found
          next feed => cases found; rw [if_pos feed]
          next other => cases found; rw [if_neg other]; rfl
      next notReturn =>
        obtain ⟨inner, same, rfl⟩ := Option.map_eq_some_iff.mp found
        rw [if_neg notReturn, ih same]
        rfl

/-- What does not end a line now may end one later, but no earlier than behind the settled part. -/
theorem cutLine_settled {bytes rest : Bytes} {cut : Cut} (missed : cutLine false bytes = none)
    (found : cutLine false (bytes ++ rest) = some cut) :
    LineBuffer.settled bytes ≤ cut.line.length := by
  have plain := (cutLine_none missed).1
  have split : bytes ++ rest = bytes.take (LineBuffer.settled bytes) ++
      (bytes.drop (LineBuffer.settled bytes) ++ rest) := by
    rw [← List.append_assoc, List.take_append_drop]
  rw [split, cutLine_plain false plain] at found
  obtain ⟨inner, -, rfl⟩ := Option.map_eq_some_iff.mp found
  simp only [List.length_append, List.length_take]
  have within := LineBuffer.settled_le bytes
  omega

theorem settled_append (bytes rest : Bytes) :
    LineBuffer.settled bytes ≤ LineBuffer.settled (bytes ++ rest) := by
  cases rest with
  | nil => simp
  | cons octet rest =>
    have within := LineBuffer.settled_le bytes
    have most : (bytes ++ octet :: rest).length - 1 ≤
        LineBuffer.settled (bytes ++ octet :: rest) := by
      unfold LineBuffer.settled
      split <;> omega
    simp only [List.length_append, List.length_cons] at most
    omega

namespace Bytes

/-- The lines whose end is certain whatever follows, and what is left behind them. -/
def decided (bytes : Bytes) : List Bytes × Bytes :=
  match _found : cutLine false bytes with
  | some cut => (cut.line :: (decided cut.rest).1, (decided cut.rest).2)
  | none => ([], bytes)
termination_by bytes.length
decreasing_by all_goals exact cutLine_shorter ‹_›

theorem decided_cut {bytes : Bytes} {cut : Cut} (found : cutLine false bytes = some cut) :
    decided bytes = (cut.line :: (decided cut.rest).1, (decided cut.rest).2) := by
  rw [decided.eq_def]
  split
  next other same =>
    cases found.symm.trans same
    rfl
  next missed => cases found.symm.trans missed

theorem decided_none {bytes : Bytes} (missed : cutLine false bytes = none) :
    decided bytes = ([], bytes) := by
  rw [decided.eq_def]
  split
  next found => cases missed.symm.trans found
  next => rfl

theorem lines_decided (bytes rest : Bytes) :
    lines (bytes ++ rest) = (decided bytes).1 ++ lines ((decided bytes).2 ++ rest) := by
  fun_induction decided bytes with
  | case1 bytes cut found ih =>
    have first := @linesFrom_cut false bytes rest cut [] found nofun
    rw [lines, first, List.cons_append, ← ih]
    rfl
  | case2 => rfl

end Bytes

open LineBuffer

section NextLine

variable {lines next : LineBuffer}

theorem nextLine_decided {content : Bytes} (scanned : lines.Scanned)
    (unfinished : lines.finished = false) (found : lines.nextLine = (.line content, next))
    (rest : Bytes) :
    (lines.bytes ++ rest).decided =
      (content :: (next.bytes ++ rest).decided.1, (next.bytes ++ rest).decided.2) := by
  rw [nextLine_eq scanned, unfinished] at found
  split at found
  next cut same =>
    obtain ⟨rfl, rfl⟩ := give_line found
    exact Bytes.decided_cut (cutLine_append same rest)
  next => exact absurd found (hold_ne_line _ _ _)

/-- A line that is too long is the first decided one, or it is not decided and too long already. -/
theorem nextLine_overlong {limit : Nat} (scanned : lines.Scanned)
    (unfinished : lines.finished = false) (found : lines.nextLine = (.tooLong limit, next))
    (rest : Bytes) :
    lines.maxLine = some limit ∧
      ((∃ line others, (lines.bytes ++ rest).decided.1 = line :: others ∧ limit < line.length) ∨
        (lines.bytes ++ rest).decided = ([], lines.bytes ++ rest) ∧
          limit < settled (lines.bytes ++ rest)) := by
  rw [nextLine_eq scanned, unfinished] at found
  split at found
  next cut same =>
    have longer := exceeded?_eq_some.mp (give_tooLong found).1
    refine ⟨longer.1, .inl ⟨cut.line, (cut.rest ++ rest).decided.1, ?_, longer.2⟩⟩
    rw [Bytes.decided_cut (cutLine_append same rest)]
  next missed =>
    simp only [Bool.false_and, Bool.false_eq_true, if_false, hold, Prod.mk.injEq] at found
    split at found
    next longer =>
      obtain ⟨rfl⟩ := Scan.tooLong.inj found.1
      have longer := exceeded?_eq_some.mp longer
      refine ⟨longer.1, ?_⟩
      cases later : cutLine false (lines.bytes ++ rest) with
      | some cut =>
        have begun := cutLine_settled missed later
        exact .inl ⟨cut.line, cut.rest.decided.1, by rw [Bytes.decided_cut later], by omega⟩
      | none =>
        have begun := settled_append lines.bytes rest
        exact .inr ⟨Bytes.decided_none later, by omega⟩
    next => cases found.1

theorem nextLine_undecided (scanned : lines.Scanned) (unfinished : lines.finished = false)
    (found : lines.nextLine = (.more, next)) :
    next.bytes = lines.bytes ∧ cutLine false lines.bytes = none ∧
      lines.maxLine.filter (· < settled lines.bytes) = none := by
  refine ⟨(nextLine_more scanned found).1, ?_⟩
  rw [nextLine_eq scanned, unfinished] at found
  split at found
  next => exact absurd found (give_ne_more _ _ _ _)
  next missed =>
    simp only [Bool.false_and, Bool.false_eq_true, if_false, hold, Prod.mk.injEq] at found
    split at found
    next => cases found.1
    next fits => exact ⟨missed, fits⟩

end NextLine

/-- How a stream goes on behind the bytes that arrived: not at all for now, or with a failure of the
transport. -/
inductive Sequel where
  | stays
  | breaks (message : String)
  deriving DecidableEq, Repr

namespace Sequel

def items (sequel : Sequel) (last : Bytes) (retry : Duration) : List Item :=
  match sequel with
  | .stays => [⟨.pending, last, retry⟩]
  | .breaks message => [⟨.failed (.transport message), last, retry⟩, ⟨.ended, last, retry⟩]

def ofArrivals : List Arrival → Sequel
  | [] => .stays
  | .chunk _ :: rest => ofArrivals rest
  | .failure message :: _ => .breaks message

end Sequel

namespace OnePass

def goOn (further : Bytes → Duration → List Item) : List Item → List Item
  | [] => []
  | item :: rest =>
    match item.poll with
    | .ended => further item.lastEventId item.retry
    | .failed _ => item :: rest
    | .pending | .event _ => item :: goOn further rest

/-- What is given behind the decided lines. The bytes that are left there are the start of a line,
and are too many for one if those before a carriage return in the last place are. -/
def behind (maxLine : Option Nat) (left : Bytes) (sequel : Sequel) (last : Bytes)
    (retry : Duration) : List Item :=
  match maxLine.filter (· < settled left) with
  | some limit => [⟨.failed (.lineTooLong limit), last, retry⟩, ⟨.ended, last, retry⟩]
  | none => sequel.items last retry

/-- What a stream comes to that did not end. While its bytes leave open whether it begins with the
mark none of them is read. -/
def suspended (maxLine : Option Nat) (resumeId : Bytes) (retry : Duration) (bytes : Bytes)
    (sequel : Sequel) : List Item :=
  if Decoder.marked? bytes = none then sequel.items resumeId retry
  else
    let decided := (unmarked bytes).decided
    goOn (behind maxLine decided.2 sequel)
      (items maxLine resumeId (.start resumeId retry) decided.1)

def unread (bytes : Bytes) : Bytes :=
  if Decoder.marked? bytes = none then bytes else (unmarked bytes).decided.2

end OnePass

namespace Record

def suspended (maxLine : Option Nat) (last : Bytes) (record : Record) (bytes : Bytes)
    (sequel : Sequel) : List Item :=
  OnePass.goOn (OnePass.behind maxLine bytes.decided.2 sequel)
    (record.items maxLine last bytes.decided.1)

end Record

def Foretells (sequel : Sequel) (lines : LineBuffer) (record : Record) (last rest : Bytes) :
    Reading × LineBuffer × Record → Prop
  | (.event event, next, after) =>
    record.suspended lines.maxLine last (lines.bytes ++ rest) sequel =
        ⟨.event event, event.id, after.retry⟩ ::
          after.suspended lines.maxLine event.id (next.bytes ++ rest) sequel ∧
      (next.bytes ++ rest).decided.2 = (lines.bytes ++ rest).decided.2
  | (.failed error, _, after) =>
    record.suspended lines.maxLine last (lines.bytes ++ rest) sequel =
      [⟨.failed error, last, after.retry⟩, ⟨.ended, last, after.retry⟩]
  | (.exhausted, next, after) =>
    record.suspended lines.maxLine last (lines.bytes ++ rest) sequel =
        after.suspended lines.maxLine last (next.bytes ++ rest) sequel ∧
      (next.bytes ++ rest).decided.2 = (lines.bytes ++ rest).decided.2 ∧
      cutLine false next.bytes = none ∧
      lines.maxLine.filter (· < settled next.bytes) = none

theorem readLines_foretells {lines : LineBuffer} (scanned : lines.Scanned)
    (unfinished : lines.finished = false) (sequel : Sequel) (record : Record) (last rest : Bytes) :
    Foretells sequel lines record last rest (readLines lines record) := by
  fun_induction readLines lines record with
  | case1 lines record limit next taken =>
    obtain ⟨most, ⟨line, others, first, longer⟩ | ⟨none, longer⟩⟩ :=
      nextLine_overlong scanned unfinished taken rest
    · have exceeds : lines.maxLine.filter (· < line.length) = some limit := by simp [most, longer]
      simp only [Foretells, Record.suspended, first, Record.items, exceeds, OnePass.goOn]
    · have exceeds : lines.maxLine.filter (· < settled (lines.bytes ++ rest)) = some limit := by
        simp [most, longer]
      simp only [Foretells, Record.suspended, none, Record.items, OnePass.goOn, OnePass.behind,
        exceeds]
  | case2 lines record next taken =>
    obtain ⟨same, missed, fits⟩ := nextLine_undecided scanned unfinished taken
    rw [← same] at missed fits
    exact ⟨by rw [same], by rw [same], missed, fits⟩
  | case3 lines record content next taken fault parsed =>
    obtain ⟨fits, -⟩ := @nextLine_line _ _ _ [] scanned taken fun _ => rfl
    simp only [Foretells, Record.suspended, nextLine_decided scanned unfinished taken rest,
      Record.items, filter_exceeded fits, parsed, Except.map, OnePass.goOn]
  | case4 lines record content next taken line parsed event after read =>
    obtain ⟨fits, -⟩ := @nextLine_line _ _ _ [] scanned taken fun _ => rfl
    have first := nextLine_decided scanned unfinished taken rest
    simp only [Foretells, Record.suspended, first, Record.items, filter_exceeded fits, parsed,
      Except.map, read, OnePass.goOn, and_self]
  | case5 lines record content next taken line parsed after read ih =>
    obtain ⟨fits, -⟩ := @nextLine_line _ _ _ [] scanned taken fun _ => rfl
    have first := nextLine_decided scanned unfinished taken rest
    have follows := nextLine_follows scanned taken
    have later := ih follows.scanned (follows.finished.trans unfinished)
    have whole : record.suspended lines.maxLine last (lines.bytes ++ rest) sequel =
        after.suspended lines.maxLine last (next.bytes ++ rest) sequel := by
      simp only [Record.suspended, first, Record.items, filter_exceeded fits, parsed, Except.map,
        read]
    have left : (next.bytes ++ rest).decided.2 = (lines.bytes ++ rest).decided.2 := by rw [first]
    rw [← follows.maxLine] at whole
    unfold Foretells at later ⊢
    rw [← follows.maxLine, whole, ← left]
    exact later

end EventStream
