import EventStream.Proofs.Scanning

/-!
What goes into a line buffer against what comes out of it. A ledger beside a run says of each line
that was handed out which bytes left the buffer with it. These and the bytes that are still there
are what was pushed, in any order of pushes, looks and finishes. A line over the limit stays in
front of the buffer for good: it shows in the bytes, and those are only ever added to behind it.
-/

namespace EventStream

open Bytes

/-- A cut is made at the first line end. If that is a carriage return, then no line feed is behind
it, and if nothing is, the end of the stream is known. -/
theorem cutLine_first {finished : Bool} {bytes : Bytes} {cut : Cut}
    (found : cutLine finished bytes = some cut) :
    Plain cut.line ∧ (cut.ending = .carriageReturn →
      cut.rest.head? ≠ some lineFeed ∧ (cut.rest = [] → finished = true)) := by
  induction bytes generalizing cut with
  | nil => simp [cutLine] at found
  | cons octet rest ih =>
    unfold cutLine at found
    split at found
    next => cases found; exact ⟨plain_nil, by simp⟩
    next notFeed =>
      split at found
      next =>
        split at found
        next =>
          split at found
          next past => cases found; exact ⟨plain_nil, fun _ => ⟨by simp, fun _ => past⟩⟩
          next => cases found
        next next beyond =>
          split at found
          next => cases found; exact ⟨plain_nil, by simp⟩
          next other =>
            cases found
            exact ⟨plain_nil, fun _ => ⟨by simpa using other, by simp⟩⟩
      next notReturn =>
        obtain ⟨inner, same, rfl⟩ := Option.map_eq_some_iff.mp found
        obtain ⟨plain, alone⟩ := ih same
        exact ⟨plain_cons.mpr ⟨by simp [isBreak, notFeed, notReturn], plain⟩, alone⟩

theorem Bytes.le_of_plain_take {line rest : Bytes} {octet : UInt8} (breaks : isBreak octet)
    {count : Nat} (plain : Plain ((line ++ octet :: rest).take count)) : count ≤ line.length := by
  refine Nat.le_of_not_lt fun short => plain octet ?_ breaks
  rw [List.mem_take_iff_getElem]
  exact ⟨line.length, by simp; omega, by simp⟩

theorem LineEnd.breaks (ending : LineEnd) :
    ∃ octet rest, ending.bytes = octet :: rest ∧ isBreak octet := by
  cases ending with
  | lineFeed => exact ⟨_, _, rfl, .inl rfl⟩
  | carriageReturn => exact ⟨_, _, rfl, .inr rfl⟩
  | both => exact ⟨_, _, rfl, .inr rfl⟩

namespace LineBuffer

/-- How a line and what goes with it come off the front of a buffer: it has a line end behind it, or
it is all that is left when the end of the stream is known. -/
inductive Parts (lines next : LineBuffer) (line : Bytes) : Bytes → Prop where
  | ended (ending : LineEnd) (whole : lines.bytes = line ++ (ending.bytes ++ next.bytes))
      (alone : ending = .carriageReturn →
        next.bytes.head? ≠ some lineFeed ∧ (next.bytes = [] → lines.finished = true)) :
      Parts lines next line ending.bytes
  | last (whole : lines.bytes = line) (empty : next.bytes = []) (past : lines.finished = true) :
      Parts lines next line []

theorem nextLine_parts {lines next : LineBuffer} {line : Bytes} (scanned : lines.Scanned)
    (found : lines.nextLine = (.line line, next)) :
    Plain line ∧ ∃ ending, Parts lines next line ending := by
  rw [nextLine_eq scanned] at found
  split at found
  next cut same =>
    obtain ⟨plain, alone⟩ := cutLine_first same
    obtain ⟨rfl, rfl⟩ := give_line found
    have whole := cutLine_bytes same
    rw [List.append_assoc] at whole
    exact ⟨plain, _, .ended cut.ending whole alone⟩
  next missed =>
    split at found
    next past =>
      rw [Bool.and_eq_true] at past
      obtain ⟨rfl, rfl⟩ := give_line found
      exact ⟨(cutLine_none missed).2 past.1, [], .last rfl rfl past.1⟩
    next => exact absurd found (hold_ne_line _ _ _)

structure Taken where
  line : Bytes
  ending : Bytes
  deriving DecidableEq, Repr

def Taken.bytes (taken : Taken) : Bytes := taken.line ++ taken.ending

/-- What a step takes out of a buffer, told by how much shorter the buffer is then. -/
def takes (lines : LineBuffer) : Step → Option Taken
  | .push _ | .finish => none
  | .next =>
    match lines.nextLine with
    | (.line line, next) =>
      let behind := lines.bytes.drop line.length
      some ⟨line, behind.take (behind.length - next.bytes.length)⟩
    | _ => none

def ledger (lines : LineBuffer) : List Step → List Taken
  | [] => []
  | step :: rest => (lines.takes step).toList ++ (lines.step step).ledger rest

def written (ledger : List Taken) : Bytes := ledger.flatMap Taken.bytes

def Step.bytes : Step → Bytes
  | .push chunk => chunk
  | .finish | .next => []

def pushed (steps : List Step) : Bytes := steps.flatMap Step.bytes

theorem Parts.bytes {lines next : LineBuffer} {line ending : Bytes}
    (parts : Parts lines next line ending) : lines.bytes = line ++ (ending ++ next.bytes) := by
  cases parts with
  | ended ending whole => exact whole
  | last whole empty => rw [whole, empty, List.append_nil, List.append_nil]

theorem takes_next {lines : LineBuffer} (scanned : lines.Scanned) {taken : Taken}
    (found : lines.takes .next = some taken) :
    Plain taken.line ∧ Parts lines lines.nextLine.2 taken.line taken.ending := by
  simp only [takes] at found
  split at found
  next line next looked =>
    cases found
    obtain ⟨plain, ending, parts⟩ := nextLine_parts scanned looked
    have behind : (ending ++ next.bytes).take ((ending ++ next.bytes).length - next.bytes.length) =
        ending := by
      rw [List.length_append, Nat.add_sub_cancel_right, List.take_left]
    simp only [looked, parts.bytes, List.drop_left, behind]
    exact ⟨plain, parts⟩
  next => cases found

structure Keeps (lines next : LineBuffer) (finishes : Bool) (got : Bytes) (gave : List Taken) :
    Prop where
  scanned : next.Scanned
  maxLine : next.maxLine = lines.maxLine
  finished : next.finished = (lines.finished || finishes)
  bytes : lines.bytes ++ got = written gave ++ next.bytes

theorem step_keeps {lines : LineBuffer} (scanned : lines.Scanned) (step : Step) :
    Keeps lines (lines.step step) (step = .finish) step.bytes (lines.takes step).toList := by
  cases step with
  | push chunk => exact ⟨scanned.push chunk, rfl, by simp [LineBuffer.step, push], rfl⟩
  | finish =>
    exact ⟨scanned.finish, rfl, by simp [LineBuffer.step, finish], List.append_nil _⟩
  | next =>
    obtain ⟨still, maxLine, finished⟩ := nextLine_scanned scanned
    refine ⟨still, maxLine, by simpa [LineBuffer.step] using finished, ?_⟩
    rw [Step.bytes, List.append_nil, LineBuffer.step]
    cases found : lines.takes .next with
    | some taken =>
      rw [(takes_next scanned found).2.bytes]
      simp [written, Taken.bytes]
    | none =>
      unfold takes at found
      cases looked : lines.nextLine with
      | mk scan next =>
        cases scan with
        | line line => rw [looked] at found; cases found
        | more => exact (nextLine_more scanned looked).1.symm
        | tooLong limit => exact (nextLine_tooLong_bytes scanned looked).symm

theorem run_keeps {lines : LineBuffer} (scanned : lines.Scanned) (steps : List Step) :
    Keeps lines (lines.run steps) (.finish ∈ steps) (pushed steps) (lines.ledger steps) := by
  induction steps generalizing lines with
  | nil => exact ⟨scanned, rfl, by simp [run], List.append_nil _⟩
  | cons step steps ih =>
    have first := step_keeps scanned step
    have later := ih first.scanned
    refine ⟨later.scanned, later.maxLine.trans first.maxLine, ?_, ?_⟩
    · rw [run, List.foldl_cons]
      refine later.finished.trans ?_
      rw [first.finished, Bool.or_assoc]
      simp [eq_comm]
    · have whole : written (lines.ledger (step :: steps)) =
          written (lines.takes step).toList ++ written ((lines.step step).ledger steps) :=
        List.flatMap_append
      rw [pushed, List.flatMap_cons, ← List.append_assoc, first.bytes, List.append_assoc, whole,
        List.append_assoc]
      exact congrArg _ later.bytes

theorem ledger_lines (lines : LineBuffer) (steps : List Step) :
    (lines.ledger steps).map Taken.line = (lines.answers steps).filterMap Scan.line? := by
  induction steps generalizing lines with
  | nil => rfl
  | cons step steps ih =>
    have first : (lines.takes step).toList.map Taken.line =
        (lines.answer step).filterMap Scan.line? := by
      cases step with
      | next =>
        unfold takes answer
        cases lines.nextLine with
        | mk scan next => cases scan <;> rfl
      | _ => rfl
    rw [ledger, answers, List.map_append, List.filterMap_append, first, ih]

/-- The buffer begins with more bytes than a line may have, and no line end is among them. -/
structure Overlong (limit : Nat) (lines : LineBuffer) : Prop where
  most : lines.maxLine = some limit
  longer : limit < lines.bytes.length
  plain : Plain (lines.bytes.take (limit + 1))

theorem Overlong.append {limit : Nat} {lines next : LineBuffer} (overlong : Overlong limit lines)
    {more : Bytes} (maxLine : next.maxLine = lines.maxLine)
    (bytes : next.bytes = lines.bytes ++ more) : Overlong limit next := by
  have longer := overlong.longer
  refine ⟨maxLine.trans overlong.most, ?_, ?_⟩
  · rw [bytes, List.length_append]
    omega
  · rw [bytes, List.take_append_of_le_length longer]
    exact overlong.plain

theorem overlong_iff {lines : LineBuffer} {front rest : Bytes} {limit : Nat}
    (bytes : lines.bytes = front ++ rest) (plain : Plain front)
    (stops : rest = [] ∨ ∃ octet beyond, rest = octet :: beyond ∧ isBreak octet) :
    Overlong limit lines ↔ lines.maxLine = some limit ∧ limit < front.length := by
  refine ⟨fun overlong => ⟨overlong.most, ?_⟩, fun ⟨most, longer⟩ => ⟨most, ?_, ?_⟩⟩
  · rcases stops with rfl | ⟨octet, beyond, rfl, breaks⟩
    · rw [← List.append_nil front, ← bytes]
      exact overlong.longer
    · exact le_of_plain_take breaks (bytes ▸ overlong.plain)
  · rw [bytes, List.length_append]
    omega
  · rw [bytes, List.take_append_of_le_length longer]
    exact plain.take _

theorem settled_stops (bytes : Bytes) :
    bytes.drop (settled bytes) = [] ∨
      ∃ octet beyond, bytes.drop (settled bytes) = octet :: beyond ∧ isBreak octet :=
  (drop_settled bytes).imp_right fun ret => ⟨carriageReturn, [], ret, .inr rfl⟩

theorem give_tooLong_iff {lines : LineBuffer} {line rest : Bytes} {limit : Nat} :
    (lines.give line rest).1 = .tooLong limit ↔
      lines.maxLine = some limit ∧ limit < line.length := by
  rw [← exceeded?_eq_some, give]
  cases lines.exceeded? line.length <;> simp

theorem hold_tooLong_iff {lines : LineBuffer} {limit : Nat} :
    lines.hold.1 = .tooLong limit ↔
      lines.maxLine = some limit ∧ limit < settled lines.bytes := by
  rw [← exceeded?_eq_some, hold]
  cases lines.exceeded? (settled lines.bytes) <;> simp

theorem nextLine_tooLong_iff {lines : LineBuffer} (scanned : lines.Scanned) {limit : Nat} :
    lines.nextLine.1 = .tooLong limit ↔ Overlong limit lines := by
  rw [nextLine_eq scanned]
  split
  next cut same =>
    have bytes := cutLine_bytes same
    obtain ⟨octet, beyond, ending, breaks⟩ := cut.ending.breaks
    rw [List.append_assoc, ending] at bytes
    rw [give_tooLong_iff]
    exact (overlong_iff bytes (cutLine_first same).1 (.inr ⟨octet, _, rfl, breaks⟩)).symm
  next missed =>
    split
    next past =>
      rw [Bool.and_eq_true] at past
      rw [give_tooLong_iff]
      have plain := (cutLine_none missed).2 past.1
      exact (overlong_iff (List.append_nil _).symm plain (.inl rfl)).symm
    next =>
      have bytes := (List.take_append_drop (settled lines.bytes) lines.bytes).symm
      have held := @overlong_iff lines _ _ limit bytes (cutLine_none missed).1
        (settled_stops lines.bytes)
      rw [List.length_take_of_le (settled_le _)] at held
      exact hold_tooLong_iff.trans held.symm

theorem Overlong.run {limit : Nat} {lines : LineBuffer} (overlong : Overlong limit lines)
    (scanned : lines.Scanned) (steps : List Step) :
    (∀ scan ∈ lines.answers steps, scan = .tooLong limit) ∧
      (lines.run steps).bytes = lines.bytes ++ pushed steps := by
  induction steps generalizing lines with
  | nil => exact ⟨nofun, (List.append_nil _).symm⟩
  | cons step steps ih =>
    have keeps := step_keeps scanned step
    have told := (nextLine_tooLong_iff scanned).mpr overlong
    -- Nothing is taken out, so that the step only adds what it pushes.
    have kept : lines.takes step = none := by
      cases step with
      | next =>
        unfold takes
        cases found : lines.nextLine with
        | mk scan next =>
          rw [found] at told
          cases told
          rfl
      | _ => rfl
    have bytes : (lines.step step).bytes = lines.bytes ++ step.bytes := by
      rw [keeps.bytes, kept]
      rfl
    obtain ⟨later, whole⟩ := ih (overlong.append keeps.maxLine bytes) keeps.scanned
    refine ⟨?_, ?_⟩
    · intro scan inside
      rcases List.mem_append.mp inside with now | behind
      · cases step with
        | next => exact (List.mem_singleton.mp now).trans told
        | _ => cases now
      · exact later scan behind
    · refine whole.trans ?_
      rw [bytes, List.append_assoc]
      rfl

theorem pushed_append (first second : List Step) :
    pushed (first ++ second) = pushed first ++ pushed second :=
  List.flatMap_append

theorem written_append (first second : List Taken) :
    written (first ++ second) = written first ++ written second :=
  List.flatMap_append

/-- A carriage return that was taken without the line feed behind it was the last byte there was. -/
theorem Parts.alone {lines next : LineBuffer} {line : Bytes}
    (parts : Parts lines next line [carriageReturn]) {more behind : Bytes}
    (follows : next.bytes ++ more = lineFeed :: behind) :
    lines.finished = true ∧ lines.bytes = line ++ [carriageReturn] := by
  generalize same : [carriageReturn] = ending at parts
  cases parts with
  | ended ending whole alone =>
    have single : ending = .carriageReturn := by
      cases ending with
      | carriageReturn => rfl
      | _ => cases same
    obtain ⟨unfed, past⟩ := alone single
    cases rest : next.bytes with
    | nil => exact ⟨past rest, by rw [whole, rest, List.append_nil]⟩
    | cons octet beyond =>
      rw [rest, List.cons_append] at follows
      rw [rest] at unfed
      exact absurd (congrArg List.head? follows) unfed
  | last => cases same

/-- At every moment, whatever was done before and in whichever order: what was pushed is the lines
that were handed out, each with what left the buffer behind it, and then what is still there. A line
that is handed out now holds no line end and has one behind it, or it is the last of a finished
buffer; a carriage return is not parted from a line feed, unless the buffer was finished when the
carriage return was the last of its bytes. If the line in front is over the limit, then it stays
there, and that is all that a look will tell from now on, whatever else is done. -/
theorem conserves_bytes (maxLine : Option Nat) (steps : List Step) :
    let lines := (start maxLine).run steps
    let ledger := (start maxLine).ledger steps
    let next := lines.nextLine.2
    pushed steps = written ledger ++ lines.bytes ∧
      ledger.map Taken.line = ((start maxLine).answers steps).filterMap Scan.line? ∧
      (∀ taken, lines.takes .next = some taken →
        Plain taken.line ∧
        ((∃ ending : LineEnd, taken.ending = ending.bytes) ∨
          taken.ending = [] ∧ .finish ∈ steps ∧ next.bytes = []) ∧
        ∀ after behind, taken.ending = [carriageReturn] →
          pushed (steps ++ .next :: after) = written (ledger ++ [taken]) ++ lineFeed :: behind →
            .finish ∈ steps ∧ lines.bytes = taken.line ++ [carriageReturn]) ∧
      ∀ limit, lines.nextLine.1 = .tooLong limit →
        next.bytes = lines.bytes ∧
        ∀ after, (∀ scan ∈ next.answers after, scan = .tooLong limit) ∧
          (next.run after).bytes = lines.bytes ++ pushed after := by
  intro lines ledger next
  have fresh : (start maxLine).Scanned := scanned_fresh _ _ _
  have keeps := run_keeps fresh steps
  have whole : pushed steps = written ledger ++ lines.bytes := keeps.bytes
  have finishes (past : lines.finished = true) : .finish ∈ steps := by
    rw [keeps.finished] at past
    simpa [start] using past
  refine ⟨whole, ledger_lines _ _, ?_, ?_⟩
  · rintro ⟨line, ending⟩ found
    obtain ⟨plain, parts⟩ := takes_next keeps.scanned found
    refine ⟨plain, ?_, ?_⟩
    · cases parts with
      | ended ending => exact .inl ⟨ending, rfl⟩
      | last _ empty past => exact .inr ⟨rfl, finishes past, empty⟩
    · rintro after behind rfl split
      have follows : next.bytes ++ pushed after = lineFeed :: behind := by
        have later : pushed (.next :: after) = pushed after := rfl
        have now : written [⟨line, [carriageReturn]⟩] = line ++ [carriageReturn] := by
          simp [written, Taken.bytes]
        rw [pushed_append, later, whole, parts.bytes, written_append, now] at split
        simpa using split
      obtain ⟨past, alone⟩ := parts.alone follows
      exact ⟨finishes past, alone⟩
  · intro limit told
    have overlong := (nextLine_tooLong_iff keeps.scanned).mp told
    have bytes : next.bytes = lines.bytes :=
      nextLine_tooLong_bytes keeps.scanned (Prod.ext told rfl)
    obtain ⟨still, settings, -⟩ := nextLine_scanned keeps.scanned
    have kept : Overlong limit next :=
      overlong.append settings (bytes.trans (List.append_nil _).symm)
    refine ⟨bytes, fun after => ?_⟩
    rw [← bytes]
    exact kept.run still after

end LineBuffer

end EventStream
