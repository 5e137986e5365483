import EventStream.Proofs.Decided
import EventStream.Proofs.Replay

/-!
The retry interval that a stream leaves behind. It is the value of the last valid retry field among
the lines that the decoder got past, whether or not a record around it was dispatched, and no line
behind an error counts.
-/

namespace EventStream

open LineBuffer

namespace OnePass

def retryValue? (line : Bytes) : Option Nat :=
  let (name, value) := nameValue line
  if name = Bytes.ofText "retry" then millis? value else none

def interval (retry : Duration) (lines : List Bytes) : Duration :=
  (lines.filterMap retryValue?).getLast?.elim retry .ofMillis

/-- A line that is no error: it is within the limit, and a value that means something is UTF-8. -/
def legible (maxLine : Option Nat) (line : Bytes) : Bool :=
  (maxLine.filter (· < line.length)).isNone && (Line.parse line).isOk

/-- The lines before the first error. Of a stream that is not over only those count whose end is
certain. -/
def passed (maxLine : Option Nat) (final : Bool) (bytes : Bytes) : List Bytes :=
  (if final then bytes.lines else bytes.decided.1).takeWhile (legible maxLine)

theorem retryValue?_le {line : Bytes} {millis : Nat} (valid : retryValue? line = some millis) :
    millis ≤ counterMax := by
  unfold retryValue? at valid
  dsimp only at valid
  split at valid
  next =>
    unfold millis? at valid
    dsimp only at valid
    split at valid
    next sound => cases valid; exact sound.2.2
    next => cases valid
  next => cases valid

theorem interval_cons (retry : Duration) (line : Bytes) (rest : List Bytes) :
    interval retry (line :: rest) =
      interval ((retryValue? line).elim retry .ofMillis) rest := by
  unfold interval
  cases value : retryValue? line with
  | none => rw [List.filterMap_cons_none value]; rfl
  | some millis =>
    rw [List.filterMap_cons_some value, List.getLast?_cons]
    cases (rest.filterMap retryValue?).getLast? <;> rfl

theorem ofName?_retry {name : Bytes} :
    Field.ofName? name = some .retry ↔ name = Bytes.ofText "retry" := by
  refine ⟨?_, ?_⟩
  · intro found
    unfold Field.ofName? at found
    split at found
    next => cases found
    next =>
      split at found
      next => cases found
      next =>
        split at found
        next => cases found
        next =>
          split at found
          next same => exact same
          next => cases found
  · rintro rfl
    decide

theorem parse_retry {line : Bytes} :
    retryValue? line = if Field.ofName? (Line.nameValue line).1 = some .retry then
      Record.retryMillis? (Line.nameValue line).2 else none := by
  simp only [ofName?_retry, nameValue_eq, retryMillis?_eq]
  rfl

theorem read_retry {line : Bytes} {parsed : Line} (parses : Line.parse line = .ok parsed)
    (record : Record) :
    (record.read parsed).2.retry = (retryValue? line).elim record.retry .ofMillis := by
  rw [parse_retry]
  unfold Line.parse at parses
  split at parses
  next empty =>
    cases parses
    rw [List.isEmpty_iff.mp empty, if_neg (by decide)]
    rfl
  next =>
    dsimp only at parses
    split at parses
    next unknown =>
      cases parses
      rw [if_neg (by simp [unknown])]
      rfl
    next field known =>
      split at parses
      next => cases parses
      next =>
        cases parses
        rw [known, Record.read]
        cases field with
        | retry =>
          rw [if_pos rfl, Record.apply]
          cases Record.retryMillis? (Line.nameValue line).2 <;> rfl
        | id =>
          rw [if_neg (by simp), Record.apply]
          split <;> rfl
        | event => rfl
        | data => rfl

end OnePass

def Poll.isOver : Poll → Bool
  | .ended => true
  | .failed _ => true
  | _ => false

def Feed.unbroken (arrivals : List Arrival) : Bool :=
  arrivals.all fun
    | .chunk _ => true
    | .failure _ => false

section Lines

variable {lines next : LineBuffer} {final : Bool} {rest : Bytes}

def LineBuffer.Awaits (lines : LineBuffer) (final : Bool) (rest : Bytes) : Prop :=
  lines.finished = true → rest = [] ∧ final = true

theorem nextLine_passed {content : Bytes} (scanned : lines.Scanned)
    (found : lines.nextLine = (.line content, next)) (awaits : lines.Awaits final rest) :
    OnePass.passed lines.maxLine final (lines.bytes ++ rest) =
      if (Line.parse content).isOk then
        content :: OnePass.passed next.maxLine final (next.bytes ++ rest)
      else [] := by
  have first := nextLine_line scanned found fun past => (awaits past).1
  have whole : (if final then (lines.bytes ++ rest).lines else (lines.bytes ++ rest).decided.1) =
      content :: if final then (next.bytes ++ rest).lines else (next.bytes ++ rest).decided.1 := by
    cases final with
    | true => exact first.2
    | false =>
      have unfinished : lines.finished = false :=
        Bool.eq_false_iff.mpr fun past => Bool.false_ne_true (awaits past).2
      simp only [Bool.false_eq_true, if_false, nextLine_decided scanned unfinished found rest]
  have fits : (lines.maxLine.filter (· < content.length)).isNone = true := by
    rw [filter_exceeded first.1]
    rfl
  rw [OnePass.passed, whole, List.takeWhile_cons, OnePass.legible, fits, Bool.true_and,
    (nextLine_follows scanned found).maxLine]
  rfl

theorem tooLong_passed {limit : Nat} (scanned : lines.Scanned)
    (found : lines.nextLine = (.tooLong limit, next)) (awaits : lines.Awaits final rest) :
    OnePass.passed lines.maxLine final (lines.bytes ++ rest) = [] := by
  have illegible {line : Bytes} (most : lines.maxLine = some limit) (longer : limit < line.length) :
      OnePass.legible lines.maxLine line = false := by
    simp [OnePass.legible, most, Option.filter, longer]
  cases final with
  | true =>
    obtain ⟨most, line, others, first, longer⟩ :=
      nextLine_tooLong scanned found fun past => (awaits past).1
    rw [OnePass.passed, if_pos rfl, first, List.takeWhile_cons, illegible most longer]
    rfl
  | false =>
    have unfinished : lines.finished = false :=
      Bool.eq_false_iff.mpr fun past => Bool.false_ne_true (awaits past).2
    obtain ⟨most, ⟨line, others, first, longer⟩ | ⟨none, -⟩⟩ :=
      nextLine_overlong scanned unfinished found rest
    · rw [OnePass.passed, if_neg nofun, first, List.takeWhile_cons, illegible most longer]
      rfl
    · rw [OnePass.passed, if_neg nofun, none]
      rfl

theorem line_interval {content : Bytes} {line : Line} (scanned : lines.Scanned)
    (found : lines.nextLine = (.line content, next)) (parsed : Line.parse content = .ok line)
    (awaits : lines.Awaits final rest) (record : Record) :
    OnePass.interval (record.read line).2.retry
        (OnePass.passed next.maxLine final (next.bytes ++ rest)) =
      OnePass.interval record.retry (OnePass.passed lines.maxLine final (lines.bytes ++ rest)) := by
  rw [nextLine_passed scanned found awaits, parsed, OnePass.read_retry parsed]
  exact (OnePass.interval_cons _ _ _).symm

/-- What reading a buffer does to the interval that is in force in the end: an error settles it. -/
def Settles (final : Bool) (lines : LineBuffer) (record : Record) (rest : Bytes) :
    Reading × LineBuffer × Record → Prop
  | (.failed _, _, after) =>
    after.retry =
      OnePass.interval record.retry (OnePass.passed lines.maxLine final (lines.bytes ++ rest))
  | (_, next, after) =>
    OnePass.interval after.retry (OnePass.passed next.maxLine final (next.bytes ++ rest)) =
      OnePass.interval record.retry (OnePass.passed lines.maxLine final (lines.bytes ++ rest))

theorem readLines_settles (scanned : lines.Scanned) (record : Record)
    (awaits : lines.Awaits final rest) :
    Settles final lines record rest (readLines lines record) := by
  fun_induction readLines lines record with
  | case1 lines record limit next taken =>
    rw [Settles, tooLong_passed scanned taken awaits]
    rfl
  | case2 lines record next taken =>
    simp only [Settles, (nextLine_more scanned taken).1, (nextLine_follows scanned taken).maxLine]
  | case3 lines record content next taken fault parsed =>
    rw [Settles, nextLine_passed scanned taken awaits, parsed]
    rfl
  | case4 lines record content next taken line parsed event after read =>
    have first := line_interval scanned taken parsed awaits record
    rwa [read] at first
  | case5 lines record content next taken line parsed after read ih =>
    have follows := nextLine_follows scanned taken
    have later := ih follows.scanned fun past => awaits (follows.finished.symm.trans past)
    have first := line_interval scanned taken parsed awaits record
    rw [read] at first
    unfold Settles at later ⊢
    rwa [first] at later

theorem readLines_undecided {record after : Record} (scanned : lines.Scanned)
    (unfinished : lines.finished = false)
    (found : readLines lines record = (.exhausted, next, after)) :
    next.bytes.decided.1 = [] := by
  fun_induction readLines lines record with
  | case1 => cases found
  | case2 lines record rest taken =>
    cases found
    obtain ⟨same, missed, -⟩ := nextLine_undecided scanned unfinished taken
    rw [same, Bytes.decided_none missed]
  | case3 => cases found
  | case4 => cases found
  | case5 lines record content rest taken line _ after _ ih =>
    have follows := nextLine_follows scanned taken
    exact ih follows.scanned (follows.finished.trans unfinished) found

end Lines

namespace Decoder

/-- The interval that is in force once the stream has come to its end, or was cut off, behind
`rest`. -/
def fate (decoder : Decoder) (final : Bool) (rest : Bytes) : Duration :=
  let bytes := decoder.lines.bytes ++ rest
  match decoder.stage with
  | .failed => decoder.retry
  | .opening =>
    OnePass.interval decoder.retry
      (OnePass.passed decoder.lines.maxLine final (OnePass.unmarked bytes))
  | .reading => OnePass.interval decoder.retry (OnePass.passed decoder.lines.maxLine final bytes)

theorem fate_reading {decoder : Decoder} (reading : decoder.stage = .reading) (final : Bool)
    (rest : Bytes) : decoder.fate final rest = OnePass.interval decoder.retry
      (OnePass.passed decoder.lines.maxLine final (decoder.lines.bytes ++ rest)) := by
  rw [fate, reading]

theorem fate_accept (decoder : Decoder) (chunk : Bytes) (final : Bool) (rest : Bytes) :
    (decoder.accept chunk).fate final rest = decoder.fate final (chunk ++ rest) := by
  unfold Decoder.accept
  dsimp only
  split
  next opening =>
    split
    next marked =>
      have whole := OnePass.marked_unmarked marked rest
      simp only [LineBuffer.push, List.append_assoc] at whole
      simp [fate, opening, LineBuffer.push, LineBuffer.discard, whole]
      rfl
    next unlike =>
      have whole := OnePass.unmarked_of_marked unlike rest
      simp only [LineBuffer.push, List.append_assoc] at whole
      simp [fate, opening, LineBuffer.push, whole]
      rfl
    next => simp [fate, opening, LineBuffer.push]; rfl
  next other =>
    cases stage : decoder.stage with
    | opening => exact absurd stage other
    | reading => simp [fate, stage, LineBuffer.push]; rfl
    | failed => simp [fate, stage, retry]

theorem undecided_opening {bytes : Bytes} (undecided : marked? bytes = none) :
    (OnePass.unmarked bytes).decided.1 = [] := by
  have missed := cutLine_plain false (OnePass.plain_undecided undecided) []
  rw [List.append_nil] at missed
  rw [OnePass.unmarked_of_open undecided, Bytes.decided_none missed]

theorem fate_finish {decoder : Decoder} (sound : decoder.Sound)
    (working : decoder.stage ≠ .failed) :
    decoder.finish.fate true [] = decoder.fate true [] := by
  cases stage : decoder.stage with
  | opening =>
    have whole := OnePass.unmarked_of_open (sound.undecided stage)
    simp [fate, stage, Decoder.finish, LineBuffer.finish, whole]
    rfl
  | reading => simp [fate, stage, Decoder.finish, LineBuffer.finish]; rfl
  | failed => exact absurd stage working

section Answer

variable {decoder next : Decoder} (sound : decoder.Sound)
include sound

theorem idle_fate (idles : decoder.answer = (none, next)) (final : Bool) (rest : Bytes) :
    next.fate final rest = decoder.fate final rest := by
  unfold answer at idles
  split at idles
  next => cases idles
  next => cases idles; rfl
  next reading =>
    split at idles
    next => cases idles
    next => cases idles
    next lines record read =>
      have follows := readLines_follows sound.scanned read
      simp only [Prod.mk.injEq, ite_eq_right_iff, reduceCtorEq, imp_false,
        Bool.not_eq_true] at idles
      obtain ⟨unfinished, same⟩ := idles
      have still : next.stage = .reading := by rw [← same, reading]
      have awaits : decoder.lines.Awaits final rest := by
        intro past
        cases (follows.finished.trans past).symm.trans unfinished
      have settles := readLines_settles sound.scanned decoder.record awaits
      rw [read] at settles
      rw [fate_reading still, fate_reading reading, ← same]
      exact settles

theorem idle_cut (idles : decoder.answer = (none, next)) : next.fate false [] = next.retry := by
  unfold answer at idles
  split at idles
  next => cases idles
  next opening =>
    cases idles
    have none := undecided_opening (sound.undecided opening)
    simp [fate, opening, OnePass.passed, none, OnePass.interval]
  next reading =>
    split at idles
    next => cases idles
    next => cases idles
    next lines record read =>
      simp only [Prod.mk.injEq, ite_eq_right_iff, reduceCtorEq, imp_false,
        Bool.not_eq_true] at idles
      obtain ⟨unfinished, same⟩ := idles
      have still : next.stage = .reading := by rw [← same, reading]
      have follows := readLines_follows sound.scanned read
      have none := readLines_undecided sound.scanned (follows.finished.symm.trans unfinished) read
      rw [fate_reading still, ← same, List.append_nil, OnePass.passed, if_neg nofun, none]
      rfl

/-- An error and the end settle the interval, and an event leaves it to the lines behind. -/
theorem answer_fate {poll : Poll} (working : decoder.stage ≠ .failed)
    (found : decoder.answer = (some poll, next)) {final : Bool} {rest : Bytes}
    (awaits : decoder.lines.Awaits final rest) :
    (poll.isOver = true → next.retry = decoder.fate final rest) ∧
      (poll.isOver = false → next.stage = .reading ∧
        next.fate final rest = decoder.fate final rest) := by
  unfold answer at found
  split at found
  next failed => exact absurd failed working
  next => cases found
  next reading =>
    have settles := readLines_settles sound.scanned decoder.record awaits
    rw [fate_reading reading]
    split at found
    next event lines record read =>
      cases found
      rw [read] at settles
      refine ⟨nofun, fun _ => ⟨reading, ?_⟩⟩
      rw [fate, show ({ decoder with lines, record, lastEventId := event.id } : Decoder).stage =
        .reading from reading]
      exact settles
    next error lines record read =>
      cases found
      rw [read] at settles
      exact ⟨fun _ => settles, nofun⟩
    next lines record read =>
      have follows := readLines_follows sound.scanned read
      split at found
      next finished =>
        cases found
        have past : decoder.lines.finished = true := follows.finished.symm.trans finished
        refine ⟨fun _ => ?_, nofun⟩
        rw [read] at settles
        refine Eq.trans ?_ settles
        rw [(awaits past).1, (awaits past).2, readLines_exhausted sound.scanned read past]
        rfl
      next => cases found

end Answer

theorem accept_working {decoder : Decoder} (working : decoder.stage ≠ .failed) (chunk : Bytes) :
    (decoder.accept chunk).stage ≠ .failed ∧
      (decoder.accept chunk).lines.finished = decoder.lines.finished := by
  unfold Decoder.accept
  dsimp only
  split
  next opening => split <;> simp [opening, LineBuffer.discard, LineBuffer.push]
  next => exact ⟨working, rfl⟩

structure Leaves (ended : Bool) (decoder next : Decoder) (taken : List Arrival) : Prop where
  unbroken : Feed.unbroken taken = true
  working : next.stage ≠ .failed
  known : next.lines.finished = true → ended = true
  fate : ∀ final rest, next.lines.Awaits final rest →
    next.fate final rest = decoder.fate final (Feed.content taken ++ rest)

/-- What a poll does to the interval. It settles it if it is the last one, by the lines of a stream
that ended or of one that was cut off. Otherwise the interval is left to the lines behind. -/
structure Decides (ended : Bool) (decoder : Decoder) (poll : Poll) (next : Decoder)
    (taken : List Arrival) : Prop where
  late : decoder.lines.finished = true → taken = [] ∧ next.lines.finished = true
  settles : poll.isOver = true →
    next.retry = decoder.fate (ended && Feed.unbroken taken) (Feed.content taken)
  leaves : poll.isOver = false → Leaves ended decoder next taken

section Decides

variable {ended : Bool} {decoder idle next : Decoder} {poll : Poll}

theorem decides_answered (sound : decoder.Sound) (working : decoder.stage ≠ .failed)
    (known : decoder.lines.finished = true → ended = true)
    (found : decoder.answer = (some poll, next)) : Decides ended decoder poll next [] := by
  have finished := (answer_gives sound found).finished
  refine ⟨fun past => ⟨rfl, finished.trans past⟩, ?_, fun more => ?_⟩
  · rw [show Feed.unbroken [] = true from rfl, Bool.and_true]
    exact (answer_fate sound working found fun past => ⟨rfl, known past⟩).1
  · refine ⟨rfl, ?_, fun past => known (finished.symm.trans past), ?_⟩
    · have still := ((answer_fate sound working found
        (fun past => ⟨rfl, known past⟩ : decoder.lines.Awaits ended [])).2 more).1
      rw [still]
      nofun
    · intro final rest awaits
      exact ((answer_fate sound working found fun past =>
        awaits (finished.trans past)).2 more).2

section Idle

variable (sound : decoder.Sound) (idles : decoder.answer = (none, idle))
include sound idles

theorem decides_pending : Decides ended decoder .pending idle [] := by
  have kept := answer_idles sound idles
  refine ⟨?_, nofun, fun _ => ⟨rfl, kept.working, ?_, fun final rest _ => ?_⟩⟩
  · intro past
    cases kept.unended.symm.trans past
  · intro past
    cases kept.unfinished.symm.trans past
  · exact idle_fate sound idles final rest

theorem decides_finished (past : ended = true) (found : idle.finish.answer = (some poll, next)) :
    Decides ended decoder poll next [] := by
  have kept := answer_idles sound idles
  have finished := (answer_gives kept.sound.finish found).finished
  have settles := @answer_fate idle.finish next kept.sound.finish poll nofun found true []
    fun _ => ⟨rfl, rfl⟩
  rw [fate_finish kept.sound kept.working, idle_fate sound idles] at settles
  refine ⟨?_, fun final => past ▸ settles.1 final, fun more => ?_⟩
  · intro known
    cases kept.unended.symm.trans known
  · obtain ⟨still, fate⟩ := settles.2 more
    refine ⟨rfl, by rw [still]; nofun, fun _ => past, fun final rest awaits => ?_⟩
    obtain ⟨rfl, rfl⟩ := awaits finished
    exact fate

/-- A failure of the transport cuts the stream off, whether it has an end or not. -/
theorem decides_broken (message : String) :
    Decides ended decoder (.failed (.transport message)) idle.fail [.failure message] := by
  refine ⟨?_, fun _ => ?_, nofun⟩
  · intro past
    cases (answer_idles sound idles).unended.symm.trans past
  · rw [show Feed.unbroken [.failure message] = false from rfl, Bool.and_false]
    exact (idle_cut sound idles).symm.trans (idle_fate sound idles false [])

theorem decides_chunk {bytes : Bytes} {taken : List Arrival}
    (decides : Decides ended (idle.accept bytes) poll next taken) :
    Decides ended decoder poll next (.chunk bytes :: taken) := by
  have moves (final : Bool) (rest : Bytes) :
      (idle.accept bytes).fate final rest = decoder.fate final (bytes ++ rest) := by
    rw [fate_accept, idle_fate sound idles]
  refine ⟨?_, ?_, ?_⟩
  · intro past
    cases (answer_idles sound idles).unended.symm.trans past
  · intro final
    rw [decides.settles final, moves]
    rfl
  · intro more
    obtain ⟨chunks, working, known, fate⟩ := decides.leaves more
    refine ⟨chunks, working, known, fun final rest awaits => ?_⟩
    rw [fate final rest awaits, moves, Feed.content, List.append_assoc]

end Idle

end Decides

theorem Polls.decides {ended : Bool} {decoder next : Decoder} {queue left : List Arrival}
    {poll : Poll} (polls : Polls ended decoder queue poll next left) (sound : decoder.Sound)
    (working : decoder.stage ≠ .failed) (known : decoder.lines.finished = true → ended = true) :
    ∃ taken, queue = taken ++ left ∧ Decides ended decoder poll next taken := by
  induction polls with
  | answered found => exact ⟨[], rfl, decides_answered sound working known found⟩
  | pending idles => exact ⟨[], rfl, decides_pending sound idles⟩
  | finished idles past found => exact ⟨[], rfl, decides_finished sound idles past found⟩
  | @broken _ _ message _ idles => exact ⟨[.failure message], rfl, decides_broken sound idles message⟩
  | @chunk _ idle _ bytes _ _ _ idles _ ih =>
    have kept := answer_idles sound idles
    obtain ⟨works, finished⟩ := accept_working kept.working bytes
    obtain ⟨taken, same, decides⟩ := ih (kept.sound.accept bytes) works
      fun past => by cases (finished.symm.trans past).symm.trans kept.unfinished
    exact ⟨.chunk bytes :: taken, congrArg _ same, decides_chunk sound idles decides⟩

end Decoder

theorem Feed.content_append {first : List Arrival} (unbroken : Feed.unbroken first = true)
    (second : List Arrival) :
    Feed.content (first ++ second) = Feed.content first ++ Feed.content second := by
  induction first with
  | nil => rfl
  | cons arrival rest ih =>
    cases arrival with
    | chunk bytes => rw [List.cons_append, content, content, ih unbroken, List.append_assoc]
    | failure message => cases unbroken

theorem Body.arrivals_append (first second : List Step) :
    arrivals (first ++ second) = arrivals first ++ arrivals second := by
  induction first with
  | nil => rfl
  | cons step rest ih => cases step <;> simp [arrivals, ih]

namespace Stream

def arrivals (stream : Stream) : List Arrival :=
  stream.opened.feed.queued ++ Body.arrivals stream.steps

def seen (stream : Stream) : List Arrival :=
  stream.arrivals.take (stream.arrivals.length - stream.body.feed.queued.length)

/-- The lines that the decoder got past, once it is done with the stream: all up to the first error
that were complete when the stream ended or was cut off. -/
def passed (stream : Stream) : List Bytes :=
  OnePass.passed stream.opened.decoder.lines.maxLine
    (stream.body.feed.ended && Feed.unbroken stream.seen)
    (OnePass.unmarked (Feed.content stream.seen))

/-- The decoder of a stream that goes on: from what it holds and what follows it will make the
interval that its first decoder makes of everything. -/
structure GoesOn (stream : Stream) : Prop where
  sound : stream.body.decoder.Sound
  working : stream.body.decoder.stage ≠ .failed
  known : stream.body.decoder.lines.finished = true → stream.body.feed.ended = true
  whole : stream.arrivals = stream.seen ++ stream.body.feed.queued
  unbroken : Feed.unbroken stream.seen = true
  fate : ∀ final rest, stream.body.decoder.lines.Awaits final rest →
    stream.body.decoder.fate final rest =
      stream.opened.decoder.fate final (Feed.content stream.seen ++ rest)

theorem seen_eq {stream : Stream} {taken : List Arrival}
    (whole : stream.arrivals = taken ++ stream.body.feed.queued) : stream.seen = taken := by
  rw [seen, whole, List.length_append, Nat.add_sub_cancel_right, List.take_left]

theorem goesOn_opened {body : Body} (sound : body.decoder.Sound)
    (working : body.decoder.stage ≠ .failed) (unfinished : body.decoder.lines.finished = false) :
    (Stream.mk body []).GoesOn := by
  have whole : (Stream.mk body []).arrivals = [] ++ body.feed.queued := List.append_nil _
  have none : (Stream.mk body []).seen = [] := seen_eq whole
  refine ⟨sound, working, ?_, none ▸ whole, by rw [none]; rfl, fun _ _ _ => by rw [none]; rfl⟩
  intro past
  cases past.symm.trans unfinished

section Extend

variable {stream : Stream} (goes : stream.GoesOn)
include goes

theorem GoesOn.other {step : Body.Step} (other : step ≠ .poll) : (stream.extend [step]).GoesOn := by
  have body : (stream.extend [step]).body = stream.body.step step := stream.body_extend [step]
  have decoder : (stream.extend [step]).body.decoder = stream.body.decoder := by
    rw [body]
    cases step with
    | poll => exact absurd rfl other
    | _ => rfl
  have whole : (stream.extend [step]).arrivals =
      stream.seen ++ (stream.extend [step]).body.feed.queued := by
    rw [body, arrivals, extend, Body.arrivals_append, ← List.append_assoc]
    refine (congrArg (· ++ Body.arrivals [step]) goes.whole).trans ?_
    cases step with
    | poll => exact absurd rfl other
    | arrive arrival => exact List.append_assoc _ _ _
    | finish => exact List.append_nil _
  have same : (stream.extend [step]).seen = stream.seen := seen_eq whole
  refine ⟨decoder ▸ goes.sound, decoder ▸ goes.working, ?_, same ▸ whole, same ▸ goes.unbroken, ?_⟩
  · rw [decoder, body]
    intro past
    have ended := goes.known past
    cases step with
    | poll => exact absurd rfl other
    | arrive arrival => exact ended
    | finish => rfl
  · rw [decoder, same]
    exact goes.fate

/-- A poll that gives nothing or an event leaves a stream that goes on. Any other settles the
interval, and nothing counts for it but the lines that the decoder got past. -/
theorem GoesOn.poll :
    (stream.body.polled.1.isOver = false → (stream.extend [.poll]).GoesOn) ∧
      (stream.body.polled.1.isOver = true → (stream.extend [.poll]).body.decoder.retry =
        stream.opened.decoder.fate
          ((stream.extend [.poll]).body.feed.ended && Feed.unbroken (stream.extend [.poll]).seen)
          (Feed.content (stream.extend [.poll]).seen)) := by
  have body : (stream.extend [.poll]).body = stream.body.polled.2 := stream.body_extend [.poll]
  cases found : stream.body.decoder.poll stream.body.feed with
  | mk poll state =>
    obtain ⟨next, left⟩ := state
    have polled : stream.body.polled = (poll, ⟨next, left⟩) := by rw [Body.polled, found]
    obtain ⟨polls, ended⟩ := Decoder.poll_polls goes.sound found
    obtain ⟨taken, queue, late, settled, moved⟩ := polls.decides goes.sound goes.working goes.known
    rw [polled] at body ⊢
    have whole : (stream.extend [.poll]).arrivals =
        (stream.seen ++ taken) ++ (stream.extend [.poll]).body.feed.queued := by
      rw [body, arrivals, extend, Body.arrivals_append, List.append_assoc, ← queue, ← goes.whole,
        ← List.append_assoc]
      exact List.append_nil _
    have same : (stream.extend [.poll]).seen = stream.seen ++ taken := seen_eq whole
    have content := Feed.content_append goes.unbroken taken
    have chunks : Feed.unbroken (stream.seen ++ taken) = Feed.unbroken taken := by
      rw [Feed.unbroken, List.all_append]
      exact (congrArg (· && _) goes.unbroken).trans (Bool.true_and _)
    refine ⟨?_, ?_⟩
    · intro more
      obtain ⟨unbroken, working, known, fate⟩ := moved more
      refine ⟨body ▸ polls.sound goes.sound, body ▸ working, ?_, same ▸ whole, ?_, ?_⟩
      · rw [body]
        exact fun past => ended.trans (known past)
      · rw [same, chunks]
        exact unbroken
      · rw [body, same, content]
        intro final rest awaits
        have before : stream.body.decoder.lines.Awaits final (Feed.content taken ++ rest) := by
          intro past
          obtain ⟨none, finished⟩ := late past
          rw [none]
          exact awaits finished
        rw [fate final rest awaits, goes.fate final _ before, List.append_assoc]
        rfl
    · intro final
      rw [same, content, chunks, body, ended]
      refine (settled final).trans (goes.fate _ _ ?_)
      intro past
      rw [(late past).1, goes.known past]
      exact ⟨rfl, rfl⟩

end Extend

theorem GoesOn.settles {stream : Stream} (goes : stream.GoesOn) {maxLine : Option Nat}
    {resumeId : Bytes} {retry : Duration}
    (started : stream.opened.decoder = .start maxLine resumeId retry)
    (final : stream.body.polled.1.isOver = true) :
    (stream.extend [.poll]).body.decoder.retry =
      OnePass.interval retry (stream.extend [.poll]).passed := by
  rw [goes.poll.2 final, passed, show (stream.extend [.poll]).opened = stream.opened from rfl,
    started]
  rfl

end Stream

end EventStream
