import EventStream.Proofs.Encoding
import EventStream.Proofs.Foretelling

/-!
The retry interval in machine words. A stream gives it as decimal text, a decoder keeps it as
seconds and nanoseconds, the source as a count of milliseconds, and from there it goes on into the
next decoder. Each of these words has its own range, and none of the conversions between them loses
anything: what the words come to is what the numbers say.
-/

namespace EventStream

open Bytes

/-- A length of time in two words: whole seconds, and the nanoseconds beyond them. -/
structure Span where
  seconds : UInt64
  nanos : UInt32
  below : nanos.toNat < 1000000000

namespace Span

def duration (span : Span) : Duration := ⟨span.seconds.toNat * 1000000000 + span.nanos.toNat⟩

theorem nanos_toNat (millis : UInt64) :
    ((millis % 1000).toUInt32 * 1000000).toNat = millis.toNat % 1000 * 1000000 := by
  have part : (millis % 1000).toNat = millis.toNat % 1000 := UInt64.toNat_mod _ _
  have kept : (millis % 1000).toUInt32.toNat = millis.toNat % 1000 := by
    rw [UInt64.toNat_toUInt32, part]
    omega
  have factor : (1000000 : UInt32).toNat = 1000000 := rfl
  rw [UInt32.toNat_mul, kept, factor]
  omega

def ofMillis (millis : UInt64) : Span where
  seconds := millis / 1000
  nanos := (millis % 1000).toUInt32 * 1000000
  below := by
    rw [nanos_toNat]
    omega

def millis (span : Span) : BitVec 128 :=
  span.seconds.toBitVec.setWidth 128 * 1000#128 + (span.nanos / 1000000).toBitVec.setWidth 128

/-- The whole milliseconds as 64 bits; what does not fit becomes the largest count. -/
def counted (span : Span) : UInt64 :=
  if span.millis ≤ 0xFFFFFFFFFFFFFFFF#128 then ⟨span.millis.setWidth 64⟩ else 0xFFFFFFFFFFFFFFFF

theorem duration_ofMillis (millis : UInt64) :
    (ofMillis millis).duration = .ofMillis millis.toNat := by
  have seconds : (millis / 1000).toNat = millis.toNat / 1000 := UInt64.toNat_div _ _
  rw [duration, ofMillis, nanos_toNat, seconds, Duration.ofMillis, Duration.nanosPerMilli,
    Duration.mk.injEq]
  omega

theorem millis_duration (span : Span) :
    span.duration.millis = span.seconds.toNat * 1000 + span.nanos.toNat / 1000000 := by
  show (span.seconds.toNat * 1000000000 + span.nanos.toNat) / 1000000 = _
  omega

theorem millis_toNat (span : Span) : span.millis.toNat = span.duration.millis := by
  have seconds := span.seconds.toNat_lt
  have below := span.below
  have nanos : (span.nanos / 1000000).toNat = span.nanos.toNat / 1000000 := UInt32.toNat_div _ _
  have product : (span.seconds.toBitVec.setWidth 128 * 1000#128).toNat =
      span.seconds.toNat * 1000 := by
    rw [BitVec.toNat_mul, BitVec.toNat_setWidth, UInt64.toNat_toBitVec, BitVec.toNat_ofNat]
    omega
  rw [millis, BitVec.toNat_add, product, BitVec.toNat_setWidth, UInt32.toNat_toBitVec, nanos,
    millis_duration]
  omega

theorem counted_toNat (span : Span) : span.counted.toNat = span.duration.counted := by
  rw [Duration.counted, counted, ← millis_toNat, counterMax]
  split
  next fits =>
    rw [BitVec.le_def, BitVec.toNat_ofNat] at fits
    show (span.millis.setWidth 64).toNat = _
    rw [BitVec.toNat_setWidth]
    omega
  next wide =>
    rw [BitVec.le_def, BitVec.toNat_ofNat] at wide
    show 0xFFFFFFFFFFFFFFFF = _
    omega

theorem counted_ofMillis (millis : UInt64) : (ofMillis millis).counted = millis := by
  apply UInt64.toNat_inj.mp
  rw [counted_toNat, duration_ofMillis]
  exact EventStream.counted_ofMillis (Nat.le_of_lt_succ millis.toNat_lt)

end Span

namespace Digits

def number? (text : String) : Option Nat :=
  let number := Nat.ofDigits 10 (text.toList.reverse.map fun c => c.toNat - '0'.toNat)
  if text ≠ "" ∧ text.toList.all Char.isDigit = true ∧ number < 2 ^ 64 then some number else none

/-- Take in one more digit. The product is checked for an overflow, and then the sum. -/
def push? (count : UInt64) (digit : UInt8) : Option UInt64 :=
  let unit := (digit - 0x30).toUInt64
  if count.toBitVec.umulOverflow 10#64 then none
  else if (count * 10).toBitVec.uaddOverflow unit.toBitVec then none
  else some (count * 10 + unit)

def count? (value : Bytes) : Option UInt64 :=
  if value.isEmpty || !value.all isDigit then none else value.foldlM push? 0

def within? (number : Nat) : Option Nat := if number ≤ counterMax then some number else none

theorem isDigit_octet (octet : UInt8) :
    isDigit octet = true ↔ 0x30 ≤ octet.toNat ∧ octet.toNat ≤ 0x39 := by
  rw [isDigit, Bool.and_eq_true, decide_eq_true_eq, decide_eq_true_eq]
  exact and_congr UInt8.le_iff_toNat_le UInt8.le_iff_toNat_le

theorem push?_eq (count : UInt64) {digit : UInt8} (decimal : isDigit digit = true) :
    (push? count digit).map UInt64.toNat =
      within? (10 * count.toNat + (digit.toNat - 0x30)) := by
  have least : 0x30 ≤ digit := UInt8.le_iff_toNat_le.mpr ((isDigit_octet digit).mp decimal).1
  have unit : (digit - 0x30).toUInt64.toNat = digit.toNat - 0x30 := by
    rw [UInt8.toNat_toUInt64, UInt8.toNat_sub_of_le _ _ least]
    rfl
  have ten : (10#64).toNat = 10 := rfl
  unfold push? within? BitVec.umulOverflow BitVec.uaddOverflow counterMax
  simp only [UInt64.toNat_toBitVec, ten, ge_iff_le, decide_eq_true_eq, unit]
  by_cases large : 2 ^ 64 ≤ count.toNat * 10
  · rw [if_pos large, if_neg (by omega)]
    rfl
  · have product : (count * 10).toNat = count.toNat * 10 := by
      rw [UInt64.toNat_mul]
      exact Nat.mod_eq_of_lt (by simpa using large)
    rw [if_neg large, product]
    by_cases wide : 2 ^ 64 ≤ count.toNat * 10 + (digit.toNat - 0x30)
    · rw [if_pos wide, if_neg (by omega)]
      rfl
    · rw [if_neg wide, if_pos (by omega), Option.map_some, UInt64.toNat_add, product, unit,
        Nat.mod_eq_of_lt (Nat.lt_of_not_le wide), Nat.mul_comm]

theorem foldl_le (digits : Bytes) (number : Nat) :
    number ≤ digits.foldl (fun value digit => 10 * value + (digit.toNat - 0x30)) number := by
  induction digits generalizing number with
  | nil => exact Nat.le_refl _
  | cons digit rest ih =>
    calc number ≤ 10 * number + (digit.toNat - 0x30) := by omega
      _ ≤ _ := ih _

/-- The loop stops just when the number does not fit, for a front that is too large already makes
the whole too large. -/
theorem foldlM_push (digits : Bytes) (all : ∀ digit ∈ digits, isDigit digit = true)
    (count : UInt64) :
    (digits.foldlM push? count).map UInt64.toNat = within?
      (digits.foldl (fun value digit => 10 * value + (digit.toNat - 0x30)) count.toNat) := by
  induction digits generalizing count with
  | nil =>
    have fits : count.toNat ≤ counterMax := Nat.le_of_lt_succ count.toNat_lt
    rw [List.foldlM_nil, List.foldl_nil, within?, if_pos fits]
    rfl
  | cons digit rest ih =>
    rw [List.forall_mem_cons] at all
    have first := push?_eq count all.1
    rw [List.foldlM_cons, List.foldl_cons]
    cases pushed : push? count digit with
    | none =>
      rw [pushed, within?] at first
      split at first
      next => cases first
      next wide =>
        have later := foldl_le rest (10 * count.toNat + (digit.toNat - 0x30))
        rw [within?, if_neg (by omega)]
        rfl
    | some next =>
      rw [pushed, within?] at first
      split at first
      next =>
        have same : next.toNat = 10 * count.toNat + (digit.toNat - 0x30) := Option.some_inj.mp first
        rw [← same]
        exact ih all.2 next
      next => cases first

theorem count?_eq (value : Bytes) :
    (count? value).map UInt64.toNat = Record.retryMillis? value := by
  unfold count? Record.retryMillis?
  split
  next => rfl
  next sound =>
    simp only [Bool.or_eq_true, Bool.not_eq_true', not_or, Bool.not_eq_false] at sound
    exact foldlM_push value (List.all_eq_true.mp sound.2) 0

/-! The digits of a text are single octets, and nothing else has such octets. -/

theorem isDigit_char (c : Char) : c.isDigit = true ↔ 0x30 ≤ c.toNat ∧ c.toNat ≤ 0x39 := by
  rw [Char.isDigit, Bool.and_eq_true, decide_eq_true_eq, decide_eq_true_eq]
  exact and_congr UInt32.le_iff_toNat_le UInt32.le_iff_toNat_le

theorem encoded_digit {c : Char} (digit : c.isDigit = true) :
    String.utf8EncodeChar c = [UInt8.ofNat c.toNat] := by
  obtain ⟨-, most⟩ := (isDigit_char c).mp digit
  have one : c.val.toNat ≤ 127 := Nat.le_trans most (by decide)
  rw [String.utf8EncodeChar, if_pos one]
  rfl

theorem toNat_digit {c : Char} (digit : c.isDigit = true) :
    (UInt8.ofNat c.toNat).toNat = c.toNat := by
  obtain ⟨-, most⟩ := (isDigit_char c).mp digit
  exact Utf8.toNat_octet (by omega)

/-- A character that takes more than one octet leads with one that is no digit. -/
theorem all_digits (c : Char) : (String.utf8EncodeChar c).all isDigit = c.isDigit := by
  rw [Bool.eq_iff_iff, isDigit_char, String.utf8EncodeChar]
  have same : c.val.toNat = c.toNat := rfl
  rw [same]
  generalize c.toNat = number
  split_ifs with one two three
  · rw [List.all_cons, List.all_nil, Bool.and_true, isDigit_octet, Utf8.toNat_octet (by omega)]
  all_goals
    rw [List.all_cons, Bool.and_eq_true, isDigit_octet, Utf8.toNat_octet (by omega)]
    omega

theorem digits_ofText (text : String) :
    (ofText text).all isDigit = text.toList.all Char.isDigit := by
  rw [ofText_toList, List.all_flatMap]
  congr 1
  exact funext all_digits

theorem values_ofText {text : String} (digits : ∀ c ∈ text.toList, c.isDigit = true) :
    (ofText text).map (fun digit => digit.toNat - 0x30) =
      text.toList.map fun c => c.toNat - '0'.toNat := by
  have single (c : Char) (inside : c ∈ text.toList) :
      (String.utf8EncodeChar c).map (fun digit => digit.toNat - 0x30) = [c.toNat - '0'.toNat] := by
    rw [encoded_digit (digits c inside), List.map_singleton, toNat_digit (digits c inside)]
    rfl
  rw [ofText_toList, List.map_flatMap]
  calc text.toList.flatMap (fun c => (String.utf8EncodeChar c).map fun digit => digit.toNat - 0x30)
      = text.toList.flatMap fun c => [c.toNat - '0'.toNat] := List.flatMap_congr single
    _ = text.toList.map fun c => c.toNat - '0'.toNat := List.map_eq_flatMap.symm

theorem ofText_eq_nil {text : String} : ofText text = [] ↔ text = "" := by
  constructor
  · intro empty
    exact ofText_inj (empty.trans (by rfl))
  · rintro rfl
    rfl

theorem number?_eq (text : String) : Record.retryMillis? (ofText text) = number? text := by
  have all : (ofText text).all isDigit = true ↔ text.toList.all Char.isDigit = true := by
    rw [digits_ofText]
  rw [OnePass.retryMillis?_eq, OnePass.millis?, number?]
  by_cases digits : text.toList.all Char.isDigit = true
  · have same : Nat.ofDigits 10 ((ofText text).reverse.map fun digit => digit.toNat - 0x30) =
        Nat.ofDigits 10 (text.toList.reverse.map fun c => c.toNat - '0'.toNat) := by
      rw [List.map_reverse, values_ofText (List.all_eq_true.mp digits), List.map_reverse]
    simp only [same]
    apply if_congr _ rfl rfl
    exact and_congr (not_congr ofText_eq_nil) (and_congr all Nat.lt_succ_iff.symm)
  · rw [if_neg fun sound => digits (all.mp sound.2.1), if_neg fun sound => digits sound.2.1]

example : number? "007" = some 7 ∧ number? "+7" = none ∧ number? "٧" = none := by decide +kernel

end Digits

theorem Duration.millis_parts (duration : Duration) :
    duration.millis = duration.seconds * 1000 + duration.subsecond / 1000000 := by
  show duration.nanos / 1000000 =
    duration.nanos / 1000000000 * 1000 + duration.nanos % 1000000000 / 1000000
  omega

def Duration.IsCount (duration : Duration) : Prop :=
  ∃ millis : UInt64, duration = (Span.ofMillis millis).duration

theorem isCount_ofMillis {millis : Nat} (fits : millis ≤ counterMax) :
    (Duration.ofMillis millis).IsCount := by
  have kept : (UInt64.ofNat millis).toNat = millis :=
    UInt64.toNat_ofNat_of_lt' (Nat.lt_succ_of_le fits)
  exact ⟨UInt64.ofNat millis, by rw [Span.duration_ofMillis, kept]⟩

theorem Duration.IsCount.kept {duration : Duration} (count : duration.IsCount) :
    .ofMillis duration.counted = duration := by
  obtain ⟨millis, rfl⟩ := count
  rw [← Span.counted_toNat, Span.counted_ofMillis, Span.duration_ofMillis]

/-- What a retry field with a text for its value does, however the line is written. There is no
error, and the interval is what the text asks for, or stays. -/
structure Reads (text : String) : Prop where
  parses : ∀ row : Row, row.field? = some (.retry, ofText text) →
    Line.parse row.line = .ok (.field .retry (ofText text)) ∧
      OnePass.retryValue? row.line = Digits.number? text
  reads : ∀ record : Record, record.read (.field .retry (ofText text)) =
    (none, { record with retry := (Digits.number? text).elim record.retry .ofMillis })
  words : (Digits.count? (ofText text)).map UInt64.toNat = Digits.number? text

theorem Row.parse_retry {row : Row} {text : String}
    (writes : row.field? = some (.retry, ofText text)) :
    Line.parse row.line = .ok (.field .retry (ofText text)) := by
  have parted := Row.nameValue_line writes
  have nonempty : row.line.isEmpty = false := by
    cases line : row.line with
    | nil =>
      rw [line] at parted
      cases congrArg Prod.fst parted
    | cons octet rest => rfl
  rw [Line.parse, nonempty, OnePass.nameValue_eq, parted]
  dsimp only
  rw [show Field.ofName? Field.retry.text = some .retry from OnePass.ofName?_retry.mpr rfl,
    Utf8.fault?_ofText]
  rfl

theorem reads_all (text : String) : Reads text := by
  refine ⟨?_, ?_, ?_⟩
  · intro row writes
    refine ⟨row.parse_retry writes, ?_⟩
    rw [OnePass.retryValue?, Row.nameValue_line writes, ← Digits.number?_eq,
      OnePass.retryMillis?_eq]
    exact if_pos rfl
  · intro record
    rw [Record.read, Record.apply, Digits.number?_eq]
    cases Digits.number? text <;> rfl
  · rw [Digits.count?_eq, Digits.number?_eq]

section Decoder

variable {record : Record} (count : record.retry.IsCount)
include count

theorem isCount_read (line : Line) : (record.read line).2.retry.IsCount := by
  cases line with
  | blank => exact count
  | ignored => exact count
  | field name value =>
    cases name with
    | retry =>
      have words := Digits.count?_eq value
      rw [Record.read, Record.apply]
      cases read : Record.retryMillis? value with
      | none => exact count
      | some number =>
        rw [read] at words
        obtain ⟨millis, -, same⟩ := Option.map_eq_some_iff.mp words
        exact ⟨millis, by rw [Span.duration_ofMillis, same]⟩
    | id =>
      rw [Record.read, Record.apply]
      split <;> exact count
    | event => exact count
    | data => exact count

theorem isCount_readLines (lines : LineBuffer) : (readLines lines record).2.2.retry.IsCount := by
  fun_induction readLines lines record with
  | case1 => exact count
  | case2 => exact count
  | case3 => exact count
  | case4 lines record content rest taken line _ event after read =>
    have next := isCount_read count line
    rwa [read] at next
  | case5 lines record content rest taken line _ after read ih =>
    have next := isCount_read count line
    rw [read] at next
    exact ih next

end Decoder

namespace Decoder

variable {decoder : Decoder} (count : decoder.retry.IsCount)
include count

theorem isCount_answer : decoder.answer.2.retry.IsCount := by
  have reads := isCount_readLines count decoder.lines
  unfold answer
  split
  next => exact count
  next => exact count
  next =>
    split
    all_goals
      next read =>
        rw [read] at reads
        exact reads

theorem isCount_accept (chunk : Bytes) : (decoder.accept chunk).retry.IsCount := by
  unfold accept
  dsimp only
  split
  next => split <;> exact count
  next => exact count

theorem isCount_pollQueue (ended : Bool) (taken : Nat) (queue : List Arrival) :
    (decoder.pollQueue ended taken queue).2.1.retry.IsCount := by
  induction queue generalizing decoder taken with
  | nil =>
    have answered := isCount_answer count
    unfold pollQueue
    split
    next found =>
      rw [found] at answered
      exact answered
    next idle idles =>
      rw [idles] at answered
      have finish : idle.finish.retry.IsCount := answered
      split
      next => exact isCount_answer finish
      next => exact answered
  | cons arrival rest ih =>
    have answered := isCount_answer count
    unfold pollQueue
    split
    next found =>
      rw [found] at answered
      exact answered
    next idle idles =>
      rw [idles] at answered
      cases arrival with
      | failure message => exact answered
      | chunk bytes => exact ih (isCount_accept answered bytes) (taken + 1)

theorem isCount_poll (feed : Feed) : (decoder.poll feed).2.1.retry.IsCount :=
  isCount_pollQueue count feed.ended feed.taken feed.queued

end Decoder

theorem Body.isCount_run {body : Body} (count : body.decoder.retry.IsCount)
    (steps : List Body.Step) : (body.run steps).decoder.retry.IsCount := by
  induction steps generalizing body with
  | nil => exact count
  | cons step rest ih =>
    apply ih
    cases step with
    | arrive arrival => exact count
    | finish => exact count
    | poll => exact Decoder.isCount_poll count body.feed

namespace Source

/-- The decoder whose interval the next turn takes over: the one that is held if the driver stops,
and else the one that has something to give. -/
def learnt? (source : Source) : Option Decoder :=
  match source.phase with
  | .reading body =>
    if source.isStopped then some body.decoder
    else
      match body.decoder.poll body.feed with
      | (.pending, _, _) => none
      | (_, decoder, _) => some decoder
  | .handing body _ => if source.isStopped then some body.decoder else none
  | _ => none

theorem read_retryMillis (source : Source) (body : Body) :
    (source.read body).retryMillis = source.retryMillis := by
  unfold read transition
  split <;> rfl

/-- A turn stores the interval of the decoder that it learns from, wherever the driver stands. -/
theorem turn_learns (source : Source) (now : Nat) : (source.turn now).source.retryMillis =
    source.learnt?.elim source.retryMillis (·.retry.counted) := by
  unfold turn learnt?
  cases source.phase with
  | unstarted => rfl
  | finished => rfl
  | abandoned => rfl
  | connecting call =>
    dsimp only
    unfold turnConnecting
    split
    next => rfl
    next =>
      split
      next => rfl
      next body _ => exact source.read_retryMillis body
      next => rfl
  | reading body =>
    dsimp only
    unfold turnReading
    split
    next => rfl
    next =>
      split
      next polled => rw [polled]; rfl
      next polled => rw [polled]; rfl
      next polled => rw [polled]; exact Session.retryAfter_retryMillis _ _ _
      next polled => rw [polled]; exact Session.retryAfter_retryMillis _ _ _
  | handing body event =>
    dsimp only
    unfold turnHanding
    split
    next => rfl
    next => split <;> rfl
  | waiting failures wake =>
    dsimp only
    unfold turnWaiting
    split
    next => rfl
    next =>
      split
      next => rfl
      next => split <;> rfl
  | reconnecting failures call =>
    dsimp only
    unfold turnReconnecting
    split
    next => rfl
    next =>
      split
      next => rfl
      next body _ => exact source.read_retryMillis body
      next =>
        split
        next => rfl
        next => exact Session.retryAfter_retryMillis _ _ _

theorem learnt_isCount {source : Source}
    (held : ∀ body, source.body? = some body → body.decoder.retry.IsCount) {decoder : Decoder}
    (learns : source.learnt? = some decoder) : decoder.retry.IsCount := by
  unfold learnt? at learns
  split at learns
  next body phase =>
    have count := held body (by rw [body?, phase])
    split at learns
    next =>
      cases learns
      exact count
    next =>
      have polled := Decoder.isCount_poll count body.feed
      split at learns
      next => cases learns
      next found =>
        cases learns
        rw [found] at polled
        exact polled
  next body _ phase =>
    have count := held body (by rw [body?, phase])
    split at learns
    next =>
      cases learns
      exact count
    next => cases learns
  next => cases learns

end Source

namespace Session

/-- What is exact about the intervals at any moment. A stream started from the interval that the
lines before it have put in force, and the source that has none holds it. A turn hands the interval
of a decoder on as it is, no other action touches it, and what is kept fits its words. -/
structure Exact (config : Config) (session : Session) (log : List Connection) : Prop where
  started : ∀ body, session.source.body? = some body → ∃ request stream earlier,
    log = ⟨request, some stream⟩ :: earlier ∧ stream.body = body ∧
      stream.opened.decoder.retry = .ofMillis (interval config earlier)
  kept : session.source.body? = none → session.source.mayHand = true →
    session.source.retry = .ofMillis (interval config log)
  hands : (session.act .turn).source.retry =
    session.source.learnt?.elim session.source.retry Decoder.retry
  rests : ∀ action, action ≠ .turn → (session.act action).source.retry = session.source.retry
  held : ∀ body, session.source.body? = some body → body.decoder.retry.IsCount
  counter : ∃ millis : UInt64, session.source.retryMillis = millis.toNat

theorem act_counter {session : Session} (fits : session.source.retryMillis ≤ counterMax)
    (action : Action) : (session.act action).source.retryMillis ≤ counterMax := by
  by_cases turns : action = .turn
  · subst turns
    have learns := session.source.turn_learns session.clock
    show (session.source.turn session.clock).source.retryMillis ≤ counterMax
    rw [learns]
    cases session.source.learnt? with
    | none => exact fits
    | some decoder => exact Nat.min_le_left _ _
  · rw [(act_beside session turns).retryMillis]
    exact fits

theorem run_counter {session : Session} (fits : session.source.retryMillis ≤ counterMax)
    (actions : List Action) : (session.run actions).source.retryMillis ≤ counterMax := by
  induction actions generalizing session with
  | nil => exact fits
  | cons action rest ih => exact ih (act_counter fits action)

theorem run_isCount {config : Config} {source : Source}
    (created : Source.create config = .ok source) (actions : List Action) {body : Body}
    (held : ((start source).run actions).source.body? = some body) :
    body.decoder.retry.IsCount := by
  obtain ⟨request, stream, earlier, -, rfl, -, started, -⟩ := run_streams created actions held
  apply Body.isCount_run
  rw [started]
  exact isCount_ofMillis (interval_le config earlier)

theorem run_exact {config : Config} {source : Source}
    (created : Source.create config = .ok source) (actions : List Action) :
    Exact config ((start source).run actions) ((start source).log actions []) := by
  have timed := run_timed created actions
  have counts := @run_isCount _ _ created actions
  refine ⟨?_, ?_, ?_, ?_, fun _ => counts, ?_⟩
  · intro body held
    obtain ⟨request, stream, earlier, entered, whole, -, started, -⟩ :=
      run_streams created actions held
    exact ⟨request, stream, earlier, entered, whole, congrArg Decoder.retry started⟩
  · intro unheld hands
    rw [Source.retry, timed.kept unheld hands]
  · have learns := Source.turn_learns ((start source).run actions).source
      ((start source).run actions).clock
    refine (congrArg Duration.ofMillis learns).trans ?_
    cases learnt : ((start source).run actions).source.learnt? with
    | none => rfl
    | some decoder => exact (Source.learnt_isCount (fun _ => counts) learnt).kept
  · intro action other
    rw [Source.retry, Source.retry, (act_beside _ other).retryMillis]
  · have fits : (start source).source.retryMillis ≤ counterMax := by
      rw [create_eq created]
      exact Nat.min_le_left _ _
    have bound := run_counter fits actions
    exact ⟨UInt64.ofNat _, (UInt64.toNat_ofNat_of_lt' (Nat.lt_succ_of_le bound)).symm⟩

def renewing : List Action :=
  [.connect,
    .respond (streaming (ofText "retry:0018446744073709551615\nretry:18446744073709551616\n")),
    .turn, .turn, .endBody, .turn, .elapse 18446744073709551615, .turn, .respond (streaming []),
    .turn]

/-- The arithmetic of the interval, from the settings and from the text of a field over all its
forms into a stream, and over a whole run from stream to stream. The settings give their whole
milliseconds, or the largest count. A field gives the number that it writes, or nothing, and never
an error; the count that the digits come to is that number, and as many times as it becomes a time
and a count again it stays the same. -/
theorem counting_exact {config : Config} {source : Source}
    (created : Source.create config = .ok source) (text : String) (actions : List Action) :
    source.retryMillis =
        min (2 ^ 64 - 1) (config.retry.seconds * 1000 + config.retry.subsecond / 1000000) ∧
      (∀ span : Span, config.retry = span.duration → source.retryMillis = span.counted.toNat) ∧
      Reads text ∧
      (∀ number, Digits.number? text = some number → ∃ millis,
        Digits.count? (ofText text) = some millis ∧ ∀ streams,
          ((Span.ofMillis ∘ Span.counted)^[streams] (.ofMillis millis)).duration =
            .ofMillis number) ∧
      Exact config ((start source).run actions) ((start source).log actions []) := by
  have stored : source.retryMillis = config.retry.counted := by rw [create_eq created]
  refine ⟨?_, ?_, reads_all text, ?_, run_exact created actions⟩
  · rw [stored, Duration.counted, Duration.millis_parts]
    rfl
  · intro span given
    rw [stored, given, Span.counted_toNat]
  · intro number asks
    have words := (reads_all text).words
    rw [asks] at words
    obtain ⟨millis, counts, same⟩ := Option.map_eq_some_iff.mp words
    refine ⟨millis, counts, fun streams => ?_⟩
    have fixed : (Span.ofMillis ∘ Span.counted) (.ofMillis millis) = .ofMillis millis :=
      congrArg Span.ofMillis (Span.counted_ofMillis millis)
    rw [Function.iterate_fixed fixed, Span.duration_ofMillis, same]

/-- The longest interval, with zeros in front, gets from one stream into the next. -/
theorem counting_exact_longest :
    Digits.number? "0018446744073709551615" = some 18446744073709551615 ∧
      Digits.number? "18446744073709551616" = none ∧
      Digits.count? (ofText "0018446744073709551615") = some 18446744073709551615 ∧
      (Span.ofMillis 18446744073709551615).duration = .ofMillis 18446744073709551615 ∧
      ∃ request stream earlier,
        (start plainSource).log renewing [] = ⟨request, some stream⟩ :: earlier ∧
        stream.opened.decoder.retry = .ofMillis 18446744073709551615 := by
  have number : Digits.number? "0018446744073709551615" = some 18446744073709551615 := by
    decide +kernel
  obtain ⟨-, -, reads, relays, run⟩ :=
    counting_exact create_plain "0018446744073709551615" renewing
  obtain ⟨millis, counts, kept⟩ := relays _ number
  have words := reads.words
  rw [number, counts] at words
  have same : millis = 18446744073709551615 := UInt64.toNat_inj.mp (Option.some_inj.mp words)
  subst same
  cases held : ((start plainSource).run renewing).source.body? with
  | none =>
    have opened : ((start plainSource).run renewing).source.body?.isSome = true := by decide +kernel
    rw [held] at opened
    cases opened
  | some body =>
    obtain ⟨request, stream, earlier, entered, -, started⟩ := run.started body held
    have asked : interval (.forUrl "http://a/") ((start plainSource).log renewing []).tail =
        18446744073709551615 := by decide +kernel
    rw [entered, List.tail_cons] at asked
    rw [asked] at started
    exact ⟨number, by decide +kernel, counts, kept 0, request, stream, earlier, entered, started⟩

end Session

end EventStream
