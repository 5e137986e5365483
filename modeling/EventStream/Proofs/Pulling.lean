import EventStream.Proofs.Chunking
import EventStream.Proofs.Interval
import Mathlib.Order.Bounds.Defs

/-!
How much of a stream a decoder takes in before it answers. It takes no arrival in while the bytes
that it holds decide something to give, and it gives an event as soon as they do. So the arrivals
that it took in by then are the fewest that decide the event. Behind an error or the end it takes
none.
-/

namespace EventStream

def Poll.error? : Poll → Option DecodeError
  | .failed error => some error
  | _ => none

def Item.error? (item : Item) : Option DecodeError := item.poll.error?

namespace OnePass

/-- The events that the decided lines of a stream dispatch, up to the first line in error. -/
def dispatched (maxLine : Option Nat) (resumeId : Bytes) (retry : Duration) (bytes : Bytes) :
    List Event :=
  (items maxLine resumeId (.start resumeId retry) (unmarked bytes).decided.1).filterMap Item.event?

def faultless (maxLine : Option Nat) (bytes : Bytes) : Bool :=
  (unmarked bytes).decided.1.all (legible maxLine)

theorem sequel_silent (sequel : Sequel) (last : Bytes) (retry : Duration) :
    (sequel.items last retry).filterMap Item.event? = [] := by
  cases sequel <;> rfl

theorem behind_silent (maxLine : Option Nat) (left : Bytes) (sequel : Sequel) (last : Bytes)
    (retry : Duration) : (behind maxLine left sequel last retry).filterMap Item.event? = [] := by
  unfold behind
  split
  next => rfl
  next => exact sequel_silent sequel last retry

theorem goOn_events {further : Bytes → Duration → List Item}
    (silent : ∀ last retry, (further last retry).filterMap Item.event? = [])
    (maxLine : Option Nat) (last : Bytes) (record : Record) (lines : List Bytes) :
    (goOn further (record.items maxLine last lines)).filterMap Item.event? =
      (record.items maxLine last lines).filterMap Item.event? := by
  induction lines generalizing last record with
  | nil => exact silent last record.retry
  | cons line rest ih =>
    unfold Record.items
    split
    next => rfl
    next =>
      split
      next => rfl
      next event next _ => exact congrArg (event :: ·) (ih event.id next)
      next next _ => exact ih last next

theorem goOn_legible {further : Bytes → Duration → List Item} {maxLine : Option Nat} {last : Bytes}
    {record : Record} {lines : List Bytes}
    (harmless : Body.Harmless (goOn further (record.items maxLine last lines))) :
    lines.all (legible maxLine) = true := by
  induction lines generalizing last record with
  | nil => rfl
  | cons line rest ih =>
    unfold Record.items at harmless
    split at harmless
    next => cases harmless _ List.mem_cons_self
    next fits =>
      have first (parsed : (Line.parse line).isOk = true) : legible maxLine line = true := by
        rw [legible, fits, parsed]
        rfl
      rw [List.all_cons, Bool.and_eq_true]
      cases parsed : Line.parse line with
      | error fault =>
        rw [parsed] at harmless
        cases harmless _ List.mem_cons_self
      | ok content =>
        refine ⟨first (by rw [parsed]; rfl), ?_⟩
        rw [parsed] at harmless
        dsimp only [Except.map] at harmless
        cases read : record.read content with
        | mk event next =>
          rw [read] at harmless
          cases event with
          | some event => exact ih (List.forall_mem_cons.mp harmless).2
          | none => exact ih harmless

end OnePass

/-- Where no line end is certain, the end of the stream makes one of a carriage return in the last
place. -/
theorem cutLine_last {bytes : Bytes} {cut : Cut} (missed : cutLine false bytes = none)
    (found : cutLine true bytes = some cut) :
    bytes = cut.line ++ [Bytes.carriageReturn] ∧ cut.rest = [] := by
  induction bytes generalizing cut with
  | nil => cases found
  | cons octet bytes ih =>
    unfold cutLine at missed found
    split at missed
    next => cases missed
    next notFeed =>
      rw [if_neg notFeed] at found
      split at missed
      next ret =>
        rw [if_pos ret] at found
        cases bytes with
        | nil => cases found; exact ⟨congrArg (fun octet => [octet]) ret, rfl⟩
        | cons next beyond => dsimp only at missed; split at missed <;> cases missed
      next notReturn =>
        rw [if_neg notReturn] at found
        obtain ⟨inner, same, rfl⟩ := Option.map_eq_some_iff.mp found
        obtain ⟨whole, nothing⟩ := ih (Option.map_eq_none_iff.mp missed) same
        exact ⟨congrArg (octet :: ·) whole, nothing⟩

theorem cutLine_none_of_decided {bytes : Bytes} (nothing : bytes.decided.1 = []) :
    cutLine false bytes = none := by
  cases found : cutLine false bytes with
  | none => rfl
  | some cut =>
    rw [Bytes.decided_cut found] at nothing
    cases nothing

theorem decided_return (octet : UInt8) :
    ∃ others, (Bytes.decided ([Bytes.carriageReturn] ++ [octet])).1 = [] :: others := by
  by_cases feed : octet = Bytes.lineFeed
  · have cut : cutLine false ([Bytes.carriageReturn] ++ [octet]) = some ⟨[], .both, []⟩ := by
      rw [feed]
      rfl
    exact ⟨_, by rw [Bytes.decided_cut cut]⟩
  · have cut : cutLine false ([Bytes.carriageReturn] ++ [octet]) =
        some ⟨[], .carriageReturn, [octet]⟩ := by
      rw [List.singleton_append, cutLine, if_neg (by decide), if_pos rfl]
      exact if_neg feed
    exact ⟨_, by rw [Bytes.decided_cut cut]⟩

theorem parse_blank {line : Bytes} (blank : Line.parse line = .ok .blank) : line = [] := by
  unfold Line.parse at blank
  split at blank
  next empty => exact List.isEmpty_iff.mp empty
  next =>
    dsimp only at blank
    split at blank
    next => cases blank
    next => split at blank <;> cases blank

theorem read_event {record after : Record} {line : Line} {event : Event}
    (read : record.read line = (some event, after)) :
    line = .blank ∧ record.dispatch = (some event, after) := by
  cases line with
  | blank => exact ⟨rfl, read⟩
  | ignored => cases read
  | field name value => cases read

theorem nextLine_last {lines next : LineBuffer} {content : Bytes} (scanned : lines.Scanned)
    (past : lines.finished = true) (missed : cutLine false lines.bytes = none)
    (found : lines.nextLine = (.line content, next)) :
    next.bytes = [] ∧ (content = [] → lines.bytes = [Bytes.carriageReturn]) := by
  rw [LineBuffer.nextLine_eq scanned, past] at found
  split at found
  next cut same =>
    obtain ⟨rfl, rfl⟩ := LineBuffer.give_line found
    obtain ⟨whole, nothing⟩ := cutLine_last missed same
    exact ⟨nothing, fun empty => by rw [whole, empty]; rfl⟩
  next =>
    split at found
    next ended =>
      obtain ⟨rfl, rfl⟩ := LineBuffer.give_line found
      refine ⟨rfl, fun empty => ?_⟩
      rw [empty] at ended
      cases ended
    next => exact absurd found (LineBuffer.hold_ne_line _ _ _)

/-- Only a carriage return that the end of the stream makes a line end of brings an event then. -/
theorem readLines_last {lines next : LineBuffer} {record after : Record} {event : Event}
    (scanned : lines.Scanned) (past : lines.finished = true)
    (missed : cutLine false lines.bytes = none)
    (found : readLines lines record = (.event event, next, after)) :
    lines.bytes = [Bytes.carriageReturn] ∧ next.bytes = [] ∧
      record.dispatch = (some event, after) := by
  rw [readLines.eq_def] at found
  split at found
  next => cases found
  next => cases found
  next content rest taken =>
    obtain ⟨nothing, alone⟩ := nextLine_last scanned past missed taken
    split at found
    next => cases found
    next line parsed =>
      split at found
      next given same read =>
        cases found
        obtain ⟨rfl, dispatch⟩ := read_event read
        exact ⟨alone (parse_blank parsed), nothing, dispatch⟩
      next same read =>
        have shorter := readLines_event (nextLine_follows scanned taken).scanned found
        rw [nothing] at shorter
        cases shorter

namespace Decoder

/-- The events that come of these arrivals, if no more follow and the stream stays open. -/
def due (decoder : Decoder) (arrivals : List Arrival) : List Event :=
  (decoder.prospect arrivals).filterMap Item.event?

section Start

variable (maxLine : Option Nat) (resumeId : Bytes) (retry : Duration) (arrivals : List Arrival)

theorem due_start : (start maxLine resumeId retry).due arrivals =
    OnePass.dispatched maxLine resumeId retry (Feed.content arrivals) := by
  rw [due, (OnePass.prospect_start maxLine resumeId retry arrivals).1, OnePass.suspended,
    OnePass.dispatched]
  split
  next undecided =>
    rw [OnePass.sequel_silent, undecided_opening undecided]
    rfl
  next =>
    dsimp only
    rw [← OnePass.items_record]
    exact OnePass.goOn_events (OnePass.behind_silent _ _ _) _ _ _ _

theorem faultless_start
    (harmless : Body.Harmless ((start maxLine resumeId retry).prospect arrivals)) :
    OnePass.faultless maxLine (Feed.content arrivals) = true := by
  rw [(OnePass.prospect_start maxLine resumeId retry arrivals).1, OnePass.suspended] at harmless
  rw [OnePass.faultless]
  split at harmless
  next undecided =>
    rw [undecided_opening undecided]
    rfl
  next =>
    dsimp only at harmless
    rw [← OnePass.items_record] at harmless
    exact OnePass.goOn_legible harmless

end Start

inductive Spent (decoder : Decoder) : Prop where
  | failed (past : decoder.stage = .failed)
  | finished (reading : decoder.stage = .reading) (past : decoder.lines.finished = true)
    (empty : decoder.lines.bytes = [])

structure Alike (decoder other : Decoder) : Prop where
  lastEventId : decoder.lastEventId = other.lastEventId
  retry : decoder.retry = other.retry
  bytes : decoder.lines.bytes = other.lines.bytes

theorem Alike.refl (decoder : Decoder) : decoder.Alike decoder := ⟨rfl, rfl, rfl⟩

theorem Alike.trans {first second third : Decoder} (one : first.Alike second)
    (two : second.Alike third) : first.Alike third :=
  ⟨one.lastEventId.trans two.lastEventId, one.retry.trans two.retry, one.bytes.trans two.bytes⟩

theorem Spent.answer {decoder : Decoder} (spent : decoder.Spent) :
    ∃ next, decoder.answer = (some .ended, next) ∧ next.Spent ∧ next.Alike decoder := by
  cases spent with
  | failed past => exact ⟨decoder, by rw [Decoder.answer, past], .failed past, .refl decoder⟩
  | finished reading past empty =>
    refine ⟨{ decoder with lines := { decoder.lines with scanned := 0 } }, ?_, ?_, ⟨rfl, rfl, rfl⟩⟩
    · simp only [Decoder.answer, reading, readLines_empty empty, past, if_true]
    · exact .finished reading past empty

theorem Spent.poll {decoder : Decoder} (spent : decoder.Spent) (feed : Feed) :
    ∃ next, decoder.poll feed = (.ended, next, feed) ∧ next.Spent ∧ next.Alike decoder := by
  obtain ⟨next, found, still, alike⟩ := spent.answer
  refine ⟨next, ?_, still, alike⟩
  unfold Decoder.poll
  cases queued : feed.queued <;> simp only [pollQueue, found] <;> rw [← queued]

theorem answer_spent {decoder next : Decoder} {poll : Poll} (sound : decoder.Sound)
    (found : decoder.answer = (some poll, next)) (halts : poll.isOver = true) : next.Spent := by
  unfold answer at found
  split at found
  next failed => cases found; exact .failed failed
  next => cases found
  next reading =>
    split at found
    next => cases found; cases halts
    next => cases found; exact .failed rfl
    next lines record read =>
      have follows := readLines_follows sound.scanned read
      split at found
      next finished =>
        cases found
        have past := follows.finished.symm.trans finished
        exact .finished reading finished (readLines_exhausted sound.scanned read past)
      next => cases found

theorem answer_undecided {decoder next : Decoder} (growing : decoder.Growing)
    (idles : decoder.answer = (none, next)) : cutLine false next.lines.bytes = none := by
  apply cutLine_none_of_decided
  unfold answer at idles
  split at idles
  next => cases idles
  next opening =>
    cases idles
    have undecided := growing.sound.undecided opening
    rw [← undecided_opening undecided, OnePass.unmarked_of_open undecided]
  next =>
    split at idles
    next => cases idles
    next => cases idles
    next lines record read =>
      have nothing := readLines_undecided growing.sound.scanned growing.unfinished read
      split at idles
      next => cases idles
      next => cases idles; exact nothing

/-- The end of a stream brings an event only by a carriage return that is all that was left, and
any octet behind it would have brought the event. -/
structure Lately (decoder : Decoder) (event : Event) (next : Decoder) : Prop where
  alone : decoder.lines.bytes = [Bytes.carriageReturn]
  spent : next.Spent
  sooner : ∀ octet, [event] <+: decoder.due [.chunk [octet]]

theorem finish_event {decoder idle next : Decoder} {event : Event} (growing : decoder.Growing)
    (idles : decoder.answer = (none, idle))
    (found : idle.finish.answer = (some (.event event), next)) : Lately idle event next := by
  have waits := answer_waits growing idles
  have missed := answer_undecided growing idles
  unfold answer at found
  rw [show idle.finish.stage = .reading from rfl] at found
  dsimp only at found
  split at found
  next lines record read =>
    cases found
    have scanned := waits.growing.sound.finish.scanned
    obtain ⟨alone, nothing, dispatch⟩ := readLines_last scanned rfl missed read
    have alone : idle.lines.bytes = [Bytes.carriageReturn] := alone
    have reading : idle.stage = .reading := by
      cases stage : idle.stage with
      | reading => rfl
      | failed => exact absurd stage waits.working
      | opening =>
        have undecided := waits.growing.sound.undecided stage
        rw [alone] at undecided
        cases undecided
    have finished := (readLines_follows scanned read).finished
    refine ⟨alone, .finished rfl finished nothing, fun octet => ?_⟩
    obtain ⟨others, first⟩ := decided_return octet
    rw [due, (prospect_reading reading _).1, alone, Feed.content, Feed.content, List.append_nil,
      Record.suspended, OnePass.goOn_events (OnePass.behind_silent _ _ _), first, Record.items]
    have fits : idle.lines.maxLine.filter (· < ([] : Bytes).length) = none := by
      cases idle.lines.maxLine <;> simp [Option.filter]
    have parsed : (Line.parse []).map idle.record.read = .ok (some event, record) :=
      congrArg Except.ok dispatch
    rw [fits, parsed]
    exact ⟨_, rfl⟩
  next => cases found
  next => split at found <;> cases found

structure Takes (decoder : Decoder) (taken : List Arrival) (reached : Decoder) : Prop where
  growing : reached.Growing
  unbroken : Feed.unbroken taken = true
  lazy : ∀ count < taken.length, decoder.due (taken.take count) = []
  prospect : ∀ more, decoder.prospect (taken ++ more) = reached.prospect more
  leftover : ∀ more, decoder.leftover (taken ++ more) = reached.leftover more

section Poll

variable {ended : Bool} {decoder idle next : Decoder} {poll : Poll}

theorem Takes.none (growing : decoder.Growing) : Takes decoder [] decoder :=
  ⟨growing, rfl, nofun, fun _ => rfl, fun _ => rfl⟩

theorem Takes.chunk {bytes : Bytes} {taken : List Arrival} (growing : decoder.Growing)
    (idles : decoder.answer = (.none, idle)) (takes : Takes (idle.accept bytes) taken next) :
    Takes decoder (.chunk bytes :: taken) next := by
  have waits := answer_waits growing idles
  have accepts (arrivals : List Arrival) := prospect_accept idle waits.working bytes arrivals
  refine ⟨takes.growing, takes.unbroken, ?_, ?_, ?_⟩
  · intro count within
    cases count with
    | zero =>
      rw [List.take_zero, due, ← waits.prospect, (waits.nothing [] rfl).1]
      exact OnePass.sequel_silent _ _ _
    | succ count =>
      rw [List.take_succ_cons, due, ← waits.prospect, ← (accepts _).1]
      exact takes.lazy count (Nat.lt_of_succ_lt_succ within)
  · intro more
    rw [List.cons_append, ← waits.prospect, ← (accepts _).1, takes.prospect]
  · intro more
    rw [List.cons_append, ← waits.leftover, ← (accepts _).2, takes.leftover]

inductive Stops (ended : Bool) (decoder : Decoder) :
    List Arrival → Poll → Decoder → List Arrival → Prop where
  | answered {queued : List Arrival} {poll : Poll} {next : Decoder}
      (found : decoder.answer = (some poll, next)) : Stops ended decoder queued poll next queued
  | pending {idle : Decoder} (idles : decoder.answer = (none, idle)) :
      Stops ended decoder [] .pending idle []
  | finished {idle next : Decoder} {poll : Poll} (idles : decoder.answer = (none, idle))
      (past : ended = true) (found : idle.finish.answer = (some poll, next)) :
      Stops ended decoder [] poll next []
  | broken {idle : Decoder} {message : String} {rest : List Arrival}
      (idles : decoder.answer = (none, idle)) :
      Stops ended decoder (.failure message :: rest) (.failed (.transport message)) idle.fail rest

/-- A poll takes in chunks while the decoder idles, and then comes to its end in one of these
ways. -/
theorem Polls.stops {queue left : List Arrival} (polls : Polls ended decoder queue poll next left)
    (growing : decoder.Growing) : ∃ taken reached rest, queue = taken ++ rest ∧
      Takes decoder taken reached ∧ Stops ended reached rest poll next left := by
  induction polls with
  | answered found => exact ⟨[], _, _, rfl, .none growing, .answered found⟩
  | pending idles => exact ⟨[], _, _, rfl, .none growing, .pending idles⟩
  | finished idles past found => exact ⟨[], _, _, rfl, .none growing, .finished idles past found⟩
  | broken idles => exact ⟨[], _, _, rfl, .none growing, .broken idles⟩
  | @chunk decoder idle next bytes rest left poll idles _ ih =>
    obtain ⟨taken, reached, rest, same, takes, stops⟩ :=
      ih ((answer_waits growing idles).growing.accept bytes)
    exact ⟨.chunk bytes :: taken, reached, rest, congrArg _ same, takes.chunk growing idles, stops⟩

theorem pollQueue_taken (decoder : Decoder) (ended : Bool) (taken : Nat) (queue : List Arrival) :
    (decoder.pollQueue ended taken queue).2.2.taken +
        (decoder.pollQueue ended taken queue).2.2.queued.length = taken + queue.length := by
  induction queue generalizing decoder taken with
  | nil =>
    unfold pollQueue
    split
    next => rfl
    next => split <;> rfl
  | cons arrival rest ih =>
    unfold pollQueue
    split
    next => rfl
    next idle _ =>
      cases arrival with
      | failure message => exact Nat.succ_add_eq_add_succ taken rest.length
      | chunk bytes =>
        exact (ih (idle.accept bytes) (taken + 1)).trans
          (Nat.succ_add_eq_add_succ taken rest.length)

end Poll

/-- A decoder that may still give something. All that the one it was once has to give is what was
given and what is to come, and no fewer of the arrivals that it took in decide more than that. -/
structure Going (opened : Decoder) (seen : List Arrival) (given : List Item) (decoder : Decoder) :
    Prop where
  growing : decoder.Growing
  unbroken : Feed.unbroken seen = true
  faultless : given.filterMap Item.error? = []
  lazy : ∀ count < seen.length, opened.due (seen.take count) <+: given.filterMap Item.event?
  prospect : ∀ more, opened.prospect (seen ++ more) = given ++ decoder.prospect more
  leftover : ∀ more, opened.leftover (seen ++ more) = decoder.leftover more

section Going

variable {opened decoder idle next : Decoder} {seen taken : List Arrival} {given : List Item}

theorem going_start (growing : opened.Growing) : Going opened [] [] opened :=
  ⟨growing, rfl, rfl, nofun, fun _ => rfl, fun _ => rfl⟩

variable (going : Going opened seen given decoder)
include going

theorem Going.due (more : List Arrival) :
    opened.due (seen ++ more) = given.filterMap Item.event? ++ decoder.due more := by
  rw [Decoder.due, going.prospect, List.filterMap_append]
  rfl

theorem Going.takes (takes : Takes decoder taken next) :
    Going opened (seen ++ taken) given next := by
  refine ⟨takes.growing, ?_, going.faultless, ?_, ?_, ?_⟩
  · rw [Feed.unbroken, List.all_append, Bool.and_eq_true]
    exact ⟨going.unbroken, takes.unbroken⟩
  · intro count within
    rw [List.length_append] at within
    -- The poll took its arrivals in behind those seen before, so a count may end in either part.
    by_cases before : count < seen.length
    · rw [List.take_append_of_le_length before.le]
      exact going.lazy count before
    · obtain ⟨further, rfl⟩ := Nat.exists_eq_add_of_le (Nat.not_lt.mp before)
      have same : opened.due ((seen ++ taken).take (seen.length + further)) =
          given.filterMap Item.event? := by
        rw [List.take_length_add_append, going.due, takes.lazy further (by omega), List.append_nil]
      exact same ▸ List.prefix_rfl
  · intro more
    rw [List.append_assoc, going.prospect, takes.prospect]
  · intro more
    rw [List.append_assoc, going.leftover, takes.leftover]

/-- An event that comes of what is held is one that no fewer arrivals decide. -/
theorem Going.event {event : Event} (found : decoder.answer = (some (.event event), next))
    (rest : List Arrival) :
    IsLeast {count | given.filterMap Item.event? ++ [event] <+:
        opened.due ((seen ++ rest).take count)} seen.length ∧
      Going opened seen (given ++ [⟨.event event, next.lastEventId, next.retry⟩]) next := by
  have yields := answer_yields going.growing found
  have events : (given ++ [(⟨.event event, next.lastEventId, next.retry⟩ : Item)]).filterMap
      Item.event? = given.filterMap Item.event? ++ [event] := List.filterMap_append
  refine ⟨⟨?_, fun count decides => ?_⟩, yields.growing, going.unbroken, ?_, ?_, ?_, ?_⟩
  · have first : decoder.due [] = event :: next.due [] :=
      congrArg (List.filterMap Item.event?) (yields.prospect [])
    have whole := going.due []
    rw [List.append_nil, first, List.append_cons] at whole
    exact ⟨next.due [], by rw [List.take_left, whole]⟩
  · -- What fewer arrivals decide was given before, and the event was not.
    by_contra fewer
    have fewer := Nat.not_le.mp fewer
    have same : (seen ++ rest).take count = seen.take count :=
      List.take_append_of_le_length fewer.le
    have longer := (decides.trans (same ▸ going.lazy count fewer)).length_le
    rw [List.length_append, List.length_singleton] at longer
    omega
  · rw [List.filterMap_append, going.faultless]
    rfl
  · intro count within
    rw [events]
    exact (going.lazy count within).trans (List.prefix_append _ _)
  · intro more
    rw [going.prospect, yields.prospect, List.append_assoc]
    rfl
  · intro more
    rw [going.leftover, yields.leftover rfl]

omit going in
theorem harmless_of_faultless (faultless : given.filterMap Item.error? = []) :
    Body.Harmless given := by
  intro item inside
  have nothing := List.filterMap_eq_nil_iff.mp faultless item inside
  obtain ⟨poll, _, _⟩ := item
  cases poll with
  | failed error => cases nothing
  | _ => rfl

structure Settled (opened : Decoder) (seen : List Arrival) (given : List Item) : Prop where
  due : opened.due seen = given.filterMap Item.event?
  harmless : Body.Harmless (opened.prospect seen)

theorem Going.waits (idles : decoder.answer = (none, idle)) : Going opened seen given idle ∧
    Settled opened seen given ∧ opened.leftover seen = idle.lines.bytes := by
  have waits := answer_waits going.growing idles
  obtain ⟨nothing, left⟩ := waits.nothing [] rfl
  have whole := going.prospect []
  rw [List.append_nil, ← waits.prospect, nothing] at whole
  refine ⟨⟨waits.growing, going.unbroken, going.faultless, going.lazy, ?_, ?_⟩, ⟨?_, ?_⟩, ?_⟩
  · intro more
    rw [going.prospect, waits.prospect]
  · intro more
    rw [going.leftover, waits.leftover]
  · rw [Decoder.due, whole, List.filterMap_append]
    exact List.append_nil _
  · rw [whole]
    exact List.forall_mem_append.mpr
      ⟨harmless_of_faultless going.faultless, List.forall_mem_singleton.mpr rfl⟩
  · have last := going.leftover []
    rwa [List.append_nil, ← waits.leftover, left] at last

end Going

theorem Settled.dispatched {maxLine : Option Nat} {resumeId : Bytes} {retry : Duration}
    {seen : List Arrival} {given : List Item}
    (settled : Settled (.start maxLine resumeId retry) seen given) :
    OnePass.dispatched maxLine resumeId retry (Feed.content seen) =
      given.filterMap Item.event? := by
  rw [← due_start, settled.due]

end Decoder

namespace Body

variable (maxLine : Option Nat) (resumeId : Bytes) (retry : Duration)

/-- What a poll may answer when these events were given before, and what it took in by then. -/
inductive Prompt (arrived : List Arrival) (given : List Event) (after : Feed) : Poll → Prop where
  /-- No fewer arrivals decide the event. -/
  | event {event : Event}
      (fewest : IsLeast {count | given ++ [event] <+: OnePass.dispatched maxLine resumeId retry
        (Feed.content (arrived.take count))} after.taken) :
      Prompt arrived given after (.event event)
  /-- No arrivals decide the event, since it takes the end of the stream to tell what the carriage
  return in the last place is. Any further octet would have told it, too. -/
  | last {event : Event} (past : after.ended = true) (all : after.taken = arrived.length)
      (unbroken : Feed.unbroken arrived = true)
      (before : OnePass.dispatched maxLine resumeId retry (Feed.content arrived) = given)
      (unread : OnePass.unread (Feed.content arrived) = [Bytes.carriageReturn])
      (behind : ∀ octet, given ++ [event] <+:
        OnePass.dispatched maxLine resumeId retry (Feed.content arrived ++ [octet])) :
      Prompt arrived given after (.event event)
  | pending (all : after.taken = arrived.length) (unbroken : Feed.unbroken arrived = true)
      (before : OnePass.dispatched maxLine resumeId retry (Feed.content arrived) = given)
      (faultless : OnePass.faultless maxLine (Feed.content arrived) = true) :
      Prompt arrived given after .pending
  | broken {chunks : List Arrival} {message : String}
      (last : arrived.take after.taken = chunks ++ [.failure message])
      (unbroken : Feed.unbroken chunks = true)
      (before : OnePass.dispatched maxLine resumeId retry (Feed.content chunks) = given) :
      Prompt arrived given after (.failed (.transport message))
  | fault {poll : Poll} (fault : poll.isFault = true) : Prompt arrived given after poll
  | ended : Prompt arrived given after .ended

structure Fused (stopped after : Body) : Prop where
  poll : after.polled.1 = .ended
  taken : after.polled.2.feed.taken = stopped.feed.taken
  alike : after.polled.2.decoder.Alike stopped.decoder

/-- A body that was fresh once. It took these arrivals in and gave these items, and it may still
give something or is at its end. -/
structure Stands (arrived seen : List Arrival) (given : List Item) (body : Body) : Prop where
  whole : arrived = seen ++ body.feed.queued
  taken : body.feed.taken = seen.length
  state : Decoder.Going (.start maxLine resumeId retry) seen given body.decoder ∨
    body.decoder.Spent ∧ (given.filterMap Item.error?).length ≤ 1

structure Comes (arrived : List Arrival) (given : List Item) (poll : Poll) (after : Body) :
    Prop where
  prompt : Prompt maxLine resumeId retry arrived (given.filterMap Item.event?) after.feed poll
  stands : ∃ seen, Stands maxLine resumeId retry arrived seen
    (given ++ Decoder.given poll after.decoder) after
  spent : poll.isOver = true → after.decoder.Spent

variable {maxLine resumeId retry} {arrived seen rest : List Arrival} {given : List Item}
  {decoder idle next : Decoder} {poll : Poll} {left : Feed}

theorem given_error (faultless : given.filterMap Item.error? = []) :
    ((given ++ Decoder.given poll next).filterMap Item.error?).length ≤ 1 := by
  rw [List.filterMap_append, faultless, List.nil_append]
  cases poll <;> exact Nat.le_of_ble_eq_true rfl

section Arms

variable (going : Decoder.Going (.start maxLine resumeId retry) seen given decoder)
include going

theorem comes_last (whole : arrived = seen ++ left.queued) (taken : left.taken = seen.length)
    (last : poll.isOver = true) (carried : ∀ message, poll ≠ .failed (.transport message))
    (spent : next.Spent) : Comes maxLine resumeId retry arrived given poll ⟨next, left⟩ := by
  refine ⟨?_, ⟨seen, whole, taken, .inr ⟨spent, given_error going.faultless⟩⟩, fun _ => spent⟩
  cases poll with
  | pending => cases last
  | event event => cases last
  | ended => exact .ended
  | failed error =>
    cases error with
    | transport message => exact absurd rfl (carried message)
    | utf8 fault => exact .fault rfl
    | lineTooLong limit => exact .fault rfl

theorem comes_answered (whole : arrived = seen ++ left.queued) (taken : left.taken = seen.length)
    (found : decoder.answer = (some poll, next)) :
    Comes maxLine resumeId retry arrived given poll ⟨next, left⟩ := by
  have carried (message : String) : poll ≠ .failed (.transport message) :=
    fun same => Decoder.answer_ne_transport (same ▸ found)
  have spent := Decoder.answer_spent going.growing.sound found
  cases poll with
  | pending => exact absurd rfl (Decoder.answer_ne_pending found)
  | event event =>
    obtain ⟨fewest, goes⟩ := going.event found left.queued
    simp only [Decoder.due_start, ← whole, ← taken] at fewest
    exact ⟨.event fewest, ⟨seen, whole, taken, .inl goes⟩, spent⟩
  | ended => exact comes_last going whole taken rfl carried (spent rfl)
  | failed error => exact comes_last going whole taken rfl carried (spent rfl)

variable (idles : decoder.answer = (none, idle))
include idles

theorem comes_pending (nothing : left.queued = []) (taken : left.taken = seen.length) :
    Comes maxLine resumeId retry seen given .pending ⟨idle, left⟩ := by
  obtain ⟨goes, settled, -⟩ := going.waits idles
  have whole : seen = seen ++ left.queued := by rw [nothing, List.append_nil]
  have faultless := Decoder.faultless_start _ _ _ _ settled.harmless
  refine ⟨.pending taken going.unbroken settled.dispatched faultless,
    ⟨seen, whole, taken, .inl ?_⟩, nofun⟩
  exact (List.append_nil given).symm ▸ goes

theorem comes_broken {message : String} (whole : arrived = seen ++ .failure message :: left.queued)
    (taken : left.taken = seen.length + 1) :
    Comes maxLine resumeId retry arrived given (.failed (.transport message))
      ⟨idle.fail, left⟩ := by
  obtain ⟨-, settled, -⟩ := going.waits idles
  have further : seen.length + 1 = (seen ++ [Arrival.failure message]).length := by
    rw [List.length_append, List.length_singleton]
  rw [List.append_cons] at whole
  have last : arrived.take left.taken = seen ++ [.failure message] := by
    rw [taken, further, whole, List.take_left]
  have spent : idle.fail.Spent := .failed rfl
  exact ⟨.broken last going.unbroken settled.dispatched,
    ⟨_, whole, taken.trans further, .inr ⟨spent, given_error going.faultless⟩⟩, fun _ => spent⟩

theorem comes_finished (past : left.ended = true) (nothing : left.queued = [])
    (taken : left.taken = seen.length) (found : idle.finish.answer = (some poll, next)) :
    Comes maxLine resumeId retry seen given poll ⟨next, left⟩ := by
  obtain ⟨goes, settled, unread⟩ := going.waits idles
  have whole : seen = seen ++ left.queued := by rw [nothing, List.append_nil]
  have carried (message : String) : poll ≠ .failed (.transport message) :=
    fun same => Decoder.answer_ne_transport (same ▸ found)
  have spent := Decoder.answer_spent goes.growing.sound.finish found
  cases poll with
  | pending => exact absurd rfl (Decoder.answer_ne_pending found)
  | event event =>
    obtain ⟨alone, spent, sooner⟩ := Decoder.finish_event going.growing idles found
    have behind (octet : UInt8) : given.filterMap Item.event? ++ [event] <+:
        OnePass.dispatched maxLine resumeId retry (Feed.content seen ++ [octet]) := by
      have comes := goes.due [.chunk [octet]]
      rw [Decoder.due_start, Feed.content_append going.unbroken] at comes
      exact comes ▸ (List.prefix_append_right_inj _).mpr (sooner octet)
    exact ⟨.last past taken going.unbroken settled.dispatched (unread.trans alone) behind,
      ⟨seen, whole, taken, .inr ⟨spent, given_error going.faultless⟩⟩, fun _ => spent⟩
  | ended => exact comes_last going whole taken rfl carried (spent rfl)
  | failed error => exact comes_last going whole taken rfl carried (spent rfl)

omit idles in
theorem comes_stops (whole : arrived = seen ++ rest)
    (counted : left.taken + left.queued.length = seen.length + rest.length)
    (stops : Decoder.Stops left.ended decoder rest poll next left.queued) :
    Comes maxLine resumeId retry arrived given poll ⟨next, left⟩ := by
  obtain ⟨queued, ended, taken⟩ := left
  dsimp only at counted stops
  cases stops with
  | answered found => exact comes_answered going whole (Nat.add_right_cancel counted) found
  | pending idles =>
    rw [List.append_nil] at whole
    exact whole ▸ comes_pending going idles rfl counted
  | finished idles past found =>
    rw [List.append_nil] at whole
    exact whole ▸ comes_finished going idles past rfl counted found
  | broken idles =>
    rw [List.length_cons, ← Nat.add_assoc, Nat.add_right_comm] at counted
    exact comes_broken going idles whole (Nat.add_right_cancel counted)

end Arms

theorem gives_poll (body : Body) :
    body.gives .poll = Decoder.given body.polled.1 body.polled.2.decoder := by
  rw [gives]
  cases body.polled.1 <;> rfl

section Stands

variable {body : Body} (stands : Stands maxLine resumeId retry arrived seen given body)
include stands

theorem Stands.arrive (arrival : Arrival) :
    Stands maxLine resumeId retry (arrived ++ [arrival]) seen given
      (body.step (.arrive arrival)) := by
  refine ⟨?_, stands.taken, stands.state⟩
  rw [stands.whole, List.append_assoc]
  rfl

theorem Stands.comes : Comes maxLine resumeId retry arrived given body.polled.1 body.polled.2 := by
  cases found : body.decoder.poll body.feed with
  | mk poll state =>
    obtain ⟨next, left⟩ := state
    rw [show body.polled = (poll, ⟨next, left⟩) by rw [polled, found]]
    have counted := Decoder.pollQueue_taken body.decoder body.feed.ended body.feed.taken
      body.feed.queued
    rw [← Decoder.poll, found] at counted
    obtain going | ⟨spent, single⟩ := stands.state
    · obtain ⟨polls, kept⟩ := Decoder.poll_polls going.growing.sound found
      obtain ⟨taken, reached, rest, queue, takes, stops⟩ := polls.stops going.growing
      have whole : arrived = (seen ++ taken) ++ rest := by
        rw [stands.whole, queue, List.append_assoc]
      have count : left.taken + left.queued.length = (seen ++ taken).length + rest.length := by
        rw [List.length_append, Nat.add_assoc, ← List.length_append, ← queue, ← stands.taken]
        exact counted
      exact comes_stops (going.takes takes) whole count (kept ▸ stops)
    · obtain ⟨after, ends, still, -⟩ := spent.poll body.feed
      cases found.symm.trans ends
      refine ⟨.ended, ⟨seen, stands.whole, stands.taken, .inr ⟨still, ?_⟩⟩, fun _ => still⟩
      rw [Decoder.given, List.append_nil]
      exact single

end Stands

theorem Stands.run {body : Body} (stands : Stands maxLine resumeId retry arrived seen given body)
    (steps : List Step) : ∃ seen, Stands maxLine resumeId retry (arrived ++ arrivals steps) seen
      (given ++ body.items steps) (body.run steps) := by
  induction steps generalizing body arrived seen given with
  | nil =>
    rw [arrivals, items, List.append_nil, List.append_nil]
    exact ⟨seen, stands⟩
  | cons step steps ih =>
    cases step with
    | arrive arrival =>
      rw [arrivals, List.append_cons]
      exact ih (stands.arrive arrival)
    | finish => exact @ih _ _ _ (body.step .finish) ⟨stands.whole, stands.taken, stands.state⟩
    | poll =>
      obtain ⟨seen, stands⟩ := stands.comes.stands
      rw [items, ← List.append_assoc, gives_poll]
      exact ih stands

theorem stands_fresh (maxLine : Option Nat) (resumeId : Bytes) (retry : Duration) :
    Stands maxLine resumeId retry [] [] [] (fresh maxLine resumeId retry) :=
  ⟨rfl, rfl, .inl (Decoder.going_start ⟨Decoder.sound_start maxLine resumeId retry, rfl⟩)⟩

theorem run_spent {body : Body} (spent : body.decoder.Spent) (steps : List Step) :
    (body.run steps).decoder.Spent ∧ (body.run steps).feed.taken = body.feed.taken ∧
      (body.run steps).decoder.Alike body.decoder := by
  induction steps generalizing body with
  | nil => exact ⟨spent, rfl, .refl _⟩
  | cons step steps ih =>
    cases step with
    | arrive arrival => exact @ih (body.step (.arrive arrival)) spent
    | finish => exact @ih (body.step .finish) spent
    | poll =>
      obtain ⟨next, ends, still, alike⟩ := spent.poll body.feed
      have stepped : body.step .poll = ⟨next, body.feed⟩ := by rw [step, polled, ends]
      obtain ⟨last, taken, same⟩ := @ih (body.step .poll) (stepped ▸ still)
      have untaken : (body.step .poll).feed.taken = body.feed.taken := by rw [stepped]
      have unmoved : (body.step .poll).decoder.Alike body.decoder := stepped ▸ alike
      exact ⟨last, taken.trans untaken, same.trans unmoved⟩

theorem fused_run {body : Body} (spent : body.decoder.Spent) (steps : List Step) :
    Fused body (body.run steps) := by
  obtain ⟨last, taken, same⟩ := run_spent spent steps
  obtain ⟨next, ends, -, alike⟩ := last.poll (body.run steps).feed
  have polled : (body.run steps).polled = (.ended, ⟨next, (body.run steps).feed⟩) := by
    rw [polled, ends]
  refine ⟨?_, ?_, ?_⟩
  · rw [polled]
  · rw [polled]
    exact taken
  · rw [polled]
    exact alike.trans same

/-- Whatever arrived and however it was polled, a poll takes in what it needs for its answer and no
more, at most one error is given, and behind an error or the end nothing moves. -/
theorem pulls_fewest (maxLine : Option Nat) (resumeId : Bytes) (retry : Duration)
    (steps : List Step) :
    let opened := fresh maxLine resumeId retry
    let body := opened.run steps
    let after := body.step .poll
    Prompt maxLine resumeId retry (arrivals steps) ((opened.items steps).filterMap Item.event?)
        after.feed body.polled.1 ∧
      (arrivals steps).drop after.feed.taken = after.feed.queued ∧
      ((opened.items steps).filterMap Item.error?).length ≤ 1 ∧
      (body.polled.1.isOver = true → ∀ later, Fused after (after.run later)) := by
  intro opened body after
  obtain ⟨seen, stands⟩ := (stands_fresh maxLine resumeId retry).run steps
  rw [List.nil_append, List.nil_append] at stands
  obtain ⟨prompt, ⟨now, further⟩, spent⟩ := stands.comes
  refine ⟨prompt, ?_, ?_, fun halts later => fused_run (spent halts) later⟩
  · have whole : arrivals steps = now ++ after.feed.queued := further.whole
    have taken : after.feed.taken = now.length := further.taken
    rw [whole, taken, List.drop_left]
  · obtain going | ⟨-, single⟩ := stands.state
    · rw [going.faultless]
      exact Nat.zero_le 1
    · exact single

/-- The blank line is decided by the line feed of the third arrival, and the fourth is left. -/
example :
    let steps := [.arrive (.chunk (Bytes.ofText "data:a\r\n\r")), .arrive (.chunk []),
      .arrive (.chunk (Bytes.ofText "\n")), .arrive (.chunk (Bytes.ofText "data:b\n\n"))]
    let body := (fresh none [] ⟨3⟩).run steps
    (body.polled.1, body.polled.2.feed.taken) = (.event ⟨[], [], [97]⟩, 3) := by
  decide +kernel

end Body

end EventStream
