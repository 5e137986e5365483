import EventStream.Proofs.Decided
import EventStream.Proofs.Decoding

/-!
How a stream is cut does not show, also when it does not end. What a decoder will still give, when
these arrivals come and then no more, is told from its bytes and theirs. A poll moves its item from
what is to come to what was given, and what it leaves unread is what the decided lines leave.
-/

namespace EventStream

def Poll.isFault : Poll → Bool
  | .failed (.utf8 _) | .failed (.lineTooLong _) => true
  | _ => false

namespace Decoder

theorem marked?_append {bytes : Bytes} {marked : Bool} (settled : marked? bytes = some marked)
    (rest : Bytes) : marked? (bytes ++ rest) = some marked := by
  unfold marked? at settled
  split at settled
  next starts =>
    cases settled
    have longer := (List.isPrefixOf_iff_prefix.mp starts).trans (List.prefix_append bytes rest)
    rw [marked?, if_pos (List.isPrefixOf_iff_prefix.mpr longer)]
  next notMark =>
    split at settled
    next => cases settled
    next notBegun =>
      cases settled
      have unbegun : ¬(bytes ++ rest).isPrefixOf byteOrderMark := by
        intro begins
        apply notBegun
        rw [List.isPrefixOf_iff_prefix] at begins ⊢
        exact (List.prefix_append bytes rest).trans begins
      have unmarked : ¬byteOrderMark.isPrefixOf (bytes ++ rest) := by
        intro starts
        rw [List.isPrefixOf_iff_prefix] at starts notMark notBegun
        have within := List.prefix_append bytes rest
        rcases List.prefix_or_prefix_of_prefix starts within with mark | begun
        · exact notMark mark
        · exact notBegun begun
      rw [marked?, if_neg unmarked, if_neg unbegun]

/-- Everything that the decoder will give when these arrivals come and the stream then stays
open. -/
def prospect (decoder : Decoder) (arrivals : List Arrival) : List Item :=
  let bytes := decoder.lines.bytes ++ Feed.content arrivals
  let sequel := Sequel.ofArrivals arrivals
  match decoder.stage with
  | .failed => [⟨.ended, decoder.lastEventId, decoder.retry⟩]
  | .opening =>
    if marked? bytes = none then sequel.items decoder.lastEventId decoder.retry
    else decoder.record.suspended decoder.lines.maxLine decoder.lastEventId
      (OnePass.unmarked bytes) sequel
  | .reading =>
    decoder.record.suspended decoder.lines.maxLine decoder.lastEventId bytes sequel

/-- The bytes that will be left unread then, unless the decoder finds fault with a line. -/
def leftover (decoder : Decoder) (arrivals : List Arrival) : Bytes :=
  let bytes := decoder.lines.bytes ++ Feed.content arrivals
  match decoder.stage with
  | .failed => decoder.lines.bytes
  | .opening => OnePass.unread bytes
  | .reading => bytes.decided.2

structure Growing (decoder : Decoder) : Prop where
  sound : decoder.Sound
  unfinished : decoder.lines.finished = false

theorem prospect_failed {decoder : Decoder} (failed : decoder.stage = .failed)
    (arrivals : List Arrival) :
    decoder.prospect arrivals = [⟨.ended, decoder.lastEventId, decoder.retry⟩] ∧
      decoder.leftover arrivals = decoder.lines.bytes := by
  simp [prospect, leftover, failed]

theorem prospect_reading {decoder : Decoder} (reading : decoder.stage = .reading)
    (arrivals : List Arrival) :
    decoder.prospect arrivals = decoder.record.suspended decoder.lines.maxLine decoder.lastEventId
        (decoder.lines.bytes ++ Feed.content arrivals) (Sequel.ofArrivals arrivals) ∧
      decoder.leftover arrivals = (decoder.lines.bytes ++ Feed.content arrivals).decided.2 := by
  simp [prospect, leftover, reading]

theorem Growing.accept {decoder : Decoder} (growing : decoder.Growing) (chunk : Bytes) :
    (decoder.accept chunk).Growing := by
  refine ⟨growing.sound.accept chunk, ?_⟩
  have unfinished := growing.unfinished
  unfold Decoder.accept
  dsimp only
  split
  next => split <;> exact unfinished
  next => exact unfinished

theorem Growing.fail {decoder : Decoder} (growing : decoder.Growing) : decoder.fail.Growing :=
  ⟨growing.sound.fail, growing.unfinished⟩

theorem prospect_accept (decoder : Decoder) (working : decoder.stage ≠ .failed) (chunk : Bytes)
    (arrivals : List Arrival) :
    (decoder.accept chunk).prospect arrivals = decoder.prospect (.chunk chunk :: arrivals) ∧
      (decoder.accept chunk).leftover arrivals = decoder.leftover (.chunk chunk :: arrivals) := by
  have bytes : decoder.lines.bytes ++ Feed.content (.chunk chunk :: arrivals) =
      (decoder.lines.push chunk).bytes ++ Feed.content arrivals := by
    simp [Feed.content, LineBuffer.push]
  have sequel : Sequel.ofArrivals (.chunk chunk :: arrivals) = Sequel.ofArrivals arrivals := rfl
  unfold Decoder.accept
  dsimp only
  cases stage : decoder.stage with
  | failed => exact absurd stage working
  | reading =>
    simp only [prospect, leftover, stage, bytes, sequel]
    exact ⟨rfl, trivial⟩
  | opening =>
    simp only [prospect, leftover, stage, bytes, sequel]
    cases settled : marked? (decoder.lines.push chunk).bytes with
    | none => exact ⟨rfl, rfl⟩
    | some marked =>
      have known := marked?_append settled (Feed.content arrivals)
      cases marked with
      | true =>
        have whole := OnePass.marked_unmarked settled (Feed.content arrivals)
        simp only [OnePass.unread, known, reduceCtorEq, if_false, whole]
        exact ⟨rfl, rfl⟩
      | false =>
        have whole := OnePass.unmarked_of_marked settled (Feed.content arrivals)
        simp only [OnePass.unread, known, reduceCtorEq, if_false, whole]
        exact ⟨rfl, trivial⟩

/-- The decoder has read all that is decided, and none of it brought anything. -/
structure Waits (decoder next : Decoder) : Prop where
  growing : next.Growing
  working : next.stage ≠ .failed
  prospect : ∀ arrivals, next.prospect arrivals = decoder.prospect arrivals
  leftover : ∀ arrivals, next.leftover arrivals = decoder.leftover arrivals
  nothing : ∀ arrivals, Feed.content arrivals = [] →
    next.prospect arrivals =
        (Sequel.ofArrivals arrivals).items next.lastEventId next.retry ∧
      next.leftover arrivals = next.lines.bytes

theorem answer_waits {decoder next : Decoder} (growing : decoder.Growing)
    (found : decoder.answer = (none, next)) : Waits decoder next := by
  have kept := answer_idles growing.sound found
  have grown : next.Growing := ⟨kept.sound, kept.unfinished⟩
  unfold answer at found
  split at found
  next => cases found
  next opening =>
    cases found
    have undecided := growing.sound.undecided opening
    refine ⟨grown, kept.working, fun _ => rfl, fun _ => rfl, ?_⟩
    intro arrivals empty
    simp [Decoder.prospect, Decoder.leftover, OnePass.unread, opening, empty, undecided]
  next reading =>
    split at found
    next => cases found
    next => cases found
    next lines record read =>
      have foretells (sequel : Sequel) (rest : Bytes) := readLines_foretells growing.sound.scanned
        growing.unfinished sequel decoder.record decoder.lastEventId rest
      have maxLine := (readLines_follows growing.sound.scanned read).maxLine
      simp only [Prod.mk.injEq, ite_eq_right_iff, reduceCtorEq, imp_false,
        Bool.not_eq_true] at found
      obtain ⟨unfinished, same⟩ := found
      have still : next.stage = .reading := by rw [← same, reading]
      rw [read] at foretells
      refine ⟨grown, kept.working, ?_, ?_, ?_⟩
      · intro arrivals
        rw [(prospect_reading still arrivals).1, (prospect_reading reading arrivals).1, ← same,
          maxLine]
        exact (foretells _ _).1.symm
      · intro arrivals
        rw [(prospect_reading still arrivals).2, (prospect_reading reading arrivals).2, ← same]
        exact (foretells .stays _).2.1
      · intro arrivals empty
        obtain ⟨-, -, missed, fits⟩ := foretells .stays []
        rw [(prospect_reading still arrivals).1, (prospect_reading still arrivals).2, ← same, empty,
          List.append_nil, Bytes.decided_none missed, maxLine, Record.suspended,
          Bytes.decided_none missed]
        simp only [Record.items, OnePass.goOn, OnePass.behind, fits]
        exact ⟨rfl, trivial⟩

def given (poll : Poll) (next : Decoder) : List Item :=
  match poll with
  | .pending | .ended => []
  | poll => [⟨poll, next.lastEventId, next.retry⟩]

structure Yields (poll : Poll) (decoder next : Decoder) : Prop where
  growing : next.Growing
  some : poll ≠ .pending
  prospect : ∀ arrivals, decoder.prospect arrivals = given poll next ++ next.prospect arrivals
  leftover : poll.isFault = false → ∀ arrivals, next.leftover arrivals = decoder.leftover arrivals
  last : poll = .ended → next.stage = .failed

theorem answer_yields {decoder next : Decoder} {poll : Poll} (growing : decoder.Growing)
    (found : decoder.answer = (some poll, next)) : Yields poll decoder next := by
  have some := answer_ne_pending found
  have gives := answer_gives growing.sound found
  have grown : next.Growing := ⟨gives.sound, gives.finished.trans growing.unfinished⟩
  unfold answer at found
  split at found
  next failed =>
    cases found
    exact ⟨growing, some, fun _ => rfl, fun _ _ => rfl, fun _ => failed⟩
  next => cases found
  next reading =>
    have foretells (sequel : Sequel) (rest : Bytes) := readLines_foretells growing.sound.scanned
      growing.unfinished sequel decoder.record decoder.lastEventId rest
    split at found
    next event lines record read =>
      have maxLine := (readLines_follows growing.sound.scanned read).maxLine
      simp only [Prod.mk.injEq, Option.some.injEq] at found
      obtain ⟨rfl, same⟩ := found
      have still : next.stage = .reading := by rw [← same, reading]
      rw [read] at foretells
      refine ⟨grown, some, ?_, ?_, nofun⟩
      · intro arrivals
        rw [(prospect_reading still arrivals).1, (prospect_reading reading arrivals).1, ← same,
          maxLine]
        exact (foretells _ _).1
      · intro _ arrivals
        rw [(prospect_reading still arrivals).2, (prospect_reading reading arrivals).2, ← same]
        exact (foretells .stays _).2
    next error lines record read =>
      simp only [Prod.mk.injEq, Option.some.injEq] at found
      obtain ⟨rfl, same⟩ := found
      have past : next.stage = .failed := by rw [← same]
      rw [read] at foretells
      refine ⟨grown, some, ?_, ?_, nofun⟩
      · intro arrivals
        rw [(prospect_reading reading arrivals).1, (prospect_failed past arrivals).1, ← same]
        exact foretells _ _
      · intro harmless
        cases error with
        | transport message => exact absurd read (readLines_ne_transport _ _ _ _ _)
        | utf8 fault => cases harmless
        | lineTooLong limit => cases harmless
    next lines record read =>
      have follows := readLines_follows growing.sound.scanned read
      split at found
      next finished =>
        cases (follows.finished.symm.trans finished).symm.trans growing.unfinished
      next => cases found

structure Brings (poll : Poll) (decoder : Decoder) (queue : List Arrival) (next : Decoder)
    (left : List Arrival) : Prop where
  growing : next.Growing
  prospect : ∀ arrivals,
    decoder.prospect (queue ++ arrivals) = given poll next ++ next.prospect (left ++ arrivals)
  leftover : poll.isFault = false →
    ∀ arrivals, next.leftover (left ++ arrivals) = decoder.leftover (queue ++ arrivals)
  last : poll = .pending ∨ poll = .ended →
    next.prospect left = [⟨poll, next.lastEventId, next.retry⟩] ∧
      next.leftover left = next.lines.bytes

theorem Polls.brings {ended : Bool} {decoder next : Decoder} {queue left : List Arrival}
    {poll : Poll} (polls : Polls ended decoder queue poll next left) (unended : ended = false)
    (growing : decoder.Growing) : Brings poll decoder queue next left := by
  induction polls with
  | answered found =>
    have yields := answer_yields growing found
    refine ⟨yields.growing, fun _ => yields.prospect _,
      fun harmless _ => yields.leftover harmless _, ?_⟩
    rintro (waits | past)
    · exact absurd waits yields.some
    · rw [past]
      exact prospect_failed (yields.last past) _
  | pending idle =>
    have waits := answer_waits growing idle
    exact ⟨waits.growing, fun _ => (waits.prospect _).symm, fun _ _ => waits.leftover _,
      fun _ => waits.nothing [] rfl⟩
  | finished _ past => cases unended.symm.trans past
  | @broken decoder idle message rest idles =>
    have waits := answer_waits growing idles
    have failed : idle.fail.stage = .failed := rfl
    refine ⟨waits.growing.fail, ?_, ?_, by simp⟩
    · intro arrivals
      rw [← waits.prospect, (waits.nothing _ rfl).1, (prospect_failed failed _).1]
      rfl
    · intro _ arrivals
      rw [← waits.leftover, (waits.nothing _ rfl).2, (prospect_failed failed _).2]
      rfl
  | @chunk decoder idle next bytes rest left poll idles _ ih =>
    have waits := answer_waits growing idles
    have brings := ih (waits.growing.accept bytes)
    have accepts (arrivals : List Arrival) := prospect_accept idle waits.working bytes arrivals
    refine ⟨brings.growing, ?_, ?_, brings.last⟩
    · intro arrivals
      rw [← brings.prospect, (accepts _).1, waits.prospect]
      rfl
    · intro harmless arrivals
      rw [brings.leftover harmless, (accepts _).2, waits.leftover]
      rfl

structure Settles (decoder : Decoder) (arrivals : List Arrival) (polled : List Polled) : Prop where
  items : polled.map Polled.item = decoder.prospect arrivals
  last : ∃ last, polled.getLast? = some last ∧ (last.poll = .pending ∨ last.poll = .ended) ∧
    ((∀ given ∈ polled, given.poll.isFault = false) →
      last.decoder.lines.bytes = decoder.leftover arrivals)

section Settles

variable {decoder next : Decoder} {queue : List Arrival} {left : Feed} {poll : Poll}

theorem Brings.settles_last (brings : Brings poll decoder queue next left.queued)
    (past : poll = .pending ∨ poll = .ended) : Settles decoder queue [⟨poll, next, left⟩] := by
  obtain ⟨item, rest⟩ := brings.last past
  have nothing : given poll next = [] := by rcases past with rfl | rfl <;> rfl
  have harmless : poll.isFault = false := by rcases past with rfl | rfl <;> rfl
  have prospect := brings.prospect []
  have leftover := brings.leftover harmless []
  rw [List.append_nil, List.append_nil] at prospect leftover
  refine ⟨?_, ⟨poll, next, left⟩, rfl, past, fun _ => rest.symm.trans leftover⟩
  rw [prospect, nothing, item]
  rfl

theorem Brings.settles_cons (brings : Brings poll decoder queue next left.queued)
    (more : given poll next = [⟨poll, next.lastEventId, next.retry⟩]) {polled : List Polled}
    (later : Settles next left.queued polled) :
    Settles decoder queue (⟨poll, next, left⟩ :: polled) := by
  obtain ⟨last, found, past, rest⟩ := later.last
  have prospect := brings.prospect []
  rw [List.append_nil, List.append_nil] at prospect
  refine ⟨?_, last, by rw [List.getLast?_cons, found]; rfl, past, ?_⟩
  · rw [prospect, more, ← later.items]
    rfl
  · intro harmless
    rw [List.forall_mem_cons] at harmless
    have leftover := brings.leftover harmless.1 []
    rw [List.append_nil, List.append_nil] at leftover
    exact (rest harmless.2).trans leftover

end Settles

theorem polls_settles {limit : Nat} {decoder : Decoder} {feed : Feed} (growing : decoder.Growing)
    (unended : feed.ended = false)
    (enough : decoder.weight + Feed.byteCount feed.queued < limit) :
    Settles decoder feed.queued (polls limit decoder feed) := by
  induction limit generalizing decoder feed with
  | zero => omega
  | succ limit ih =>
    unfold polls
    cases found : decoder.poll feed with
    | mk poll state =>
      obtain ⟨next, left⟩ := state
      obtain ⟨polls, kept⟩ := poll_polls growing.sound found
      have brings := polls.brings unended growing
      have later (given : poll ≠ .pending) (more : poll ≠ .ended) :
          Settles next left.queued (Decoder.polls limit next left) := by
        have nearer := polls.weight growing.sound given more
        exact ih brings.growing (kept.trans unended) (by omega)
      cases poll with
      | pending => exact brings.settles_last (.inl rfl)
      | ended => exact brings.settles_last (.inr rfl)
      | event event => exact brings.settles_cons rfl (later (by simp) (by simp))
      | failed error => exact brings.settles_cons rfl (later (by simp) (by simp))

theorem drain_settles {decoder : Decoder} {feed : Feed} (growing : decoder.Growing)
    (unended : feed.ended = false) : Settles decoder feed.queued (decoder.drain feed) := by
  apply polls_settles growing unended
  unfold Decoder.weight
  split <;> omega

end Decoder

namespace Sequel

def arrivals : Sequel → List Arrival
  | .stays => []
  | .breaks message => [.failure message]

theorem behind_chunks (sequel : Sequel) (chunks : List Bytes) :
    Feed.content (chunks.map .chunk ++ sequel.arrivals) = chunks.flatten ∧
      ofArrivals (chunks.map .chunk ++ sequel.arrivals) = sequel := by
  induction chunks with
  | nil => cases sequel <;> exact ⟨rfl, rfl⟩
  | cons chunk chunks ih =>
    refine ⟨?_, ih.2⟩
    rw [List.map_cons, List.cons_append, Feed.content, ih.1, List.flatten_cons]

end Sequel

namespace OnePass

theorem prospect_start (maxLine : Option Nat) (resumeId : Bytes) (retry : Duration)
    (arrivals : List Arrival) :
    (Decoder.start maxLine resumeId retry).prospect arrivals =
        suspended maxLine resumeId retry (Feed.content arrivals) (Sequel.ofArrivals arrivals) ∧
      (Decoder.start maxLine resumeId retry).leftover arrivals =
        unread (Feed.content arrivals) := by
  refine ⟨?_, rfl⟩
  unfold suspended
  dsimp only
  rw [← items_record]
  rfl

end OnePass

namespace Body

structure Unended (body : Body) : Prop where
  growing : body.decoder.Growing
  unended : body.feed.ended = false

def prospect (body : Body) (arrivals : List Arrival) : List Item :=
  body.decoder.prospect (body.feed.queued ++ arrivals)

def leftover (body : Body) (arrivals : List Arrival) : Bytes :=
  body.decoder.leftover (body.feed.queued ++ arrivals)

def Harmless (items : List Item) : Prop := ∀ item ∈ items, item.poll.isFault = false

structure Gave (body next : Body) (arrived : List Arrival) (items : List Item) : Prop where
  unended : next.Unended
  prospect : ∀ arrivals, body.prospect (arrived ++ arrivals) = items ++ next.prospect arrivals
  leftover : Harmless items →
    ∀ arrivals, next.leftover arrivals = body.leftover (arrived ++ arrivals)

theorem Gave.trans {first second third : Body} {sooner later : List Arrival}
    {before behind : List Item} (gave : Gave first second sooner before)
    (further : Gave second third later behind) :
    Gave first third (sooner ++ later) (before ++ behind) := by
  refine ⟨further.unended, ?_, ?_⟩
  · intro arrivals
    rw [List.append_assoc, gave.prospect, further.prospect, List.append_assoc]
  · intro harmless arrivals
    have both := List.forall_mem_append.mp harmless
    rw [further.leftover both.2, gave.leftover both.1, List.append_assoc]

variable {body : Body}

theorem gave_arrive (unended : body.Unended) (arrival : Arrival) :
    Gave body (body.step (.arrive arrival)) [arrival] [] := by
  refine ⟨⟨unended.growing, unended.unended⟩, ?_, ?_⟩
  · intro arrivals
    simp [prospect, step, Feed.push]
  · intro _ arrivals
    simp [leftover, step, Feed.push]

theorem gave_poll (unended : body.Unended) :
    Gave body (body.step .poll) [] (body.gives .poll) := by
  cases found : body.decoder.poll body.feed with
  | mk poll state =>
    obtain ⟨next, left⟩ := state
    obtain ⟨polls, kept⟩ := Decoder.poll_polls unended.growing.sound found
    have brings := polls.brings unended.unended unended.growing
    have item : body.gives .poll = Decoder.given poll next := by
      rw [gives, polled, found]
      cases poll <;> rfl
    have stepped : body.step .poll = ⟨next, left⟩ := by rw [step, polled, found]
    rw [item, stepped]
    refine ⟨⟨brings.growing, kept.trans unended.unended⟩, brings.prospect, ?_⟩
    intro harmless
    apply brings.leftover
    cases poll with
    | failed error => exact harmless _ List.mem_cons_self
    | _ => rfl

theorem gave_schedule (unended : body.Unended) (turns : List (Option Bytes)) :
    Gave body (body.run (schedule turns)) ((turns.filterMap id).map .chunk)
      (body.items (schedule turns)) := by
  induction turns generalizing body with
  | nil => exact ⟨unended, fun _ => rfl, fun _ _ => rfl⟩
  | cons turn turns ih =>
    cases turn with
    | some bytes =>
      have first := gave_arrive unended (.chunk bytes)
      exact first.trans (ih first.unended)
    | none =>
      have first := gave_poll unended
      exact first.trans (ih first.unended)

def behind (body : Body) (turns : List (Option Bytes)) (sequel : Sequel) : Body :=
  (body.run (schedule turns)).run (sequel.arrivals.map .arrive)

theorem gave_behind (unended : body.Unended) (turns : List (Option Bytes)) (sequel : Sequel) :
    Gave body (body.behind turns sequel) ((turns.filterMap id).map .chunk ++ sequel.arrivals)
      (body.items (schedule turns)) := by
  have gave := gave_schedule unended turns
  cases sequel with
  | stays =>
    rw [Sequel.arrivals, List.append_nil]
    exact gave
  | breaks message =>
    have last := gave.trans (gave_arrive gave.unended (.failure message))
    rwa [List.append_nil] at last

def settle (body : Body) (turns : List (Option Bytes)) (sequel : Sequel) : List Decoder.Polled :=
  (body.behind turns sequel).decoder.drain (body.behind turns sequel).feed

/-- All items of a schedule and of the polls behind it. The last one tells that there are no more,
for now or for good. -/
def course (body : Body) (turns : List (Option Bytes)) (sequel : Sequel) : List Item :=
  body.items (schedule turns) ++ (body.settle turns sequel).map Decoder.Polled.item

def remains (body : Body) (turns : List (Option Bytes)) (sequel : Sequel) : Option Decoder :=
  (body.settle turns sequel).getLast?.map Decoder.Polled.decoder

theorem unended_fresh (maxLine : Option Nat) (resumeId : Bytes) (retry : Duration) :
    (fresh maxLine resumeId retry).Unended :=
  ⟨⟨Decoder.sound_start maxLine resumeId retry, rfl⟩, rfl⟩

/-- However a stream is cut that does not end, and whenever it is polled on the way, the items are
those of the one pass over its bytes, and the bytes that it cannot read yet are left. -/
theorem course_suspended (maxLine : Option Nat) (resumeId : Bytes) (retry : Duration)
    (turns : List (Option Bytes)) (sequel : Sequel) :
    let opened := fresh maxLine resumeId retry
    let bytes := (turns.filterMap id).flatten
    opened.course turns sequel = OnePass.suspended maxLine resumeId retry bytes sequel ∧
      ∃ last, (opened.course turns sequel).getLast? = some last ∧
        (last.poll = .pending ∨ last.poll = .ended) ∧
        ∃ decoder, opened.remains turns sequel = some decoder ∧
          (Harmless (opened.course turns sequel) →
            decoder.lines.bytes = OnePass.unread bytes) := by
  intro opened bytes
  have gave := gave_behind (unended_fresh maxLine resumeId retry) turns sequel
  have settles := Decoder.drain_settles gave.unended.growing gave.unended.unended
  have prospect := gave.prospect []
  have leftover := fun harmless => gave.leftover harmless []
  obtain ⟨content, follows⟩ := sequel.behind_chunks (turns.filterMap id)
  obtain ⟨items, rest⟩ := OnePass.prospect_start maxLine resumeId retry
    ((turns.filterMap id).map .chunk ++ sequel.arrivals)
  rw [content, follows] at items
  rw [content] at rest
  rw [List.append_nil, Body.prospect, Body.prospect, List.append_nil, ← settles.items] at prospect
  obtain ⟨last, found, past, left⟩ := settles.last
  refine ⟨prospect.symm.trans items, last.item, ?_, past, last.decoder, ?_, ?_⟩
  · rw [course, settle, List.getLast?_append, List.getLast?_map, found]
    rfl
  · rw [remains, settle, found]
    rfl
  · intro harmless
    obtain ⟨before, further⟩ := List.forall_mem_append.mp harmless
    rw [left fun given inside => further given.item (List.mem_map_of_mem inside)]
    have same := leftover before
    rw [List.append_nil, Body.leftover, Body.leftover, List.append_nil] at same
    exact same.trans rest

/-- Two ways to cut a stream that does not end, with polls in between at any time. The items are the
same, with the id and the interval that is reported after each, also after the last, which tells
that there are no more. If no line was at fault the same bytes are left. -/
theorem cuts_agree (maxLine : Option Nat) (resumeId : Bytes) (retry : Duration) (sequel : Sequel)
    {first second : List (Option Bytes)}
    (same : (first.filterMap id).flatten = (second.filterMap id).flatten) :
    let opened := fresh maxLine resumeId retry
    opened.course first sequel = opened.course second sequel ∧
      (∃ last, (opened.course first sequel).getLast? = some last ∧
        (last.poll = .pending ∨ last.poll = .ended)) ∧
      ∃ one other, opened.remains first sequel = some one ∧
        opened.remains second sequel = some other ∧
        (Harmless (opened.course first sequel) → one.lines.bytes = other.lines.bytes) := by
  intro opened
  obtain ⟨items, last, found, past, one, remains, rest⟩ :=
    course_suspended maxLine resumeId retry first sequel
  obtain ⟨others, _, _, _, other, remains', rest'⟩ :=
    course_suspended maxLine resumeId retry second sequel
  rw [← same] at others rest'
  have agree : opened.course first sequel = opened.course second sequel :=
    items.trans others.symm
  refine ⟨agree, ⟨last, found, past⟩, one, other, remains, remains', ?_⟩
  intro harmless
  exact (rest harmless).trans (rest' (agree ▸ harmless)).symm

/-- The bytes `EF BB BF`, `data:a`, a blank line and `retry:7`, each line end but the last with two
bytes, at once and in pieces that part the mark and a line end. -/
theorem cuts_agree_parted :
    let whole := [some ([239, 187, 191] ++ Bytes.ofText "data:a\r\n\r\nretry:7\r")]
    let parted := [some [239], none, some [187], some [], some ([191] ++ Bytes.ofText "data:a\r"),
      none, some (Bytes.ofText "\n\r"), none, some (Bytes.ofText "\nretry:7\r"), none]
    let opened := fresh (some 9) [] ⟨3⟩
    let sequel := Sequel.breaks "reset"
    (opened.course parted sequel).length = 3 ∧
      opened.course whole sequel = opened.course parted sequel ∧
      ∃ one other, opened.remains whole sequel = some one ∧
        opened.remains parted sequel = some other ∧ one.lines.bytes = other.lines.bytes := by
  intro whole parted opened sequel
  obtain ⟨items, -, one, other, remains, remains', rest⟩ :=
    @cuts_agree (some 9) [] ⟨3⟩ sequel whole parted (by decide +kernel)
  refine ⟨by decide +kernel, items, one, other, remains, remains', rest ?_⟩
  unfold Harmless
  decide +kernel

end Body

end EventStream
