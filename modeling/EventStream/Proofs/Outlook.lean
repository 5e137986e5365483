import EventStream.Proofs.OnePass

/-!
What a decoder will still give, told from the bytes that it holds and those still to come. A decoder
that takes bytes in changes nothing about it, and a poll gives its first item. So a decoder gives
what the one pass over the whole stream gives, wherever the stream is cut.
-/

namespace EventStream

open LineBuffer

/-- What reading a buffer comes to is a part of what any stream comes to that starts with it. -/
def Agrees (lines : LineBuffer) (record : Record) (last rest : Bytes) :
    Reading × LineBuffer × Record → Prop
  | (.event event, next, after) =>
    record.items lines.maxLine last (lines.bytes ++ rest).lines =
      ⟨.event event, event.id, after.retry⟩ ::
        after.items lines.maxLine event.id (next.bytes ++ rest).lines
  | (.failed error, _, after) =>
    record.items lines.maxLine last (lines.bytes ++ rest).lines =
      [⟨.failed error, last, after.retry⟩, ⟨.ended, last, after.retry⟩]
  | (.exhausted, next, after) =>
    record.items lines.maxLine last (lines.bytes ++ rest).lines =
      after.items lines.maxLine last (next.bytes ++ rest).lines

structure LineBuffer.Follows (next lines : LineBuffer) : Prop where
  scanned : next.Scanned
  maxLine : next.maxLine = lines.maxLine
  finished : next.finished = lines.finished
  shorter : next.bytes.length ≤ lines.bytes.length

theorem LineBuffer.Follows.trans {first second third : LineBuffer} (later : third.Follows second)
    (sooner : second.Follows first) : third.Follows first where
  scanned := later.scanned
  maxLine := later.maxLine.trans sooner.maxLine
  finished := later.finished.trans sooner.finished
  shorter := later.shorter.trans sooner.shorter

theorem nextLine_follows {lines next : LineBuffer} {scan : Scan} (scanned : lines.Scanned)
    (found : lines.nextLine = (scan, next)) : next.Follows lines := by
  have kept := nextLine_scanned scanned
  rw [found] at kept
  refine ⟨kept.1, kept.2.1, kept.2.2, ?_⟩
  cases scan with
  | line content => exact (nextLine_shorter found).le
  | more => rw [(nextLine_more scanned found).1]
  | tooLong limit => rw [nextLine_tooLong_bytes scanned found]

theorem readLines_follows {lines next : LineBuffer} {record after : Record} {reading : Reading}
    (scanned : lines.Scanned) (found : readLines lines record = (reading, next, after)) :
    next.Follows lines := by
  fun_induction readLines lines record with
  | case1 lines record limit rest taken => cases found; exact nextLine_follows scanned taken
  | case2 lines record rest taken => cases found; exact nextLine_follows scanned taken
  | case3 lines record content rest taken => cases found; exact nextLine_follows scanned taken
  | case4 lines record content rest taken => cases found; exact nextLine_follows scanned taken
  | case5 lines record content rest taken line _ after _ ih =>
    have first := nextLine_follows scanned taken
    exact (ih first.scanned found).trans first

theorem readLines_event {lines next : LineBuffer} {record after : Record} {event : Event}
    (scanned : lines.Scanned) (found : readLines lines record = (.event event, next, after)) :
    next.bytes.length < lines.bytes.length := by
  fun_induction readLines lines record with
  | case1 => cases found
  | case2 => cases found
  | case3 => cases found
  | case4 lines record content rest taken =>
    cases found
    exact nextLine_shorter taken
  | case5 lines record content rest taken line _ after _ ih =>
    exact (ih (nextLine_follows scanned taken).scanned found).trans (nextLine_shorter taken)

theorem readLines_exhausted {lines next : LineBuffer} {record after : Record}
    (scanned : lines.Scanned) (found : readLines lines record = (.exhausted, next, after))
    (past : lines.finished = true) : next.bytes = [] := by
  fun_induction readLines lines record with
  | case1 => cases found
  | case2 lines record rest taken =>
    cases found
    have kept := nextLine_more scanned taken
    rw [kept.1, kept.2 past]
  | case3 => cases found
  | case4 => cases found
  | case5 lines record content rest taken line _ after _ ih =>
    have first := nextLine_follows scanned taken
    exact ih first.scanned found (first.finished.trans past)

theorem readLines_empty {lines : LineBuffer} (empty : lines.bytes = []) (record : Record) :
    readLines lines record = (.exhausted, { lines with scanned := 0 }, record) := by
  have none : lines.nextLine = (.more, { lines with scanned := 0 }) := by
    unfold LineBuffer.nextLine LineBuffer.hold
    simp [empty, cutLine, LineBuffer.settled, LineBuffer.exceeded?]
  rw [readLines.eq_def]
  split
  next taken => cases none.symm.trans taken
  next taken => cases none.symm.trans taken; rfl
  next taken => cases none.symm.trans taken

theorem filter_exceeded {lines : LineBuffer} {length : Nat}
    (fits : lines.exceeded? length = none) : lines.maxLine.filter (· < length) = none := fits

/-- Reading a buffer goes the way of the one pass, as far as the buffer reaches. -/
theorem readLines_agrees {lines : LineBuffer} (scanned : lines.Scanned) (record : Record)
    (last rest : Bytes) (ended : lines.finished = true → rest = []) :
    Agrees lines record last rest (readLines lines record) := by
  fun_induction readLines lines record with
  | case1 lines record limit next taken =>
    obtain ⟨most, line, others, first, longer⟩ := nextLine_tooLong scanned taken ended
    have exceeds : lines.maxLine.filter (· < line.length) = some limit := by simp [most, longer]
    simp only [Agrees, first, Record.items, exceeds]
  | case2 lines record next taken =>
    simp only [Agrees, (nextLine_more scanned taken).1]
  | case3 lines record content next taken fault parsed =>
    obtain ⟨fits, first⟩ := nextLine_line scanned taken ended
    simp only [Agrees, first, Record.items, filter_exceeded fits, parsed, Except.map]
  | case4 lines record content next taken line parsed event after read =>
    obtain ⟨fits, first⟩ := nextLine_line scanned taken ended
    simp only [Agrees, first, Record.items, filter_exceeded fits, parsed, Except.map, read]
  | case5 lines record content next taken line parsed after read ih =>
    obtain ⟨fits, first⟩ := nextLine_line scanned taken ended
    have follows := nextLine_follows scanned taken
    have later := ih follows.scanned fun past => ended (follows.finished.symm.trans past)
    have whole : record.items lines.maxLine last (lines.bytes ++ rest).lines =
        after.items lines.maxLine last (next.bytes ++ rest).lines := by
      rw [first, Record.items]
      simp only [filter_exceeded fits, parsed, Except.map, read]
    rw [← follows.maxLine] at whole
    unfold Agrees at later ⊢
    rw [← follows.maxLine, whole]
    exact later

namespace OnePass

theorem marked_unmarked {bytes : Bytes} (marked : Decoder.marked? bytes = some true)
    (rest : Bytes) : unmarked (bytes ++ rest) = bytes.drop 3 ++ rest := by
  unfold Decoder.marked? at marked
  split at marked
  next starts =>
    obtain ⟨behind, rfl⟩ := List.isPrefixOf_iff_prefix.mp starts
    rfl
  next => split at marked <;> cases marked

theorem unmarked_of_take {bytes : Bytes} (other : bytes.take 3 ≠ byteOrderMark) :
    unmarked bytes = bytes := if_neg other

theorem unmarked_of_marked {bytes : Bytes} (unlike : Decoder.marked? bytes = some false)
    (rest : Bytes) : unmarked (bytes ++ rest) = bytes ++ rest := by
  unfold Decoder.marked? at unlike
  split at unlike
  next => cases unlike
  next notMark =>
    split at unlike
    next => cases unlike
    next notBegun =>
      apply unmarked_of_take
      intro same
      -- Either the three octets of the mark are in `bytes`, or `bytes` begins the mark.
      by_cases long : 3 ≤ bytes.length
      · rw [List.take_append_of_le_length long] at same
        exact notMark (List.isPrefixOf_iff_prefix.mpr (same ▸ List.take_prefix 3 bytes))
      · apply notBegun
        rw [List.isPrefixOf_iff_prefix, ← same, List.take_append]
        rw [List.take_of_length_le (by omega)]
        exact List.prefix_append _ _

theorem unmarked_of_open {bytes : Bytes} (undecided : Decoder.marked? bytes = none) :
    unmarked bytes = bytes := by
  unfold Decoder.marked? at undecided
  split at undecided
  next => cases undecided
  next notMark =>
    apply unmarked_of_take
    intro same
    exact notMark (List.isPrefixOf_iff_prefix.mpr (same ▸ List.take_prefix 3 bytes))

theorem plain_mark : Bytes.Plain byteOrderMark := by
  simp [byteOrderMark, Bytes.isBreak, Bytes.lineFeed, Bytes.carriageReturn]

theorem plain_undecided {bytes : Bytes} (undecided : Decoder.marked? bytes = none) :
    Bytes.Plain bytes := by
  unfold Decoder.marked? at undecided
  split at undecided
  next => cases undecided
  next =>
    split at undecided
    next begins =>
      have within := (List.isPrefixOf_iff_prefix.mp begins).subset
      exact fun octet inside => plain_mark octet (within inside)
    next => cases undecided

end OnePass

namespace Decoder

/-- Everything that the decoder will give if `rest` is what is still to come of the body before its
end. Once it knows of the end nothing more can come. -/
def outlook (decoder : Decoder) (rest : Bytes) : List Item :=
  let bytes := decoder.lines.bytes ++ if decoder.lines.finished then [] else rest
  match decoder.stage with
  | .failed => [⟨.ended, decoder.lastEventId, decoder.retry⟩]
  | .opening =>
    decoder.record.items decoder.lines.maxLine decoder.lastEventId (OnePass.unmarked bytes).lines
  | .reading => decoder.record.items decoder.lines.maxLine decoder.lastEventId bytes.lines

/-- What holds of every decoder: its buffer is what it says, and before the question of the mark is
settled the bytes leave it open. -/
structure Sound (decoder : Decoder) : Prop where
  scanned : decoder.lines.Scanned
  undecided : decoder.stage = .opening → marked? decoder.lines.bytes = none
  unfinished : decoder.stage = .opening → decoder.lines.finished = false

theorem sound_start (maxLine : Option Nat) (resumeId : Bytes) (retry : Duration) :
    (start maxLine resumeId retry).Sound :=
  ⟨scanned_fresh _ _ _, fun _ => rfl, fun _ => rfl⟩

theorem outlook_start (maxLine : Option Nat) (resumeId : Bytes) (retry : Duration) (rest : Bytes) :
    (start maxLine resumeId retry).outlook rest =
      OnePass.transcript maxLine resumeId retry rest :=
  OnePass.items_record maxLine resumeId (.start resumeId retry) (OnePass.unmarked rest).lines

theorem Sound.fail {decoder : Decoder} (sound : decoder.Sound) : decoder.fail.Sound :=
  ⟨sound.scanned, nofun, nofun⟩

theorem Sound.finish {decoder : Decoder} (sound : decoder.Sound) : decoder.finish.Sound :=
  ⟨sound.scanned.finish, nofun, nofun⟩

theorem Sound.accept {decoder : Decoder} (sound : decoder.Sound) (chunk : Bytes) :
    (decoder.accept chunk).Sound := by
  have pushed := sound.scanned.push chunk
  unfold Decoder.accept
  dsimp only
  split
  next opening =>
    split
    next => exact ⟨scanned_fresh _ _ _, nofun, nofun⟩
    next => exact ⟨pushed, nofun, nofun⟩
    next open_ => exact ⟨pushed, fun _ => open_, sound.unfinished⟩
  next other => exact ⟨pushed, fun opening => absurd opening other, sound.unfinished⟩

theorem outlook_accept {decoder : Decoder} (unfinished : decoder.lines.finished = false)
    (chunk rest : Bytes) :
    (decoder.accept chunk).outlook rest = decoder.outlook (chunk ++ rest) := by
  unfold Decoder.accept
  dsimp only
  split
  next opening =>
    split
    next marked =>
      have whole := OnePass.marked_unmarked marked rest
      simp only [LineBuffer.push, List.append_assoc] at whole
      simp [outlook, opening, unfinished, LineBuffer.push, LineBuffer.discard, whole]
      rfl
    next unlike =>
      have whole := OnePass.unmarked_of_marked unlike rest
      simp only [LineBuffer.push, List.append_assoc] at whole
      simp [outlook, opening, unfinished, LineBuffer.push, whole]
    next => simp [outlook, opening, unfinished, LineBuffer.push]
  next other =>
    cases stage : decoder.stage with
    | opening => exact absurd stage other
    | reading => simp [outlook, stage, unfinished, LineBuffer.push]
    | failed => simp [outlook, stage, retry]

theorem outlook_finish {decoder : Decoder} (sound : decoder.Sound)
    (working : decoder.stage ≠ .failed) (rest : Bytes) :
    decoder.finish.outlook rest = decoder.outlook [] := by
  cases stage : decoder.stage with
  | opening =>
    have whole := OnePass.unmarked_of_open (sound.undecided stage)
    simp [outlook, stage, Decoder.finish, LineBuffer.finish, whole]
  | reading => simp [outlook, stage, Decoder.finish, LineBuffer.finish]
  | failed => exact absurd stage working

structure Idles (decoder next : Decoder) : Prop where
  started : decoder.stage ≠ .failed
  unended : decoder.lines.finished = false
  sound : next.Sound
  working : next.stage ≠ .failed
  unfinished : next.lines.finished = false
  shorter : next.lines.bytes.length ≤ decoder.lines.bytes.length
  outlook : ∀ rest, next.outlook rest = decoder.outlook rest

structure Gives (poll : Poll) (decoder next : Decoder) : Prop where
  sound : next.Sound
  finished : next.lines.finished = decoder.lines.finished
  outlook : ∀ rest, decoder.outlook rest = ⟨poll, next.lastEventId, next.retry⟩ ::
    if poll = .ended then [] else next.outlook rest
  stays : poll = .ended → ∀ rest, next.outlook rest = decoder.outlook rest

/-- A bound on the number of polls before the end, the bytes to come left out. -/
def weight (decoder : Decoder) : Nat :=
  decoder.lines.bytes.length + if decoder.stage = .failed then 0 else 1

theorem outlook_reading {decoder : Decoder} (reading : decoder.stage = .reading) (rest : Bytes) :
    decoder.outlook rest = decoder.record.items decoder.lines.maxLine decoder.lastEventId
      (decoder.lines.bytes ++ if decoder.lines.finished then [] else rest).lines := by
  simp [outlook, reading]

theorem outlook_failed {decoder : Decoder} (failed : decoder.stage = .failed) (rest : Bytes) :
    decoder.outlook rest = [⟨.ended, decoder.lastEventId, decoder.retry⟩] := by
  simp [outlook, failed]

theorem answer_idles {decoder next : Decoder} (sound : decoder.Sound)
    (found : decoder.answer = (none, next)) : Idles decoder next := by
  unfold answer at found
  split at found
  next => cases found
  next opening =>
    cases found
    have unfinished := sound.unfinished opening
    exact ⟨by simp [opening], unfinished, sound, by simp [opening], unfinished, le_refl _,
      fun _ => rfl⟩
  next reading =>
    split at found
    next => cases found
    next => cases found
    next lines record read =>
      have follows := readLines_follows sound.scanned read
      simp only [Prod.mk.injEq, ite_eq_right_iff, reduceCtorEq, imp_false,
        Bool.not_eq_true] at found
      obtain ⟨unfinished, same⟩ := found
      have still : next.stage = .reading := by rw [← same, reading]
      refine ⟨by simp [reading], follows.finished.symm.trans unfinished,
        ⟨?_, by simp [still], by simp [still]⟩, by simp [still], ?_, ?_, ?_⟩
      · rw [← same]
        exact follows.scanned
      · rw [← same]
        exact unfinished
      · rw [← same]
        exact follows.shorter
      · intro rest
        have agrees := readLines_agrees sound.scanned decoder.record decoder.lastEventId rest
          (by simp [← follows.finished, unfinished])
        rw [read] at agrees
        rw [outlook_reading still, outlook_reading reading, ← same]
        simp only [follows.maxLine, ← follows.finished, unfinished]
        exact agrees.symm

/-- An answer is the first item of all that is still to come. -/
theorem answer_gives {decoder next : Decoder} {poll : Poll} (sound : decoder.Sound)
    (found : decoder.answer = (some poll, next)) : Gives poll decoder next := by
  unfold answer at found
  split at found
  next failed =>
    cases found
    exact ⟨sound, rfl, fun rest => outlook_failed failed rest, fun _ _ => rfl⟩
  next => cases found
  next reading =>
    have agrees (rest : Bytes) := readLines_agrees sound.scanned decoder.record
      decoder.lastEventId (if decoder.lines.finished then [] else rest) (by simp +contextual)
    split at found
    next event lines record read =>
      have follows := readLines_follows sound.scanned read
      simp only [Prod.mk.injEq, Option.some.injEq] at found
      obtain ⟨rfl, same⟩ := found
      have still : next.stage = .reading := by rw [← same, reading]
      refine ⟨⟨?_, by simp [still], by simp [still]⟩, ?_, ?_, nofun⟩
      · rw [← same]
        exact follows.scanned
      · rw [← same]
        exact follows.finished
      · intro rest
        have first := agrees rest
        rw [read] at first
        rw [outlook_reading reading, outlook_reading still, ← same]
        simp only [follows.maxLine, follows.finished, reduceCtorEq, if_false]
        exact first
    next error lines record read =>
      have follows := readLines_follows sound.scanned read
      simp only [Prod.mk.injEq, Option.some.injEq] at found
      obtain ⟨rfl, same⟩ := found
      have past : next.stage = .failed := by rw [← same]
      refine ⟨⟨?_, by simp [past], by simp [past]⟩, ?_, ?_, nofun⟩
      · rw [← same]
        exact follows.scanned
      · rw [← same]
        exact follows.finished
      · intro rest
        have first := agrees rest
        rw [read] at first
        rw [outlook_reading reading, outlook_failed past, ← same]
        simp only [reduceCtorEq, if_false]
        exact first
    next lines record read =>
      have follows := readLines_follows sound.scanned read
      split at found
      next finished =>
        simp only [Prod.mk.injEq, Option.some.injEq] at found
        obtain ⟨rfl, same⟩ := found
        have still : next.stage = .reading := by rw [← same, reading]
        have past : decoder.lines.finished = true := follows.finished.symm.trans finished
        have empty := readLines_exhausted sound.scanned read past
        have whole (rest : Bytes) : decoder.outlook rest = next.outlook rest := by
          have first := agrees rest
          rw [read] at first
          rw [outlook_reading reading, outlook_reading still, ← same]
          simp only [past, finished, follows.maxLine, if_true] at first ⊢
          exact first
        refine ⟨⟨?_, by simp [still], by simp [still]⟩, ?_, ?_, fun _ rest => (whole rest).symm⟩
        · rw [← same]
          exact follows.scanned
        · rw [← same]
          exact follows.finished
        · intro rest
          rw [whole, outlook_reading still, ← same, if_pos rfl]
          simp only [empty, finished, if_true]
          rfl
      next => cases found

theorem answer_ne_pending {decoder next : Decoder} {poll : Poll}
    (found : decoder.answer = (some poll, next)) : poll ≠ .pending := by
  rintro rfl
  unfold answer at found
  split at found
  next => cases found
  next => cases found
  next =>
    split at found
    next => cases found
    next => cases found
    next => split at found <;> cases found

theorem answer_weight {decoder next : Decoder} {poll : Poll} (sound : decoder.Sound)
    (found : decoder.answer = (some poll, next)) (more : poll ≠ .ended) :
    next.weight < decoder.weight := by
  unfold answer at found
  split at found
  next => cases found; exact absurd rfl more
  next => cases found
  next reading =>
    split at found
    next event lines record read =>
      cases found
      have shorter := readLines_event sound.scanned read
      simpa [weight, reading] using shorter
    next error lines record read =>
      have follows := readLines_follows sound.scanned read
      cases found
      have shorter := follows.shorter
      simp only [weight, reading, reduceCtorEq, if_false, if_true]
      omega
    next =>
      split at found
      next => cases found; exact absurd rfl more
      next => cases found

end Decoder

end EventStream
