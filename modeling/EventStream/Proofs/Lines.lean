import EventStream.LineBuffer

/-!
The lines of a whole stream, and how a buffer that sees the stream piece by piece gives out the same
ones. What a buffer gives out holds whatever arrives later: a line is the first of every stream that
starts with the buffer, and a line over the limit stays over it.
-/

namespace EventStream

namespace Bytes

def isBreak (octet : UInt8) : Prop := octet = lineFeed ∨ octet = carriageReturn

def Plain (bytes : Bytes) : Prop := ∀ octet ∈ bytes, ¬isBreak octet

/-- The lines of a whole stream, where `begun` is what was read of the first one already. A rest
without a line end is a line too, unless it is empty. -/
def linesFrom (begun : Bytes) : Bytes → List Bytes
  | [] => if begun = [] then [] else [begun]
  | octet :: rest =>
    if octet = lineFeed then begun :: linesFrom [] rest
    else if octet = carriageReturn then
      match rest with
      | [] => [begun]
      | next :: beyond =>
        if next = lineFeed then begun :: linesFrom [] beyond
        else begun :: linesFrom [] (next :: beyond)
    else linesFrom (begun ++ [octet]) rest

/-- The lines of a whole stream, each of them up to the first line feed, carriage return, or
carriage return with a line feed behind it. -/
def lines (bytes : Bytes) : List Bytes := linesFrom [] bytes

@[simp] theorem plain_nil : Plain [] := by
  intro octet member
  cases member

@[simp] theorem plain_cons {octet : UInt8} {rest : Bytes} :
    Plain (octet :: rest) ↔ ¬isBreak octet ∧ Plain rest := by
  simp [Plain]

theorem Plain.take {bytes : Bytes} (plain : Plain bytes) (count : Nat) : Plain (bytes.take count) :=
  fun octet member => plain octet (List.mem_of_mem_take member)

theorem linesFrom_lineFeed (begun rest : Bytes) :
    linesFrom begun (lineFeed :: rest) = begun :: linesFrom [] rest := by
  rw [linesFrom.eq_def]
  simp

theorem carriageReturn_ne_lineFeed : carriageReturn ≠ lineFeed := by decide

theorem linesFrom_last (begun : Bytes) : linesFrom begun [carriageReturn] = [begun] := by
  rw [linesFrom.eq_def]
  simp [carriageReturn_ne_lineFeed]

theorem linesFrom_both (begun beyond : Bytes) :
    linesFrom begun (carriageReturn :: lineFeed :: beyond) = begun :: linesFrom [] beyond := by
  rw [linesFrom.eq_def]
  simp [carriageReturn_ne_lineFeed]

theorem linesFrom_return {next : UInt8} (other : next ≠ lineFeed) (begun beyond : Bytes) :
    linesFrom begun (carriageReturn :: next :: beyond) =
      begun :: linesFrom [] (next :: beyond) := by
  rw [linesFrom.eq_def]
  simp [carriageReturn_ne_lineFeed, other]

theorem linesFrom_inner {octet : UInt8} (inner : ¬isBreak octet) (begun rest : Bytes) :
    linesFrom begun (octet :: rest) = linesFrom (begun ++ [octet]) rest := by
  rw [isBreak, not_or] at inner
  rw [linesFrom.eq_def]
  simp [inner]

theorem linesFrom_plain {plain : Bytes} (inner : Plain plain) (begun rest : Bytes) :
    linesFrom begun (plain ++ rest) = linesFrom (begun ++ plain) rest := by
  induction plain generalizing begun with
  | nil => simp
  | cons octet plain ih =>
    rw [plain_cons] at inner
    rw [List.cons_append, linesFrom_inner inner.1, ih inner.2, List.append_assoc]
    rfl

theorem lines_take {bytes : Bytes} {count : Nat} (plain : Plain (bytes.take count)) (rest : Bytes) :
    lines (bytes ++ rest) = linesFrom (bytes.take count) (bytes.drop count ++ rest) := by
  have split := linesFrom_plain plain [] (bytes.drop count ++ rest)
  rwa [← List.append_assoc, List.take_append_drop, List.nil_append] at split

theorem linesFrom_starts {begun : Bytes} (nonempty : begun ≠ []) (rest : Bytes) :
    ∃ line others, linesFrom begun rest = line :: others ∧ begun <+: line := by
  induction rest generalizing begun with
  | nil => exact ⟨begun, [], by simp [linesFrom, nonempty], List.prefix_refl _⟩
  | cons octet rest ih =>
    rw [linesFrom.eq_def]
    dsimp only
    split
    next => exact ⟨begun, _, rfl, List.prefix_refl _⟩
    next =>
      split
      next =>
        split
        next => exact ⟨begun, _, rfl, List.prefix_refl _⟩
        next => split <;> exact ⟨begun, _, rfl, List.prefix_refl _⟩
      next =>
        obtain ⟨line, others, same, starts⟩ := @ih (begun ++ [octet]) (by simp)
        exact ⟨line, others, same, (List.prefix_append _ _).trans starts⟩

end Bytes

open Bytes

/-- What a cut takes off the front is the first line of the whole stream. Once the end of the stream
is known nothing may follow. -/
theorem linesFrom_cut {finished : Bool} {bytes rest : Bytes} {cut : Cut} (begun : Bytes)
    (found : cutLine finished bytes = some cut) (last : finished = true → rest = []) :
    linesFrom begun (bytes ++ rest) =
      (begun ++ cut.line) :: linesFrom [] (cut.rest ++ rest) := by
  induction bytes generalizing begun cut with
  | nil => simp [cutLine] at found
  | cons octet bytes ih =>
    unfold cutLine at found
    split at found
    next feed =>
      cases found
      rw [feed, List.cons_append, linesFrom_lineFeed, List.append_nil]
    next notFeed =>
      split at found
      next ret =>
        subst ret
        split at found
        next =>
          split at found
          next past =>
            cases found
            rw [last past, List.append_nil, linesFrom_last, List.append_nil]
            rfl
          next => cases found
        next next beyond =>
          split at found
          next feed =>
            cases found
            rw [feed, List.cons_append, List.cons_append, linesFrom_both, List.append_nil]
          next other =>
            cases found
            rw [List.cons_append, List.cons_append, linesFrom_return other, List.append_nil]
      next notReturn =>
        obtain ⟨inner, same, rfl⟩ := Option.map_eq_some_iff.mp found
        rw [List.cons_append, linesFrom_inner (by simp [isBreak, notFeed, notReturn]), ih _ same,
          List.append_assoc]
        rfl

theorem cutLine_plain (finished : Bool) {plain : Bytes} (inner : Plain plain) (bytes : Bytes) :
    cutLine finished (plain ++ bytes) =
      (cutLine finished bytes).map fun cut => { cut with line := plain ++ cut.line } := by
  induction plain with
  | nil => simp
  | cons octet plain ih =>
    rw [plain_cons, isBreak, not_or] at inner
    rw [List.cons_append, cutLine.eq_def]
    simp only [if_neg inner.1.1, if_neg inner.1.2]
    rw [ih inner.2, Option.map_map]
    rfl

theorem cutLine_none {finished : Bool} {bytes : Bytes} (missed : cutLine finished bytes = none) :
    Plain (bytes.take (LineBuffer.settled bytes)) ∧ (finished = true → Plain bytes) := by
  induction bytes with
  | nil => simp
  | cons octet bytes ih =>
    unfold cutLine at missed
    split at missed
    next => cases missed
    next notFeed =>
      split at missed
      next ret =>
        split at missed
        next =>
          split at missed
          next => cases missed
          next more => simp [LineBuffer.settled, ret, more]
        next => split at missed <;> cases missed
      next notReturn =>
        have inner := ih (Option.map_eq_none_iff.mp missed)
        have plain : ¬isBreak octet := by simp [isBreak, notFeed, notReturn]
        refine ⟨?_, fun past => plain_cons.mpr ⟨plain, inner.2 past⟩⟩
        cases bytes with
        | nil => simp [LineBuffer.settled, notReturn, plain]
        | cons next beyond =>
          have size : LineBuffer.settled (octet :: next :: beyond) =
              LineBuffer.settled (next :: beyond) + 1 := by
            simp only [LineBuffer.settled, List.getLast?_cons_cons, List.length_cons]
            split <;> omega
          rw [size, List.take_succ_cons, plain_cons]
          exact ⟨plain, inner.1⟩

namespace LineBuffer

/-- The part of the buffer that is not searched again holds no line end. -/
structure Scanned (lines : LineBuffer) : Prop where
  within : lines.scanned ≤ lines.bytes.length
  plain : Plain (lines.bytes.take lines.scanned)

theorem settled_le (bytes : Bytes) : settled bytes ≤ bytes.length := by
  unfold settled
  split <;> omega

theorem drop_settled (bytes : Bytes) :
    bytes.drop (settled bytes) = [] ∨ bytes.drop (settled bytes) = [carriageReturn] := by
  unfold settled
  split
  next ret =>
    obtain ⟨front, rfl⟩ := List.getLast?_eq_some_iff.mp ret
    exact .inr (by simp)
  next => exact .inl List.drop_length

theorem scanned_fresh (bytes : Bytes) (maxLine : Option Nat) (finished : Bool) :
    Scanned ⟨bytes, 0, maxLine, finished⟩ := ⟨Nat.zero_le _, by simp⟩

theorem Scanned.push {lines : LineBuffer} (scanned : lines.Scanned) (chunk : Bytes) :
    (lines.push chunk).Scanned := by
  refine ⟨?_, ?_⟩
  · have within := scanned.within
    simp only [LineBuffer.push, List.length_append]
    omega
  · simp only [LineBuffer.push, List.take_append_of_le_length scanned.within]
    exact scanned.plain

theorem Scanned.finish {lines : LineBuffer} (scanned : lines.Scanned) : lines.finish.Scanned :=
  ⟨scanned.within, scanned.plain⟩

theorem nextLine_eq {lines : LineBuffer} (scanned : lines.Scanned) :
    lines.nextLine =
      match cutLine lines.finished lines.bytes with
      | some cut => lines.give cut.line cut.rest
      | none =>
        if lines.finished && !lines.bytes.isEmpty then lines.give lines.bytes []
        else lines.hold := by
  have whole := cutLine_plain lines.finished scanned.plain (lines.bytes.drop lines.scanned)
  rw [List.take_append_drop] at whole
  unfold nextLine
  rw [whole]
  cases cutLine lines.finished (lines.bytes.drop lines.scanned) <;> rfl

theorem exceeded?_eq_some {lines : LineBuffer} {length limit : Nat} :
    lines.exceeded? length = some limit ↔ lines.maxLine = some limit ∧ limit < length := by
  simp [exceeded?, Option.filter_eq_some_iff]

theorem give_tooLong {lines next : LineBuffer} {line rest : Bytes} {limit : Nat}
    (found : lines.give line rest = (.tooLong limit, next)) :
    lines.exceeded? line.length = some limit ∧ next = lines := by
  unfold give at found
  split at found
  next longer =>
    simp only [Prod.mk.injEq, Scan.tooLong.injEq] at found
    exact ⟨found.1 ▸ longer, found.2.symm⟩
  next => simp at found

theorem give_fits {lines next : LineBuffer} {line rest content : Bytes}
    (found : lines.give line rest = (.line content, next)) :
    lines.exceeded? line.length = none := by
  unfold give at found
  split at found
  next => simp at found
  next fits => exact fits

theorem give_ne_more (lines next : LineBuffer) (line rest : Bytes) :
    lines.give line rest ≠ (.more, next) := by
  intro found
  unfold give at found
  split at found <;> simp at found

theorem nextLine_scanned {lines : LineBuffer} (scanned : lines.Scanned) :
    lines.nextLine.2.Scanned ∧ lines.nextLine.2.maxLine = lines.maxLine ∧
      lines.nextLine.2.finished = lines.finished := by
  have given (line rest : Bytes) : (lines.give line rest).2.Scanned ∧
      (lines.give line rest).2.maxLine = lines.maxLine ∧
      (lines.give line rest).2.finished = lines.finished := by
    unfold give
    split
    next => exact ⟨scanned, rfl, rfl⟩
    next => exact ⟨scanned_fresh _ _ _, rfl, rfl⟩
  rw [nextLine_eq scanned]
  split
  next => exact given _ _
  next missed =>
    split
    next => exact given _ _
    next => exact ⟨⟨settled_le _, (cutLine_none missed).1⟩, rfl, rfl⟩

theorem nextLine_tooLong_bytes {lines next : LineBuffer} {limit : Nat} (scanned : lines.Scanned)
    (found : lines.nextLine = (.tooLong limit, next)) : next.bytes = lines.bytes := by
  rw [nextLine_eq scanned] at found
  split at found
  next => rw [(give_tooLong found).2]
  next =>
    split at found
    next => rw [(give_tooLong found).2]
    next => exact (congrArg (·.2.bytes) found).symm

/-- A line that is given out is within the limit, and it is the first line of the stream, whatever
follows the buffer. -/
theorem nextLine_line {lines next : LineBuffer} {content rest : Bytes} (scanned : lines.Scanned)
    (found : lines.nextLine = (.line content, next)) (last : lines.finished = true → rest = []) :
    lines.exceeded? content.length = none ∧
      Bytes.lines (lines.bytes ++ rest) = content :: Bytes.lines (next.bytes ++ rest) := by
  rw [nextLine_eq scanned] at found
  split at found
  next cut same =>
    have first := linesFrom_cut [] same last
    obtain ⟨rfl, rfl⟩ := give_line found
    exact ⟨give_fits found, first⟩
  next missed =>
    split at found
    next past =>
      rw [Bool.and_eq_true, Bool.not_eq_true', List.isEmpty_eq_false_iff] at past
      obtain ⟨rfl, rfl⟩ := give_line found
      refine ⟨give_fits found, ?_⟩
      rw [last past.1, Bytes.lines, linesFrom_plain ((cutLine_none missed).2 past.1)]
      simp [Bytes.lines, linesFrom, past.2]
    next => exact absurd found (hold_ne_line _ _ _)

theorem nextLine_tooLong {lines next : LineBuffer} {rest : Bytes} {limit : Nat}
    (scanned : lines.Scanned) (found : lines.nextLine = (.tooLong limit, next))
    (last : lines.finished = true → rest = []) :
    lines.maxLine = some limit ∧ ∃ line others,
      Bytes.lines (lines.bytes ++ rest) = line :: others ∧ limit < line.length := by
  rw [nextLine_eq scanned] at found
  split at found
  next cut same =>
    have longer := exceeded?_eq_some.mp (give_tooLong found).1
    exact ⟨longer.1, cut.line, _, linesFrom_cut [] same last, longer.2⟩
  next missed =>
    split at found
    next ended =>
      rw [Bool.and_eq_true, Bool.not_eq_true', List.isEmpty_eq_false_iff] at ended
      have longer := exceeded?_eq_some.mp (give_tooLong found).1
      refine ⟨longer.1, lines.bytes, [], ?_, longer.2⟩
      rw [last ended.1, Bytes.lines, linesFrom_plain ((cutLine_none missed).2 ended.1)]
      simp [linesFrom, ended.2]
    next =>
      simp only [hold, Prod.mk.injEq] at found
      split at found
      next longer =>
        obtain ⟨rfl⟩ := Scan.tooLong.inj found.1
        have longer := exceeded?_eq_some.mp longer
        -- The settled bytes begin the first line, and they alone are over the limit.
        have size : (lines.bytes.take (settled lines.bytes)).length = settled lines.bytes :=
          List.length_take_of_le (settled_le _)
        have nonempty : lines.bytes.take (settled lines.bytes) ≠ [] := by
          rw [← List.length_pos_iff, size]
          exact Nat.zero_lt_of_lt longer.2
        obtain ⟨line, others, same, starts⟩ :=
          linesFrom_starts nonempty (lines.bytes.drop (settled lines.bytes) ++ rest)
        refine ⟨longer.1, line, others, ?_, ?_⟩
        · rw [lines_take (cutLine_none missed).1, same]
        · have longer := starts.length_le
          omega
      next => cases found.1

theorem nextLine_more {lines next : LineBuffer} (scanned : lines.Scanned)
    (found : lines.nextLine = (.more, next)) :
    next.bytes = lines.bytes ∧ (lines.finished = true → lines.bytes = []) := by
  rw [nextLine_eq scanned] at found
  split at found
  next => exact absurd found (give_ne_more _ _ _ _)
  next =>
    split at found
    next => exact absurd found (give_ne_more _ _ _ _)
    next open_ =>
      refine ⟨(congrArg (·.2.bytes) found).symm, fun past => ?_⟩
      simpa [past] using open_

end LineBuffer

end EventStream
