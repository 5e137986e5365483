import EventStream.Proofs.Scanning

/-!
What it is worth to know how far a buffer was searched: time, and nothing else. A buffer that goes
through its bytes from the first one on at every look is told the same and keeps the same bytes,
whatever is done to the two. The part that is not searched again lies within the buffer and holds no
line end, so the places where a line is cut off are places in the buffer.
-/

namespace EventStream

theorem LineEnd.length_pos (ending : LineEnd) : 0 < ending.bytes.length := by
  cases ending <;> decide

namespace LineBuffer

open Bytes

inductive Use where
  | step (step : Step)
  | discard (count : Nat)
  deriving DecidableEq, Repr

def use (lines : LineBuffer) : Use → LineBuffer
  | .step step => lines.step step
  | .discard count => lines.discard count

def told (lines : LineBuffer) : Use → List Scan
  | .step step => lines.answer step
  | .discard _ => []

def used (lines : LineBuffer) : List Use → List Scan × LineBuffer
  | [] => ([], lines)
  | first :: rest =>
    let (answers, last) := (lines.use first).used rest
    (lines.told first ++ answers, last)

def unsearched (lines : LineBuffer) : LineBuffer := { lines with scanned := 0 }

/-- The answers to uses of a buffer that is searched from its first byte on at every look. -/
def usedAnew (lines : LineBuffer) : List Use → List Scan × LineBuffer
  | [] => ([], lines)
  | first :: rest =>
    let (answers, last) := (lines.unsearched.use first).usedAnew rest
    (lines.unsearched.told first ++ answers, last)

/-- Where the first line end from `begin` on starts, and where the bytes behind it do. -/
def place? (lines : LineBuffer) (begin : Nat) : Option (Nat × Nat) :=
  (cutLine lines.finished (lines.bytes.drop begin)).map fun cut =>
    (begin + cut.line.length, begin + cut.line.length + cut.ending.bytes.length)

theorem place?_within {lines : LineBuffer} {begin stop next : Nat}
    (within : begin ≤ lines.bytes.length) (found : lines.place? begin = some (stop, next)) :
    begin ≤ stop ∧ stop < next ∧ next ≤ lines.bytes.length := by
  obtain ⟨cut, same, places⟩ := Option.map_eq_some_iff.mp found
  have size := congrArg List.length (cutLine_bytes same)
  have ended := cut.ending.length_pos
  simp only [List.length_append, List.length_drop] at size
  simp only [Prod.mk.injEq] at places
  omega

theorem cutLine_places {lines : LineBuffer} {begin : Nat} {cut : Cut}
    (within : begin ≤ lines.bytes.length)
    (same : cutLine lines.finished (lines.bytes.drop begin) = some cut) :
    lines.bytes.take begin ++ cut.line = lines.bytes.take (begin + cut.line.length) ∧
      cut.rest = lines.bytes.drop (begin + cut.line.length + cut.ending.bytes.length) := by
  have whole := cutLine_bytes same
  have front : (lines.bytes.take begin ++ cut.line).length = begin + cut.line.length := by
    rw [List.length_append, List.length_take_of_le within]
  have bytes : (lines.bytes.take begin ++ cut.line) ++ (cut.ending.bytes ++ cut.rest) =
      lines.bytes := by
    rw [List.append_assoc, ← List.append_assoc cut.line, ← whole, List.take_append_drop]
  constructor
  · calc
      _ = ((lines.bytes.take begin ++ cut.line) ++ (cut.ending.bytes ++ cut.rest)).take
          (begin + cut.line.length) := (List.take_left' front).symm
      _ = _ := by rw [bytes]
  · calc
      _ = ((lines.bytes.take begin ++ cut.line) ++ (cut.ending.bytes ++ cut.rest)).drop
          (begin + cut.line.length + cut.ending.bytes.length) := by
        rw [← List.drop_drop, List.drop_left' front, List.drop_left]
      _ = _ := by rw [bytes]

theorem nextLine_places {lines : LineBuffer} (within : lines.scanned ≤ lines.bytes.length)
    {stop next : Nat} (found : lines.place? lines.scanned = some (stop, next)) :
    lines.nextLine = lines.give (lines.bytes.take stop) (lines.bytes.drop next) := by
  obtain ⟨cut, same, places⟩ := Option.map_eq_some_iff.mp found
  obtain ⟨front, behind⟩ := cutLine_places within same
  simp only [Prod.mk.injEq] at places
  obtain ⟨rfl, rfl⟩ := places
  unfold nextLine
  rw [same]
  dsimp only
  rw [front, behind]

theorem Scanned.unsearched (lines : LineBuffer) : lines.unsearched.Scanned :=
  scanned_fresh _ _ _

theorem Scanned.discard (lines : LineBuffer) (count : Nat) : (lines.discard count).Scanned :=
  scanned_fresh _ _ _

theorem place?_searched {lines : LineBuffer} (scanned : lines.Scanned) :
    lines.place? lines.scanned = lines.place? 0 := by
  have whole := cutLine_plain lines.finished scanned.plain (lines.bytes.drop lines.scanned)
  rw [List.take_append_drop] at whole
  unfold place?
  rw [List.drop_zero, whole, Option.map_map]
  congr 1
  funext cut
  simp [List.length_take_of_le scanned.within]

/-- Two looks for a line that brought the same and left the same bytes. What is known to be searched
of them may differ. -/
structure Agrees (told anew : Scan × LineBuffer) : Prop where
  scan : anew.1 = told.1
  left : anew.2.unsearched = told.2.unsearched

theorem give_agrees (lines : LineBuffer) (line rest : Bytes) :
    Agrees (lines.give line rest) (lines.unsearched.give line rest) := by
  have exceeded : lines.unsearched.exceeded? line.length = lines.exceeded? line.length := rfl
  unfold give
  rw [exceeded]
  cases lines.exceeded? line.length with
  | none => exact ⟨rfl, rfl⟩
  | some limit => exact ⟨rfl, rfl⟩

/-- A look for a line brings the same when the buffer is searched from its first byte on, and takes
the same out of it. -/
theorem nextLine_agrees {lines : LineBuffer} (scanned : lines.Scanned) :
    Agrees lines.nextLine lines.unsearched.nextLine := by
  have bytes : lines.unsearched.bytes = lines.bytes := rfl
  have finished : lines.unsearched.finished = lines.finished := rfl
  rw [nextLine_eq scanned, nextLine_eq (Scanned.unsearched lines), bytes, finished]
  split
  next cut _ => exact give_agrees lines cut.line cut.rest
  next =>
    split
    next => exact give_agrees lines lines.bytes []
    next => exact ⟨rfl, rfl⟩

theorem use_agrees {lines anew : LineBuffer} (scanned : lines.Scanned)
    (same : anew.unsearched = lines.unsearched) (use : Use) :
    anew.unsearched.told use = lines.told use ∧ (lines.use use).Scanned ∧
      (anew.unsearched.use use).unsearched = (lines.use use).unsearched := by
  rw [same]
  cases use with
  | discard count => exact ⟨rfl, Scanned.discard lines count, rfl⟩
  | step step =>
    cases step with
    | push chunk => exact ⟨rfl, scanned.push chunk, rfl⟩
    | finish => exact ⟨rfl, scanned.finish, rfl⟩
    | next =>
      have agrees := nextLine_agrees scanned
      refine ⟨?_, (nextLine_scanned scanned).1, agrees.left⟩
      show [_] = [_]
      rw [agrees.scan]

theorem used_agrees {lines anew : LineBuffer} (scanned : lines.Scanned)
    (same : anew.unsearched = lines.unsearched) (uses : List Use) :
    (anew.usedAnew uses).1 = (lines.used uses).1 ∧ (lines.used uses).2.Scanned ∧
      (anew.usedAnew uses).2.unsearched = (lines.used uses).2.unsearched := by
  induction uses generalizing lines anew with
  | nil => exact ⟨rfl, scanned, same⟩
  | cons use rest ih =>
    obtain ⟨told, still, left⟩ := use_agrees scanned same use
    obtain ⟨answers, last, leaves⟩ := ih still left
    refine ⟨?_, last, leaves⟩
    show _ ++ _ = _ ++ _
    rw [told, answers]

/-- Whatever was done to a buffer, after errors and behind the end of the stream too: the part that
is not searched again lies within the buffer and holds no line end. The next line end is found at
the place where a search of all bytes finds it, which is behind that part and within the buffer, and
the line and what is left are cut there. Everything the buffer has told, what it will tell next, and
its bytes before and after that are those of a buffer that is searched from its first byte on at
every look. -/
theorem search_remembers (maxLine : Option Nat) (uses : List Use) :
    let lines := ((start maxLine).used uses).2
    let anew := ((start maxLine).usedAnew uses).2
    lines.scanned ≤ lines.bytes.length ∧
      (∀ octet ∈ lines.bytes.take lines.scanned, octet ≠ lineFeed ∧ octet ≠ carriageReturn) ∧
      lines.place? lines.scanned = lines.place? 0 ∧
      (∀ stop next, lines.place? lines.scanned = some (stop, next) →
        lines.scanned ≤ stop ∧ stop < next ∧ next ≤ lines.bytes.length ∧
          lines.nextLine = lines.give (lines.bytes.take stop) (lines.bytes.drop next)) ∧
      ((start maxLine).used uses).1 = ((start maxLine).usedAnew uses).1 ∧ lines.bytes = anew.bytes ∧
      lines.finished = anew.finished ∧ lines.nextLine.1 = anew.unsearched.nextLine.1 ∧
      lines.nextLine.2.bytes = anew.unsearched.nextLine.2.bytes := by
  intro lines anew
  obtain ⟨told, scanned, left⟩ :=
    @used_agrees (start maxLine) (start maxLine) (scanned_fresh _ _ _) rfl uses
  have agrees := nextLine_agrees scanned
  rw [← left] at agrees
  refine ⟨scanned.within, ?_, place?_searched scanned, ?_, told.symm, ?_, ?_, agrees.scan.symm, ?_⟩
  · intro octet early
    exact not_or.mp (scanned.plain octet early)
  · intro stop next found
    obtain ⟨behind, ended, within⟩ := place?_within scanned.within found
    exact ⟨behind, ended, within, nextLine_places scanned.within found⟩
  · exact (congrArg LineBuffer.bytes left).symm
  · exact (congrArg LineBuffer.finished left).symm
  · exact (congrArg LineBuffer.bytes agrees.left).symm

example :
    let uses : List Use := [.step (.push [97, 98, 13]), .step .next, .discard 1,
      .step (.push [10, 99]), .step .next, .step .next, .step .finish, .step .next]
    ((start none).used uses).1 = [.more, .line [98], .more, .line [99]] := by
  decide +kernel

end LineBuffer

end EventStream
