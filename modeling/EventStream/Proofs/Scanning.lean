import EventStream.Proofs.Lines

/-!
A line buffer in use, where chunks are pushed and lines are asked for in any order. Nothing that it
hands out is ever taken back, so when it is finished and emptied the lines are those of all bytes
pushed, up to the first one over the limit. That one is the last thing to be told of, and without
one nothing is ever told to be too long.
-/

namespace EventStream

open Bytes

namespace LineBuffer

inductive Step where
  | push (chunk : Bytes)
  | finish
  | next
  deriving DecidableEq, Repr

def step (lines : LineBuffer) : Step → LineBuffer
  | .push chunk => lines.push chunk
  | .finish => lines.finish
  | .next => lines.nextLine.2

def run (lines : LineBuffer) (steps : List Step) : LineBuffer := steps.foldl step lines

def answer (lines : LineBuffer) : Step → List Scan
  | .push _ | .finish => []
  | .next => [lines.nextLine.1]

def answers (lines : LineBuffer) : List Step → List Scan
  | [] => []
  | step :: rest => lines.answer step ++ (lines.step step).answers rest

def Scan.line? : Scan → Option Bytes
  | .line content => some content
  | _ => none

def schedule (turns : List (Option Bytes)) : List Step :=
  turns.map fun
    | some chunk => .push chunk
    | none => .next

end LineBuffer

def Bytes.fits (maxLine : Option Nat) (line : Bytes) : Bool := maxLine.all (line.length ≤ ·)

namespace LineBuffer

theorem fits_of_exceeded {lines : LineBuffer} {line : Bytes}
    (within : lines.exceeded? line.length = none) : line.fits lines.maxLine = true := by
  rw [Bytes.fits]
  cases most : lines.maxLine with
  | none => rfl
  | some limit => simpa [exceeded?, most, Option.filter] using within

theorem unfit_of_longer {maxLine : Option Nat} {limit : Nat} {line : Bytes}
    (most : maxLine = some limit) (longer : limit < line.length) : ¬line.fits maxLine = true := by
  simp [Bytes.fits, most, longer]

/-- How a stream begins when a buffer has handed out these lines of it: with them, and all of them
are within the limit. -/
structure Begins (maxLine : Option Nat) (whole given rest : List Bytes) : Prop where
  split : whole = given ++ rest
  fits : ∀ line ∈ given, line.fits maxLine = true

theorem Begins.refl (maxLine : Option Nat) (whole : List Bytes) : Begins maxLine whole [] whole :=
  ⟨rfl, nofun⟩

theorem Begins.trans {maxLine : Option Nat} {whole first second middle rest : List Bytes}
    (sooner : Begins maxLine whole first middle) (later : Begins maxLine middle second rest) :
    Begins maxLine whole (first ++ second) rest := by
  refine ⟨by rw [sooner.split, later.split, List.append_assoc], ?_⟩
  intro line inside
  rcases List.mem_append.mp inside with early | late
  · exact sooner.fits line early
  · exact later.fits line late

theorem next_begins {lines : LineBuffer} (scanned : lines.Scanned) {rest : Bytes}
    (last : lines.finished = true → rest = []) :
    Begins lines.maxLine (lines.bytes ++ rest).lines ((lines.answer .next).filterMap Scan.line?)
      (lines.nextLine.2.bytes ++ rest).lines := by
  cases found : lines.nextLine with
  | mk scan next =>
    rw [answer, found]
    cases scan with
    | line content =>
      obtain ⟨within, first⟩ := nextLine_line scanned found last
      refine ⟨first, ?_⟩
      intro line given
      rw [List.mem_singleton.mp given]
      exact fits_of_exceeded within
    | more =>
      rw [(nextLine_more scanned found).1]
      exact .refl _ _
    | tooLong limit =>
      rw [nextLine_tooLong_bytes scanned found]
      exact .refl _ _

theorem next_tooLong {lines : LineBuffer} (scanned : lines.Scanned) {rest : Bytes}
    (last : lines.finished = true → rest = []) {limit : Nat}
    (told : .tooLong limit ∈ lines.answer .next) :
    lines.maxLine = some limit ∧ ∃ line others,
      (lines.bytes ++ rest).lines = line :: others ∧ limit < line.length := by
  have same : lines.nextLine = (.tooLong limit, lines.nextLine.2) :=
    Prod.ext (List.mem_singleton.mp told).symm rfl
  exact nextLine_tooLong scanned same last

/-- What is left of a buffer when chunks were pushed and lines were asked for: it knows of no end,
and it has the rest of the stream in front of it. -/
structure Goes (lines next : LineBuffer) (given : List Bytes) (pushed : Bytes) : Prop where
  scanned : next.Scanned
  maxLine : next.maxLine = lines.maxLine
  finished : next.finished = false
  begins : ∀ rest, Begins lines.maxLine (lines.bytes ++ (pushed ++ rest)).lines given
    (next.bytes ++ rest).lines

theorem Goes.push {lines : LineBuffer} (scanned : lines.Scanned)
    (open_ : lines.finished = false) (chunk : Bytes) : Goes lines (lines.push chunk) [] chunk := by
  refine ⟨scanned.push chunk, rfl, open_, ?_⟩
  intro rest
  rw [← List.append_assoc]
  exact .refl _ _

theorem Goes.next {lines : LineBuffer} (scanned : lines.Scanned) (open_ : lines.finished = false) :
    Goes lines lines.nextLine.2 ((lines.answer .next).filterMap Scan.line?) [] := by
  obtain ⟨still, maxLine, finished⟩ := nextLine_scanned scanned
  exact ⟨still, maxLine, finished.trans open_, fun rest => next_begins scanned (by simp [open_])⟩

theorem Goes.trans {first second third : LineBuffer} {given more : List Bytes}
    {pushed behind : Bytes} (sooner : Goes first second given pushed)
    (later : Goes second third more behind) :
    Goes first third (given ++ more) (pushed ++ behind) := by
  refine ⟨later.scanned, later.maxLine.trans sooner.maxLine, later.finished, ?_⟩
  intro rest
  have front := sooner.begins (behind ++ rest)
  have back := later.begins rest
  rw [sooner.maxLine] at back
  rw [List.append_assoc]
  exact front.trans back

theorem schedule_goes {lines : LineBuffer} (scanned : lines.Scanned)
    (open_ : lines.finished = false) (turns : List (Option Bytes)) :
    Goes lines (lines.run (schedule turns))
      ((lines.answers (schedule turns)).filterMap Scan.line?) (turns.filterMap id).flatten := by
  induction turns generalizing lines with
  | nil => exact ⟨scanned, rfl, open_, fun rest => .refl _ _⟩
  | cons turn turns ih =>
    cases turn with
    | some chunk =>
      have first := Goes.push scanned open_ chunk
      exact first.trans (ih first.scanned first.finished)
    | none =>
      have first := Goes.next scanned open_
      have later := first.trans (ih first.scanned first.finished)
      rwa [← List.filterMap_append] at later

theorem schedule_tooLong {lines : LineBuffer} (scanned : lines.Scanned)
    (open_ : lines.finished = false) {turns : List (Option Bytes)} {limit : Nat}
    (told : .tooLong limit ∈ lines.answers (schedule turns)) (rest : Bytes) :
    lines.maxLine = some limit ∧
      ∃ line ∈ (lines.bytes ++ ((turns.filterMap id).flatten ++ rest)).lines,
        limit < line.length := by
  induction turns generalizing lines with
  | nil => cases told
  | cons turn turns ih =>
    -- What is told later is told of a line in the stream behind those handed out before.
    have later {next : LineBuffer} {given : List Bytes} {pushed : Bytes}
        (goes : Goes lines next given pushed)
        (told : .tooLong limit ∈ next.answers (schedule turns)) :
        lines.maxLine = some limit ∧ ∃ line ∈
          (lines.bytes ++ (pushed ++ ((turns.filterMap id).flatten ++ rest))).lines,
          limit < line.length := by
      obtain ⟨most, line, inside, longer⟩ := ih goes.scanned goes.finished told
      refine ⟨goes.maxLine.symm.trans most, line, ?_, longer⟩
      rw [(goes.begins _).split]
      exact List.mem_append_right _ inside
    cases turn with
    | some chunk =>
      have found := later (.push scanned open_ chunk) told
      rwa [← List.append_assoc chunk] at found
    | none =>
      rcases List.mem_append.mp told with now | behind
      · obtain ⟨most, line, others, first, longer⟩ := next_tooLong scanned (by simp [open_]) now
        exact ⟨most, line, first ▸ List.mem_cons_self, longer⟩
      · exact later (.next scanned open_) behind

/-- The last answer of a buffer that is emptied, for what is left of the stream then. -/
def Closes (maxLine : Option Nat) (rest : List Bytes) : Scan → Prop
  | .line _ => False
  | .more => rest = []
  | .tooLong limit => maxLine = some limit ∧ ∃ line others, rest = line :: others ∧
      limit < line.length

theorem drain_closes {lines : LineBuffer} (scanned : lines.Scanned)
    (past : lines.finished = true) :
    ∃ given rest scan, lines.drain.1 = given.map Scan.line ++ [scan] ∧
      Begins lines.maxLine lines.bytes.lines given rest ∧ Closes lines.maxLine rest scan := by
  fun_induction drain lines with
  | case1 lines content next taken ih =>
    obtain ⟨within, first⟩ := @nextLine_line _ _ _ [] scanned taken fun _ => rfl
    obtain ⟨still, maxLine, finished⟩ := nextLine_scanned scanned
    rw [taken] at still maxLine finished
    obtain ⟨given, rest, scan, drained, begins, closes⟩ := ih still (finished.trans past)
    rw [maxLine] at begins closes
    simp only [List.append_nil] at first
    refine ⟨content :: given, rest, scan, by rw [drained]; rfl, ?_, closes⟩
    have front : Begins lines.maxLine lines.bytes.lines [content] next.bytes.lines :=
      ⟨first, by simpa using fits_of_exceeded within⟩
    exact front.trans begins
  | case2 lines scan next other taken =>
    refine ⟨[], lines.bytes.lines, scan, rfl, .refl _ _, ?_⟩
    cases scan with
    | line content => exact absurd rfl (other content)
    | more =>
      rw [Closes, (nextLine_more scanned taken).2 past]
      rfl
    | tooLong limit =>
      have longer := @nextLine_tooLong _ _ [] _ scanned taken fun _ => rfl
      rwa [List.append_nil] at longer

def overlong? (maxLine : Option Nat) (whole : List Bytes) : Option Nat :=
  maxLine.filter fun limit => whole.any (limit < ·.length)

theorem overlong?_eq_some {maxLine : Option Nat} {whole : List Bytes} {limit : Nat} :
    overlong? maxLine whole = some limit ↔
      maxLine = some limit ∧ ∃ line ∈ whole, limit < line.length := by
  simp [overlong?, Option.filter_eq_some_iff]

theorem overlong?_eq_none {maxLine : Option Nat} {whole : List Bytes}
    (fits : ∀ line ∈ whole, line.fits maxLine = true) : overlong? maxLine whole = none := by
  refine Option.eq_none_iff_forall_ne_some.mpr fun limit found => ?_
  obtain ⟨most, line, inside, longer⟩ := overlong?_eq_some.mp found
  exact unfit_of_longer most longer (fits line inside)

/-- Lines within the limit, and behind them what the last answer is about, are the lines up to the
first one over the limit; the last answer says whether there is one. -/
theorem Begins.closes {maxLine : Option Nat} {whole given rest : List Bytes} {scan : Scan}
    (begins : Begins maxLine whole given rest) (closes : Closes maxLine rest scan) :
    given = whole.takeWhile (Bytes.fits maxLine) ∧
      scan = (overlong? maxLine whole).elim .more .tooLong := by
  have front : whole.takeWhile (Bytes.fits maxLine) =
      given ++ rest.takeWhile (Bytes.fits maxLine) := by
    rw [begins.split, List.takeWhile_append_of_pos begins.fits]
  cases scan with
  | line content => exact closes.elim
  | more =>
    have empty : rest = [] := closes
    have all : whole = given := by rw [begins.split, empty, List.append_nil]
    refine ⟨by rw [front, empty, List.takeWhile_nil, List.append_nil], ?_⟩
    rw [overlong?_eq_none (all ▸ begins.fits)]
    rfl
  | tooLong limit =>
    obtain ⟨most, line, others, first, longer⟩ := closes
    have exceeds : overlong? maxLine whole = some limit := by
      refine overlong?_eq_some.mpr ⟨most, line, ?_, longer⟩
      rw [begins.split, first]
      exact List.mem_append_right _ List.mem_cons_self
    refine ⟨?_, by rw [exceeds]; rfl⟩
    rw [front, first, List.takeWhile_cons_of_neg (unfit_of_longer most longer), List.append_nil]

/-- However pushed chunks and looks for a line alternate before the buffer is finished and emptied:
the lines handed out on the way and then are those of all bytes pushed, up to the first one over the
limit. The last answer is that there is such a line, or that no line is left. If there is none then
no answer on the way, whatever of a line was there at the time, is that there is one. -/
theorem scans_lines (maxLine : Option Nat) (turns : List (Option Bytes)) :
    let left := (start maxLine).run (schedule turns)
    let answers := (start maxLine).answers (schedule turns) ++ left.finish.drain.1
    let whole := Bytes.lines (turns.filterMap id).flatten
    answers.filterMap Scan.line? = whole.takeWhile (Bytes.fits maxLine) ∧
      answers.getLast? = some ((overlong? maxLine whole).elim .more .tooLong) ∧
      ∀ limit, .tooLong limit ∈ answers ↔ overlong? maxLine whole = some limit := by
  intro left answers whole
  have fresh : (start maxLine).Scanned := scanned_fresh _ _ _
  have goes : Goes (start maxLine) left _ _ := schedule_goes fresh rfl turns
  obtain ⟨given, rest, scan, drained, begins, closes⟩ := @drain_closes left.finish
    goes.scanned.finish rfl
  have settings : left.finish.maxLine = maxLine := goes.maxLine
  rw [settings] at begins closes
  have front := goes.begins []
  simp only [List.append_nil] at front
  have through : Begins maxLine whole _ rest := front.trans begins
  obtain ⟨lines, last⟩ := through.closes closes
  have told : answers =
      (start maxLine).answers (schedule turns) ++ (given.map Scan.line ++ [scan]) :=
    congrArg _ drained
  have final : answers.getLast? = some scan := by
    rw [told, ← List.append_assoc, List.getLast?_concat]
  refine ⟨?_, by rw [final, last], ?_⟩
  · have silent : Scan.line? scan = none := by
      cases scan with
      | line content => exact closes.elim
      | _ => rfl
    have some_line : Scan.line? ∘ Scan.line = some := rfl
    rw [← lines, told, List.filterMap_append, List.filterMap_append, List.filterMap_map,
      some_line, List.filterMap_some, List.filterMap_cons_none silent, List.filterMap_nil,
      List.append_nil]
  · intro limit
    refine ⟨?_, ?_⟩
    · intro inside
      rw [told, List.mem_append, List.mem_append] at inside
      rcases inside with before | line | same
      · have found := schedule_tooLong fresh rfl before []
        rw [List.append_nil] at found
        exact overlong?_eq_some.mpr found
      · simp at line
      · rw [← List.mem_singleton.mp same] at last
        cases exceeds : overlong? maxLine whole with
        | none => rw [exceeds] at last; cases last
        | some other => rw [exceeds] at last; cases last; rfl
    · intro exceeds
      rw [exceeds] at last
      exact List.mem_of_getLast? (final.trans (congrArg some last))

example :
    let turns := [some [97, 98, 99, 13], none, some [], none, some [10, 13], none]
    let left := (start (some 3)).run (schedule turns)
    (start (some 3)).answers (schedule turns) ++ left.finish.drain.1 =
      [.more, .more, .line [97, 98, 99], .line [], .more] := by
  decide +kernel

end LineBuffer

end EventStream
