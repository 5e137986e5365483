import EventStream.LineEnd

/-! Lines out of a stream that arrives in pieces. What has arrived and is not part of a complete
line waits in a buffer, and the part of it that holds no line end is not searched twice. -/

namespace EventStream

structure LineBuffer where
  /-- The bytes that arrived and were not given out in a line. -/
  bytes : Bytes
  /-- How many bytes at the front of the buffer hold no line end, as far as is known. -/
  scanned : Nat
  maxLine : Option Nat
  finished : Bool
  deriving DecidableEq, Repr

namespace LineBuffer

def start (maxLine : Option Nat) : LineBuffer := ⟨[], 0, maxLine, false⟩

def push (lines : LineBuffer) (chunk : Bytes) : LineBuffer :=
  { lines with bytes := lines.bytes ++ chunk }

/-- Nothing more will be pushed: a carriage return in the last place now ends a line, and so does
the end of the buffer. -/
def finish (lines : LineBuffer) : LineBuffer := { lines with finished := true }

def discard (lines : LineBuffer) (count : Nat) : LineBuffer :=
  { lines with bytes := lines.bytes.drop count, scanned := 0 }

inductive Scan where
  | line (content : Bytes)
  /-- No line is complete yet; at the end of the stream, none is left. -/
  | more
  | tooLong (limit : Nat)
  deriving DecidableEq, Repr

def exceeded? (lines : LineBuffer) (length : Nat) : Option Nat :=
  lines.maxLine.filter (· < length)

/-- How much of a buffer without a complete line need not be searched again: all of it but a
carriage return in the last place. -/
def settled (bytes : Bytes) : Nat :=
  if bytes.getLast? = some Bytes.carriageReturn then bytes.length - 1 else bytes.length

/-- Hand out the line at the front of the buffer, unless it is over the limit. -/
def give (lines : LineBuffer) (line rest : Bytes) : Scan × LineBuffer :=
  match lines.exceeded? line.length with
  | some limit => (.tooLong limit, lines)
  | none => (.line line, { lines with bytes := rest, scanned := 0 })

/-- Wait for more of the line that starts the buffer, unless what there is of it is over the
limit. -/
def hold (lines : LineBuffer) : Scan × LineBuffer :=
  let scanned := settled lines.bytes
  (match lines.exceeded? scanned with
    | some limit => .tooLong limit
    | none => .more, { lines with scanned })

/-- Take the next line out of the buffer. A line over the limit stays in the buffer, and is
reported as soon as its bytes exceed the limit, whether or not its end has arrived. -/
def nextLine (lines : LineBuffer) : Scan × LineBuffer :=
  match cutLine lines.finished (lines.bytes.drop lines.scanned) with
  | some cut => lines.give (lines.bytes.take lines.scanned ++ cut.line) cut.rest
  | none =>
    if lines.finished && !lines.bytes.isEmpty then lines.give lines.bytes []
    else lines.hold

theorem give_line {lines next : LineBuffer} {line rest content : Bytes}
    (found : lines.give line rest = (.line content, next)) :
    content = line ∧ next = { lines with bytes := rest, scanned := 0 } := by
  unfold give at found
  split at found
  next => simp at found
  next =>
    simp only [Prod.mk.injEq, Scan.line.injEq] at found
    exact ⟨found.1.symm, found.2.symm⟩

theorem hold_ne_line (lines next : LineBuffer) (content : Bytes) :
    lines.hold ≠ (.line content, next) := by
  intro found
  have first := congrArg Prod.fst found
  simp only [hold] at first
  split at first <;> cases first

/-- Every line shortens the buffer, so a buffer holds finitely many. -/
theorem nextLine_shorter {lines next : LineBuffer} {content : Bytes}
    (found : lines.nextLine = (.line content, next)) :
    next.bytes.length < lines.bytes.length := by
  unfold nextLine at found
  split at found
  next cut same =>
    have whole := congrArg List.length (cutLine_bytes same)
    have ended : 0 < cut.ending.bytes.length := by cases cut.ending <;> simp [LineEnd.bytes]
    simp only [List.length_append, List.length_drop] at whole
    rw [(give_line found).2]
    simp only
    omega
  next =>
    split at found
    next some =>
      rw [(give_line found).2]
      cases held : lines.bytes with
      | nil => simp [held] at some
      | cons octet rest => simp
    next => exact absurd found (hold_ne_line _ _ _)

/-- Take lines until there is none to take; the last answer tells why. -/
def drain (lines : LineBuffer) : List Scan × LineBuffer :=
  match _taken : lines.nextLine with
  | (.line content, rest) => (.line content :: rest.drain.1, rest.drain.2)
  | (scan, rest) => ([scan], rest)
termination_by lines.bytes.length
decreasing_by all_goals exact nextLine_shorter ‹_›

end LineBuffer

end EventStream
