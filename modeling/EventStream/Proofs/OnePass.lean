import EventStream.Decoder
import EventStream.Proofs.Lines
import Mathlib.Data.List.Induction
import Mathlib.Data.List.TakeDrop
import Mathlib.Data.Nat.Digits.Defs

/-!
A reader of event streams that sees the whole stream at once. It drops the mark, splits what is left
into lines and goes through them a single time. Nothing of it waits, looks back or keeps a buffer,
so it can serve as the measure of a decoder that does.
-/

namespace EventStream

/-- What a decoder gave at a poll, with the id and the interval that it reports from then on. -/
structure Item where
  poll : Poll
  lastEventId : Bytes
  retry : Duration
  deriving DecidableEq, Repr

namespace OnePass

/-- What is known between two lines: the id and the interval in force, and the name and the data
values that the record gave so far. -/
structure State where
  id : Bytes
  name : Bytes
  data : List Bytes
  retry : Duration
  deriving DecidableEq, Repr

/-- Name and value of a line. They are parted by the first colon, and one space behind it belongs to
neither; a line without a colon is all name. -/
def nameValue (line : Bytes) : Bytes × Bytes :=
  let (name, rest) := line.span (· ≠ Bytes.colon)
  let value := rest.tail
  (name, if value.head? = some Bytes.space then value.tail else value)

def millis? (value : Bytes) : Option Nat :=
  let number := Nat.ofDigits 10 (value.reverse.map fun digit => digit.toNat - 0x30)
  if value ≠ [] ∧ value.all Bytes.isDigit ∧ number ≤ counterMax then some number else none

namespace State

def start (id : Bytes) (retry : Duration) : State := ⟨id, [], [], retry⟩

def dispatch (state : State) : Option Event × State :=
  (if state.data = [] then none
    else some ⟨state.id, state.name, List.intercalate [Bytes.lineFeed] state.data⟩,
    { state with name := [], data := [] })

def field? (state : State) (name value : Bytes) : Option State :=
  if name = Bytes.ofText "data" then some { state with data := state.data ++ [value] }
  else if name = Bytes.ofText "event" then some { state with name := value }
  else if name = Bytes.ofText "id" then
    some (if 0 ∈ value then state else { state with id := value })
  else if name = Bytes.ofText "retry" then
    some ((millis? value).elim state fun millis => { state with retry := .ofMillis millis })
  else none

def read (state : State) (line : Bytes) : Except Utf8.Fault (Option Event × State) :=
  if line = [] then .ok state.dispatch
  else if line.head? = some Bytes.colon then .ok (none, state)
  else
    let (name, value) := nameValue line
    match state.field? name value, Utf8.fault? value with
    | none, _ => .ok (none, state)
    | some _, some fault => .error fault
    | some next, none => .ok (none, next)

end State

/-- What lines come to, with `last` the id of the event before them. A line over the limit and a
value that is not UTF-8 are failures, and nothing is read behind a failure. -/
def items (maxLine : Option Nat) (last : Bytes) (state : State) : List Bytes → List Item
  | [] => [⟨.ended, last, state.retry⟩]
  | line :: rest =>
    match maxLine.filter (· < line.length) with
    | some limit =>
      [⟨.failed (.lineTooLong limit), last, state.retry⟩, ⟨.ended, last, state.retry⟩]
    | none =>
      match state.read line with
      | .error fault => [⟨.failed (.utf8 fault), last, state.retry⟩, ⟨.ended, last, state.retry⟩]
      | .ok (some event, next) =>
        ⟨.event event, event.id, next.retry⟩ :: items maxLine event.id next rest
      | .ok (none, next) => items maxLine last next rest

def unmarked (bytes : Bytes) : Bytes :=
  if bytes.take 3 = byteOrderMark then bytes.drop 3 else bytes

/-- What a whole stream comes to, its end included. -/
def transcript (maxLine : Option Nat) (resumeId : Bytes) (retry : Duration) (bytes : Bytes) :
    List Item :=
  items maxLine resumeId (.start resumeId retry) (unmarked bytes).lines

end OnePass

/-! The same pass with the record that a decoder keeps, where the data values are joined as they
come and the grammar of a line stands on its own. -/

namespace Record

def items (maxLine : Option Nat) (last : Bytes) (record : Record) : List Bytes → List Item
  | [] => [⟨.ended, last, record.retry⟩]
  | line :: rest =>
    match maxLine.filter (· < line.length) with
    | some limit =>
      [⟨.failed (.lineTooLong limit), last, record.retry⟩, ⟨.ended, last, record.retry⟩]
    | none =>
      match (Line.parse line).map record.read with
      | .error fault =>
        [⟨.failed (.utf8 fault), last, record.retry⟩, ⟨.ended, last, record.retry⟩]
      | .ok (some event, next) =>
        ⟨.event event, event.id, next.retry⟩ :: items maxLine event.id next rest
      | .ok (none, next) => items maxLine last next rest

end Record

namespace OnePass

def joined : List Bytes → Option Bytes
  | [] => none
  | values => some (List.intercalate [Bytes.lineFeed] values)

/-- What a record looks like when the values are kept apart. -/
def State.record (state : State) : Record := ⟨state.id, state.name, joined state.data, state.retry⟩

theorem intercalate_append {values : List Bytes} (nonempty : values ≠ []) (value : Bytes) :
    List.intercalate [Bytes.lineFeed] (values ++ [value]) =
      List.intercalate [Bytes.lineFeed] values ++ Bytes.lineFeed :: value := by
  induction values with
  | nil => exact absurd rfl nonempty
  | cons first rest ih =>
    by_cases more : rest = []
    · simp [more]
    · rw [List.cons_append, List.intercalate_cons_of_ne_nil (by simp), ih more,
        List.intercalate_cons_of_ne_nil more]
      simp

theorem joined_append (values : List Bytes) (value : Bytes) :
    joined (values ++ [value]) = some (Record.joinData (joined values) value) := by
  cases values with
  | nil => simp [joined, Record.joinData]
  | cons first rest =>
    have join := intercalate_append (List.cons_ne_nil first rest) value
    simpa [joined, Record.joinData] using join

theorem decimal_eq (digits : Bytes) :
    Record.decimal digits =
      Nat.ofDigits 10 (digits.reverse.map fun digit => digit.toNat - 0x30) := by
  induction digits using List.reverseRec with
  | nil => rfl
  | append_singleton digits digit ih =>
    rw [Record.decimal] at ih ⊢
    rw [List.foldl_append, ih, List.reverse_append, List.map_append, Nat.ofDigits_append]
    simp [Nat.ofDigits_cons, Nat.add_comm]

theorem retryMillis?_eq (value : Bytes) : Record.retryMillis? value = millis? value := by
  simp only [Record.retryMillis?, millis?, decimal_eq]
  by_cases blank : value = []
  · simp [blank]
  · by_cases numeric : value.all Bytes.isDigit = true
    · simp [blank, numeric]
    · simp [blank, numeric]

theorem afterColon_eq (value : Bytes) :
    Line.afterColon value = if value.head? = some Bytes.space then value.tail else value := by
  cases value <;> simp [Line.afterColon]

theorem nameValue_eq (line : Bytes) : Line.nameValue line = nameValue line := by
  rw [Line.nameValue, nameValue, List.span_eq_takeWhile_dropWhile, List.drop_one, afterColon_eq]

theorem nameValue_comment {line : Bytes} (comment : line.head? = some Bytes.colon) :
    (nameValue line).1 = [] := by
  rw [nameValue, List.span_eq_takeWhile_dropWhile]
  cases line with
  | nil => rfl
  | cons octet rest => simp_all

theorem field?_record (state : State) (name value : Bytes) :
    (state.field? name value).map State.record =
      (Field.ofName? name).map fun field => state.record.apply field value := by
  unfold State.field? Field.ofName?
  by_cases data : name = Bytes.ofText "data"
  · have event : name ≠ Bytes.ofText "event" := by rw [data]; decide
    rw [if_pos data, if_neg event, if_pos data]
    simp [State.record, Record.apply, joined_append]
  · rw [if_neg data, if_neg data]
    by_cases event : name = Bytes.ofText "event"
    · rw [if_pos event, if_pos event]
      rfl
    · rw [if_neg event, if_neg event]
      by_cases id : name = Bytes.ofText "id"
      · rw [if_pos id, if_pos id]
        by_cases null : 0 ∈ value <;> simp [State.record, Record.apply, null]
      · rw [if_neg id, if_neg id]
        by_cases retry : name = Bytes.ofText "retry"
        · rw [if_pos retry, if_pos retry]
          cases millis : millis? value <;>
            simp [State.record, Record.apply, retryMillis?_eq, millis]
        · rw [if_neg retry, if_neg retry]
          rfl

theorem dispatch_record (state : State) :
    state.record.dispatch = (state.dispatch.1, state.dispatch.2.record) := by
  cases h : state.data <;> simp [Record.dispatch, State.dispatch, State.record, joined, h]

theorem read_record (state : State) (line : Bytes) :
    (Line.parse line).map state.record.read =
      (state.read line).map fun (event, next) => (event, next.record) := by
  unfold Line.parse State.read
  by_cases blank : line = []
  · simp [blank, Except.map, Record.read, dispatch_record]
  · rw [if_neg (by simpa using blank), if_neg blank, nameValue_eq]
    dsimp only
    by_cases comment : line.head? = some Bytes.colon
    · have nameless : Field.ofName? (nameValue line).1 = none := by
        rw [nameValue_comment comment]
        decide
      rw [if_pos comment, nameless]
      rfl
    · rw [if_neg comment]
      have same := field?_record state (nameValue line).1 (nameValue line).2
      cases field : Field.ofName? (nameValue line).1 with
      | none =>
        rw [field, Option.map_none, Option.map_eq_none_iff] at same
        rw [same]
        rfl
      | some name =>
        rw [field] at same
        obtain ⟨next, found, record⟩ := Option.map_eq_some_iff.mp same
        rw [found]
        cases Utf8.fault? (nameValue line).2 with
        | some fault => rfl
        | none => simp [Except.map, Record.read, record]

/-- Both passes come to the same. -/
theorem items_record (maxLine : Option Nat) (last : Bytes) (state : State) (lines : List Bytes) :
    state.record.items maxLine last lines = items maxLine last state lines := by
  induction lines generalizing last state with
  | nil => rfl
  | cons line rest ih =>
    unfold Record.items items
    rw [read_record]
    cases maxLine.filter (· < line.length) with
    | some limit => rfl
    | none =>
      cases read : state.read line with
      | error fault => rfl
      | ok outcome =>
        obtain ⟨event, next⟩ := outcome
        cases event with
        | none => exact ih last next
        | some event => exact congrArg _ (ih event.id next)

end OnePass

end EventStream
