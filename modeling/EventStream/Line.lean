import EventStream.Utf8

/-! The grammar of one line of a stream, its line end already taken off. -/

namespace EventStream

inductive Field where
  | event
  | data
  | id
  | retry
  deriving DecidableEq, Repr

/-- Fields are known by their exact names; case counts. -/
def Field.ofName? (name : Bytes) : Option Field :=
  if name = Bytes.ofText "event" then some .event
  else if name = Bytes.ofText "data" then some .data
  else if name = Bytes.ofText "id" then some .id
  else if name = Bytes.ofText "retry" then some .retry
  else none

inductive Line where
  /-- An empty line: the record ends. -/
  | blank
  /-- A comment, or a field of unknown name; its bytes are not looked at. -/
  | ignored
  | field (name : Field) (value : Bytes)
  deriving DecidableEq, Repr

namespace Line

/-- The value after a colon: one space in front of it belongs to the notation. -/
def afterColon : Bytes → Bytes
  | [] => []
  | octet :: rest => if octet = Bytes.space then rest else octet :: rest

/-- Split a line at its first colon; without one it is all name and the value is empty. -/
def nameValue (line : Bytes) : Bytes × Bytes :=
  (line.takeWhile (· ≠ Bytes.colon), afterColon ((line.dropWhile (· ≠ Bytes.colon)).drop 1))

/-- Read a line. Only the value of a known field has to be UTF-8. A comment is a line whose name is
empty, and the empty name belongs to no field. -/
def parse (line : Bytes) : Except Utf8.Fault Line :=
  if line.isEmpty then .ok .blank
  else
    let (text, value) := nameValue line
    match Field.ofName? text with
    | none => .ok .ignored
    | some name =>
      match Utf8.fault? value with
      | some fault => .error fault
      | none => .ok (.field name value)

end Line

end EventStream
