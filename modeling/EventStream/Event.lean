import EventStream.Bytes

/-! The events that a stream carries. -/

namespace EventStream

structure Event where
  /-- The id in force when the record was dispatched; a record without an id of its own carries the
  one before it. -/
  id : Bytes
  /-- The event name, empty when the record gave none. -/
  name : Bytes
  data : Bytes
  deriving DecidableEq, Repr

namespace Event

def defaultType : Bytes := Bytes.ofText "message"

def type (event : Event) : Bytes :=
  if event.name.isEmpty then defaultType else event.name

end Event

end EventStream
