import EventStream.Duration
import EventStream.Event
import EventStream.Line

/-! What the lines of a stream add up to: the record being read, and the two values that outlive
records, the id in force and the retry interval. -/

namespace EventStream

structure Record where
  /-- The id in force; it stays when the record ends. -/
  id : Bytes
  name : Bytes
  /-- The data values given so far in this record, joined by line feeds; `none` before the first. -/
  data : Option Bytes
  /-- How long to wait before a reconnect; it stays when the record ends. -/
  retry : Duration
  deriving DecidableEq, Repr

namespace Record

/-- The wait that holds until a stream asks for another one. -/
def defaultRetry : Duration := .ofMillis 3000

/-- No lines read yet, with the id and the interval that earlier streams left behind. -/
def start (id : Bytes) (retry : Duration) : Record := ⟨id, [], none, retry⟩

def decimal (digits : Bytes) : Nat :=
  digits.foldl (fun value digit => 10 * value + (digit.toNat - 0x30)) 0

/-- The milliseconds of a retry value: ASCII digits, at least one of them, for a number that a
64-bit counter holds. -/
def retryMillis? (value : Bytes) : Option Nat :=
  if value.isEmpty || !value.all Bytes.isDigit then none
  else
    let millis := decimal value
    if millis ≤ counterMax then some millis else none

def joinData : Option Bytes → Bytes → Bytes
  | none, value => value
  | some data, value => data ++ Bytes.lineFeed :: value

/-- Act on a field. An id with a NUL in it could never be sent in a header and is passed over, and
so is a retry value that is not a number in range. -/
def apply (record : Record) (field : Field) (value : Bytes) : Record :=
  match field with
  | .data => { record with data := some (joinData record.data value) }
  | .event => { record with name := value }
  | .id => if value.contains 0 then record else { record with id := value }
  | .retry =>
    match retryMillis? value with
    | some millis => { record with retry := .ofMillis millis }
    | none => record

/-- End the record: an event if it had data, and in any case name and data start afresh. -/
def dispatch (record : Record) : Option Event × Record :=
  (record.data.map fun data => ⟨record.id, record.name, data⟩,
    { record with name := [], data := none })

def read (record : Record) : Line → Option Event × Record
  | .blank => record.dispatch
  | .ignored => (none, record)
  | .field name value => (none, record.apply name value)

end Record

end EventStream
