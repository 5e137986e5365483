import EventStream.Proofs.OnePass
import Mathlib.Data.List.Chain

/-!
How events may be written down. Each is an id line, an event line if it has a name, and a data line
for every line of its data, and a blank line ends it. The order of the fields, the space behind a
colon, the line ends and the lines without a meaning in between are free, so the same events can be
written in many ways. Whichever is taken, its lines can be told apart again.
-/

namespace EventStream

namespace Bytes

theorem plain_iff {bytes : Bytes} : Plain bytes ↔ lineFeed ∉ bytes ∧ carriageReturn ∉ bytes := by
  refine ⟨fun plain => ⟨fun inside => ?_, fun inside => ?_⟩, ?_⟩
  · exact plain _ inside (.inl rfl)
  · exact plain _ inside (.inr rfl)
  · rintro ⟨unfed, unreturned⟩ octet inside (rfl | rfl)
    · exact unfed inside
    · exact unreturned inside

instance (bytes : Bytes) : Decidable (Plain bytes) := decidable_of_iff' _ plain_iff

theorem Plain.append {first second : Bytes} (one : Plain first) (two : Plain second) :
    Plain (first ++ second) :=
  List.forall_mem_append.mpr ⟨one, two⟩

end Bytes

def Field.text : Field → Bytes
  | .event => Bytes.ofText "event"
  | .data => Bytes.ofText "data"
  | .id => Bytes.ofText "id"
  | .retry => Bytes.ofText "retry"

/-- A line without a meaning: it starts with a colon, or has a name that is none of a field. Its
other octets may be any but those of a line end. -/
structure Filler where
  line : Bytes
  plain : Bytes.Plain line
  meaningless : line.head? = some Bytes.colon ∨
    line.takeWhile (· ≠ Bytes.colon) ≠ [] ∧
      ∀ field : Field, line.takeWhile (· ≠ Bytes.colon) ≠ field.text

/-- A line of a record. A field has a space behind its colon, or none, which a value that starts
with a space cannot do without, or no colon at all if its value is empty. -/
inductive Row where
  | spaced (field : Field) (value : Bytes)
  | tight (field : Field) (value : Bytes) (unspaced : value.head? ≠ some Bytes.space)
  | bare (field : Field)
  | filler (filler : Filler)

namespace Row

def line : Row → Bytes
  | .spaced field value => field.text ++ Bytes.colon :: Bytes.space :: value
  | .tight field value _ => field.text ++ Bytes.colon :: value
  | .bare field => field.text
  | .filler other => other.line

def field? : Row → Option (Field × Bytes)
  | .spaced field value => some (field, value)
  | .tight field value _ => some (field, value)
  | .bare field => some (field, [])
  | .filler _ => none

def value? (field : Field) (row : Row) : Option Bytes :=
  row.field?.bind fun (name, value) => if name = field then some value else none

def values (field : Field) (rows : List Row) : List Bytes := rows.filterMap (value? field)

theorem value?_self {row : Row} {field : Field} {value : Bytes}
    (found : row.field? = some (field, value)) : row.value? field = some value := by
  rw [value?, found, Option.bind_some]
  exact if_pos rfl

end Row

/-- What an event has to be so that it can be written down. -/
structure Event.Writable (event : Event) : Prop where
  data : Bytes.carriageReturn ∉ event.data
  name : Bytes.Plain event.name
  id : Bytes.Plain event.id
  zero : 0 ∉ event.id
  texts : ∀ text ∈ [event.data, event.name, event.id], Utf8.fault? text = none

/-- An event as it is written down. Its rows give the id, the name if there is one, and the lines of
the data, in any order that keeps these in sequence, and they give nothing else. -/
structure Written where
  event : Event
  rows : List (Row × LineEnd)
  blank : LineEnd
  writable : event.Writable
  id : Row.values .id (rows.map Prod.fst) = [event.id]
  name : Row.values .event (rows.map Prod.fst) =
    if event.name = [] then [] else [event.name]
  data : Row.values .data (rows.map Prod.fst) = event.data.splitOn Bytes.lineFeed
  retry : Row.values .retry (rows.map Prod.fst) = []

abbrev Ended := Bytes × LineEnd

namespace Ended

def bytes (line : Ended) : Bytes := line.1 ++ line.2.bytes

/-- Two line ends that stay two: no carriage return with a line feed alone behind it. -/
def Parted (line next : Ended) : Prop := ¬(line.2 = .carriageReturn ∧ next = ([], .lineFeed))

instance (line next : Ended) : Decidable (line.Parted next) := inferInstanceAs (Decidable (¬_))

end Ended

def Written.lines (written : Written) : List Ended :=
  written.rows.map (fun (row, ending) => (row.line, ending)) ++ [([], written.blank)]

/-- Events written down one after the other, with lines of no meaning behind them. -/
structure Draft where
  records : List Written
  behind : List (Filler × LineEnd)

namespace Draft

def events (draft : Draft) : List Event := draft.records.map Written.event

def lines (draft : Draft) : List Ended :=
  draft.records.flatMap Written.lines ++
    draft.behind.map fun (filler, ending) => (filler.line, ending)

def bytes (draft : Draft) : Bytes := draft.lines.flatMap Ended.bytes

end Draft

/-- A stream that such a draft makes, with the mark in front or without it. Its line ends stay
apart, and without the mark it does not begin like one that has it. -/
structure Presentation extends Draft where
  marked : Bool
  parted : toDraft.lines.IsChain Ended.Parted
  unlike : marked = false → toDraft.bytes.take 3 ≠ byteOrderMark

def Presentation.stream (presentation : Presentation) : Bytes :=
  if presentation.marked then byteOrderMark ++ presentation.bytes else presentation.bytes

namespace Bytes

theorem parted_head {content : Bytes} {line : Ended} {rest : List Ended} (plain : Plain line.1)
    (parted : Ended.Parted (content, .carriageReturn) line) :
    ∃ next beyond, (line :: rest).flatMap Ended.bytes = next :: beyond ∧ next ≠ lineFeed := by
  obtain ⟨line, other⟩ := line
  rw [List.flatMap_cons]
  cases line with
  | nil =>
    cases other with
    | lineFeed => exact absurd ⟨rfl, rfl⟩ parted
    | carriageReturn => exact ⟨_, _, rfl, carriageReturn_ne_lineFeed⟩
    | both => exact ⟨_, _, rfl, carriageReturn_ne_lineFeed⟩
  | cons octet line =>
    refine ⟨octet, _, rfl, ?_⟩
    rintro rfl
    exact plain _ List.mem_cons_self (.inl rfl)

/-- Lines that are written one after the other can be told apart again. -/
theorem lines_ended {lines : List Ended} (plain : ∀ line ∈ lines, Plain line.1)
    (parted : lines.IsChain Ended.Parted) :
    Bytes.lines (lines.flatMap Ended.bytes) = lines.map Prod.fst := by
  induction lines with
  | nil => rfl
  | cons line rest ih =>
    obtain ⟨content, ending⟩ := line
    rw [List.isChain_cons] at parted
    rw [List.forall_mem_cons] at plain
    have later := ih plain.2 parted.2
    have first : Bytes.lines (((content, ending) :: rest).flatMap Ended.bytes) =
        linesFrom content (ending.bytes ++ rest.flatMap Ended.bytes) := by
      rw [List.flatMap_cons, Ended.bytes, List.append_assoc]
      exact linesFrom_plain plain.1 [] _
    rw [first, List.map_cons, ← later]
    cases ending with
    | lineFeed => exact linesFrom_lineFeed content _
    | both => exact linesFrom_both content _
    | carriageReturn =>
      -- A line feed behind it would be taken for a part of this line end.
      cases rest with
      | nil => exact linesFrom_last content
      | cons next others =>
        have head := plain.2 next List.mem_cons_self
        have apart := parted.1 next rfl
        obtain ⟨octet, beyond, same, other⟩ := @parted_head content next others head apart
        rw [same]
        exact linesFrom_return other content beyond

end Bytes

end EventStream
