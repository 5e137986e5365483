import EventStream.Proofs.Decoding
import EventStream.Proofs.Writing

/-!
What is decoded of events that were written down: the same events, whichever of the many ways to
write them was taken and however the stream is cut. A filler leaves the state between two lines as
it is and a row adds its value, so that a record holds the whole event when its blank line comes.
-/

namespace EventStream

namespace Utf8

def Beyond (owed : List Range) : Prop := ∀ range ∈ owed, range.holds Bytes.lineFeed = false

theorem beyond_nil : Beyond [] := List.forall_mem_nil _

theorem followers_beyond {lead : UInt8} {owed : List Range} (found : followers lead = some owed) :
    Beyond owed := by
  unfold followers at found
  unfold Beyond
  split_ifs at found <;> cases found <;> decide

theorem faultFrom_elsewhere {start seen : Nat} {owed : List Range} {bytes : Bytes}
    (sound : faultFrom start seen owed bytes = none) (start' seen' : Nat) :
    faultFrom start' seen' owed bytes = none := by
  induction bytes generalizing start seen owed start' seen' with
  | nil =>
    cases owed with
    | nil => rfl
    | cons range more => cases sound
  | cons octet rest ih =>
    cases owed with
    | nil =>
      unfold faultFrom at sound ⊢
      dsimp only at sound ⊢
      split at sound
      next => cases sound
      next => exact ih sound _ _
      next => exact ih sound _ _
    | cons range more =>
      unfold faultFrom at sound ⊢
      dsimp only at sound ⊢
      split at sound
      next holds =>
        rw [if_pos holds]
        split at sound
        next last => rw [if_pos last]; exact ih sound _ _
        next further => rw [if_neg further]; exact ih sound _ _
      next => cases sound

/-- A line feed is no part of a longer character, so a text may be cut there. -/
theorem faultFrom_cut {start seen : Nat} {owed : List Range} {first second : Bytes}
    (beyond : Beyond owed)
    (sound : faultFrom start seen owed (first ++ Bytes.lineFeed :: second) = none) :
    faultFrom start seen owed first = none ∧ fault? second = none := by
  induction first generalizing start seen owed with
  | nil =>
    cases owed with
    | nil =>
      have later : faultFrom (start + 1) 0 [] second = none := sound
      exact ⟨rfl, faultFrom_elsewhere later 0 0⟩
    | cons range more =>
      -- Within a character the line feed would be at fault.
      rw [List.nil_append, faultFrom, if_neg (by simp [beyond range List.mem_cons_self])] at sound
      cases sound
  | cons octet first ih =>
    rw [List.cons_append] at sound
    cases owed with
    | nil =>
      unfold faultFrom at sound ⊢
      dsimp only at sound ⊢
      split at sound
      next => cases sound
      next => exact ih beyond_nil sound
      next owed found => exact ih (followers_beyond found) sound
    | cons range more =>
      have later := (List.forall_mem_cons.mp beyond).2
      unfold faultFrom at sound ⊢
      dsimp only at sound ⊢
      split at sound
      next holds =>
        rw [if_pos holds]
        split at sound
        next last => rw [if_pos last]; exact ih beyond_nil sound
        next further => rw [if_neg further]; exact ih later sound
      next => cases sound

theorem fault?_lines {lines : List Bytes}
    (sound : fault? (List.intercalate [Bytes.lineFeed] lines) = none) :
    ∀ line ∈ lines, fault? line = none := by
  induction lines with
  | nil => exact nofun
  | cons line rest ih =>
    by_cases more : rest = []
    · subst more
      rw [List.intercalate_singleton] at sound
      exact List.forall_mem_singleton.mpr sound
    · rw [List.intercalate_cons_of_ne_nil more, List.append_assoc] at sound
      obtain ⟨first, later⟩ := faultFrom_cut beyond_nil sound
      exact List.forall_mem_cons.mpr ⟨first, ih later⟩

end Utf8

namespace Bytes

theorem plain_splitOn {data : Bytes} (unbroken : carriageReturn ∉ data) :
    ∀ line ∈ data.splitOn lineFeed, Plain line := by
  induction data with
  | nil => simp
  | cons octet data ih =>
    rw [List.mem_cons, not_or] at unbroken
    have later := ih unbroken.2
    rw [List.splitOn, List.splitOnP_cons_eq_if_modifyHead]
    split
    next => exact List.forall_mem_cons.mpr ⟨plain_nil, later⟩
    next other =>
      have inner : ¬isBreak octet := by
        rintro (feed | ret)
        · exact other (beq_iff_eq.mpr feed)
        · exact unbroken.1 ret.symm
      rw [← List.splitOn]
      cases pieces : data.splitOn lineFeed with
      | nil => exact nofun
      | cons first others =>
        rw [pieces, List.forall_mem_cons] at later
        exact List.forall_mem_cons.mpr ⟨plain_cons.mpr ⟨inner, later.1⟩, later.2⟩

end Bytes

namespace Row

theorem text_head (field : Field) : ∃ octet rest, field.text = octet :: rest ∧
    octet ≠ Bytes.colon := by
  cases field <;> exact ⟨_, _, rfl, by decide⟩

theorem text_named (field : Field) : Bytes.colon ∉ field.text := by cases field <;> decide

theorem text_plain (field : Field) : Bytes.Plain field.text := by cases field <;> decide

theorem nameValue_colon (field : Field) (rest : Bytes) :
    OnePass.nameValue (field.text ++ Bytes.colon :: rest) =
      (field.text, if rest.head? = some Bytes.space then rest.tail else rest) := by
  have named : ∀ octet ∈ field.text, decide (octet ≠ Bytes.colon) = true := by
    intro octet inside
    apply decide_eq_true
    rintro rfl
    exact text_named field inside
  rw [OnePass.nameValue, List.span_eq_takeWhile_dropWhile, List.takeWhile_append_of_pos named,
    List.dropWhile_append_of_pos named]
  simp

theorem nameValue_bare (field : Field) : OnePass.nameValue field.text = (field.text, []) := by
  cases field <;> decide

theorem nameValue_line {row : Row} {field : Field} {value : Bytes}
    (found : row.field? = some (field, value)) :
    OnePass.nameValue row.line = (field.text, value) := by
  cases row with
  | spaced name text =>
    cases found
    rw [line, nameValue_colon, List.head?_cons, if_pos rfl, List.tail_cons]
  | tight name text unspaced =>
    cases found
    rw [line, nameValue_colon, if_neg unspaced]
  | bare name =>
    cases found
    exact nameValue_bare field
  | filler other => cases found

theorem line_head {row : Row} {field : Field} {value : Bytes}
    (found : row.field? = some (field, value)) :
    row.line ≠ [] ∧ row.line.head? ≠ some Bytes.colon := by
  obtain ⟨octet, rest, same, other⟩ := text_head field
  have begins : ∃ more, row.line = octet :: more := by
    cases row with
    | spaced name text => cases found; exact ⟨_, by rw [line, same]; rfl⟩
    | tight name text unspaced => cases found; exact ⟨_, by rw [line, same]; rfl⟩
    | bare name => cases found; exact ⟨_, same⟩
    | filler other => cases found
  obtain ⟨more, begins⟩ := begins
  rw [begins]
  exact ⟨List.cons_ne_nil _ _, by simpa using other⟩

/-- A row that a reader takes in: it sets no interval, and its value is a text and fits an id. -/
def Readable (row : Row) : Prop :=
  ∀ field value, row.field? = some (field, value) →
    field ≠ .retry ∧ (field = .id → 0 ∉ value) ∧ Utf8.fault? value = none

theorem values_cons (field : Field) (row : Row) (rows : List Row) :
    values field (row :: rows) = (row.value? field).toList ++ values field rows := by
  rw [values, List.filterMap_cons]
  cases row.value? field <;> rfl

theorem value?_other {row : Row} {name field : Field} {value : Bytes}
    (found : row.field? = some (name, value)) (other : name ≠ field) : row.value? field = none := by
  rw [value?, found, Option.bind_some]
  exact if_neg other

theorem value?_filler {row : Row} (found : row.field? = none) (field : Field) :
    row.value? field = none := by
  rw [value?, found, Option.bind_none]

end Row

namespace OnePass

namespace State

def take (state : State) (value : Bytes) : Field → State
  | .data => { state with data := state.data ++ [value] }
  | .event => { state with name := value }
  | .id => { state with id := value }
  | .retry => state

def add (state : State) (row : Row) : State :=
  row.field?.elim state fun (field, value) => state.take value field

theorem field?_text (state : State) {field : Field} {value : Bytes} (other : field ≠ .retry)
    (fits : field = .id → 0 ∉ value) :
    state.field? field.text value = some (state.take value field) := by
  unfold field?
  cases field with
  | data => exact if_pos rfl
  | event => rw [if_neg (by decide)]; exact if_pos rfl
  | id =>
    rw [if_neg (by decide), if_neg (by decide), Field.text, if_pos rfl, if_neg (fits rfl)]
    rfl
  | retry => exact absurd rfl other

theorem field?_unnamed (state : State) {name : Bytes} (unnamed : ∀ field : Field, name ≠ field.text)
    (value : Bytes) : state.field? name value = none := by
  have data : name ≠ Bytes.ofText "data" := unnamed .data
  have event : name ≠ Bytes.ofText "event" := unnamed .event
  have id : name ≠ Bytes.ofText "id" := unnamed .id
  have retry : name ≠ Bytes.ofText "retry" := unnamed .retry
  rw [field?, if_neg data, if_neg event, if_neg id, if_neg retry]

theorem read_filler (state : State) (filler : Filler) :
    state.read filler.line = .ok (none, state) := by
  obtain ⟨line, -, comment | ⟨begun, unnamed⟩⟩ := filler
  · have nonempty : line ≠ [] := by
      rintro rfl
      cases comment
    rw [read, if_neg nonempty, if_pos comment]
  · have nonempty : line ≠ [] := by
      rintro rfl
      exact begun rfl
    rw [read, if_neg nonempty]
    split
    next => rfl
    next =>
      have name : (nameValue line).1 = line.takeWhile (· ≠ Bytes.colon) := by
        rw [nameValue, List.span_eq_takeWhile_dropWhile]
      dsimp only
      rw [name, field?_unnamed state unnamed]

/-- A row adds its value, and a filler among the rows adds none. -/
theorem read_row (state : State) {row : Row} (readable : row.Readable) :
    state.read row.line = .ok (none, state.add row) := by
  cases found : row.field? with
  | none =>
    cases row with
    | filler other => exact read_filler state other
    | _ => cases found
  | some pair =>
    obtain ⟨field, value⟩ := pair
    obtain ⟨other, fits, text⟩ := readable field value found
    obtain ⟨nonempty, named⟩ := Row.line_head found
    rw [read, if_neg nonempty, if_neg named, Row.nameValue_line found]
    dsimp only
    rw [field?_text state other fits, text, add, found]
    rfl

/-- What rows add up to: all data values, and of the other fields the last one. -/
theorem add_rows (state : State) (rows : List Row) :
    rows.foldl add state =
      ⟨(Row.values .id rows).getLast?.getD state.id,
        (Row.values .event rows).getLast?.getD state.name,
        state.data ++ Row.values .data rows, state.retry⟩ := by
  induction rows generalizing state with
  | nil => simp [Row.values]
  | cons row rows ih =>
    rw [List.foldl_cons, ih]
    simp only [Row.values_cons]
    cases found : row.field? with
    | none => simp [add, found, Row.value?_filler found]
    | some pair =>
      obtain ⟨field, value⟩ := pair
      have self := Row.value?_self found
      have others (field' : Field) := @Row.value?_other row field field' value found
      cases field <;>
        simp [add, found, take, self, others, List.getLast?_cons]

end State

end OnePass

namespace Written

theorem value_sound (written : Written) {row : Row} {field : Field} {value : Bytes}
    (inside : row ∈ written.rows.map Prod.fst) (found : row.field? = some (field, value)) :
    Bytes.Plain value ∧ field ≠ .retry ∧ (field = .id → 0 ∉ value) ∧
      Utf8.fault? value = none := by
  have writable := written.writable
  have given : value ∈ Row.values field (written.rows.map Prod.fst) :=
    List.mem_filterMap.mpr ⟨row, inside, Row.value?_self found⟩
  cases field with
  | id =>
    rw [written.id, List.mem_singleton] at given
    subst given
    exact ⟨writable.id, nofun, fun _ => writable.zero, writable.texts _ (by simp)⟩
  | event =>
    rw [written.name] at given
    split at given
    next => cases given
    next =>
      rw [List.mem_singleton] at given
      subst given
      exact ⟨writable.name, nofun, nofun, writable.texts _ (by simp)⟩
  | data =>
    rw [written.data] at given
    have text : Utf8.fault? (List.intercalate [Bytes.lineFeed]
        (written.event.data.splitOn Bytes.lineFeed)) = none := by
      rw [List.intercalate_splitOn]
      exact writable.texts _ (by simp)
    exact ⟨Bytes.plain_splitOn writable.data value given, nofun, nofun,
      Utf8.fault?_lines text value given⟩
  | retry =>
    rw [written.retry] at given
    cases given

theorem readable (written : Written) : ∀ row ∈ written.rows.map Prod.fst, row.Readable :=
  fun _ inside _ _ found => (written.value_sound inside found).2

theorem plain_row (written : Written) :
    ∀ row ∈ written.rows.map Prod.fst, Bytes.Plain row.line := by
  intro row inside
  have colon : Bytes.Plain [Bytes.colon] := by decide
  have spaced : Bytes.Plain [Bytes.colon, Bytes.space] := by decide
  cases row with
  | spaced field value =>
    exact (Row.text_plain field).append (spaced.append (written.value_sound inside rfl).1)
  | tight field value unspaced =>
    exact (Row.text_plain field).append (colon.append (written.value_sound inside rfl).1)
  | bare field => exact Row.text_plain field
  | filler other => exact other.plain

theorem lines_content (written : Written) :
    written.lines.map Prod.fst = (written.rows.map Prod.fst).map Row.line ++ [[]] := by
  rw [lines, List.map_append, List.map_map, List.map_map]
  rfl

theorem rows_event (written : Written) (last : Bytes) (retry : Duration) :
    (written.rows.map Prod.fst).foldl OnePass.State.add (.start last retry) =
      ⟨written.event.id, written.event.name, written.event.data.splitOn Bytes.lineFeed, retry⟩ := by
  rw [OnePass.State.add_rows, written.id, written.name, written.data]
  by_cases nameless : written.event.name = []
  · rw [if_pos nameless, nameless]
    rfl
  · rw [if_neg nameless]
    rfl

end Written

namespace OnePass

variable {maxLine : Option Nat}

theorem items_rows {rows : List Row} (readable : ∀ row ∈ rows, row.Readable)
    (fits : ∀ row ∈ rows, maxLine.filter (· < row.line.length) = none) (last : Bytes)
    (state : State) (rest : List Bytes) :
    items maxLine last state (rows.map Row.line ++ rest) =
      items maxLine last (rows.foldl State.add state) rest := by
  induction rows generalizing state with
  | nil => rfl
  | cons row rows ih =>
    rw [List.forall_mem_cons] at readable fits
    rw [List.map_cons, List.cons_append, items, fits.1, State.read_row state readable.1]
    exact ih readable.2 fits.2 (state.add row)

theorem items_written (written : Written)
    (fits : ∀ line ∈ written.lines, maxLine.filter (· < line.1.length) = none) (last : Bytes)
    (retry : Duration) (rest : List Bytes) :
    items maxLine last (.start last retry) (written.lines.map Prod.fst ++ rest) =
      ⟨.event written.event, written.event.id, retry⟩ ::
        items maxLine written.event.id (.start written.event.id retry) rest := by
  have within : ∀ row ∈ written.rows.map Prod.fst,
      maxLine.filter (· < row.line.length) = none := by
    intro row inside
    obtain ⟨pair, member, rfl⟩ := List.mem_map.mp inside
    exact fits (pair.1.line, pair.2) (List.mem_append_left _ (List.mem_map.mpr ⟨pair, member, rfl⟩))
  have blank : maxLine.filter (· < ([] : Bytes).length) = none := by
    cases maxLine <;> simp [Option.filter]
  have dispatch : State.read ⟨written.event.id, written.event.name,
      written.event.data.splitOn Bytes.lineFeed, retry⟩ [] =
        .ok (some written.event, .start written.event.id retry) := by
    rw [State.read, if_pos rfl, State.dispatch, if_neg (List.splitOn_ne_nil _ _),
      List.intercalate_splitOn]
    rfl
  rw [written.lines_content, List.append_assoc, items_rows written.readable within,
    written.rows_event, List.singleton_append, items, blank, dispatch]
  rfl

theorem items_fillers {fillers : List Filler}
    (fits : ∀ filler ∈ fillers, maxLine.filter (· < filler.line.length) = none) (last : Bytes)
    (state : State) :
    items maxLine last state (fillers.map Filler.line) = [⟨.ended, last, state.retry⟩] := by
  induction fillers with
  | nil => rfl
  | cons filler fillers ih =>
    rw [List.forall_mem_cons] at fits
    rw [List.map_cons, items, fits.1, State.read_filler]
    exact ih fits.2

def told (events : List Event) (last : Bytes) (retry : Duration) : List Item :=
  events.map (fun event => ⟨.event event, event.id, retry⟩) ++
    [⟨.ended, events.getLast?.elim last Event.id, retry⟩]

theorem told_cons (event : Event) (events : List Event) (last : Bytes) (retry : Duration) :
    told (event :: events) last retry =
      ⟨.event event, event.id, retry⟩ :: told events event.id retry := by
  rw [told, told, List.map_cons, List.cons_append, List.getLast?_cons]
  cases events.getLast? <;> rfl

theorem items_draft (draft : Draft)
    (fits : ∀ line ∈ draft.lines, maxLine.filter (· < line.1.length) = none) (last : Bytes)
    (retry : Duration) :
    items maxLine last (.start last retry) (draft.lines.map Prod.fst) =
      told draft.events last retry := by
  obtain ⟨records, behind⟩ := draft
  induction records generalizing last with
  | nil =>
    have lines : (Draft.lines ⟨[], behind⟩).map Prod.fst =
        (behind.map Prod.fst).map Filler.line := by
      rw [Draft.lines, List.flatMap_nil, List.nil_append, List.map_map, List.map_map]
      rfl
    have within : ∀ filler ∈ behind.map Prod.fst,
        maxLine.filter (· < filler.line.length) = none := by
      intro filler inside
      obtain ⟨pair, member, rfl⟩ := List.mem_map.mp inside
      exact fits (pair.1.line, pair.2) (List.mem_map.mpr ⟨pair, member, rfl⟩)
    rw [lines]
    exact items_fillers within last _
  | cons written records ih =>
    have split : Draft.lines ⟨written :: records, behind⟩ =
        written.lines ++ Draft.lines ⟨records, behind⟩ := by
      rw [Draft.lines, List.flatMap_cons, List.append_assoc]
      rfl
    rw [split, List.forall_mem_append] at fits
    rw [split, List.map_append, items_written written fits.1, ih _ fits.2]
    exact (told_cons _ _ _ _).symm

theorem unmarked_stream (presentation : Presentation) :
    unmarked presentation.stream = presentation.bytes := by
  rw [Presentation.stream]
  cases marked : presentation.marked with
  | true => rfl
  | false => exact unmarked_of_take (presentation.unlike marked)

end OnePass

theorem Draft.plain_lines (draft : Draft) : ∀ line ∈ draft.lines, Bytes.Plain line.1 := by
  intro line inside
  rcases List.mem_append.mp inside with record | behind
  · obtain ⟨written, -, member⟩ := List.mem_flatMap.mp record
    have content : line.1 ∈ written.lines.map Prod.fst := List.mem_map_of_mem member
    rw [written.lines_content] at content
    rcases List.mem_append.mp content with row | blank
    · obtain ⟨row, given, same⟩ := List.mem_map.mp row
      exact same ▸ written.plain_row row given
    · rw [List.mem_singleton.mp blank]
      exact Bytes.plain_nil
  · obtain ⟨pair, -, rfl⟩ := List.mem_map.mp behind
    exact pair.1.plain

namespace Body

/-- Events that were written down are decoded again, one after the other and with nothing else
between them and the end, whichever way to write them was taken and however the stream is cut and
polled. No line may be over the limit. -/
theorem written_decodes (maxLine : Option Nat) (resumeId : Bytes) (retry : Duration)
    (presentation : Presentation) {turns : List (Option Bytes)}
    (cut : (turns.filterMap id).flatten = presentation.stream)
    (fits : ∀ limit, maxLine = some limit → ∀ line ∈ presentation.lines, line.1.length ≤ limit) :
    let opened := fresh maxLine resumeId retry
    let left := opened.run (schedule turns)
    opened.items (schedule turns) ++
        (left.decoder.drain left.feed.close).map Decoder.Polled.item =
      presentation.events.map (fun event => ⟨.event event, event.id, retry⟩) ++
        [⟨.ended, presentation.events.getLast?.elim resumeId Event.id, retry⟩] := by
  intro opened left
  have within : ∀ line ∈ presentation.lines, maxLine.filter (· < line.1.length) = none := by
    intro line inside
    cases most : maxLine with
    | none => rfl
    | some limit => simp [Option.filter, Nat.not_lt.mpr (fits limit most line inside)]
  have lines : presentation.bytes.lines = presentation.lines.map Prod.fst :=
    Bytes.lines_ended presentation.plain_lines presentation.parted
  calc _ = opened.outlook (turns.filterMap id).flatten :=
        items_outlook (flowing_fresh maxLine resumeId retry) turns
    _ = OnePass.transcript maxLine resumeId retry presentation.stream := by
        rw [cut]
        exact Decoder.outlook_start maxLine resumeId retry _
    _ = OnePass.items maxLine resumeId (.start resumeId retry)
          (presentation.lines.map Prod.fst) := by
        rw [OnePass.transcript, OnePass.unmarked_stream, lines]
    _ = _ := OnePass.items_draft presentation.toDraft within resumeId retry

/-- A record with fillers, one of them no text, and with every way to write a field. -/
def mixedRecord : Written where
  event := ⟨[49], [110], Bytes.ofText " a\n:b\n"⟩
  rows :=
    [(.filler ⟨[58, 255], by decide, .inl rfl⟩, .both),
      (.spaced .data (Bytes.ofText " a"), .carriageReturn),
      (.filler ⟨Bytes.ofText "dat:a", by decide, .inr
        ⟨by decide, by intro field; cases field <;> decide⟩⟩, .carriageReturn),
      (.tight .event [110] (by decide), .lineFeed),
      (.tight .data (Bytes.ofText ":b") (by decide), .both),
      (.spaced .id [49], .carriageReturn), (.bare .data, .lineFeed)]
  blank := .carriageReturn
  writable := ⟨by decide, by decide,
    by decide, by decide, by decide⟩
  id := by decide
  name := by decide
  data := by decide
  retry := by decide

def emptyRecord : Written where
  event := ⟨[], [], []⟩
  rows := [(.bare .id, .lineFeed), (.bare .data, .carriageReturn)]
  blank := .carriageReturn
  writable := ⟨by decide, Bytes.plain_nil, Bytes.plain_nil, by decide, by decide⟩
  id := by decide
  name := by decide
  data := by decide
  retry := by decide

def mixed : Presentation where
  records := [mixedRecord, emptyRecord]
  behind := [(⟨[58], by decide, .inl rfl⟩, .carriageReturn)]
  marked := true
  parted := by decide
  unlike := nofun

theorem written_decodes_mixed :
    let turns := mixed.stream.flatMap fun octet => [some [octet], none]
    let opened := fresh (some 8) [57] ⟨3⟩
    let left := opened.run (schedule turns)
    opened.items (schedule turns) ++
        (left.decoder.drain left.feed.close).map Decoder.Polled.item =
      [⟨.event ⟨[49], [110], Bytes.ofText " a\n:b\n"⟩, [49], ⟨3⟩⟩, ⟨.event ⟨[], [], []⟩, [], ⟨3⟩⟩,
        ⟨.ended, [], ⟨3⟩⟩] := by
  apply written_decodes (some 8) [57] ⟨3⟩ mixed
  · decide +kernel
  · rintro limit ⟨⟩
    decide +kernel

end Body

end EventStream
