import EventStream.Proofs.Encoding
import EventStream.Proofs.Requesting

/-!
What may be relied on in an event, whatever bytes came. The value of a field lies within one line
and was looked at for faults before it was taken, and only line feeds are put between values. So
names, data and ids are texts, and an id is one that never breaks a header: it is the id of an
event, and that of a stream's first events is the one that the stream before it left.
-/

namespace EventStream

namespace Bytes

structure IsLine (bytes : Bytes) : Prop where
  text : IsText bytes
  plain : Plain bytes

/-- A text without a line end and without a zero octet. -/
structure IsId (bytes : Bytes) : Prop extends IsLine bytes where
  zero : 0 ∉ bytes

theorem isLine_nil : IsLine [] := ⟨isText_nil, plain_nil⟩

theorem isId_nil : IsId [] := ⟨isLine_nil, List.not_mem_nil⟩

theorem linesFrom_each {begun : Bytes} (plain : Plain begun) (rest : Bytes) :
    ∀ line ∈ linesFrom begun rest, Plain line := by
  fun_induction linesFrom begun rest with
  | case1 => exact List.forall_mem_nil _
  | case2 begun => exact List.forall_mem_singleton.mpr plain
  | case3 begun rest ih => exact List.forall_mem_cons.mpr ⟨plain, ih plain_nil⟩
  | case4 begun => exact List.forall_mem_singleton.mpr plain
  | case5 begun _ beyond ih => exact List.forall_mem_cons.mpr ⟨plain, ih plain_nil⟩
  | case6 begun _ next beyond other ih => exact List.forall_mem_cons.mpr ⟨plain, ih plain_nil⟩
  | case7 begun octet rest notFeed notReturn ih =>
    apply ih
    have inner : Plain [octet] := by simp [isBreak, notFeed, notReturn]
    exact List.forall_mem_append.mpr ⟨plain, inner⟩

end Bytes

namespace OnePass

theorem nameValue_suffix (line : Bytes) : (nameValue line).2 <:+ line := by
  have behind : (line.dropWhile (· ≠ Bytes.colon)).tail <:+ line :=
    (List.tail_suffix _).trans (List.dropWhile_suffix _)
  rw [nameValue, List.span_eq_takeWhile_dropWhile]
  dsimp only
  split
  next => exact (List.tail_suffix _).trans behind
  next => exact behind

end OnePass

/-- What holds of an event that a decoder yields. -/
structure Event.WellFormed (event : Event) : Prop where
  id : Bytes.IsId event.id
  name : Bytes.IsLine event.name
  data : Bytes.IsText event.data
  unreturned : Bytes.carriageReturn ∉ event.data

namespace OnePass

structure State.WellFormed (state : State) : Prop where
  id : Bytes.IsId state.id
  name : Bytes.IsLine state.name
  data : ∀ value ∈ state.data, Bytes.IsLine value

namespace State

theorem wellFormed_start {id : Bytes} (sound : Bytes.IsId id) (retry : Duration) :
    (start id retry).WellFormed :=
  ⟨sound, Bytes.isLine_nil, List.forall_mem_nil _⟩

variable {state next : State}

theorem WellFormed.field? (formed : state.WellFormed) {name value : Bytes}
    (line : Bytes.IsLine value) (known : state.field? name value = some next) :
    next.WellFormed := by
  unfold State.field? at known
  split_ifs at known
  next =>
    cases known
    refine ⟨formed.id, formed.name, ?_⟩
    exact List.forall_mem_append.mpr ⟨formed.data, List.forall_mem_singleton.mpr line⟩
  next =>
    cases known
    exact ⟨formed.id, line, formed.data⟩
  next =>
    cases known
    exact formed
  next zero =>
    cases known
    exact ⟨⟨line, zero⟩, formed.name, formed.data⟩
  next =>
    cases known
    cases millis? value with
    | none => exact formed
    | some millis => exact ⟨formed.id, formed.name, formed.data⟩

theorem joined_unreturned {values : List Bytes} (lines : ∀ value ∈ values, Bytes.Plain value) :
    Bytes.carriageReturn ∉ List.intercalate [Bytes.lineFeed] values := by
  induction values with
  | nil => exact List.not_mem_nil
  | cons value rest ih =>
    rw [List.forall_mem_cons] at lines
    have alone : Bytes.carriageReturn ∉ value := (Bytes.plain_iff.mp lines.1).2
    by_cases more : rest = []
    · rw [more, List.intercalate_singleton]
      exact alone
    · rw [List.intercalate_cons_of_ne_nil more, List.mem_append, List.mem_append, not_or, not_or]
      exact ⟨⟨alone, by decide⟩, ih lines.2⟩

theorem WellFormed.dispatch (formed : state.WellFormed) :
    state.dispatch.2.WellFormed ∧
      ∀ event, state.dispatch.1 = some event → event.WellFormed := by
  refine ⟨⟨formed.id, Bytes.isLine_nil, List.forall_mem_nil _⟩, ?_⟩
  intro event given
  rw [State.dispatch] at given
  dsimp only at given
  split at given
  next => cases given
  next =>
    cases given
    refine ⟨formed.id, formed.name, ?_, ?_⟩
    · exact Bytes.isText_intercalate fun value inside => (formed.data value inside).text
    · exact joined_unreturned fun value inside => (formed.data value inside).plain

theorem WellFormed.read (formed : state.WellFormed) {line : Bytes} (plain : Bytes.Plain line)
    {event : Option Event} (read : state.read line = .ok (event, next)) :
    next.WellFormed ∧ ∀ given, event = some given → given.WellFormed := by
  unfold State.read at read
  split at read
  next =>
    cases read
    exact formed.dispatch
  next =>
    split at read
    next =>
      cases read
      exact ⟨formed, nofun⟩
    next =>
      dsimp only at read
      split at read
      next =>
        cases read
        exact ⟨formed, nofun⟩
      next => cases read
      next known sound =>
        cases read
        have within := (nameValue_suffix line).subset
        have value : Bytes.IsLine (nameValue line).2 :=
          ⟨Bytes.isText_of_sound sound, fun octet inside => plain octet (within inside)⟩
        exact ⟨formed.field? value known, nofun⟩

end State

theorem items_wellFormed {maxLine : Option Nat} {last : Bytes} {state : State}
    (formed : state.WellFormed) {lines : List Bytes} (plain : ∀ line ∈ lines, Bytes.Plain line)
    {item : Item} {event : Event} (given : item.event? = some event)
    (inside : item ∈ items maxLine last state lines) : event.WellFormed := by
  induction lines generalizing last state with
  | nil =>
    rw [items, List.mem_singleton] at inside
    subst inside
    cases given
  | cons line rest ih =>
    rw [List.forall_mem_cons] at plain
    unfold items at inside
    split at inside
    next => exact absurd given (unfinished inside)
    next =>
      split at inside
      next => exact absurd given (unfinished inside)
      next first behind read =>
        obtain ⟨later, fits⟩ := formed.read plain.1 read
        rcases List.mem_cons.mp inside with rfl | after
        · cases given
          exact fits _ rfl
        · exact ih later plain.2 after
      next next read => exact ih (formed.read plain.1 read).1 plain.2 inside

theorem events_wellFormed {resumeId : Bytes} (sound : Bytes.IsId resumeId) (maxLine : Option Nat)
    (retry : Duration) (bytes : Bytes) :
    ∀ event ∈ events maxLine resumeId retry bytes, event.WellFormed := by
  intro event inside
  obtain ⟨item, among, given⟩ := List.mem_filterMap.mp inside
  have plain := Bytes.linesFrom_each Bytes.plain_nil (unmarked bytes)
  exact items_wellFormed (State.wellFormed_start sound retry) plain given among

end OnePass

theorem Body.items_wellFormed {resumeId : Bytes} (sound : Bytes.IsId resumeId)
    {body : Body} {maxLine : Option Nat} {retry : Duration}
    (started : body.decoder = .start maxLine resumeId retry) (steps : List Step) :
    ∀ event ∈ (body.items steps).filterMap Item.event?, event.WellFormed := by
  have opened := Decoder.sound_start maxLine resumeId retry
  rw [← started] at opened
  obtain ⟨taken, -, whole⟩ := items_taken opened steps
  rw [Decoder.coming, started, Decoder.outlook_start] at whole
  intro event inside
  exact OnePass.events_wellFormed sound maxLine retry taken event (whole.subset inside)

namespace Session

theorem lastId_isId {events : List Event} (formed : ∀ event ∈ events, event.WellFormed) :
    Bytes.IsId (lastId events) := by
  rw [lastId]
  cases last : events.getLast? with
  | none => exact Bytes.isId_nil
  | some event => exact (formed event (List.mem_of_getLast? last)).id

/-- Each stream goes on behind an id that an earlier one yielded, so that what holds of the first
holds of all. -/
theorem yielded_wellFormed {config : Config} {log : List Connection}
    (linked : ∀ connection earlier, connection :: earlier <:+ log →
      Linked config connection earlier) :
    ∀ event ∈ yielded log, event.WellFormed := by
  induction log with
  | nil => exact List.forall_mem_nil _
  | cons connection earlier ih =>
    have before := ih fun other rest suffix =>
      linked other rest (suffix.trans (List.suffix_cons _ _))
    refine List.forall_mem_append.mpr ⟨before, ?_⟩
    rw [Connection.events]
    cases same : connection.stream with
    | none => exact List.forall_mem_nil _
    | some stream =>
      obtain ⟨retry, started⟩ := (linked connection earlier List.suffix_rfl).decoder stream same
      exact Body.items_wellFormed (lastId_isId before) started stream.steps

/-- Whatever arrives, in whatever pieces, and however it goes wrong: what a decoder yields is as it
should be if the id that it starts with is. A source starts with none. So over a whole run, with any
number of streams in it, the same holds of what it hands over, and the id that it keeps and every id
that it asks for behind is a text on one line without a zero octet. -/
theorem values_wellFormed {resumeId : Bytes} (sound : Bytes.IsId resumeId) :
    (∀ maxLine retry steps,
      ∀ event ∈ ((Body.fresh maxLine resumeId retry).items steps).filterMap Item.event?,
        event.WellFormed) ∧
    ∀ config source, Source.create config = .ok source → ∀ actions,
      let session := (start source).run actions
      (∀ event ∈ received session.history, event.WellFormed) ∧ Bytes.IsId session.source.cursor ∧
        ∀ request ∈ (calls session.history).map Prod.snd, ∃ id, Bytes.IsId id ∧
          request.headers.values Headers.lastEventId =
            if Request.Sendable id then [id] else config.headers.values Headers.lastEventId := by
  refine ⟨fun maxLine retry steps => Body.items_wellFormed sound rfl steps, ?_⟩
  intro config source created actions session
  have accounted := run_accounted created actions
  have formed := yielded_wellFormed accounted.logged.linked
  refine ⟨?_, ?_, ?_⟩
  · intro event inside
    have delivered := accounted.begun.subset
    exact formed event (delivered (List.mem_append_left _ inside))
  · rw [accounted.logged.cursor]
    exact lastId_isId formed
  · intro request called
    obtain ⟨connection, earlier, ⟨later, split⟩, built⟩ := run_built created actions called
    have before : ∀ event ∈ yielded earlier, event.WellFormed := by
      apply yielded_wellFormed
      intro other rest suffix
      apply accounted.logged.linked
      exact suffix.trans ((List.suffix_cons _ _).trans ⟨later, split⟩)
    refine ⟨lastId (yielded earlier), lastId_isId before, ?_⟩
    rw [Request.build] at built
    split at built
    next =>
      cases built
      rw [Request.headersFor_values]
      have other : Headers.lastEventId ≠ Headers.cacheControl := by decide
      have neither : Headers.lastEventId ≠ Headers.accept := by decide
      simp only [other, neither, true_and, if_false]
    next => cases built

/-- An id with a zero octet is passed over, the octet 195 alone is no text, and the transport fails
in the end. -/
theorem values_wellFormed_hostile :
    let sent := Bytes.ofText "data:a\rdata:b\r\n\rid:é\nid:x" ++ 0 ::
      (Bytes.ofText "\nevent:e\ndata:c\n\ndata:" ++ [195, 10, 10])
    let steps := [.poll, .arrive (.chunk sent), .poll, .poll, .poll, .arrive (.failure "reset"), .poll]
    let opened := Body.fresh (some 9) (Bytes.ofText "α") ⟨3⟩
    (opened.items steps).filterMap Item.event? =
        [⟨Bytes.ofText "α", [], Bytes.ofText "a\nb"⟩,
          ⟨Bytes.ofText "é", Bytes.ofText "e", Bytes.ofText "c"⟩] ∧
      ∀ event ∈ (opened.items steps).filterMap Item.event?, event.WellFormed := by
  intro sent steps opened
  have sound : Bytes.IsId (Bytes.ofText "α") :=
    ⟨⟨Bytes.isText_ofText "α", by decide +kernel⟩, by decide +kernel⟩
  exact ⟨by decide +kernel, (@values_wellFormed _ sound).1 (some 9) ⟨3⟩ steps⟩

end Session

end EventStream
