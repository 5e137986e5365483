import EventStream.Proofs.Encoding
import EventStream.Proofs.Fields
import EventStream.Proofs.Lifecycle
import Mathlib.Data.List.TakeWhile

/-!
Which content types announce an event stream. The grammar is written down here apart from the reader
of media types: the type in any case, and behind a semicolon a list of parameters that do no more
than repeat that the text is UTF-8. What the reader accepts is what the grammar describes, and every
other response is refused with what it gave.
-/

namespace EventStream

open Bytes

namespace MediaType

def Blank (bytes : Bytes) : Prop := ∀ octet ∈ bytes, octet = space

/-- A value as it may be written: as it is, or in quotes, behind which spaces may stand. -/
inductive Written (value : Bytes) : Bytes → Prop where
  | plain : Written value value
  | quoted {spaces : Bytes} (blank : Blank spaces) :
      Written value (quote :: (value ++ quote :: spaces))

inductive Charset : Bytes → Prop where
  | item {spaces name value form : Bytes} (blank : Blank spaces)
      (named : name.lower = ofText "charset") (encoding : value.lower = ofText "utf-8")
      (written : Written value form) : Charset (spaces ++ (name ++ equals :: form))

/-- Such parameters, parted by semicolons. The list may be empty, and it may end behind a semicolon;
spaces may stand there. -/
inductive Charsets : Bytes → Prop where
  | blank {spaces : Bytes} (blank : Blank spaces) : Charsets spaces
  | last {item : Bytes} (charset : Charset item) : Charsets item
  | more {item rest : Bytes} (charset : Charset item) (others : Charsets rest) :
      Charsets (item ++ semicolon :: rest)

/-- A content type that announces an event stream. -/
inductive Announces : Bytes → Prop where
  | bare {essence : Bytes} (named : essence.lower = ofText "text/event-stream") :
      Announces essence
  | listed {essence list : Bytes} (named : essence.lower = ofText "text/event-stream")
      (charsets : Charsets list) : Announces (essence ++ semicolon :: list)

/-! The octets of a token, in any case. -/

theorem octet_cases {motive : UInt8 → Prop} (all : ∀ number < 256, motive (UInt8.ofNat number))
    (octet : UInt8) : motive octet := by
  have found := all octet.toNat octet.toNat_lt
  rwa [UInt8.ofNat_toNat] at found

theorem isToken_lower (octet : UInt8) : isToken (lowerOctet octet) = isToken octet :=
  octet_cases (motive := fun octet => isToken (lowerOctet octet) = isToken octet)
    (by decide +kernel) octet

theorem token_apart (octet : UInt8) (token : isToken octet = true) :
    isQuoted octet = true ∧ octet ≠ quote ∧ octet ≠ space ∧ octet ≠ semicolon ∧
      octet ≠ equals ∧ octet ≠ slash := by
  revert token
  exact octet_cases (motive := fun octet => isToken octet = true → isQuoted octet = true ∧
    octet ≠ quote ∧ octet ≠ space ∧ octet ≠ semicolon ∧ octet ≠ equals ∧ octet ≠ slash)
    (by decide +kernel) octet

theorem tokens_of_lower {bytes known : Bytes} (same : bytes.lower = known)
    (tokens : ∀ octet ∈ known, isToken octet = true) : ∀ octet ∈ bytes, isToken octet = true := by
  intro octet inside
  rw [← isToken_lower]
  apply tokens
  rw [← same]
  exact List.mem_map_of_mem inside

theorem while_stops {kind : UInt8 → Bool} {front rest : Bytes}
    (holds : ∀ octet ∈ front, kind octet = true)
    (stops : ∀ octet ∈ rest.head?, kind octet = false) :
    (front ++ rest).takeWhile kind = front ∧ (front ++ rest).dropWhile kind = rest := by
  rw [List.takeWhile_append_of_pos holds, List.dropWhile_append_of_pos holds]
  cases rest with
  | nil => simp
  | cons octet rest =>
    have stop := stops octet rfl
    simp [stop]

def beyond (after : Option Bytes) : Bytes := after.elim [] (semicolon :: ·)

theorem beyond_head {after : Option Bytes} : ∀ octet ∈ (beyond after).head?, octet = semicolon := by
  cases after <;> simp [beyond]

theorem afterValue_iff {bytes : Bytes} {after : Option Bytes} :
    afterValue bytes = some after ↔ bytes = beyond after := by
  cases bytes with
  | nil => cases after <;> simp [afterValue, beyond]
  | cons octet rest => cases after <;> simp [afterValue, beyond]

theorem blank_front (bytes : Bytes) : Blank (bytes.takeWhile (· = space)) ∧
    bytes.takeWhile (· = space) ++ bytes.dropWhile (· = space) = bytes :=
  ⟨fun _ inside => of_decide_eq_true (List.mem_takeWhile_imp (p := (· = space)) inside),
    List.takeWhile_append_dropWhile⟩

theorem quote_closes {bytes : Bytes} (closed : bytes.dropWhile (· ≠ quote) ≠ []) :
    bytes.takeWhile (· ≠ quote) ++ quote :: (bytes.dropWhile (· ≠ quote)).drop 1 = bytes := by
  have whole := List.takeWhile_append_dropWhile (p := (· ≠ quote)) (l := bytes)
  have stop := List.head?_dropWhile_not (· ≠ quote) bytes
  cases left : bytes.dropWhile (· ≠ quote) with
  | nil => exact absurd left closed
  | cons octet rest =>
    rw [left] at stop whole
    have closes : octet = quote := by simpa using stop
    rwa [closes] at whole

theorem written_of_value {bytes value : Bytes} {after : Option Bytes}
    (found : value? bytes = some (value, after)) :
    ∃ form, Written value form ∧ bytes = form ++ beyond after := by
  unfold value? at found
  dsimp only at found
  split at found
  next quoted =>
    obtain ⟨inner, rfl⟩ := List.head?_eq_some_iff.mp quoted
    simp only [show (quote :: inner).drop 1 = inner from rfl] at found
    split at found
    next => cases found
    next sound =>
      obtain ⟨_, read, pair⟩ := Option.map_eq_some_iff.mp found
      cases pair
      simp only [Bool.or_eq_true, not_or, List.isEmpty_iff] at sound
      have text := quote_closes sound.2
      obtain ⟨blank, spaces⟩ := blank_front ((inner.dropWhile (· ≠ quote)).drop 1)
      rw [afterValue_iff.mp read] at spaces
      refine ⟨_, .quoted blank, ?_⟩
      rw [List.cons_append, List.append_assoc, List.cons_append, spaces, text]
  next =>
    have whole := List.takeWhile_append_dropWhile (p := isToken) (l := bytes)
    split at found
    next rest read =>
      split at found
      next => cases found
      next =>
        cases found
        rw [afterValue_iff] at read
        exact ⟨_, .plain, by rw [← read, whole]⟩
    next read =>
      cases found
      rw [afterValue_iff] at read
      exact ⟨_, .plain, by rw [← read, whole]⟩
    next => cases found

theorem value_of_written {value form : Bytes} (nonempty : value ≠ [])
    (tokens : ∀ octet ∈ value, isToken octet = true) (written : Written value form)
    (after : Option Bytes) : value? (form ++ beyond after) = some (value, after) := by
  have read := @afterValue_iff _ after |>.mpr rfl
  cases written with
  | plain =>
    have stops : ∀ octet ∈ (beyond after).head?, isToken octet = false := by
      intro octet head
      rw [beyond_head octet head]
      decide +kernel
    obtain ⟨front, rest⟩ := while_stops tokens stops
    have unquoted : (value ++ beyond after).head? ≠ some quote := by
      obtain ⟨first, others, rfl⟩ := List.exists_cons_of_ne_nil nonempty
      simpa using (token_apart first (tokens first List.mem_cons_self)).2.1
    unfold value?
    rw [if_neg unquoted]
    dsimp only
    rw [front, rest, read]
    cases after with
    | none => rfl
    | some list => simp [nonempty]
  | @quoted spaces blank =>
    have closed : ∀ octet ∈ value, decide (octet ≠ quote) = true := fun octet inside =>
      decide_eq_true (token_apart octet (tokens octet inside)).2.1
    have stops : ∀ octet ∈ (beyond after).head?, decide (octet = space) = false := by
      intro octet head
      rw [beyond_head octet head]
      decide
    obtain ⟨text, rest⟩ :=
      @while_stops _ value (quote :: (spaces ++ beyond after)) closed (by simp)
    obtain ⟨-, last⟩ := while_stops (fun octet inside => decide_eq_true (blank octet inside)) stops
    have legible : value.all isQuoted = true :=
      List.all_eq_true.mpr fun octet inside => (token_apart octet (tokens octet inside)).1
    unfold value?
    rw [if_pos (by rfl)]
    simp only [List.cons_append, List.append_assoc, List.drop_succ_cons, List.drop_zero]
    rw [text, rest]
    simp only [List.drop_succ_cons, List.drop_zero]
    rw [last, read, legible]
    simp [nonempty]

theorem written_of_parameter {bytes : Bytes} {parameter : Parameter} {after : Option Bytes}
    (found : parameter? bytes = some (parameter, after)) :
    ∃ form, Written parameter.value form ∧
      bytes = parameter.name ++ equals :: (form ++ beyond after) := by
  have whole := List.takeWhile_append_dropWhile (p := isToken) (l := bytes)
  unfold parameter? at found
  dsimp only at found
  split at found
  next => cases found
  next octet rest left =>
    split at found
    next sound =>
      obtain ⟨⟨value, _⟩, read, pair⟩ := Option.map_eq_some_iff.mp found
      cases pair
      obtain ⟨form, written, rfl⟩ := written_of_value read
      rw [left, sound.1] at whole
      exact ⟨form, written, whole.symm⟩
    next => cases found

theorem parameter_of_written {name value form : Bytes} (named : name ≠ [])
    (names : ∀ octet ∈ name, isToken octet = true) (valued : value ≠ [])
    (values : ∀ octet ∈ value, isToken octet = true) (written : Written value form)
    (after : Option Bytes) :
    parameter? (name ++ equals :: (form ++ beyond after)) = some (⟨name, value⟩, after) := by
  obtain ⟨front, rest⟩ :=
    @while_stops isToken name (equals :: (form ++ beyond after)) names (by simp; decide +kernel)
  unfold parameter?
  dsimp only
  rw [front, rest]
  simp [named, value_of_written valued values written]

def repeats (parameter : Parameter) : Bool :=
  sameText parameter.name (ofText "charset") && sameText parameter.value (ofText "utf-8")

theorem sameText_iff {name known : Bytes} (small : known.lower = known) :
    sameText name known = true ↔ name.lower = known := by
  rw [sameText, small, beq_iff_eq]

theorem repeats_iff {parameter : Parameter} : repeats parameter = true ↔
    parameter.name.lower = ofText "charset" ∧ parameter.value.lower = ofText "utf-8" := by
  rw [repeats, Bool.and_eq_true, sameText_iff (by decide +kernel), sameText_iff (by decide +kernel)]

theorem token_of_lower {bytes known : Bytes} (same : bytes.lower = known)
    (token : known ≠ [] ∧ ∀ octet ∈ known, isToken octet = true) :
    bytes ≠ [] ∧ ∀ octet ∈ bytes, isToken octet = true := by
  refine ⟨?_, tokens_of_lower same token.2⟩
  rintro rfl
  exact token.1 same.symm

theorem parameters?_front {spaces rest : Bytes} (blank : Blank spaces)
    (stops : ∀ octet ∈ rest.head?, octet ≠ space) :
    parameters? (spaces ++ rest) =
      if rest = [] then some []
      else (parameter? rest).bind fun (parameter, after) =>
        after.elim (some [parameter]) fun list => (parameters? list).map (parameter :: ·) := by
  obtain ⟨-, body⟩ := while_stops (fun octet inside => decide_eq_true (blank octet inside))
    fun octet head => decide_eq_false (stops octet head)
  rw [parameters?]
  dsimp only
  rw [body]
  by_cases empty : rest = []
  · rw [if_pos empty, empty]
    rfl
  · rw [if_neg empty, if_neg (by simpa using empty)]
    split
    next none => rw [none]; rfl
    next read => rw [read]; rfl
    next read => rw [read]; rfl

theorem charsets_of_parameters {bytes : Bytes} {parameters : List Parameter}
    (found : parameters? bytes = some parameters) (all : parameters.all repeats = true) :
    Charsets bytes := by
  -- What is behind a parameter is shorter than the list that the parameter starts.
  induction size : bytes.length using Nat.strong_induction_on generalizing bytes parameters with
  | _ size ih =>
    subst size
    obtain ⟨blank, whole⟩ := blank_front bytes
    have stops : ∀ octet ∈ (bytes.dropWhile (· = space)).head?, octet ≠ space := by
      intro octet head
      have stop := List.head?_dropWhile_not (· = space) bytes
      rw [head] at stop
      exact of_decide_eq_false stop
    rw [← whole, parameters?_front blank stops] at found
    rw [← whole]
    split at found
    next empty => exact empty ▸ (List.append_nil _).symm ▸ .blank blank
    next =>
      obtain ⟨⟨parameter, after⟩, read, later⟩ := Option.bind_eq_some_iff.mp found
      obtain ⟨form, written, item⟩ := written_of_parameter read
      cases after with
      | none =>
        cases later
        rw [List.all_cons, Bool.and_eq_true, repeats_iff] at all
        rw [item, beyond, Option.elim_none, List.append_nil]
        exact .last (.item blank all.1.1 all.1.2 written)
      | some list =>
        obtain ⟨others, rest, rfl⟩ := Option.map_eq_some_iff.mp later
        rw [List.all_cons, Bool.and_eq_true, repeats_iff] at all
        have shorter : list.length < bytes.length := by
          have front := parameter?_shorter read
          have dropped := (List.dropWhile_sublist (· = space) (l := bytes)).length_le
          omega
        have listed : Charsets list := ih _ shorter rest all.2 rfl
        have split : bytes.takeWhile (· = space) ++
            (parameter.name ++ equals :: (form ++ beyond (some list))) =
            (bytes.takeWhile (· = space) ++ (parameter.name ++ equals :: form)) ++
              semicolon :: list := by
          simp only [beyond, Option.elim_some, List.append_assoc, List.cons_append]
        rw [item, split]
        exact .more (.item blank all.1.1 all.1.2 written) listed

/-- A parameter that says no more than that the text is UTF-8 is read as what it is, whatever is
behind it in the list. -/
theorem parameters?_charset {spaces name value form : Bytes} (blank : Blank spaces)
    (named : name.lower = ofText "charset") (encoding : value.lower = ofText "utf-8")
    (written : Written value form) (after : Option Bytes) :
    parameters? (spaces ++ (name ++ equals :: (form ++ beyond after))) =
      after.elim (some [⟨name, value⟩]) fun list =>
        (parameters? list).map (⟨name, value⟩ :: ·) := by
  obtain ⟨some_name, names⟩ := token_of_lower named (by decide +kernel)
  obtain ⟨some_value, values⟩ := token_of_lower encoding (by decide +kernel)
  have stops : ∀ octet ∈ (name ++ equals :: (form ++ beyond after)).head?, octet ≠ space := by
    obtain ⟨first, others, rfl⟩ := List.exists_cons_of_ne_nil some_name
    intro octet head
    cases head
    exact (token_apart first (names first List.mem_cons_self)).2.2.1
  rw [parameters?_front blank stops, if_neg (by simp),
    parameter_of_written some_name names some_value values written, Option.bind_some]

theorem parameters_of_charsets {bytes : Bytes} (charsets : Charsets bytes) :
    ∃ parameters, parameters? bytes = some parameters ∧ parameters.all repeats = true := by
  induction charsets with
  | @blank spaces blank =>
    have read := @parameters?_front spaces [] blank nofun
    rw [List.append_nil, if_pos rfl] at read
    exact ⟨[], read, rfl⟩
  | last charset =>
    obtain ⟨blank, named, encoding, written⟩ := charset
    have read := parameters?_charset blank named encoding written none
    rw [beyond, Option.elim_none, List.append_nil] at read
    refine ⟨_, read, ?_⟩
    simp [repeats_iff, named, encoding]
  | @more _ list charset _ ih =>
    obtain @⟨_, name, value, form, blank, named, encoding, written⟩ := charset
    obtain ⟨parameters, found, all⟩ := ih
    have read := parameters?_charset blank named encoding written (some list)
    rw [Option.elim_some, found, Option.map_some] at read
    refine ⟨⟨name, value⟩ :: parameters, ?_, ?_⟩
    · rw [← read]
      simp only [beyond, Option.elim_some, List.append_assoc, List.cons_append]
    · rw [List.all_cons, Bool.and_eq_true, repeats_iff]
      exact ⟨⟨named, encoding⟩, all⟩

/-! The type and the subtype. -/

theorem parse?_found {bytes : Bytes} {media : MediaType} (found : parse? bytes = some media) :
    ∃ after, bytes = media.type ++ slash :: (media.subtype ++ beyond after) ∧
      after.elim (some []) parameters? = some media.parameters := by
  have whole := List.takeWhile_append_dropWhile (p := isToken) (l := bytes)
  unfold parse? at found
  dsimp only at found
  split at found
  next => cases found
  next sound =>
    simp only [Bool.or_eq_true, decide_eq_true_eq, not_or, not_not] at sound
    obtain ⟨rest, slashed⟩ := List.head?_eq_some_iff.mp sound.2
    have parts := List.takeWhile_append_dropWhile (p := isToken) (l := rest)
    rw [slashed] at found whole
    rw [show (slash :: rest).drop 1 = rest from rfl] at found
    split at found
    next left =>
      cases found
      rw [left] at parts
      refine ⟨none, ?_, rfl⟩
      dsimp only [beyond, Option.elim_none]
      rw [parts, whole]
    next octet list left =>
      split at found
      next separated =>
        obtain ⟨parameters, read, rfl⟩ := Option.map_eq_some_iff.mp found
        rw [left, separated.1] at parts
        refine ⟨some list, ?_, read⟩
        dsimp only [beyond, Option.elim_some]
        rw [parts, whole]
      next => cases found

theorem parse?_named {type subtype : Bytes} (typed : type ≠ [])
    (types : ∀ octet ∈ type, isToken octet = true) (subtyped : subtype ≠ [])
    (subtypes : ∀ octet ∈ subtype, isToken octet = true) (after : Option Bytes) :
    parse? (type ++ slash :: (subtype ++ beyond after)) =
      (after.elim (some []) parameters?).map (⟨type, subtype, ·⟩) := by
  have stops : ∀ octet ∈ (beyond after).head?, isToken octet = false := by
    intro octet head
    rw [beyond_head octet head]
    decide +kernel
  obtain ⟨front, rest⟩ :=
    @while_stops isToken type (slash :: (subtype ++ beyond after)) types (by simp; decide +kernel)
  obtain ⟨middle, last⟩ := while_stops subtypes stops
  unfold parse?
  dsimp only
  rw [front, rest, if_neg (by simp [typed])]
  simp only [List.drop_succ_cons, List.drop_zero]
  rw [middle, last]
  cases after with
  | none => rfl
  | some list => simp [beyond, subtyped]

theorem lower_slash {octet : UInt8} : lowerOctet octet = slash ↔ octet = slash :=
  octet_cases (motive := fun octet => lowerOctet octet = slash ↔ octet = slash)
    (by decide +kernel) octet

theorem essence_iff {essence : Bytes} : essence.lower = ofText "text/event-stream" ↔
    ∃ type subtype : Bytes, essence = type ++ slash :: subtype ∧ type.lower = ofText "text" ∧
      subtype.lower = ofText "event-stream" := by
  have known : ofText "text/event-stream" =
      ofText "text" ++ slash :: ofText "event-stream" := by decide +kernel
  rw [known, lower]
  constructor
  · intro same
    obtain ⟨type, rest, rfl, typed, others⟩ := List.map_eq_append_iff.mp same
    obtain ⟨octet, subtype, rfl, slashed, subtyped⟩ := List.map_eq_cons_iff.mp others
    rw [lower_slash.mp slashed]
    exact ⟨type, subtype, rfl, typed, subtyped⟩
  · rintro ⟨type, subtype, rfl, typed, subtyped⟩
    rw [List.map_append, List.map_cons, lower_slash.mpr rfl, ← typed, ← subtyped]
    rfl

theorem isEventStream_eq (bytes : Bytes) : isEventStream bytes =
    (parse? bytes).any fun media => sameText media.type (ofText "text") &&
      sameText media.subtype (ofText "event-stream") && media.parameters.all repeats := by
  rw [isEventStream]
  cases parse? bytes <;> rfl

theorem isEventStream_named {essence : Bytes}
    (named : essence.lower = ofText "text/event-stream") (after : Option Bytes) :
    isEventStream (essence ++ beyond after) =
      (after.elim (some []) parameters?).any (·.all repeats) := by
  obtain ⟨type, subtype, rfl, typed, subtyped⟩ := essence_iff.mp named
  obtain ⟨some_type, types⟩ := token_of_lower typed (by decide +kernel)
  obtain ⟨some_subtype, subtypes⟩ := token_of_lower subtyped (by decide +kernel)
  have kind : sameText type (ofText "text") = true := (sameText_iff (by decide +kernel)).mpr typed
  have stream : sameText subtype (ofText "event-stream") = true :=
    (sameText_iff (by decide +kernel)).mpr subtyped
  rw [isEventStream_eq, List.append_assoc, List.cons_append,
    parse?_named some_type types some_subtype subtypes]
  cases after.elim (some []) parameters? <;> simp [kind, stream]

/-- The reader of media types finds an event stream in just what the grammar describes. -/
theorem isEventStream_iff {bytes : Bytes} : isEventStream bytes = true ↔ Announces bytes := by
  constructor
  · intro accepted
    rw [isEventStream_eq, Option.any_eq_true] at accepted
    simp only [Bool.and_eq_true] at accepted
    obtain ⟨⟨type, subtype, parameters⟩, found, ⟨typed, subtyped⟩, all⟩ := accepted
    rw [sameText_iff (by decide +kernel)] at typed subtyped
    obtain ⟨after, rfl, listed⟩ := parse?_found found
    have named : (type ++ slash :: subtype).lower = ofText "text/event-stream" :=
      essence_iff.mpr ⟨type, subtype, rfl, typed, subtyped⟩
    cases after with
    | none =>
      rw [beyond, Option.elim_none, List.append_nil]
      exact .bare named
    | some list =>
      have split : type ++ slash :: (subtype ++ beyond (some list)) =
          (type ++ slash :: subtype) ++ semicolon :: list := by
        simp only [beyond, Option.elim_some, List.append_assoc, List.cons_append]
      rw [split]
      exact .listed named (charsets_of_parameters listed all)
  · intro announces
    cases announces with
    | bare named => simpa [beyond] using isEventStream_named named none
    | @listed _ list named charsets =>
      obtain ⟨parameters, read, all⟩ := parameters_of_charsets charsets
      have decided := isEventStream_named named (some list)
      rwa [Option.elim_some, read, Option.any_some, all] at decided

instance : DecidablePred Announces := fun _ => decidable_of_iff _ isEventStream_iff

example : Announces (ofText "Text/Event-Stream;  charset=\"UTF-8\"  ;Charset=utf-8; ") := by
  decide +kernel

example : ¬Announces (ofText "text/event-stream;;charset=utf-8") := by decide +kernel

end MediaType

namespace Headers

/-- The tab, and ASCII from the space to the tilde. -/
def Printable (value : Bytes) : Prop :=
  ∀ octet ∈ value, octet = 0x09 ∨ (0x20 ≤ octet ∧ octet ≤ 0x7E)

theorem text?_eq_none {value : Bytes} : text? value = none ↔ ¬Printable value := by
  simp [text?, Printable]

theorem encoded_printable {octet : UInt8}
    (printable : octet = 0x09 ∨ (0x20 ≤ octet ∧ octet ≤ 0x7E)) :
    String.utf8EncodeChar (Char.ofNat octet.toNat) = [octet] := by
  revert printable
  exact MediaType.octet_cases (motive := fun octet =>
    octet = 0x09 ∨ (0x20 ≤ octet ∧ octet ≤ 0x7E) →
      String.utf8EncodeChar (Char.ofNat octet.toNat) = [octet]) (by decide +kernel) octet

theorem text?_eq_some {value : Bytes} {text : String} :
    text? value = some text ↔ Printable value ∧ ofText text = value := by
  have octets (printable : Printable value) :
      ofText (String.ofList (value.map fun octet => Char.ofNat octet.toNat)) = value := by
    rw [ofText_ofList, List.flatMap_map]
    calc value.flatMap (fun octet => String.utf8EncodeChar (Char.ofNat octet.toNat))
        = value.flatMap ([·]) := List.flatMap_congr fun octet inside =>
          encoded_printable (printable octet inside)
      _ = value := List.flatMap_singleton' value
  by_cases printable : Printable value
  · have read : text? value =
        some (String.ofList (value.map fun octet => Char.ofNat octet.toNat)) := by
      rw [text?, if_pos]
      simpa [Printable] using printable
    rw [read, Option.some_inj]
    constructor
    · rintro rfl
      exact ⟨printable, octets printable⟩
    · rintro ⟨-, same⟩
      apply ofText_inj
      rw [octets printable, same]
  · rw [text?_eq_none.mpr printable]
    simp [printable]

end Headers

namespace Response

/-- The content type that counts, the first of those given. -/
def contentType? (response : Response) : Option Bytes :=
  (response.headers.values Headers.contentType).head?

structure Announced (response : Response) : Prop where
  status : response.status = 200
  contentType : ∃ value, response.contentType? = some value ∧ Headers.Printable value ∧
    MediaType.Announces value

/-- What is wrong with a response, its status before its content type. -/
inductive Refused (response : Response) : Failure → Prop where
  | status (other : response.status ≠ 200) : Refused response (.status response.status)
  | missing (good : response.status = 200) (given : response.contentType? = none) :
      Refused response (.contentType none)
  | unprintable {value : Bytes} (good : response.status = 200)
      (given : response.contentType? = some value) (strange : ¬Headers.Printable value) :
      Refused response (.contentType (some "<non-ascii>"))
  | other {value : Bytes} {text : String} (good : response.status = 200)
      (given : response.contentType? = some value) (printable : Headers.Printable value)
      (different : ¬MediaType.Announces value) (same : ofText text = value) :
      Refused response (.contentType (some text))

theorem isStream_iff {response : Response} : response.IsStream ↔ response.Announced := by
  have printable (value : Bytes) : Headers.text? value ≠ none ↔ Headers.Printable value := by
    rw [ne_eq, Headers.text?_eq_none, not_not]
  constructor
  · rintro ⟨good, value, given, text, accepted⟩
    exact ⟨good, value, given, (printable value).mp text, MediaType.isEventStream_iff.mp accepted⟩
  · rintro ⟨good, value, given, text, accepted⟩
    exact ⟨good, value, given, (printable value).mpr text, MediaType.isEventStream_iff.mpr accepted⟩

theorem rejection?_bad {response : Response} (bad : response.status ≠ 200) :
    response.rejection? = some (.status response.status) := if_pos bad

theorem rejection?_good {response : Response} (good : response.status = 200) :
    response.rejection? = response.contentType?.elim (some (.contentType none)) fun value =>
      (Headers.text? value).elim (some (.contentType (some unprintable))) fun text =>
        if MediaType.isEventStream value then none else some (.contentType (some text)) := by
  have status : response.status = Status.ok := good
  rw [rejection?, if_neg (not_not_intro status), contentType?]
  cases (response.headers.values Headers.contentType).head? with
  | none => rfl
  | some value => cases text : Headers.text? value <;> simp [text]

theorem refused_of_rejection {response : Response} {failure : Failure}
    (rejection : response.rejection? = some failure) : response.Refused failure := by
  by_cases good : response.status = 200
  · rw [rejection?_good good] at rejection
    cases given : response.contentType? with
    | none =>
      rw [given] at rejection
      cases rejection
      exact .missing good given
    | some value =>
      rw [given, Option.elim_some] at rejection
      cases read : Headers.text? value with
      | none =>
        rw [read] at rejection
        cases rejection
        exact .unprintable good given (Headers.text?_eq_none.mp read)
      | some text =>
        obtain ⟨printable, same⟩ := Headers.text?_eq_some.mp read
        rw [read, Option.elim_some] at rejection
        split at rejection
        next => cases rejection
        next different =>
          cases rejection
          apply Refused.other good given printable _ same
          rwa [← MediaType.isEventStream_iff]
  · rw [rejection?_bad good] at rejection
    cases rejection
    exact .status good

theorem rejection_of_refused {response : Response} {failure : Failure}
    (refused : response.Refused failure) : response.rejection? = some failure := by
  cases refused with
  | status bad => exact rejection?_bad bad
  | missing good given => rw [rejection?_good good, given, Option.elim_none]
  | unprintable good given strange =>
    rw [rejection?_good good, given, Option.elim_some, Headers.text?_eq_none.mpr strange]
    rfl
  | other good given printable different same =>
    rw [rejection?_good good, given, Option.elim_some, Headers.text?_eq_some.mpr ⟨printable, same⟩]
    exact if_neg fun accepted => different (MediaType.isEventStream_iff.mp accepted)

theorem contentType?_given {response : Response} {fields : List (Bytes × Bytes)}
    (headers : response.headers = Headers.ofList fields) :
    response.contentType? = (Headers.given fields (ofText "Content-Type")).head? := by
  have known : Headers.contentType = (ofText "Content-Type").lower := by decide +kernel
  rw [contentType?, headers, known, Headers.values_ofList]

/-- The check lets through what announces an event stream, and says of every other response what is
wrong with it. Of several content types the first one given counts. -/
theorem rejection?_exact (response : Response) :
    (response.rejection? = none ↔ response.Announced) ∧
      (∀ failure, response.rejection? = some failure ↔ response.Refused failure) ∧
      ∀ fields, response.headers = Headers.ofList fields →
        response.contentType? = (Headers.given fields (ofText "Content-Type")).head? := by
  refine ⟨rejection?_eq_none.trans isStream_iff, fun failure => ?_, fun _ => contentType?_given⟩
  exact ⟨refused_of_rejection, rejection_of_refused⟩

/-- Two content types under two spellings of the name: the first one is refused as it is given, and
the second one, an event stream, is not looked at. With their places changed a stream follows. -/
theorem rejection?_exact_twice :
    let plain := (ofText "Content-TYPE", ofText "text/plain")
    let stream := (ofText "content-type", ofText "text/event-stream; charset=\"utf-8\"")
    let other := (ofText "Server", ofText "text/event-stream")
    let first : Response := ⟨200, Headers.ofList [other, plain, stream], ⟨[], false, 0⟩⟩
    let second : Response := ⟨200, Headers.ofList [other, stream, plain], ⟨[], false, 0⟩⟩
    first.contentType? = some plain.2 ∧
      first.rejection? = some (.contentType (some "text/plain")) ∧ second.rejection? = none := by
  intro plain stream other first second
  obtain ⟨-, refuses, given⟩ := rejection?_exact first
  obtain ⟨accepts, -, chosen⟩ := rejection?_exact second
  have foreign : first.contentType? = some plain.2 := by
    rw [given [other, plain, stream] rfl]
    decide +kernel
  have known : second.contentType? = some stream.2 := by
    rw [chosen [other, stream, plain] rfl]
    decide +kernel
  refine ⟨foreign, ?_, ?_⟩
  · rw [refuses]
    exact .other rfl foreign (by unfold Headers.Printable; decide +kernel) (by decide +kernel) rfl
  · rw [accepts]
    exact ⟨rfl, stream.2, known, by unfold Headers.Printable; decide +kernel, by decide +kernel⟩

end Response

end EventStream
