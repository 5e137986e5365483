import EventStream.Request

/-!
The fields of a header by name. A name stands for one text in any case, and what a request has under
it is what the job asks for, or all values that the settings give to the name, in their order.
-/

namespace EventStream

namespace Bytes

theorem lower_eq_iff {name written known : Bytes} (small : written.lower = known) :
    name.lower = known ↔ sameText name written = true := by
  rw [sameText, small, beq_iff_eq]

end Bytes

namespace Headers

def given (fields : List (Bytes × Bytes)) (name : Bytes) : List Bytes :=
  (fields.filter fun field => Bytes.sameText field.1 name).map Prod.snd

theorem values_ofList (fields : List (Bytes × Bytes)) (name : Bytes) :
    (ofList fields).values name.lower = given fields name := by
  induction fields with
  | nil => rfl
  | cons field rest ih =>
    rw [ofList, values] at ih
    by_cases same : field.1.lower = name.lower
    · have text : Bytes.sameText field.1 name = true := beq_iff_eq.mpr same
      simp [ofList, values, given, same, text, ih]
    · have text : Bytes.sameText field.1 name = false := beq_eq_false_iff_ne.mpr same
      simp [ofList, values, given, same, text, ih]

/-- A value that takes the place of all others is the only one of its name, and no other name
changes. -/
theorem values_replace (headers : Headers) (name value other : Bytes) :
    (headers.replace name value).values other =
      if other = name then [value] else headers.values other := by
  rw [values, replace, List.filter_append, List.map_append]
  by_cases same : other = name
  · have none : (headers.filter (·.name ≠ name)).filter (·.name = other) = [] := by
      simp [same]
    rw [none, if_pos same]
    simp [same]
  · have kept : (headers.filter (·.name ≠ name)).filter (·.name = other) =
        headers.filter (·.name = other) := by
      rw [List.filter_filter]
      apply List.filter_congr
      intro header _
      by_cases found : header.name = other <;> simp [found, same]
    rw [kept, if_neg same]
    simp [values, Ne.symm same]

end Headers

namespace Request

/-- An id that a header can carry: it is not empty, and all of it is tabs and what is no control
character. -/
def Sendable (id : Bytes) : Prop :=
  id ≠ [] ∧ ∀ octet ∈ id, octet = 0x09 ∨ 0x20 ≤ octet ∧ octet ≠ 0x7F

instance (id : Bytes) : Decidable (Sendable id) := inferInstanceAs (Decidable (_ ∧ _))

theorem isSendable_iff (id : Bytes) : isSendable id = true ↔ Sendable id := by
  simp [isSendable, Sendable, Headers.isValue, Headers.isValueOctet]

/-- What a request has under a name: what the job asks for, and otherwise what the settings give. -/
theorem headersFor_values (config : Config) (id name : Bytes) :
    (headersFor config id).values name =
      if name = Headers.lastEventId ∧ Sendable id then [id]
      else if name = Headers.cacheControl then [noCache]
      else if name = Headers.accept then [eventStreamType]
      else config.headers.values name := by
  rw [headersFor]
  by_cases sendable : isSendable id = true
  · have carried := (isSendable_iff id).mp sendable
    simp only [if_pos sendable, Headers.values_replace, carried, and_true]
  · have refused := mt (isSendable_iff id).mpr sendable
    simp only [if_neg sendable, Headers.values_replace, refused, and_false, if_false]

theorem build_headers {config : Config} {id : Bytes} {request : Request}
    (built : build config id = .ok request) : request.headers = headersFor config id := by
  unfold build at built
  split at built
  next => cases built; rfl
  next => cases built

theorem lastEventId_values {config : Config} {id : Bytes} {request : Request}
    (built : build config id = .ok request) :
    request.headers.values (Bytes.ofText "Last-Event-ID").lower =
      if Sendable id then [id]
      else config.headers.values (Bytes.ofText "Last-Event-ID").lower := by
  have known : (Bytes.ofText "Last-Event-ID").lower = Headers.lastEventId := by decide +kernel
  have control : Headers.lastEventId ≠ Headers.cacheControl := by decide +kernel
  have accept : Headers.lastEventId ≠ Headers.accept := by decide +kernel
  rw [build_headers built, known, headersFor_values]
  by_cases sendable : Sendable id
  · rw [if_pos ⟨rfl, sendable⟩, if_pos sendable]
  · rw [if_neg fun both => sendable both.2, if_neg control, if_neg accept, if_neg sendable]

end Request

end EventStream
