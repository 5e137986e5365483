import EventStream.Bytes

/-! Media types as a content type header names them: a type, a subtype and parameters. -/

namespace EventStream

structure Parameter where
  name : Bytes
  value : Bytes
  deriving DecidableEq, Repr

structure MediaType where
  type : Bytes
  subtype : Bytes
  parameters : List Parameter
  deriving DecidableEq, Repr

namespace MediaType

def slash : UInt8 := 0x2F
def semicolon : UInt8 := 0x3B
def equals : UInt8 := 0x3D
def quote : UInt8 := 0x22

def isToken (octet : UInt8) : Bool :=
  Bytes.isLetter octet || Bytes.isDigit octet || (Bytes.ofText "!#$%&'*+-.^_`|~").contains octet

def isQuoted (octet : UInt8) : Bool := 0x1F < octet && octet != 0x7F

/-- What follows a complete value: nothing, or a semicolon and the rest of the list. -/
def afterValue : Bytes → Option (Option Bytes)
  | [] => some none
  | octet :: rest => if octet = semicolon then some (some rest) else none

/-- Read the value of a parameter: text in quotes, behind which spaces may stand, or a token, which
may be empty only at the end. -/
def value? (bytes : Bytes) : Option (Bytes × Option Bytes) :=
  if bytes.head? = some quote then
    let inner := bytes.drop 1
    let text := inner.takeWhile (· ≠ quote)
    let beyond := inner.dropWhile (· ≠ quote)
    if text.isEmpty || !text.all isQuoted || beyond.isEmpty then none
    else (afterValue ((beyond.drop 1).dropWhile (· = Bytes.space))).map (text, ·)
  else
    let text := bytes.takeWhile isToken
    match afterValue (bytes.dropWhile isToken) with
    | some (some rest) => if text.isEmpty then none else some (text, some rest)
    | some none => some (text, none)
    | none => none

/-- Read one parameter, and what follows the semicolon behind it. -/
def parameter? (bytes : Bytes) : Option (Parameter × Option Bytes) :=
  let name := bytes.takeWhile isToken
  match bytes.dropWhile isToken with
  | [] => none
  | octet :: rest =>
    if octet = equals ∧ name ≠ [] then
      (value? rest).map fun (value, beyond) => (⟨name, value⟩, beyond)
    else none

theorem afterValue_shorter {bytes rest : Bytes} (found : afterValue bytes = some (some rest)) :
    rest.length < bytes.length := by
  cases bytes with
  | nil => simp [afterValue] at found
  | cons octet more =>
    simp only [afterValue, Option.ite_none_right_eq_some, Option.some.injEq] at found
    simp [found.2]

theorem value?_shorter {bytes value rest : Bytes} (found : value? bytes = some (value, some rest)) :
    rest.length < bytes.length := by
  unfold value? at found
  dsimp only at found
  split at found
  · split at found
    · cases found
    · obtain ⟨_, same, pair⟩ := Option.map_eq_some_iff.mp found
      cases pair
      have shorter := afterValue_shorter same
      have spaces := (List.dropWhile_sublist (· = Bytes.space)
        (l := ((bytes.drop 1).dropWhile (· ≠ quote)).drop 1)).length_le
      have text := (List.dropWhile_sublist (· ≠ quote) (l := bytes.drop 1)).length_le
      simp only [List.length_drop] at spaces text
      omega
  · have token := (List.dropWhile_sublist isToken (l := bytes)).length_le
    split at found
    next same =>
      have shorter := afterValue_shorter same
      split at found
      · cases found
      · cases found; omega
    next => cases found
    next => cases found

theorem parameter?_shorter {bytes rest : Bytes} {parameter : Parameter}
    (found : parameter? bytes = some (parameter, some rest)) : rest.length < bytes.length := by
  unfold parameter? at found
  dsimp only at found
  have token := (List.dropWhile_sublist isToken (l := bytes)).length_le
  split at found
  · cases found
  next octet beyond same =>
    rw [same] at token
    split at found
    · obtain ⟨⟨value, after⟩, read, pair⟩ := Option.map_eq_some_iff.mp found
      cases pair
      have shorter := value?_shorter read
      simp only [List.length_cons] at token
      omega
    · cases found

/-- Read a list of parameters. Spaces may stand before each, and the list may end behind a
semicolon. -/
def parameters? (bytes : Bytes) : Option (List Parameter) :=
  let body := bytes.dropWhile (· = Bytes.space)
  if body.isEmpty then some []
  else
    match _read : parameter? body with
    | none => none
    | some (parameter, none) => some [parameter]
    | some (parameter, some rest) => (parameters? rest).map (parameter :: ·)
termination_by bytes.length
decreasing_by
  have shorter := parameter?_shorter ‹_›
  have spaces := (List.dropWhile_sublist (· = Bytes.space) (l := bytes)).length_le
  simp only [body] at shorter
  omega

def parse? (bytes : Bytes) : Option MediaType :=
  let type := bytes.takeWhile isToken
  let afterType := bytes.dropWhile isToken
  if type.isEmpty || afterType.head? ≠ some slash then none
  else
    let rest := afterType.drop 1
    let subtype := rest.takeWhile isToken
    match rest.dropWhile isToken with
    | [] => some ⟨type, subtype, []⟩
    | octet :: list =>
      if octet = semicolon ∧ subtype ≠ [] then
        (parameters? list).map fun parameters => ⟨type, subtype, parameters⟩
      else none

/-- Whether a content type announces an event stream in UTF-8. A parameter may repeat that the text
is UTF-8, and nothing else. -/
def isEventStream (contentType : Bytes) : Bool :=
  match parse? contentType with
  | none => false
  | some media =>
    Bytes.sameText media.type (Bytes.ofText "text") &&
      Bytes.sameText media.subtype (Bytes.ofText "event-stream") &&
      media.parameters.all fun parameter =>
        Bytes.sameText parameter.name (Bytes.ofText "charset") &&
          Bytes.sameText parameter.value (Bytes.ofText "utf-8")

end MediaType

end EventStream
