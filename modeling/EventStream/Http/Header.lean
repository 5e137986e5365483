import EventStream.Bytes

/-! Header fields as a list of names and values in the order they were given. A name may occur more
than once; names are kept in small letters, so case never tells two of them apart. -/

namespace EventStream

structure Header where
  name : Bytes
  value : Bytes
  deriving DecidableEq, Repr

abbrev Headers := List Header

namespace Headers

def accept : Bytes := Bytes.ofText "accept"
def cacheControl : Bytes := Bytes.ofText "cache-control"
def contentType : Bytes := Bytes.ofText "content-type"

/-- The request header that tells a server where to resume. -/
def lastEventId : Bytes := Bytes.ofText "last-event-id"

def ofList (fields : List (Bytes × Bytes)) : Headers :=
  fields.map fun (name, value) => ⟨name.lower, value⟩

def values (headers : Headers) (name : Bytes) : List Bytes :=
  (headers.filter (·.name = name)).map (·.value)

/-- Give a name one value in place of all it had. -/
def replace (headers : Headers) (name value : Bytes) : Headers :=
  headers.filter (·.name ≠ name) ++ [⟨name, value⟩]

/-- Whether a header can carry the octet: everything but the control characters, the tab allowed. -/
def isValueOctet (octet : UInt8) : Bool :=
  octet == 0x09 || (0x20 ≤ octet && octet != 0x7F)

def isValue (value : Bytes) : Bool := value.all isValueOctet

/-- A value as text, if it is printable ASCII and tabs throughout. -/
def text? (value : Bytes) : Option String :=
  if value.all fun octet => octet == 0x09 || (0x20 ≤ octet && octet ≤ 0x7E) then
    some (String.ofList (value.map fun octet => Char.ofNat octet.toNat))
  else none

end Headers

end EventStream
