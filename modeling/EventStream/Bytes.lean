/-! Bytes as they travel: a stream, a line and a field value are lists of octets, and the few octets
that structure a stream have names here. -/

namespace EventStream

abbrev Bytes := List UInt8

namespace Bytes

def lineFeed : UInt8 := 0x0A
def carriageReturn : UInt8 := 0x0D
def space : UInt8 := 0x20
def colon : UInt8 := 0x3A

def ofText (text : String) : Bytes := text.toUTF8.data.toList

/-- An ASCII capital as its small letter, any other octet as it is. -/
def lowerOctet (octet : UInt8) : UInt8 :=
  if 0x41 ≤ octet ∧ octet ≤ 0x5A then octet + 0x20 else octet

def lower (bytes : Bytes) : Bytes := bytes.map lowerOctet

/-- Equality that does not tell ASCII capitals from small letters. -/
def sameText (left right : Bytes) : Bool := left.lower == right.lower

def isDigit (octet : UInt8) : Bool := 0x30 ≤ octet && octet ≤ 0x39

def isLetter (octet : UInt8) : Bool :=
  (0x41 ≤ octet && octet ≤ 0x5A) || (0x61 ≤ octet && octet ≤ 0x7A)

end Bytes

end EventStream
