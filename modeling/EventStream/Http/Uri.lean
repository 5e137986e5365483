import EventStream.Bytes

/-! Request targets: a scheme and an authority, both optional, then a path and an optional query.
A fragment is read and dropped. -/

namespace EventStream

inductive UriFault where
  | empty
  | tooLong
  | schemeTooLong
  | invalidCharacter
  | invalidAuthority
  | invalidFormat
  deriving DecidableEq, Repr

def UriFault.message : UriFault → String
  | .empty => "empty string"
  | .tooLong => "uri too long"
  | .schemeTooLong => "scheme too long"
  | .invalidCharacter => "invalid uri character"
  | .invalidAuthority => "invalid authority"
  | .invalidFormat => "invalid format"

structure Uri where
  scheme : Option Bytes
  authority : Option Bytes
  path : Bytes
  query : Option Bytes
  deriving DecidableEq, Repr

namespace Uri

def slash : UInt8 := 0x2F
def questionMark : UInt8 := 0x3F
def hash : UInt8 := 0x23
def percent : UInt8 := 0x25
def atSign : UInt8 := 0x40
def openBracket : UInt8 := 0x5B
def closeBracket : UInt8 := 0x5D

def schemeEnd : Bytes := Bytes.ofText "://"

def http : Bytes := Bytes.ofText "http"
def https : Bytes := Bytes.ofText "https"

def maxLength : Nat := 65534
def maxScheme : Nat := 64

/-- The most colons that may be counted at a time: those of a full address in brackets, and one for
a port. -/
def maxColons : Nat := 8

def isSchemeOctet (octet : UInt8) : Bool :=
  Bytes.isLetter octet || Bytes.isDigit octet || (Bytes.ofText "+-.~").contains octet

def endsAuthority (octet : UInt8) : Bool :=
  octet == slash || octet == questionMark || octet == hash

def isAuthorityOctet (octet : UInt8) : Bool :=
  Bytes.isLetter octet || Bytes.isDigit octet || (Bytes.ofText "!$&'()*+,-.:;=@[]_~").contains octet

/-- The octets of a path: ASCII that needs no escape there, a few that are let through unescaped,
and everything beyond ASCII. -/
def isPathOctet (octet : UInt8) : Bool :=
  octet == 0x21 || octet == 0x22 || (0x24 ≤ octet && octet ≤ 0x3B) || octet == 0x3D ||
    (0x40 ≤ octet && octet ≤ 0x5F) || (0x61 ≤ octet && octet ≤ 0x7E) || 0x80 ≤ octet

def isQueryOctet (octet : UInt8) : Bool :=
  octet == 0x21 || (0x24 ≤ octet && octet ≤ 0x3B) || octet == 0x3D ||
    (0x3F ≤ octet && octet ≤ 0x7E) || 0x80 ≤ octet

/-- What has been seen of an authority. Colons and percent signs count from the last at sign or
closing bracket on, for what is before belongs to the user or to the address in brackets. -/
structure AuthorityScan where
  colons : Nat
  opened : Bool
  closed : Bool
  escaped : Bool
  deriving DecidableEq, Repr

namespace AuthorityScan

def start : AuthorityScan := ⟨0, false, false, false⟩

def step (scan : AuthorityScan) (octet : UInt8) : Except UriFault AuthorityScan :=
  if octet = Bytes.colon then
    if maxColons ≤ scan.colons then .error .invalidAuthority
    else .ok { scan with colons := scan.colons + 1 }
  else if octet = openBracket then
    if scan.escaped || scan.opened then .error .invalidAuthority
    else .ok { scan with opened := true }
  else if octet = closeBracket then
    if !scan.opened || scan.closed then .error .invalidAuthority
    else .ok { scan with closed := true, colons := 0, escaped := false }
  else if octet = atSign then .ok { scan with colons := 0, escaped := false }
  else if octet = percent then .ok { scan with escaped := true }
  else if isAuthorityOctet octet then .ok scan
  else .error .invalidCharacter

/-- Whether an authority may end here: brackets closed, one port at most, no escape outside the
user part. -/
def mayEnd (scan : AuthorityScan) : Bool :=
  scan.opened == scan.closed && scan.colons ≤ 1 && !scan.escaped

end AuthorityScan

/-- Split off an authority, which reaches to the first slash, question mark or hash. Nothing may
stand behind an at sign but a host. -/
def splitAuthority (bytes : Bytes) : Except UriFault (Bytes × Bytes) := do
  if bytes.isEmpty then throw .empty
  let authority := bytes.takeWhile (!endsAuthority ·)
  let scan ← authority.foldlM AuthorityScan.step .start
  if !scan.mayEnd || authority.getLast? == some atSign then throw .invalidAuthority
  return (authority, bytes.dropWhile (!endsAuthority ·))

/-- Split off a scheme and what ends it, if there is one. The two usual schemes are known in any
case and become small letters; any other is kept as it is written. -/
def splitScheme (bytes : Bytes) : Except UriFault (Option Bytes × Bytes) :=
  if Bytes.sameText (bytes.take 7) (http ++ schemeEnd) then .ok (some http, bytes.drop 7)
  else if Bytes.sameText (bytes.take 8) (https ++ schemeEnd) then .ok (some https, bytes.drop 8)
  else
    let scheme := bytes.takeWhile isSchemeOctet
    let rest := bytes.dropWhile isSchemeOctet
    if 3 < bytes.length && schemeEnd.isPrefixOf rest then
      if maxScheme < scheme.length then .error .schemeTooLong
      else .ok (some scheme, rest.drop schemeEnd.length)
    else .ok (none, bytes)

def readQuery (bytes : Bytes) : Except UriFault Bytes :=
  let query := bytes.takeWhile (· != hash)
  if query.all isQueryOctet then .ok query else .error .invalidCharacter

def readTarget (bytes : Bytes) : Except UriFault (Bytes × Option Bytes) := do
  let path := bytes.takeWhile fun octet => octet != questionMark && octet != hash
  if !path.all isPathOctet then throw .invalidCharacter
  match bytes.drop path.length with
  | [] => return (path, none)
  | mark :: rest =>
    if mark == questionMark then return (path, some (← readQuery rest)) else return (path, none)

/-- Read a target. One octet alone is a path if it is a slash or a star, and a host otherwise. -/
def parse (bytes : Bytes) : Except UriFault Uri := do
  if bytes.isEmpty then throw .empty
  if maxLength < bytes.length then throw .tooLong
  if bytes = [slash] || bytes = Bytes.ofText "*" then return ⟨none, none, bytes, none⟩
  if bytes.head? == some slash then
    let (path, query) ← readTarget bytes
    return ⟨none, none, path, query⟩
  let (scheme, afterScheme) ← splitScheme bytes
  let (authority, rest) ← splitAuthority afterScheme
  match scheme with
  | none =>
    if !rest.isEmpty then throw (if bytes.length = 1 then .invalidCharacter else .invalidFormat)
    return ⟨none, some authority, [], none⟩
  | some scheme =>
    if authority.isEmpty then throw .invalidFormat
    let (path, query) ← readTarget rest
    return ⟨some scheme, some authority, path, query⟩

def isAbsolute (uri : Uri) : Bool := uri.scheme.isSome && uri.authority.isSome

/-- The target in writing; an empty path is written as a slash. -/
def bytes (uri : Uri) : Bytes :=
  (uri.scheme.elim [] (· ++ schemeEnd)) ++ uri.authority.getD [] ++
    (if uri.path.isEmpty then [slash] else uri.path) ++ uri.query.elim [] (questionMark :: ·)

end Uri

end EventStream
