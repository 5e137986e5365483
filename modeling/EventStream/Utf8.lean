import EventStream.Bytes

/-! Where a byte string stops being UTF-8. A lead octet fixes the ranges that its followers must
fall in; the first octet out of range, or the end of the bytes in the middle of a character, is the
fault, and it is reported with the place where the broken character starts. -/

namespace EventStream.Utf8

structure Range where
  low : UInt8
  high : UInt8
  deriving DecidableEq, Repr

def Range.holds (range : Range) (octet : UInt8) : Bool :=
  range.low ≤ octet && octet ≤ range.high

def tail : Range := ⟨0x80, 0xBF⟩

/-- The ranges of the octets that follow `lead` within its character, or `none` when no character
starts with it. The narrowed second ranges keep out overlong forms, surrogates and code points
beyond U+10FFFF. -/
def followers (lead : UInt8) : Option (List Range) :=
  if lead ≤ 0x7F then some []
  else if 0xC2 ≤ lead ∧ lead ≤ 0xDF then some [tail]
  else if lead = 0xE0 then some [⟨0xA0, 0xBF⟩, tail]
  else if lead = 0xED then some [⟨0x80, 0x9F⟩, tail]
  else if 0xE1 ≤ lead ∧ lead ≤ 0xEF then some [tail, tail]
  else if lead = 0xF0 then some [⟨0x90, 0xBF⟩, tail, tail]
  else if 0xF1 ≤ lead ∧ lead ≤ 0xF3 then some [tail, tail, tail]
  else if lead = 0xF4 then some [⟨0x80, 0x8F⟩, tail, tail]
  else none

/-- Why a byte string is not UTF-8. `start` is the number of octets before the broken character. -/
inductive Fault where
  /-- The `length` octets from `start` begin no character, whatever follows. -/
  | invalid (start length : Nat)
  /-- The bytes end inside a character that was well formed so far. -/
  | incomplete (start : Nat)
  deriving DecidableEq, Repr

def Fault.message : Fault → String
  | .invalid start length => s!"invalid utf-8 sequence of {length} bytes from index {start}"
  | .incomplete start => s!"incomplete utf-8 byte sequence from index {start}"

/-- Look for a fault from inside a character that starts at `start`, of which `seen` octets are
read and whose remaining octets must fall in `owed`; between characters both are empty. -/
def faultFrom (start seen : Nat) (owed : List Range) : Bytes → Option Fault
  | [] => if owed.isEmpty then none else some (.incomplete start)
  | octet :: rest =>
    match owed with
    | [] =>
      match followers octet with
      | none => some (.invalid start 1)
      | some [] => faultFrom (start + 1) 0 [] rest
      | some (range :: more) => faultFrom start 1 (range :: more) rest
    | range :: more =>
      if range.holds octet then
        if more.isEmpty then faultFrom (start + seen + 1) 0 [] rest
        else faultFrom start (seen + 1) more rest
      else some (.invalid start seen)

/-- The first place where `bytes` stops being UTF-8, or `none` when it is UTF-8 throughout. -/
def fault? (bytes : Bytes) : Option Fault := faultFrom 0 0 [] bytes

end EventStream.Utf8
