/-! Text between quotes, as messages show it: on one line, with quotes, backslashes and control
characters escaped. -/

namespace EventStream

namespace Quoted

def code (c : Char) : String := String.ofList (Nat.toDigits 16 c.toNat)

/-- Control characters have no glyph of their own. -/
def isControl (c : Char) : Bool := c.toNat < 0x20 || (0x7F ≤ c.toNat && c.toNat ≤ 0x9F)

def char (c : Char) : String :=
  if c = '"' then "\\\""
  else if c = '\\' then "\\\\"
  else if c.toNat = 0 then "\\0"
  else if c = '\t' then "\\t"
  else if c = '\n' then "\\n"
  else if c = '\r' then "\\r"
  else if isControl c then "\\u\x7b" ++ code c ++ "\x7d"
  else String.singleton c

/-- A text between quotes, on one line. -/
def text (value : String) : String :=
  "\"" ++ String.join (value.toList.map char) ++ "\""

end Quoted

end EventStream
