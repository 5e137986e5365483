/-! Lengths of time to the nanosecond, and the millisecond counter that a retry interval is kept
in. -/

namespace EventStream

/-- A length of time in whole nanoseconds. -/
structure Duration where
  nanos : Nat
  deriving DecidableEq, Repr

namespace Duration

def nanosPerMilli : Nat := 1000000
def nanosPerSecond : Nat := 1000000000

def ofMillis (millis : Nat) : Duration := ⟨millis * nanosPerMilli⟩
def ofSeconds (seconds : Nat) : Duration := ⟨seconds * nanosPerSecond⟩

def seconds (duration : Duration) : Nat := duration.nanos / nanosPerSecond

def subsecond (duration : Duration) : Nat := duration.nanos % nanosPerSecond

def millis (duration : Duration) : Nat := duration.nanos / nanosPerMilli

/-- The fewest whole milliseconds that are at least as long. -/
def millisUp (duration : Duration) : Nat := (duration.nanos + (nanosPerMilli - 1)) / nanosPerMilli

/-- The digits after the point of `part / 10 ^ places`, without zeros at the end. -/
def fraction : Nat → Nat → String
  | 0, _ => ""
  | places + 1, part =>
    if part % 10 = 0 then fraction places (part / 10)
    else
      let digits := toString part
      "." ++ String.ofList (List.replicate (places + 1 - digits.length) '0') ++ digits

/-- A whole part, the fraction with `places` digits at most, and the unit. -/
def written (total places : Nat) (unit : String) : String :=
  toString (total / Nat.pow 10 places) ++ fraction places (total % Nat.pow 10 places) ++ unit

/-- The time in its largest unit of `s`, `ms`, `µs` and `ns` that it fills at least once, with its
exact fraction. -/
def text (duration : Duration) : String :=
  if nanosPerSecond ≤ duration.nanos then written duration.nanos 9 "s"
  else if nanosPerMilli ≤ duration.nanos then written duration.nanos 6 "ms"
  else if 1000 ≤ duration.nanos then written duration.nanos 3 "µs"
  else written duration.nanos 0 "ns"

end Duration

def counterMax : Nat := 0xFFFFFFFFFFFFFFFF

/-- The interval as a 64-bit count of whole milliseconds; what does not fit becomes the largest
count. -/
def Duration.counted (duration : Duration) : Nat := min counterMax duration.millis

end EventStream
