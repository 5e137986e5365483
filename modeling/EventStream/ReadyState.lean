/-! The lifecycle states of a source, as its consumer sees them. -/

namespace EventStream

inductive ReadyState where
  /-- Waiting for a stream, the first or a later one. -/
  | connecting
  | opened
  | closing
  | closed
  deriving DecidableEq, Repr

namespace ReadyState

def code : ReadyState → Nat
  | .connecting => 0
  | .opened => 1
  | .closing => 2
  | .closed => 3

def ofCode? : Nat → Option ReadyState
  | 0 => some .connecting
  | 1 => some .opened
  | 2 => some .closing
  | 3 => some .closed
  | _ => none

theorem ofCode?_code (state : ReadyState) : ofCode? state.code = some state := by
  cases state <;> rfl

def name : ReadyState → String
  | .connecting => "Connecting"
  | .opened => "Open"
  | .closing => "Closing"
  | .closed => "Closed"

def isOpen (state : ReadyState) : Bool := state = .opened

/-- A close is under way or over. -/
def isShuttingDown (state : ReadyState) : Bool := state = .closing || state = .closed

def isClosed (state : ReadyState) : Bool := state = .closed

/-- The states in the order of their codes. -/
def compare (left right : ReadyState) : Ordering := Ord.compare left.code right.code

end ReadyState

end EventStream
