import EventStream.Bytes

/-! The bytes of a response body as a queue that the network fills and a decoder empties. -/

namespace EventStream

inductive Arrival where
  | chunk (bytes : Bytes)
  /-- The transport failed, with its own words for it. -/
  | failure (message : String)
  deriving DecidableEq, Repr

/-- Arrivals not yet taken, and whether the end has been announced. -/
structure Feed where
  queued : List Arrival
  /-- Once the queue is empty the body is over; without this it may still grow. -/
  ended : Bool
  /-- How many arrivals were taken out so far. -/
  taken : Nat
  deriving DecidableEq, Repr

namespace Feed

def empty : Feed := ⟨[], false, 0⟩

def ofList (arrivals : List Arrival) (ended : Bool) : Feed := ⟨arrivals, ended, 0⟩

def push (feed : Feed) (arrival : Arrival) : Feed :=
  { feed with queued := feed.queued ++ [arrival] }

def close (feed : Feed) : Feed := { feed with ended := true }

def byteCount : List Arrival → Nat
  | [] => 0
  | .chunk bytes :: rest => bytes.length + byteCount rest
  | .failure _ :: rest => byteCount rest

end Feed

end EventStream
