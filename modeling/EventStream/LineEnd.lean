import EventStream.Bytes

/-! Where a line ends: at the first line feed, carriage return, or carriage return with a line feed
behind it. A carriage return at the end of what has arrived is left alone until the next octet, or
the end of the stream, tells which of the two it is. -/

namespace EventStream

inductive LineEnd where
  | lineFeed
  | carriageReturn
  | both
  deriving DecidableEq, Repr

def LineEnd.bytes : LineEnd → Bytes
  | .lineFeed => [Bytes.lineFeed]
  | .carriageReturn => [Bytes.carriageReturn]
  | .both => [Bytes.carriageReturn, Bytes.lineFeed]

structure Cut where
  line : Bytes
  ending : LineEnd
  rest : Bytes
  deriving DecidableEq, Repr

/-- Cut `bytes` behind its first line end. `none` when there is none, or when it is a carriage
return in the last place and more may follow. -/
def cutLine (finished : Bool) : Bytes → Option Cut
  | [] => none
  | octet :: rest =>
    if octet = Bytes.lineFeed then some ⟨[], .lineFeed, rest⟩
    else if octet = Bytes.carriageReturn then
      match rest with
      | [] => if finished then some ⟨[], .carriageReturn, []⟩ else none
      | next :: beyond =>
        if next = Bytes.lineFeed then some ⟨[], .both, beyond⟩
        else some ⟨[], .carriageReturn, next :: beyond⟩
    else (cutLine finished rest).map fun cut => { cut with line := octet :: cut.line }

/-- A cut loses nothing: the line, its end and the rest make up what there was. -/
theorem cutLine_bytes {finished : Bool} {bytes : Bytes} {cut : Cut}
    (found : cutLine finished bytes = some cut) :
    bytes = cut.line ++ cut.ending.bytes ++ cut.rest := by
  induction bytes generalizing cut with
  | nil => simp [cutLine] at found
  | cons octet rest ih =>
    unfold cutLine at found
    split at found
    next feed => cases found; simp [feed, LineEnd.bytes]
    next notFeed =>
      split at found
      next ret =>
        split at found
        next =>
          split at found
          next => cases found; simp [ret, LineEnd.bytes]
          next => cases found
        next next beyond =>
          split at found
          next feed => cases found; simp [ret, feed, LineEnd.bytes]
          next => cases found; simp [ret, LineEnd.bytes]
      next =>
        obtain ⟨inner, same, rfl⟩ := Option.map_eq_some_iff.mp found
        simpa using ih same

end EventStream
