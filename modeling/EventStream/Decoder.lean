import EventStream.Feed
import EventStream.Record
import EventStream.LineBuffer

/-! Events out of a body. The decoder takes an arrival only when the bytes it holds contain no
further event, gives events in stream order, and after its first error gives nothing but the end. -/

namespace EventStream

inductive DecodeError where
  | transport (message : String)
  | utf8 (fault : Utf8.Fault)
  | lineTooLong (limit : Nat)
  deriving DecidableEq, Repr

namespace DecodeError

def cause : DecodeError → String
  | .transport message => message
  | .utf8 fault => fault.message
  | .lineTooLong limit => s!"line exceeds the maximum length of {limit} bytes"

def message (error : DecodeError) : String :=
  match error with
  | .transport _ => "transport: " ++ error.cause
  | .utf8 _ => "invalid UTF-8 in event stream: " ++ error.cause
  | .lineTooLong _ => error.cause

end DecodeError

/-- The mark that a stream may begin with, and that does not belong to its first line. -/
def byteOrderMark : Bytes := [0xEF, 0xBB, 0xBF]

inductive Stage where
  /-- Too few bytes so far to tell whether the stream begins with a byte order mark. -/
  | opening
  | reading
  /-- An error was given; only the end follows. -/
  | failed
  deriving DecidableEq, Repr

structure Decoder where
  lines : LineBuffer
  record : Record
  /-- The id of the event given last. -/
  lastEventId : Bytes
  stage : Stage
  deriving DecidableEq, Repr

inductive Poll where
  /-- Nothing before more of the body arrives. -/
  | pending
  | ended
  | event (event : Event)
  | failed (error : DecodeError)
  deriving DecidableEq, Repr

inductive Reading where
  | event (event : Event)
  | failed (error : DecodeError)
  /-- Every complete line was read and none of them ended a record with data. -/
  | exhausted
  deriving DecidableEq, Repr

/-- Read buffered lines until one brings an event or is in error. -/
def readLines (lines : LineBuffer) (record : Record) : Reading × LineBuffer × Record :=
  match _taken : lines.nextLine with
  | (.tooLong limit, lines) => (.failed (.lineTooLong limit), lines, record)
  | (.more, lines) => (.exhausted, lines, record)
  | (.line content, rest) =>
    match Line.parse content with
    | .error fault => (.failed (.utf8 fault), rest, record)
    | .ok line =>
      match record.read line with
      | (some event, record) => (.event event, rest, record)
      | (none, record) => readLines rest record
termination_by lines.bytes.length
decreasing_by exact LineBuffer.nextLine_shorter ‹_›

namespace Decoder

/-- A decoder at the start of a body. Until a line says otherwise its events carry `resumeId`. -/
def start (maxLine : Option Nat) (resumeId : Bytes) (retry : Duration) : Decoder :=
  ⟨.start maxLine, .start resumeId retry, resumeId, .opening⟩

/-- The wait before a reconnect, as the lines read so far have it. -/
def retry (decoder : Decoder) : Duration := decoder.record.retry

/-- Whether a stream begins with the mark, or `none` while its first bytes leave that open. -/
def marked? (bytes : Bytes) : Option Bool :=
  if byteOrderMark.isPrefixOf bytes then some true
  else if bytes.isPrefixOf byteOrderMark then none
  else some false

/-- Take in a chunk, and settle the question of the mark as soon as it can be. -/
def accept (decoder : Decoder) (chunk : Bytes) : Decoder :=
  let lines := decoder.lines.push chunk
  match decoder.stage with
  | .opening =>
    match marked? lines.bytes with
    | some true => { decoder with lines := lines.discard byteOrderMark.length, stage := .reading }
    | some false => { decoder with lines, stage := .reading }
    | none => { decoder with lines }
  | _ => { decoder with lines }

/-- Take in the end of the body. A mark that was cut short is ordinary bytes. -/
def finish (decoder : Decoder) : Decoder :=
  { decoder with lines := decoder.lines.finish, stage := .reading }

def fail (decoder : Decoder) : Decoder := { decoder with stage := .failed }

/-- What the decoder can answer from the bytes it holds, or `none` when it has to ask for more. -/
def answer (decoder : Decoder) : Option Poll × Decoder :=
  match decoder.stage with
  | .failed => (some .ended, decoder)
  | .opening => (none, decoder)
  | .reading =>
    match readLines decoder.lines decoder.record with
    | (.event event, lines, record) =>
      (some (.event event), { decoder with lines, record, lastEventId := event.id })
    | (.failed error, lines, record) =>
      (some (.failed error), { decoder with lines, record, stage := .failed })
    | (.exhausted, lines, record) =>
      (if lines.finished then some .ended else none, { decoder with lines, record })

/-- Poll against the arrivals of a body: what is held goes first, then one arrival at a time until
there is something to give. -/
def pollQueue (decoder : Decoder) (ended : Bool) (taken : Nat) :
    List Arrival → Poll × Decoder × Feed
  | [] =>
    match decoder.answer with
    | (some poll, decoder) => (poll, decoder, ⟨[], ended, taken⟩)
    | (none, decoder) =>
      if ended then
        let (poll, decoder) := decoder.finish.answer
        (poll.getD .ended, decoder, ⟨[], ended, taken⟩)
      else (.pending, decoder, ⟨[], ended, taken⟩)
  | arrival :: rest =>
    match decoder.answer with
    | (some poll, decoder) => (poll, decoder, ⟨arrival :: rest, ended, taken⟩)
    | (none, decoder) =>
      match arrival with
      | .failure message =>
        (.failed (.transport message), decoder.fail, ⟨rest, ended, taken + 1⟩)
      | .chunk bytes => pollQueue (decoder.accept bytes) ended (taken + 1) rest

def poll (decoder : Decoder) (feed : Feed) : Poll × Decoder × Feed :=
  decoder.pollQueue feed.ended feed.taken feed.queued

structure Polled where
  poll : Poll
  decoder : Decoder
  feed : Feed
  deriving DecidableEq, Repr

/-- Poll until there is nothing more to give for now, `limit` times at most. -/
def polls : Nat → Decoder → Feed → List Polled
  | 0, _, _ => []
  | limit + 1, decoder, feed =>
    let (poll, decoder, feed) := decoder.poll feed
    let polled := ⟨poll, decoder, feed⟩
    match poll with
    | .pending | .ended => [polled]
    | .event _ | .failed _ => polled :: polls limit decoder feed

/-- Poll until there is nothing more to give for now. Each event takes at least one byte out of the
buffer, and an error is followed by the end. -/
def drain (decoder : Decoder) (feed : Feed) : List Polled :=
  polls (decoder.lines.bytes.length + Feed.byteCount feed.queued + 2) decoder feed

end Decoder

end EventStream
