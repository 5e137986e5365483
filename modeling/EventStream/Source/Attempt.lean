import EventStream.Source.Basic

/-! Connection attempts: how one begins, what the transport may do to it, and what it comes to. -/

namespace EventStream.Source

/-- Call the transport: the request, and the attempt that is then in flight. -/
def call (source : Source) (now : Nat) : Except Failure (Request × Call) :=
  match Request.build source.config source.cursor with
  | .error failure => .error failure
  | .ok request =>
    .ok (request, ⟨source.cursor, now + source.config.connectTimeout.millisUp, none⟩)

/-- What an attempt has come to by now, or `none` while that is open. An answer counts even at the
moment when the time is up. -/
def outcome? (source : Source) (call : Call) (now : Nat) : Option (Except Failure Body) :=
  match call.answer with
  | some answer =>
    match answer.body with
    | .error failure => some (.error failure)
    | .ok feed => some (.ok ⟨.start source.config.maxLine call.resumeId source.retry, feed⟩)
  | none =>
    if now < call.deadline then none
    else some (.error (.timeout source.config.connectTimeout))

def respond (source : Source) (answer : Answer) : Source :=
  match source.phase with
  | .connecting call => { source with phase := .connecting { call with answer := some answer } }
  | .reconnecting failures call =>
    { source with phase := .reconnecting failures { call with answer := some answer } }
  | _ => source

def updateFeed (source : Source) (change : Feed → Feed) : Source :=
  match source.phase with
  | .reading body => { source with phase := .reading { body with feed := change body.feed } }
  | .handing body event =>
    { source with phase := .handing { body with feed := change body.feed } event }
  | _ => source

end EventStream.Source
