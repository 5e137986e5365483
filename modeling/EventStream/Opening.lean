import EventStream.Session

/-! Opening a source without a transport of one's own. The transport it then uses speaks plain HTTP,
and refuses every other scheme without a word to the network. -/

namespace EventStream

def plainRefusal? (uri : Uri) : Option Answer :=
  if uri.scheme = some Uri.http then none else some (.refused "client error (Connect)")

/-- Why a source for `url` cannot be opened, as far as that shows without the network; `none` when
only the network can tell. -/
def openFailure? (url : String) : Option Failure :=
  match Source.create (.forUrl url) with
  | .error failure => some failure
  | .ok source =>
    let called := (Session.start source).act .connect
    let answer? := (Session.calls called.history).head?.bind fun (_, request) =>
      plainRefusal? request.uri
    let answered := answer?.elim called fun answer => called.run [.respond answer, .turn]
    (Session.connected? answered.history).join

end EventStream
