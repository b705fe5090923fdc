import LintDesk.Desk.Task
import LintDesk.Server.Wire

/-!
Telling a client about diagnostics. A call says what is to be sent; the messages then go out one
by one, and other calls may start between two of them. The client shows what it was sent last.
-/

namespace LintDesk.Server

/-- The diagnostics of a document as they are sent. -/
structure Publication where
  uri : Url
  /-- The version they belong to; none if they are taken back. -/
  version : Option Int
  diagnostics : List Diagnostic
  deriving DecidableEq, Repr

namespace Publication

/-- Takes the diagnostics of a document back. -/
def empty (uri : Url) : Publication :=
  { uri, version := none, diagnostics := [] }

def toJson (p : Publication) : Json :=
  .ofFields [("uri", some (.str p.uri.text)),
    ("diagnostics", some (.arr (p.diagnostics.map encodeDiagnostic))),
    ("version", p.version.map .int)]

end Publication

/-- The publisher: the documents with published diagnostics, what the calls under way still have
to send, and what was sent. -/
structure Publisher where
  shown : List Url := []
  sending : List (Nat × List Publication) := []
  sent : List Publication := []
  deriving Repr

namespace Publisher

/-- The documents with published diagnostics after a call has started, and what it has to send. -/
def plan (shown : List Url) : Event → List Url × List Publication
  | .publish d diagnostics =>
    (if shown.contains d.uri then shown else shown ++ [d.uri],
      [{ uri := d.uri, version := some d.version, diagnostics }])
  | .clear uri => (shown.filter (· ≠ uri), [.empty uri])
  | .clearAll => ([], shown.map .empty)

def start (p : Publisher) (call : Nat) (e : Event) : Publisher :=
  let (shown, pending) := plan p.shown e
  { p with shown, sending := p.sending ++ [(call, pending)] }

/-- Sends the next message of a call; a call that has none left ends. -/
def send (p : Publisher) (call : Nat) : Publisher :=
  match p.sending.lookup call with
  | some (next :: rest) =>
    { p with
      sending := p.sending.map fun s => if s.1 = call then (call, rest) else s
      sent := p.sent ++ [next] }
  | _ => { p with sending := p.sending.filter (·.1 ≠ call) }

/-- A call whose messages go out at once. -/
def tell (p : Publisher) (e : Event) : Publisher :=
  let (shown, messages) := plan p.shown e
  { p with shown, sent := p.sent ++ messages }

/-- What the client shows for a document. -/
def last? (p : Publisher) (uri : Url) : Option Publication :=
  (p.sent.filter (·.uri = uri)).getLast?

end Publisher

end LintDesk.Server
