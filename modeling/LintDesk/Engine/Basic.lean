import LintDesk.Engine.Output
import LintDesk.Journal
import LintDesk.Rule.Check

/-!
Rule engines. An engine gets a request and gives a result, a fault, or nothing at all if it
crashes. Faults and crashes are reported and count as no violations.
-/

namespace LintDesk

structure LintRequest where
  /-- The name under which results by document are found. -/
  name : String
  text : String
  config : RuleConfig
  rules : List CustomRule
  /-- Whether the engine may fix what it finds; fixes are applied elsewhere. -/
  fix : Bool := false
  deriving Repr

/-- Encodes a request; rules are given by their names. -/
def LintRequest.toJson (r : LintRequest) : Json :=
  .mkObj [("name", .str r.name), ("text", .str r.text), ("config", .obj r.config),
    ("rules", .arr (r.rules.map (.strings ·.names))), ("fix", .bool r.fix)]

inductive EngineResult where
  | output (o : EngineOutput)
  | fault (f : Fault)
  | crash
  deriving Repr

inductive Engine where
  /-- The rules of this library. -/
  | builtin
  /-- An engine that always gives one result. -/
  | fixed (result : EngineResult)
  deriving Repr

namespace Engine

/-- An engine that ends without ever giving a result. -/
def silent : Engine :=
  fixed (.fault (.engine "engine dropped its callback without a result"))

/-- An engine that always gives the decoded output. -/
def ofOutput (output : Json) : Engine :=
  match EngineOutput.ofJson? output with
  | some o => fixed (.output o)
  | none => fixed (.fault (.engine "malformed output"))

def evaluate (r : LintRequest) : Engine → EngineResult
  | builtin =>
    match Rule.check r.text.toList r.config r.rules with
    | .ok violations => .output (.violations violations)
    | .error f => .fault f
  | fixed result => result

end Engine

namespace EngineResult

/-- The violations of the document that was asked about. -/
def violations (name : String) (log : Journal) : EngineResult → List Violation × Journal
  | output o => (o.violationsOf name, log)
  | fault f => ([], log.error ("Exception while linting '" ++ name ++ "': " ++ f.message))
  | crash => ([], log.error ("Exception while linting '" ++ name ++ "': task panicked"))

end EngineResult

end LintDesk
