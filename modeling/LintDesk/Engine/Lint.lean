import LintDesk.Engine.Basic
import LintDesk.Ignore.Set

/-!
Linting a document that may be ignored.
-/

namespace LintDesk

/-- What the engine is asked about a document: nothing if the document is ignored. -/
def LintRequest.unlessIgnored (r : LintRequest) (ignores : IgnoreSet) (relative : String) :
    Option LintRequest :=
  if ignores.ignores relative then none else some r

/-- The violations of what the engine is asked, if anything, and the log after that. -/
def Engine.lint (e : Engine) (request : Option LintRequest) (log : Journal) :
    List Violation × Journal :=
  match request with
  | some r => (e.evaluate r).violations r.name log
  | none => ([], log)

end LintDesk
