import LintDesk.Violation

/-!
Results of rule engines: the violations of one document, or of several documents by name.
-/

namespace LintDesk

inductive EngineOutput where
  | violations (list : List Violation)
  | byDocument (lists : Dict (List Violation))
  deriving Repr

namespace EngineOutput

def ofJson? : Json → Option EngineOutput
  | .arr items => (Violation.listOfJson? (.arr items)).map violations
  | .obj fields =>
    let decode (field : String × Json) : Option (String × List Violation) :=
      (Violation.listOfJson? field.2).map (field.1, ·)
    (fields.mapM decode).map byDocument
  | _ => none

/-- The violations of a document; if the result does not know it, those of all documents in the
order of their names. -/
def violationsOf (name : String) : EngineOutput → List Violation
  | violations list => list
  | byDocument lists =>
    match Dict.find? name lists with
    | some list => list
    | none => lists.flatMap (·.2)

end EngineOutput

end LintDesk
