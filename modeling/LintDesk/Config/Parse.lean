import LintDesk.Json.Lenient
import LintDesk.Yaml.Value
import LintDesk.Config.Names
import LintDesk.Fault
import LintDesk.Path

/-!
Reading configuration files. A file may hold JSON with comments or YAML whatever its name; the
first format that accepts its text counts.
-/

namespace LintDesk.RuleConfig

/-- The value of a text: JSON with comments if it is that, else YAML. Where YAML says null, the
file is empty. -/
def readValue? (content : String) : Option Json :=
  match Json.Lenient.parse? content with
  | some v => some v
  | none =>
    match Yaml.parse? content with
    | some .null => some (.obj [])
    | v => v

/-- Whether a file keeps its rules under a key. -/
def isNested (path : Path) : Bool :=
  path.fileName?.any fun name => nestedConfigStart.toList.isPrefixOf name.toList

/-- The part of a file's value that holds the rules. -/
def rulesPart (path : Path) (value : Json) : Json :=
  match value with
  | .obj fields => if isNested path then (Dict.find? "config" fields).getD .null else value
  | _ => value

/-- The configuration in a file; one without rules is empty. -/
def parse (path : Path) (content : String) : Except Fault RuleConfig :=
  match readValue? content with
  | none => .error (.config ("Unable to parse '" ++ path.text ++ "'"))
  | some value =>
    match rulesPart path value with
    | .obj fields => .ok fields
    | .null => .ok []
    | _ => .error (.config ("'" ++ path.text ++ "' does not contain an object"))

end LintDesk.RuleConfig
