import LintDesk.Json.Record

/-!
Custom rules: patterns that users add to the rule set. A rule module exports candidates, and a
candidate is a rule only if every field has the right shape.
-/

namespace LintDesk

/-- A custom rule; its check is a regular expression that is searched in each line. -/
structure CustomRule where
  names : List String
  description : String
  information : Option String := none
  tags : List String
  pattern : String
  deriving DecidableEq, Repr

namespace CustomRule

/-- Why a candidate is no rule. -/
inductive Defect where
  | notAnObject
  | names
  | noNames
  | description
  | tags
  | pattern
  deriving DecidableEq, Repr

def Defect.message : Defect → String
  | notAnObject => "not an object"
  | names => "'names' must be a string array"
  | noNames => "'names' must not be empty"
  | description => "'description' must be a string"
  | tags => "'tags' must be a string array"
  | pattern => "'function' must be a non-empty string"

def need (d : Defect) : Option α → Except Defect α
  | some a => .ok a
  | none => .error d

def ofJson (v : Json) : Except Defect CustomRule := do
  let fields ← need .notAnObject v.fields?
  let names ← need .names ((Dict.find? "names" fields).bind Json.strings?)
  if names.isEmpty then throw .noNames
  let description ← need .description ((Dict.find? "description" fields).bind Json.string?)
  let tags ← need .tags ((Dict.find? "tags" fields).bind Json.strings?)
  let pattern ← need .pattern
    (((Dict.find? "function" fields).bind Json.string?).filter (· ≠ ""))
  let information := (Dict.find? "information" fields).bind Json.string?
  return { names, description, information, tags, pattern }

def toJson (r : CustomRule) : Json :=
  .ofFields [("names", some (.strings r.names)), ("description", some (.str r.description)),
    ("information", r.information.map .str), ("tags", some (.strings r.tags)),
    ("function", some (.str r.pattern))]

end CustomRule

end LintDesk
