import LintDesk.Json.Basic
import LintDesk.Text.Blank

/-!
Rule configurations: a map from rule names, tags and a few fixed keys to settings.
-/

namespace LintDesk

abbrev RuleConfig := Dict Json

namespace RuleConfig

/-- What applies where nothing is configured: every rule but the line length. -/
def default : RuleConfig := [("MD013", .bool false)]

/-- The keys of `overrides` replace those of `base`. -/
def merge (base overrides : RuleConfig) : RuleConfig :=
  Dict.override base overrides

def extendsKey : String := "extends"

/-- The first entry whose key is `key` up to ASCII case. -/
def lookup? (config : RuleConfig) (key : String) : Option Json :=
  (List.find? (fun entry => sameIgnoringCase entry.1 key) config).map (·.2)

/-- The setting of a rule: by one of its names, else by one of its tags. -/
def setting? (config : RuleConfig) (names tags : List String) : Option Json :=
  match names.findSome? (lookup? config) with
  | some value => some value
  | none => tags.findSome? (lookup? config)

/-- The options of a rule that is switched on, and nothing if it is off. A rule without a setting
is on unless the key `default` is `false`. -/
def options? (config : RuleConfig) (names tags : List String) : Option (Dict Json) :=
  match setting? config names tags with
  | some (.bool false) => none
  | some (.obj options) => some options
  | some _ => some []
  | none =>
    match Dict.find? "default" config with
    | some (.bool false) => none
    | _ => some []

end RuleConfig

/-- A numeric option, with the value that stands in for a missing or unsuitable one. -/
def natOption (options : Dict Json) (key : String) (default : Nat) : Nat :=
  ((Dict.find? key options).bind Json.word?).getD default

/-- A yes-or-no option, with the value that stands in for a missing or unsuitable one. -/
def boolOption (options : Dict Json) (key : String) (default : Bool) : Bool :=
  ((Dict.find? key options).bind Json.bool?).getD default

end LintDesk
