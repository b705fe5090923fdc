import LintDesk.Config.Names
import LintDesk.Settings.Basic

/-!
What a language client sends about settings and files.
-/

namespace LintDesk.Server

/-- The section under which clients nest the settings. -/
def settingsSection : String := "mdguard"

/-- The settings of a payload, nested or not. -/
def settingsOf : Option Json → SettingsLayers
  | some payload => .ofJson ((payload.get? settingsSection).getD payload)
  | none => {}

/-- Drops every `./` a text starts with. -/
def trimHere : List Char → List Char
  | '.' :: '/' :: rest => trimHere rest
  | s => s

/-- Whether a change of a file touches what is kept: a configuration file, or the ignore file. -/
def affectsLinting (u : Url) (setting : IgnoreSetting) : Bool :=
  match u.lastSegment? with
  | none => false
  | some name =>
    configFileNames.contains name ||
      match setting with
      | .file file => (trimHere file.toList).isSuffixOf u.path.toList
      | .globs _ => false

end LintDesk.Server
