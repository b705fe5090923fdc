import LintDesk.Config.Basic

/-!
The names of configuration files.
-/

namespace LintDesk

/-- The names a configuration file can have, in the order they are tried. -/
def configFileNames : List String :=
  [".markdownlint-cli2.jsonc", ".markdownlint-cli2.yaml", ".markdownlint.jsonc",
    ".markdownlint.json", ".markdownlint.yaml", ".markdownlint.yml"]

def newConfigFileName : String := ".markdownlint.json"

/-- How the names of files start that keep their rules under the key `config`. -/
def nestedConfigStart : String := ".markdownlint-cli2."

end LintDesk
