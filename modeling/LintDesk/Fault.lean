/-!
What can go wrong while a document is resolved, linted or fixed. No fault stops the program: it is
reported, and the work goes on with fewer diagnostics or fixes.
-/

namespace LintDesk

inductive Fault where
  /-- A configuration file that cannot be used. -/
  | config (reason : String)
  /-- Text that none of the formats accepts. -/
  | parse (reason : String)
  /-- A custom rule module that cannot be loaded. -/
  | customRule (reason : String)
  /-- A failure of the rule engine. -/
  | engine (reason : String)
  /-- An ignore file that cannot be used. -/
  | ignoring (reason : String)
  /-- Nothing is stored at a path. -/
  | notFound (path : String)
  /-- The document has no file layer. -/
  | unavailable
  /-- A failure of the file system, with the note whether it says that a file is missing. -/
  | io (missing : Bool) (reason : String)
  deriving DecidableEq, Repr

namespace Fault

def message : Fault → String
  | config reason => "Configuration error: " ++ reason
  | parse reason => "Parse error: " ++ reason
  | customRule reason => "Custom rule error: " ++ reason
  | engine reason => "Engine error: " ++ reason
  | ignoring reason => "Ignore error: " ++ reason
  | notFound path => "Not found: " ++ path
  | unavailable => "No file system available"
  | io _ reason => "I/O error: " ++ reason

def isNotFound : Fault → Bool
  | notFound _ => true
  | io missing _ => missing
  | _ => false

end Fault

end LintDesk
