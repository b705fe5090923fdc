/-!
The output log. Lines go to a sink if there is one; the first error after a reset also brings the
sink to the user's attention.
-/

namespace LintDesk

/-- The output log with what its sink has received. -/
structure Journal where
  hasSink : Bool := true
  /-- Whether an error was reported since the last reset. -/
  shown : Bool := false
  lines : List String := []
  shows : Nat := 0
  deriving Repr, DecidableEq

namespace Journal

def append (log : Journal) (level message : String) : Journal :=
  if log.hasSink then { log with lines := log.lines ++ [level ++ ": " ++ message] } else log

def info (log : Journal) (message : String) : Journal :=
  log.append "INFO" message

/-- Logs an error; the first one surfaces the log. -/
def error (log : Journal) (message : String) : Journal :=
  let log := log.append "ERROR" message
  { log with shown := true, shows := if log.hasSink && !log.shown then log.shows + 1 else log.shows }

/-- Lets the next error surface the log again. -/
def reset (log : Journal) : Journal :=
  { log with shown := false }

end Journal

end LintDesk
