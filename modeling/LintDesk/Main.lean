import LintDesk.Cli.Command
import LintDesk.Files.Tree

/-!
The command line. The working directory is read, the command is carried out on what was read, and
the files it changed are written.
-/

namespace LintDesk.Cli

/-- Reads what an entry of a directory leads to; of links to directories nothing is read. -/
partial def readEntry (tree : Disk) (place : List String) (e : IO.FS.DirEntry) : IO Disk := do
  let here := place ++ [e.fileName]
  try
    match (← e.path.symlinkMetadata).type, (← e.path.metadata).type with
    | .dir, _ =>
      (← e.path.readDir).foldlM (fun tree below => readEntry tree here below)
        (tree.plant here .directory)
    | _, .file => return tree.plant here (.ofBytes (← IO.FS.readBinFile e.path).toList)
    | _, _ => return tree
  catch _ => return tree

/-- Adds the file at a path outside the working directory, if it can be read. -/
def readFile (tree : Disk) (path : Path) : IO Disk := do
  match tree.place true path with
  | .ok place =>
    if (tree.node? place).isSome then return tree
    try return tree.plant place (.ofBytes (← IO.FS.readBinFile path.text).toList)
    catch _ => return tree
  | .error _ => return tree

/-- More steps than any command takes. -/
def ample : Nat := 1000000000

def runHere (c : Command) : IO UInt32 := do
  let here ← IO.currentDir
  let root : Path := ⟨here.toString⟩
  let place := Disk.partsOf root
  let start : Disk := Disk.plant { workingDirectory := place } place .directory
  let tree ← (← here.readDir).foldlM (fun tree e => readEntry tree place e) start
  let tree ← match c.config with
    | some config => readFile tree (root.join ⟨config⟩)
    | none => pure tree
  let home := (← IO.getEnv "HOME").map (⟨·⟩)
  let report := c.run ample tree root home
  report.output.forM fun line => IO.println line
  report.errors.forM fun line => IO.eprintln line
  (report.tree.changesSince tree place).forM fun (name, text) =>
    match text with
    | some text => IO.FS.writeFile name text
    | none => IO.FS.removeFile name
  match report.outcome with
  | .ok remaining => return if remaining then 1 else 0
  | .error message =>
    IO.eprintln ("Error: " ++ message)
    return 2

/-- What is said about a command line that is not carried out, and the exit code. -/
def explain : UsageError → String × UInt32
  | .displayHelp => ("Usage: mdguard [OPTIONS] <lint|fix|init|lsp>", 0)
  | .displayVersion => ("mdguard 0.1.0", 0)
  | .nothingGiven => ("Usage: mdguard [OPTIONS] <lint|fix|init|lsp>", 2)
  | .missingVerb => ("error: a command is required", 2)
  | .invalidVerb => ("error: unrecognized command", 2)
  | .unknownArgument => ("error: unexpected argument", 2)
  | .invalidValue => ("error: invalid or missing value of an option", 2)
  | .repeatedOption => ("error: an option was given twice", 2)
  | .unneededValue => ("error: an option takes no value", 2)
  | .missingPatterns => ("error: at least one pattern is required", 2)

end LintDesk.Cli

def main (args : List String) : IO UInt32 := do
  match LintDesk.Cli.readArguments false {} args with
  | .ok c => LintDesk.Cli.runHere c
  | .error e =>
    let (text, code) := LintDesk.Cli.explain e
    if code = 0 then IO.println text else IO.eprintln text
    return code
