/-!
Reading command lines. Options may stand before the verb or among its arguments; a value is
attached to its option or follows it. Of several mistakes the first that is noticed counts: a
value is checked when the next argument is read, and what is missing is noticed at the end.
-/

namespace LintDesk.Cli

inductive Verb where
  | lint
  | fix
  | init
  | lsp
  deriving DecidableEq, Repr

def Verb.ofName? : String → Option Verb
  | "lint" => some lint
  | "fix" => some fix
  | "init" => some init
  | "lsp" => some lsp
  | _ => none

def Verb.takesPatterns : Verb → Bool
  | lint => true
  | fix => true
  | _ => false

inductive Flag where
  | config
  | verbose
  | format
  | dryRun
  | force
  | help
  | version
  deriving DecidableEq, Repr

namespace Flag

def takesValue : Flag → Bool
  | config => true
  | format => true
  | _ => false

/-- The options before the verb, or those of a verb. -/
def known : Option Verb → List Flag
  | none => [config, verbose, help, version]
  | some .lint => [config, verbose, help, format]
  | some .fix => [config, verbose, help, dryRun]
  | some .init => [config, verbose, help, force]
  | some .lsp => [config, verbose, help]

def long : Flag → String
  | config => "config"
  | verbose => "verbose"
  | format => "format"
  | dryRun => "dry-run"
  | force => "force"
  | help => "help"
  | version => "version"

def short? : Flag → Option Char
  | config => some 'c'
  | verbose => some 'v'
  | format => some 'f'
  | help => some 'h'
  | version => some 'V'
  | _ => none

end Flag

inductive OutputFormat where
  | text
  | json
  deriving DecidableEq, Repr

inductive UsageError where
  | displayHelp
  | displayVersion
  /-- Nothing at all was given. -/
  | nothingGiven
  | missingVerb
  | invalidVerb
  | unknownArgument
  | invalidValue
  | repeatedOption
  | unneededValue
  | missingPatterns
  deriving DecidableEq, Repr

/-- What was read so far at one level of a command line. -/
structure Given where
  flags : List Flag := []
  config : Option String := none
  format : OutputFormat := .text
  patterns : List String := []
  /-- The option that waits for its value, or whose value is not checked yet. -/
  pending : Option (Flag × Option String) := none
  deriving Repr

namespace Given

/-- Records an option; none may be given twice. -/
def record (g : Given) (f : Flag) : Except UsageError Given :=
  if g.flags.contains f then .error .repeatedOption else .ok { g with flags := f :: g.flags }

def store (g : Given) (f : Flag) (value : String) : Except UsageError Given := do
  let g ← g.record f
  match f with
  | .config => if value = "" then .error .invalidValue else .ok { g with config := some value }
  | .format =>
    match value with
    | "text" => .ok { g with format := .text }
    | "json" => .ok { g with format := .json }
    | _ => .error .invalidValue
  | _ => .ok g

/-- Finishes the option that is pending. -/
def resolve (g : Given) : Except UsageError Given :=
  match g.pending with
  | none => .ok g
  | some (_, none) => .error .invalidValue
  | some (f, some value) => { g with pending := none }.store f value

/-- Takes an option without a value. -/
def react (g : Given) (f : Flag) : Except UsageError Given := do
  let g ← g.resolve
  match f with
  | .help => .error .displayHelp
  | .version => .error .displayVersion
  | _ => g.record f

/-- Takes an option with the value attached to it, or waits for one. -/
def expect (g : Given) (f : Flag) (attached : Option String) : Except UsageError Given := do
  let g ← g.resolve
  match attached with
  | some value => g.store f value
  | none => .ok { g with pending := some (f, none) }

def waits (g : Given) : Bool :=
  g.pending.any (·.2.isNone)

end Given

/-- Takes a long option without its dashes. -/
def takeLong (verb : Option Verb) (g : Given) (body : List Char) : Except UsageError Given :=
  let name := body.takeWhile (· ≠ '=')
  let attached := match body.drop name.length with
    | '=' :: value => some (String.ofList value)
    | _ => none
  match (Flag.known verb).find? (·.long == String.ofList name) with
  | none => .error .unknownArgument
  | some f =>
    if f.takesValue then g.expect f attached
    else if attached.isSome then .error .unneededValue
    else g.react f

/-- Takes short options without their dash. -/
def takeShort (verb : Option Verb) (g : Given) : List Char → Except UsageError Given
  | [] => .ok g
  | c :: rest =>
    match (Flag.known verb).find? (·.short? == some c) with
    | none => .error .unknownArgument
    | some f =>
      if f.takesValue then
        match rest with
        | [] => g.expect f none
        | '=' :: value => g.expect f (some (String.ofList value))
        | value => g.expect f (some (String.ofList value))
      else do
        let g ← g.react f
        takeShort verb g rest

/-- Takes an argument that is no option. -/
def takeWord (verb : Verb) (g : Given) (word : String) : Except UsageError Given := do
  if !verb.takesPatterns then .error .unknownArgument
  let g ← g.resolve
  return { g with patterns := g.patterns ++ [word] }

/-- An option as it is written. -/
inductive Shape where
  | escape
  | long (body : List Char)
  | short (body : List Char)
  | word

/-- The shape of an argument; a single dash is a word. -/
def Shape.of (arg : String) : Shape :=
  match arg.toList with
  | ['-', '-'] => escape
  | '-' :: '-' :: body => long body
  | ['-'] => word
  | '-' :: body => short body
  | _ => word

/-- Reads the arguments of a verb. After `--` all of them are words. -/
def readVerb (verb : Verb) : (literal : Bool) → Given → List String → Except UsageError Given
  | _, g, [] => do
    let g ← g.resolve
    if verb.takesPatterns && g.patterns.isEmpty then .error .missingPatterns else .ok g
  | true, g, arg :: rest => do readVerb verb true (← takeWord verb g arg) rest
  | false, g, arg :: rest => do
    match Shape.of arg with
    | .escape => readVerb verb true g rest
    | .long body => readVerb verb false (← takeLong (some verb) g body) rest
    | .short body => readVerb verb false (← takeShort (some verb) g body) rest
    | .word =>
      match g.pending with
      | some (f, none) => readVerb verb false { g with pending := some (f, some arg) } rest
      | _ => readVerb verb false (← takeWord verb g arg) rest

structure Command where
  verb : Verb
  config : Option String
  verbose : Bool
  format : OutputFormat
  dryRun : Bool
  force : Bool
  patterns : List String
  deriving DecidableEq, Repr

/-- The command of what was given before the verb and after it; what stands nearer to the end
wins. -/
def Command.of (verb : Verb) (before after : Given) : Command where
  verb := verb
  config := after.config.or before.config
  verbose := before.flags.contains .verbose || after.flags.contains .verbose
  format := after.format
  dryRun := after.flags.contains .dryRun
  force := after.flags.contains .force
  patterns := after.patterns

/-- What the verb `help` answers: its arguments name a verb. -/
def helpAnswer : List String → UsageError
  | [] => .displayHelp
  | [name] =>
    if name = "help" ∨ (Verb.ofName? name).isSome then .displayHelp else .invalidVerb
  | _ => .invalidVerb

def readArguments : (literal : Bool) → Given → List String → Except UsageError Command
  | _, g, [] => do
    let g ← g.resolve
    if g.flags.isEmpty then .error .nothingGiven else .error .missingVerb
  | true, _, arg :: _ =>
    if arg = "help" ∨ (Verb.ofName? arg).isSome then .error .unknownArgument
    else .error .invalidVerb
  | false, g, arg :: rest => do
    match (if g.waits then none else Verb.ofName? arg) with
    | some verb =>
      let after ← readVerb verb false {} rest
      let before ← g.resolve
      return Command.of verb before after
    | none =>
      if !g.waits && arg = "help" then .error (helpAnswer rest)
      else
        match Shape.of arg with
        | .escape => readArguments true g rest
        | .long body => readArguments false (← takeLong none g body) rest
        | .short body => readArguments false (← takeShort none g body) rest
        | .word =>
          match g.pending with
          | some (f, none) => readArguments false { g with pending := some (f, some arg) } rest
          | _ => .error .invalidVerb

end LintDesk.Cli
