import LintDesk.Config.Lookup

/-!
Lookups and loads run to their end over a file layer that does not change, with the calls they
make. `fuel` bounds the number of calls.
-/

namespace LintDesk

namespace Lookup

/-- Answers calls until the lookup is done. -/
def run (q : Query) (layer : FileLayer) :
    (fuel : Nat) → Lookup → Resolver → List FileCall × Lookup × Resolver
  | 0, l, r => ([], l, r)
  | fuel + 1, l, r =>
    match l.call? with
    | none => ([], l, r)
    | some call =>
      let (l, r) := l.resume q layer r
      let (calls, l, r) := run q layer fuel l r
      (call :: calls, l, r)

def entry? : Lookup → Option ResolvedConfig
  | done e => some e
  | _ => none

end Lookup

namespace Loading

/-- Answers calls until the file and its chain are loaded. -/
def run (home : Option Path) (layer : FileLayer) :
    (fuel : Nat) → Loading → Journal → List FileCall × Loading × Journal
  | 0, l, log => ([], l, log)
  | fuel + 1, l, log =>
    match l.call? with
    | none => ([], l, log)
    | some call =>
      let (l, log) := l.resume home layer log
      let (calls, l, log) := run home layer fuel l log
      (call :: calls, l, log)

end Loading

namespace Resolver

def resolve (r : Resolver) (fuel : Nat) (layer : FileLayer) (q : Query) :
    List FileCall × Option ResolvedConfig × Resolver :=
  let (l, r) := Lookup.start q layer r
  let (calls, l, r) := l.run q layer fuel r
  (calls, l.entry?, r)

/-- The configuration in a file, its chain included. -/
def loadFile (r : Resolver) (fuel : Nat) (layer : FileLayer) (path : Path) :
    List FileCall × Option (Except Fault RuleConfig) × Resolver :=
  let (calls, l, log) := (Loading.opening path).run r.home layer fuel r.log
  (calls, l.result?, { r with log })

/-- The configuration in a file that the user named, over the default. -/
def loadNamed (r : Resolver) (fuel : Nat) (layer : FileLayer) (path : Path) :
    List FileCall × Option (Except Fault ResolvedConfig) × Resolver :=
  match r.loadFile fuel layer path with
  | (calls, some (.ok config), r) =>
    let (e, r) := Lookup.entry config (.file path) r
    (calls, some (.ok e), r)
  | (calls, some (.error fault), r) => (calls, some (.error fault), r)
  | (calls, none, r) => (calls, none, r)

end Resolver

end LintDesk
