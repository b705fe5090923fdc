import LintDesk.Desk.Step

/-!
Running a desk. One task runs at a time, up to the point where it waits. Tasks that can go on take
turns in the order in which they became ready; the host's task comes after a round of them. When
no task can go on, the clock moves to the next timer. Timers that are due together fire in the
order in which they were set.
-/

namespace LintDesk.Desk

def runNext (d : Desk) : Option Desk :=
  match d.ready with
  | task :: rest => some { d with ready := rest, running := some task, turns := d.turns - 1 }
  | [] => none

/-- One action of the running task, or the choice of the next task; nothing if all wait. -/
def step (d : Desk) : Option Desk :=
  match d.running with
  | some task => some (d.advance task)
  | none =>
    if d.turns = 0 || d.ready.isEmpty then
      let d := { d with turns := round }
      if d.hostReady then some { d with hostReady := false, running := some host }
      else d.runNext
    else d.runNext

/-- Moves the clock to the next timer; nothing if there is none. -/
def tick (d : Desk) : Option Desk :=
  match (d.timers.map (·.due)).min? with
  | none => none
  | some due =>
    let clock := max d.clock due
    let (fired, timers) := d.timers.partition (·.due ≤ clock)
    some ((fired.map (·.task)).foldl wake { d with clock, timers })

/-- Lets tasks run until all of them wait; the clock stands still. -/
def settle : (fuel : Nat) → Desk → Desk
  | 0, d => d
  | fuel + 1, d =>
    match d.step with
    | some d => settle fuel d
    | none => d

def hostDone (d : Desk) : Bool :=
  d.running.isNone && !d.tasks.any (·.1 = host)

/-- Lets tasks run and time pass until the host's task has ended. -/
def finishHost : (fuel : Nat) → Desk → Desk
  | 0, d => d
  | fuel + 1, d =>
    if d.hostDone then d
    else
      match d.step with
      | some d => finishHost fuel d
      | none =>
        match d.tick with
        | some d => finishHost fuel d
        | none => d

/-- Does some work for the host and waits for it; then all tasks run until they wait. -/
def perform (fuel : Nat) (agenda : List Action) (d : Desk) : Desk :=
  let d := { d with tasks := d.tasks ++ [(host, agenda)], hostReady := true, turns := 0
                    outcomes := d.outcomes.filter (·.1 ≠ host) }
  settle fuel (finishHost fuel d)

end LintDesk.Desk
