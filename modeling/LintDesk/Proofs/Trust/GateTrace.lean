import LintDesk.Proofs.Lookup
import LintDesk.Trust.Gate
import Mathlib.Logic.Function.Basic
import Mathlib.Logic.Relation

/-! # Requests at the gate

Any number of requests go through the gate at once, each step by step, and between two steps of one
anything may happen to the others: new requests come in, answers and files arrive, the gate is
invalidated. The log of a trace records what can be seen of that.
-/

namespace LintDesk

/-- What happens at a gate. Callers are numbered; each has one request at a time. -/
inductive GateMark where
  /-- A request came in; `trusted` says whether its workspace was trusted then. -/
  | entered (who : Nat) (r : RuleRequest) (trusted : Bool)
  /-- The user is shown locations and asked about them. -/
  | asked (who : Nat) (locations : List String)
  | answered (who : Nat) (choice : Option TrustChoice)
  /-- A location is being read. -/
  | read (who : Nat) (location : String)
  /-- The rules of a key became known. -/
  | stored (who : Nat) (key : RuleKey) (rules : List CustomRule)
  /-- A request was given its rules. -/
  | returned (who : Nat) (rules : List CustomRule)
  | invalidated

/-- Whether a caller's request came in. -/
def GateMark.enters (who : Nat) : GateMark → Bool
  | entered other _ _ => other == who
  | _ => false

/-- A gate with the requests on their way through it and the log of what happened, latest first. -/
structure GateTrace where
  gate : Gate
  requests : Nat → Option (RuleRequest × Passage)
  log : List GateMark

/-- What a request does when it has come to a point of its passage. -/
def Passage.marks (who : Nat) (r : RuleRequest) : Passage → List GateMark
  | queued => []
  | asking _ => [.asked who r.locations.value]
  | loading _ _ left _ => left.head?.toList.map (.read who)
  | done rules => [.returned who rules]

/-- The rules of a key that one gate knows and an earlier one did not. -/
def Gate.newRules (who : Nat) (key : RuleKey) (before after : Gate) : List GateMark :=
  match after.state key with
  | .loaded rules => if before.state key = .loaded rules then [] else [.stored who key rules]
  | _ => []

namespace GateTrace

def note (s : GateTrace) (m : GateMark) : GateTrace :=
  { s with log := m :: s.log }

/-- A caller's request takes a step, with what the gate makes of it. -/
def move (s : GateTrace) (who : Nat) (r : RuleRequest) (result : Passage × Gate) : GateTrace where
  gate := result.2
  requests := Function.update s.requests who (some (r, result.1))
  log := result.1.marks who r ++ (s.gate.newRules who r.key result.2 ++ s.log)

/-- One step. Which workspaces are trusted, what the user answers and what is read is open, and so
is the order in which waiting requests get their turn. -/
inductive Step (s : GateTrace) : GateTrace → Prop
  | enter (who : Nat) (isTrusted : String → Bool) (r : RuleRequest)
      (hfree : ∀ r' p, s.requests who = some (r', p) → ∃ rules, p = .done rules) :
      Step s ((s.note (.entered who r (r.workspace.any isTrusted))).move who r
        (s.gate.enter who isTrusted r))
  | takeTurn {who : Nat} {r : RuleRequest} (h : s.requests who = some (r, .queued)) :
      Step s (s.move who r (s.gate.takeTurn r))
  | answer {who : Nat} {r : RuleRequest} {epoch : Nat}
      (h : s.requests who = some (r, .asking epoch))
      (choice : Option TrustChoice) :
      Step s ((s.note (.answered who choice)).move who r (s.gate.answer r epoch choice))
  | receive {who : Nat} {r : RuleRequest} {epoch : Nat} {holds : Bool} {left : List String}
      {rules : List CustomRule} (h : s.requests who = some (r, .loading epoch holds left rules))
      (text : Except Fault String) {journal journal' : Journal} {p : Passage} {g : Gate}
      (hreceive : s.gate.receive r text journal (.loading epoch holds left rules) =
        (p, g, journal')) :
      Step s (s.move who r (p, g))
  | invalidate : Step s ({ s with gate := s.gate.invalidate }.note .invalidated)

/-- Nobody has been at the gate yet. -/
def IsFresh (s : GateTrace) : Prop :=
  s.gate.states = [] ∧ (∀ who, s.requests who = none) ∧ s.log = []

def Reachable (s : GateTrace) : Prop :=
  ∃ s₀ : GateTrace, s₀.IsFresh ∧ Relation.ReflTransGen Step s₀ s

end GateTrace

namespace Gate

/-! ### What the steps of a request do -/

variable {g : Gate} {r : RuleRequest}

theorem state_put (g : Gate) (key : RuleKey) (s : RuleStatus) (k : RuleKey) :
    (g.put key s).state k = if k = key then s else g.state k := by
  unfold state put
  rw [List.lookup_cons, lookup_filter_ne]
  by_cases hk : k = key
  · simp [hk]
  · have hne : (k == key) = false := by simpa using hk
    simp [hk, hne]

theorem state_settle (g : Gate) (key : RuleKey) (epoch : Nat) (s : RuleStatus) (k : RuleKey) :
    (g.settle key epoch s).state k = g.state k ∨
      k = key ∧ (g.settle key epoch s).state k = s ∧ epoch = g.epoch := by
  unfold settle
  split
  · next hepoch =>
      rw [state_put]
      split
      · next hk => exact .inr ⟨hk, rfl, hepoch.symm⟩
      · exact .inl rfl
  · exact .inl rfl

theorem epoch_settle (g : Gate) (key : RuleKey) (epoch : Nat) (s : RuleStatus) :
    (g.settle key epoch s).epoch = g.epoch := by
  unfold settle
  split <;> rfl

@[simp] theorem state_finish (g : Gate) (holds : Bool) (rules : List CustomRule) (k : RuleKey) :
    (g.finish holds rules).2.state k = g.state k := by
  cases holds <;> rfl

@[simp] theorem epoch_finish (g : Gate) (holds : Bool) (rules : List CustomRule) :
    (g.finish holds rules).2.epoch = g.epoch := by
  cases holds <;> rfl

/-- Two gates are in the same epoch and know the same. -/
def Agrees (g g' : Gate) : Prop :=
  g.epoch = g'.epoch ∧ ∀ k, g.state k = g'.state k

theorem finish_agrees (g : Gate) (holds : Bool) (rules : List CustomRule) :
    (g.finish holds rules).2.Agrees g :=
  ⟨epoch_finish g holds rules, state_finish g holds rules⟩

/-- Loading ends with its rules, which are stored in their own epoch only, or the next location is
read. -/
theorem load_cases (g : Gate) (r : RuleRequest) (epoch : Nat) (holds : Bool) (left : List String)
    (rules : List CustomRule) :
    (left = [] ∧ (g.load r epoch holds left rules).1 = .done rules ∧
      (g.load r epoch holds left rules).2.epoch = g.epoch ∧
      ∀ k, (g.load r epoch holds left rules).2.state k = g.state k ∨
        k = r.key ∧ (g.load r epoch holds left rules).2.state k = .loaded rules ∧
          epoch = g.epoch) ∨
    ∃ location rest, left = location :: rest ∧
      g.load r epoch holds left rules = (.loading epoch holds left rules, g) := by
  cases left with
  | nil =>
      refine .inl ⟨rfl, rfl, ?_, fun k => ?_⟩
      · rw [load, epoch_finish, epoch_settle]
      · rw [load, state_finish]
        exact state_settle g r.key epoch _ k
  | cons location rest => exact .inr ⟨location, rest, rfl, rfl⟩

/-- When a location has been read, loading goes on with the rules that were found in it. -/
theorem receive_loading (g : Gate) (r : RuleRequest) (text : Except Fault String)
    (journal : Journal) (epoch : Nat) (holds : Bool) (location : String) (left : List String)
    (rules : List CustomRule) : ∃ found journal',
      rulesOf location (g.pathOf r.baseDir location) text journal = (found, journal') ∧
      g.receive r text journal (.loading epoch holds (location :: left) rules) =
        ((g.load r epoch holds left (rules ++ found)).1,
          (g.load r epoch holds left (rules ++ found)).2, journal') :=
  ⟨_, _, rfl, rfl⟩

/-- Rules of a key that are known have been stored, or there are none. -/
theorem state_of_settled? {key : RuleKey} {rules : List CustomRule}
    (h : g.settled? key = some rules) : g.state key = .loaded rules ∨ rules = [] := by
  unfold settled? at h
  split at h
  · next hstate => exact .inl (by rw [hstate, Option.some.inj h])
  · exact .inr (Option.some.inj h).symm
  · cases h

/-- In its turn a request is given what has become known, or it asks. -/
theorem takeTurn_cases (g : Gate) (r : RuleRequest) :
    (∃ rules, g.settled? r.key = some rules ∧ (g.takeTurn r).1 = .done rules ∧
      (g.takeTurn r).2.Agrees g) ∨
    ((g.takeTurn r).1 = .asking g.epoch ∧ (g.takeTurn r).2.epoch = g.epoch ∧
      ∀ k, (g.takeTurn r).2.state k = if k = r.key then .prompting else g.state k) := by
  unfold takeTurn
  split
  · next rules hrules => exact .inl ⟨rules, hrules, rfl, finish_agrees g true rules⟩
  · exact .inr ⟨rfl, rfl, state_put g r.key .prompting⟩

/-- A request that comes in is given what is known, loads at once if it may, or waits or asks. -/
theorem enter_cases (g : Gate) (who : Nat) (isTrusted : String → Bool) (r : RuleRequest) :
    (∃ rules, g.settled? r.key = some rules ∧ g.enter who isTrusted r = (.done rules, g)) ∨
    ((r.key.requiresTrust = true → r.locations.value ≠ [] → r.workspace.any isTrusted = true) ∧
      g.enter who isTrusted r = g.load r g.epoch false r.locations.value []) ∨
    ((g.enter who isTrusted r).1 = .queued ∧ (g.enter who isTrusted r).2.Agrees g) ∨
    ∃ g' : Gate, g'.Agrees g ∧ g.enter who isTrusted r = g'.takeTurn r := by
  unfold enter
  split
  · next rules hrules => exact .inl ⟨rules, hrules, rfl⟩
  · split
    · next hempty =>
        rw [List.isEmpty_iff] at hempty
        exact .inr (.inl ⟨fun _ hne => absurd hempty hne, by rw [hempty]; rfl⟩)
    · split
      · next hload =>
          refine .inr (.inl ⟨fun htrust _ => ?_, rfl⟩)
          simpa [htrust] using hload
      · split
        · exact .inr (.inr (.inr ⟨{ g with holder := some who }, ⟨rfl, fun _ => rfl⟩, rfl⟩))
        · exact .inr (.inr (.inl ⟨rfl, rfl, fun _ => rfl⟩))

/-- A refusal ends the request without rules; with consent it loads. -/
theorem answer_cases (g : Gate) (r : RuleRequest) (epoch : Nat) (choice : Option TrustChoice) :
    ((g.answer r epoch choice).1 = .done [] ∧ (g.answer r epoch choice).2.epoch = g.epoch ∧
      ∀ k, (g.answer r epoch choice).2.state k = g.state k ∨
        k = r.key ∧ (g.answer r epoch choice).2.state k = .blocked) ∨
    (choice = some .allowOnce ∨ choice = some .alwaysAllow) ∧
      g.answer r epoch choice = g.load r epoch true r.locations.value [] := by
  unfold answer
  split
  · refine .inl ⟨rfl, ?_, fun k => ?_⟩
    · rw [epoch_finish, epoch_settle]
    · rw [state_finish]
      exact (state_settle g r.key epoch .blocked k).imp_right fun h => ⟨h.1, h.2.1⟩
  · next hchoice => exact .inr ⟨.inl (by cases choice <;> simp_all), rfl⟩
  · next hchoice => exact .inr ⟨.inr (by cases choice <;> simp_all), rfl⟩

end Gate

/-- What holds when a request is given what has become known, and when it asks, holds when it takes
its turn. -/
theorem GateTrace.move_takeTurn {s : GateTrace} {g : Gate} {who : Nat} {r : RuleRequest}
    {P : GateTrace → Prop} (hsame : g.Agrees s.gate)
    (hknown : ∀ rules (g' : Gate), s.gate.settled? r.key = some rules → g'.Agrees s.gate →
      P (s.move who r (.done rules, g')))
    (hasks : ∀ g' : Gate, g'.epoch = s.gate.epoch →
      (∀ k, g'.state k = if k = r.key then .prompting else s.gate.state k) →
      P (s.move who r (.asking s.gate.epoch, g'))) :
    P (s.move who r (g.takeTurn r)) := by
  rcases g.takeTurn_cases r with ⟨rules, hrules, hdone, hepoch, hstate⟩ | ⟨hasking, hepoch, hstate⟩
  · rw [← Prod.eta (g.takeTurn r), hdone]
    refine hknown rules _ ?_ ⟨hepoch.trans hsame.1, fun k => by rw [hstate, hsame.2]⟩
    simpa [Gate.settled?, hsame.2] using hrules
  · rw [← Prod.eta (g.takeTurn r), hasking, hsame.1]
    exact hasks _ (hepoch.trans hsame.1) fun k => by rw [hstate, hsame.2]

end LintDesk
