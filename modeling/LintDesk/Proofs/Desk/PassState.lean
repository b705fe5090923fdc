import LintDesk.Desk.Run
import Mathlib.Data.List.Basic

/-! # What passes depend on

The pass state of a desk is what passes depend on: schedules, generations, tasks, what was told and
what is open. Most of the work of a task leaves it alone. `act_spec` says once what an action can do
to it; everything about passes is derived from that.
-/

namespace LintDesk

/-- The part of a desk that decides about passes. -/
structure PassState where
  schedules : List (Url × Schedule)
  generation : Nat
  enabled : Bool
  events : List Event
  history : List Mark
  visible : List Document
  settings : SettingsLayers
  tasks : List (Nat × List Action)
  nextTask : Nat

namespace Desk

def passState (d : Desk) : PassState where
  schedules := d.schedules
  generation := d.generation
  enabled := d.enabled
  events := d.events
  history := d.history
  visible := d.visible
  settings := d.settings
  tasks := d.tasks
  nextTask := d.nextTask

/-! ### Who runs next -/

section Running

variable {α : Type*} (field : Desk → α)

/-- Waking a task changes nothing but who is ready. -/
theorem field_wake
    (hfield : ∀ (d : Desk) ready hostReady, field { d with ready, hostReady } = field d) (d : Desk)
    (task : Nat) : field (d.wake task) = field d := by
  unfold wake
  split
  · exact hfield d d.ready true
  · split
    · rfl
    · exact hfield d _ d.hostReady

theorem field_foldl_wake
    (hfield : ∀ (d : Desk) ready hostReady, field { d with ready, hostReady } = field d)
    (tasks : List Nat) (d : Desk) : field (tasks.foldl wake d) = field d := by
  induction tasks generalizing d with
  | nil => rfl
  | cons task tasks ih => exact (ih (d.wake task)).trans (field_wake field hfield d task)

theorem field_runNext
    (hfield : ∀ (d : Desk) ready running turns, field { d with ready, running, turns } = field d)
    {d next : Desk} (h : d.runNext = some next) : field next = field d := by
  unfold runNext at h
  split at h
  · cases h
    exact hfield d _ _ _
  · cases h

theorem field_tick
    (hfield : ∀ (d : Desk) ready hostReady clock timers,
      field { d with ready, hostReady, clock, timers } = field d)
    {d next : Desk} (h : d.tick = some next) : field next = field d := by
  unfold tick at h
  split at h
  · cases h
  · obtain rfl := Option.some.inj h
    exact (field_foldl_wake field (fun d ready hostReady => hfield d ready hostReady _ _) _ _).trans
      (hfield d d.ready d.hostReady _ _)

end Running

/-! ### What leaves the pass state alone -/

@[simp] theorem passState_wake (d : Desk) (task : Nat) : (d.wake task).passState = d.passState :=
  field_wake passState (fun _ _ _ => rfl) d task

@[simp] theorem passState_foldl_wake (tasks : List Nat) (d : Desk) :
    (tasks.foldl wake d).passState = d.passState :=
  field_foldl_wake passState (fun _ _ _ => rfl) tasks d

@[simp] theorem passState_after (d : Desk) (task milliseconds : Nat) (next : List Action) :
    (d.after task milliseconds next).desk.passState = d.passState := by
  unfold after
  split <;> rfl

@[simp] theorem next_after (d : Desk) (task milliseconds : Nat) (next : List Action) :
    (d.after task milliseconds next).next = next := by
  unfold after
  split <;> rfl

@[simp] theorem passState_putGate (d : Desk) (task : Nat) (g : Gate) :
    (d.putGate task g).passState = d.passState := by
  unfold putGate
  dsimp only
  split
  · split
    · rw [passState_wake]
      rfl
    · rfl
  · rfl

@[simp] theorem passState_forgetAll (d : Desk) : d.forgetAll.passState = d.passState := rfl

theorem passState_runMode (d : Desk) (uri : Url) : (d.runMode uri).2.passState = d.passState := by
  unfold runMode
  split <;> rfl

theorem passState_runNext {d next : Desk} (h : d.runNext = some next) :
    next.passState = d.passState :=
  field_runNext passState (fun _ _ _ _ => rfl) h

theorem passState_tick {d next : Desk} (h : d.tick = some next) : next.passState = d.passState :=
  field_tick passState (fun _ _ _ _ _ => rfl) h

/-- Ending a task drops it and does nothing else to the pass state. -/
theorem passState_finishTask (d : Desk) (task : Nat) :
    (d.finishTask task).passState = (d.abort task).passState := by
  unfold finishTask wakeAwaiting
  dsimp only
  rw [passState_foldl_wake]
  rfl

end Desk

/-! ### Who work is done for -/

/-- The collection that custom rules are loaded for. -/
def RuleClient.collection? : RuleClient → Option Collection
  | .direct => none
  | .collection c _ _ => some c

/-- Who a call to the file layer is made for: a collection, or a request for rules. -/
def FileWork.client? : FileWork → Option (Option Collection)
  | .lookup c _ => some (some c)
  | .rules client _ _ => some client.collection?
  | .ignoreFile _ _ _ => none

/-- The pass that a collection is made for, as its snapshot and its generation. -/
def Collection.pass? (c : Collection) : Option (Document × Nat) :=
  match c.purpose with
  | .publish generation => some (c.document, generation)
  | _ => none

namespace Action

/-- Who an action goes on for, if it is part of collecting violations or rules. -/
def client? : Action → Option (Option Collection)
  | .ask w => w.client?
  | .take w => w.client?
  | .request client _ => some client.collection?
  | .takeTurn client _ => some client.collection?
  | .answer client _ _ => some client.collection?
  | .collectResult c _ _ => some (some c)
  | _ => none

/-- The pass that an action goes on with. -/
def pass? : Action → Option (Document × Nat)
  | .collect document (.publish generation) => some (document, generation)
  | a => a.client?.join.bind Collection.pass?

/-- The snapshot that an action begins a pass with. -/
def snapshot? : Action → Option Document
  | .lint document => some document
  | .pass document => some document
  | .save document => some document
  | _ => none

/-- The snapshot that an action keeps for later. -/
def delayed? : Action → Option Document
  | .holdBack document => some document
  | .fire document => some document
  | _ => none

/-- Work that serves passes from outside, or has nothing to do with them. -/
def isAside : Action → Bool
  | .evaluate _ => true
  | .conclude _ _ => true
  | .ask (.ignoreFile _ _ _) => true
  | .take (.ignoreFile _ _ _) => true
  | .sleep _ => true
  | .await _ => true
  | _ => false

/-- An action that can clear all diagnostics to collect them anew. -/
def canRefresh : Action → Bool
  | .refresh => true
  | .startOver => true
  | .setEnabled _ => true
  | .toggle => true
  | .take (.ignoreFile _ _ _) => true
  | _ => false

/-- Whether an action is part of collecting violations or rules. -/
def collects : Action → Bool
  | .collect _ _ => true
  | a => a.client?.isSome

end Action

namespace Desk

/-! ### Helpers -/

/-- Helpers were started, and nothing else happened to the pass state. -/
inductive StartsHelpers : Desk → Desk → Prop where
  | same {d d' : Desk} (h : d'.passState = d.passState) : StartsHelpers d d'
  | spawn {d d₁ d' : Desk} (h : StartsHelpers d d₁) (a : Action) (ha : a.isAside = true)
      (h' : d'.passState = (d₁.spawn [a]).2.passState) : StartsHelpers d d'

theorem StartsHelpers.trans {d d₁ d₂ : Desk} (h : StartsHelpers d d₁) (h' : StartsHelpers d₁ d₂) :
    StartsHelpers d d₂ := by
  induction h' with
  | same hsame =>
      cases h with
      | same hsame' => exact .same (hsame.trans hsame')
      | spawn hprev a ha hspawn => exact .spawn hprev a ha (hsame.trans hspawn)
  | spawn _ a ha hspawn ih => exact .spawn ih a ha hspawn

/-! ### Collecting -/

/-- Going on for someone: the work continues with one action, or it is over and a pass publishes its
violations. -/
inductive CollectSpec : Option Collection → Desk → Effect → Prop where
  | goesOn {o : Option Collection} {d : Desk} {e : Effect} {a : Action}
      (hd : StartsHelpers d e.desk) (hn : e.next = [a]) (ha : a.client? = some o) :
      CollectSpec o d e
  | ends {o : Option Collection} {d : Desk} {e : Effect} (ho : o.bind Collection.pass? = none)
      (hd : StartsHelpers d e.desk) (hn : e.next = []) : CollectSpec o d e
  | publishes {c : Collection} {d d₁ : Desk} {e : Effect} {generation : Nat}
      (violations : List Violation) (hc : c.pass? = some (c.document, generation))
      (hd : StartsHelpers d d₁) (hn : e.next = [])
      (he : e.desk.passState = (d₁.publish c generation violations).passState) :
      CollectSpec (some c) d e

theorem CollectSpec.of_startsHelpers {o : Option Collection} {d d₁ : Desk} {e : Effect}
    (h : StartsHelpers d d₁) (hs : CollectSpec o d₁ e) : CollectSpec o d e := by
  cases hs with
  | goesOn hd hn ha => exact .goesOn (h.trans hd) hn ha
  | ends ho hd hn => exact .ends ho (h.trans hd) hn
  | publishes violations hc hd hn he => exact .publishes violations hc (h.trans hd) hn he

theorem CollectSpec.of_passState {o : Option Collection} {d d₁ : Desk} {e : Effect}
    (h : d₁.passState = d.passState) (hs : CollectSpec o d₁ e) : CollectSpec o d e :=
  hs.of_startsHelpers (.same h)

theorem useViolations_collectSpec (d : Desk) (task : Nat) (c : Collection)
    (violations : List Violation) :
    CollectSpec (some c) d { desk := d.useViolations task c violations } := by
  unfold useViolations
  cases hpurpose : c.purpose with
  | publish generation =>
      exact .publishes violations (by simp [Collection.pass?, hpurpose]) (.same rfl) rfl rfl
  | report => exact .ends (by simp [Collection.pass?, hpurpose]) (.same rfl) rfl
  | fix choice => exact .ends (by simp [Collection.pass?, hpurpose]) (.same rfl) rfl

theorem invoke_collectSpec (d : Desk) (task : Nat) (c : Collection) (config : RuleConfig)
    (ignores : IgnoreSet) (rules : List CustomRule) :
    CollectSpec (some c) d (d.invoke task c config ignores rules) := by
  unfold invoke
  split
  · exact useViolations_collectSpec d task _ []
  · exact .goesOn (.spawn (.same rfl) (.evaluate _) rfl rfl) rfl rfl

theorem takeResult_collectSpec (d : Desk) (task : Nat) (c : Collection) (name : String)
    (engineTask : Nat) : CollectSpec (some c) d (d.takeResult task c name engineTask) := by
  unfold takeResult
  split
  · dsimp only
    refine CollectSpec.of_passState ?_ (useViolations_collectSpec _ task c _)
    rfl
  · exact .goesOn (.same rfl) rfl rfl

theorem useRules_collectSpec (d : Desk) (task : Nat) (rules : List CustomRule)
    (client : RuleClient) : CollectSpec client.collection? d (d.useRules task rules client) := by
  cases client with
  | direct => exact .ends rfl (.same rfl) rfl
  | collection c config ignores => exact invoke_collectSpec d task c config ignores rules

theorem followPassage_collectSpec (d : Desk) (task : Nat) (client : RuleClient) (r : RuleRequest)
    (p : Passage) : CollectSpec client.collection? d (d.followPassage task client r p) := by
  cases p with
  | queued => exact .goesOn (.same rfl) rfl rfl
  | asking epoch => exact .goesOn (.same (passState_after _ _ _ _)) (next_after _ _ _ _) rfl
  | loading epoch holds left rules => exact .goesOn (.same rfl) rfl rfl
  | done rules => exact useRules_collectSpec d task rules client

/-- Going through the gate and on with a request for rules. -/
theorem putGate_followPassage_collectSpec (d : Desk) (task : Nat) (g : Gate) (client : RuleClient)
    (r : RuleRequest) (p : Passage) :
    CollectSpec client.collection? d ((d.putGate task g).followPassage task client r p) :=
  (followPassage_collectSpec _ task client r p).of_passState (passState_putGate d task g)

theorem requestRules_collectSpec (d : Desk) (task : Nat) (client : RuleClient) (r : RuleRequest) :
    CollectSpec client.collection? d (d.requestRules task client r) :=
  putGate_followPassage_collectSpec d task _ client r _

theorem takeAnswer_collectSpec (d : Desk) (task : Nat) (client : RuleClient) (r : RuleRequest)
    (epoch : Nat) : CollectSpec client.collection? d (d.takeAnswer task client r epoch) := by
  unfold takeAnswer
  dsimp only
  refine (putGate_followPassage_collectSpec _ task _ client r _).of_passState ?_
  split
  · split <;> rfl
  · rfl

theorem ignoreSet_startsHelpers (d : Desk) (c : Collection) :
    StartsHelpers d (d.ignoreSet c).2 := by
  unfold ignoreSet
  dsimp only
  split
  · exact .same rfl
  · split
    · split
      · exact .spawn (.same rfl) (.ask (.ignoreFile _ _ _)) rfl rfl
      · exact .same rfl
    · exact .same rfl

theorem followLookup_collectSpec (d : Desk) (task : Nat) (c : Collection) (l : Lookup) :
    CollectSpec (some c) d (d.followLookup task c l) := by
  unfold followLookup
  split
  · next entry =>
      exact (requestRules_collectSpec (d.ignoreSet c).2 task
        (.collection c entry.config (d.ignoreSet c).1) c.ruleRequest).of_startsHelpers
        (ignoreSet_startsHelpers d c)
  · exact .goesOn (.same rfl) rfl rfl

theorem startCollection_collectSpec (d : Desk) (task : Nat) (c : Collection) :
    CollectSpec (some c) d (d.startCollection task c) := by
  unfold startCollection
  dsimp only
  refine CollectSpec.of_passState ?_ (followLookup_collectSpec _ task c _)
  rfl

theorem collect_collectSpec (d : Desk) (task : Nat) (document : Document) (purpose : Purpose) :
    CollectSpec (some (d.collectionOf document purpose)) d (d.collect task document purpose) := by
  unfold collect
  dsimp only
  split
  · exact startCollection_collectSpec d task _
  · exact useViolations_collectSpec d task _ []

theorem makeCall_passState (d : Desk) (task : Nat) (w : FileWork) :
    (d.makeCall task w).desk.passState = d.passState ∧ (d.makeCall task w).next = [.take w] := by
  unfold makeCall
  split
  · exact ⟨passState_after _ _ _ _, next_after _ _ _ _⟩
  · exact ⟨rfl, rfl⟩

theorem makeCall_collectSpec (d : Desk) (task : Nat) {w : FileWork} {o : Option Collection}
    (hw : w.client? = some o) : CollectSpec o d (d.makeCall task w) :=
  .goesOn (.same (makeCall_passState d task w).1) (makeCall_passState d task w).2 hw

theorem takeCall_collectSpec (d : Desk) (task : Nat) {w : FileWork} {o : Option Collection}
    (hw : w.client? = some o) : CollectSpec o d (d.takeCall task w) := by
  cases w with
  | lookup c l =>
      cases hw
      refine CollectSpec.of_passState ?_ (followLookup_collectSpec _ task c _)
      rfl
  | rules client r p =>
      cases hw
      refine CollectSpec.of_passState ?_ (putGate_followPassage_collectSpec _ task _ client r _)
      rfl
  | ignoreFile key epoch path => cases hw

end Desk

end LintDesk
