import LintDesk.Engine.Lint
import LintDesk.Proofs.Desk.IgnoreReads
import LintDesk.Proofs.Desk.Linting
import LintDesk.Proofs.Desk.KeptTasks

/-! # One collection among others

The violations of a document are collected by a task of its own, while other tasks go on in between.
On a desk that only lints, and whose ignore file has been read, the task comes to what the
configuration that a lookup finds alone, the ignore file and the rules built in say; and whatever
else has been done, it can be brought to its end.
-/

namespace LintDesk

/-- What the rules built in are asked about a document. -/
def Document.request (document : Document) (config : RuleConfig) : LintRequest where
  name := document.name
  text := document.text
  config := config
  rules := []

/-- The violations of a document that the rules built in find, if it is not ignored. -/
def Document.violationsWith (document : Document) (config : RuleConfig) (ignores : IgnoreSet)
    (relative : String) : List Violation :=
  (Engine.builtin.lint ((document.request config).unlessIgnored ignores relative) {}).1

theorem EngineResult.violations_fst (result : EngineResult) (name : String) (log log' : Journal) :
    (result.violations name log).1 = (result.violations name log').1 := by
  cases result <;> rfl

theorem Engine.lint_fst (e : Engine) (request : Option LintRequest) (log log' : Journal) :
    (e.lint request log).1 = (e.lint request log').1 := by
  cases request with
  | none => rfl
  | some r => exact EngineResult.violations_fst _ _ log log'

namespace Desk

/-! ### Desks in order -/

/-- A desk that only lints, with its tasks in order. -/
structure InOrder (tree : Disk) (home : Option Path) (w : Workspace) (s : Settings) (d : Desk) :
    Prop where
  lints : d.Lints tree home w s
  sound : d.Sound
  schedulesDistinct : d.SchedulesDistinct
  reservedReads : d.ReservedReads (fun _ _ _ => True) (fun _ _ _ _ => True)
  left : ∀ {task o}, d.outcome? task = some o → task < d.nextTask

variable {tree : Disk} {home : Option Path} {w : Workspace} {s : Settings} {d d' : Desk}

theorem Sound.nextTask_le (h : d.Sound) (task : Nat) : d.nextTask ≤ (d.advance task).nextTask := by
  rcases advance_cases d task with hb | ⟨-, hb⟩ | ⟨a, rest, e, hagenda, hspec, hb⟩
  · exact Nat.le_of_eq (congrArg PassState.nextTask hb).symm
  · exact Nat.le_of_eq (congrArg PassState.nextTask hb).symm
  · have hpassChanges := hspec.passChanges (h.timersMatch.begun ⟨_, hagenda, List.mem_cons_self⟩)
    exact Nat.le_trans hpassChanges.extends.nextTask
      (Nat.le_of_eq (congrArg PassState.nextTask hb).symm)

theorem nextTask_le_event (d : Desk) (e : HostEvent) : d.nextTask ≤ (e.apply d).nextTask := by
  by_cases hwaits : ∃ calls, e = .waits calls
  · obtain ⟨calls, rfl⟩ := hwaits
    exact Nat.le_refl _
  · exact (HostEvent.hostChanges d fun calls heq => hwaits ⟨calls, heq⟩).extends.nextTask

theorem InOrder.advance (hs : s.IsBare) (h : d.InOrder tree home w s) (task : Nat) :
    (d.advance task).InOrder tree home w s := by
  obtain ⟨hlints, houtcomes, -⟩ := h.lints.advance hs task
  refine ⟨hlints, h.sound.advance task, h.schedulesDistinct.advance h.sound task, ?_,
    fun {other o} ho => ?_⟩
  · exact h.reservedReads.advance task (fun _ _ _ _ => trivial) (fun _ _ _ _ _ => trivial)
      (fun _ _ => trivial) fun _ _ _ _ => trivial
  · refine Nat.lt_of_lt_of_le ?_ (h.sound.nextTask_le task)
    by_cases hother : other = task
    · subst hother
      cases hagenda : d.agenda? other with
      | some agenda => exact h.sound.timersMatch.task_lt hagenda
      | none =>
          have hsame : (d.advance other).outcomes = d.outcomes := by rw [advance_of_gone hagenda]
          exact h.left ((congrArg (List.lookup other) hsame).symm.trans ho)
    · exact h.left ((houtcomes other hother).symm.trans ho)

theorem InOrder.move (hs : s.IsBare) (h : d.InOrder tree home w s) {worker : Option Nat}
    (hm : LintMove worker d d') :
    d'.InOrder tree home w s := by
  have hlints := (h.lints.move hs hm).1
  cases hm with
  | works task => exact h.advance hs task
  | hosts event hplain =>
      have hsameInputs : SameInputs host d (event.apply d) := sameInputs_event d hplain
      refine ⟨hlints, h.sound.event event, h.schedulesDistinct.event event,
        h.reservedReads.ignoreChanges (event_ignoreChanges d event), fun {other o} ho => ?_⟩
      refine Nat.lt_of_lt_of_le ?_ (nextTask_le_event d event)
      by_cases hother : other = host
      · exact hother ▸ h.sound.timersMatch.nextTask_pos
      · exact h.left ((hsameInputs.outcomes other hother).symm.trans ho)
  | drifts hpassState hinputs hignores houtcomes =>
      refine ⟨hlints, h.sound.of_passState hpassState, ?_,
        h.reservedReads.keepsIgnores (.of_passState hpassState hignores),
        fun {other o} ho => ?_⟩
      · exact (congrArg (fun b : PassState => (b.schedules.map Prod.fst).Nodup) hpassState).mpr
          h.schedulesDistinct
      · rw [show d'.nextTask = d.nextTask from congrArg PassState.nextTask hpassState]
        by_cases hother : other = host
        · exact hother ▸ h.sound.timersMatch.nextTask_pos
        · exact h.left ((houtcomes other hother).symm.trans ho)

/-- What has been read stays read. -/
theorem InOrder.hasRead (hs : s.IsBare) (h : d.InOrder tree home w s) {key : IgnoreKey}
    {set : IgnoreSet} (hread : d.HasRead key set) {worker : Option Nat}
    (hm : LintMove worker d d') : d'.HasRead key set := by
  have hepoch := (h.lints.move hs hm).2
  cases hm with
  | works task => exact hread.advance h.reservedReads task hepoch
  | hosts event _ => exact hread.ignoreChanges (event_ignoreChanges d event) hepoch
  | drifts hpassState _ hignores _ => exact hread.keepsIgnores (.of_passState hpassState hignores)

/-- A task that delays nothing goes on delaying nothing, and moves of others leave alone its agenda
and what it left behind. -/
theorem InOrder.delaysNothing (hs : s.IsBare) (h : d.InOrder tree home w s) {task : Nat}
    (hdelays : d.DelaysNothing task) (htask : task ≠ host) {worker : Option Nat}
    (hm : LintMove worker d d') :
    d'.DelaysNothing task ∧ (worker ≠ some task → d'.agenda? task = d.agenda? task ∧
      d'.outcome? task = d.outcome? task) := by
  cases hm with
  | works worker =>
      obtain ⟨hdelays', hagenda⟩ := hdelays.advance h.schedulesDistinct h.sound worker
      refine ⟨hdelays', fun hother => ?_⟩
      have hne : worker ≠ task := fun heq => hother (congrArg some heq)
      exact ⟨hagenda hne, (h.lints.advance hs worker).2.1 task hne.symm⟩
  | hosts event hplain =>
      have hsameInputs : SameInputs host d (event.apply d) := sameInputs_event d hplain
      obtain ⟨hdelays', hagenda⟩ := hdelays.event h.schedulesDistinct htask event
      exact ⟨hdelays', fun _ => ⟨hagenda, hsameInputs.outcomes task htask⟩⟩
  | drifts hpassState _ _ houtcomes =>
      exact ⟨hdelays.of_passState hpassState, fun _ =>
        ⟨agenda?_congr hpassState task, houtcomes task htask⟩⟩

theorem InOrder.run (hs : s.IsBare) (h : d.InOrder tree home w s) (hrun : LintRun d d') :
    d'.InOrder tree home w s := by
  induction hrun with
  | refl => exact h
  | tail _ hmove ih =>
      obtain ⟨worker, hm⟩ := hmove
      exact ih.move hs hm

theorem InOrder.run_hasRead (hs : s.IsBare) (h : d.InOrder tree home w s) {key : IgnoreKey}
    {set : IgnoreSet} (hread : d.HasRead key set) (hrun : LintRun d d') :
    d'.HasRead key set := by
  induction hrun with
  | refl => exact hread
  | tail hprev hmove ih =>
      obtain ⟨worker, hm⟩ := hmove
      exact (h.run hs hprev).hasRead hs ih hm

theorem works_lintRun (tasks : List Nat) (d : Desk) : LintRun d (d.works tasks) := by
  induction tasks generalizing d with
  | nil => exact .refl
  | cons task tasks ih => exact .head ⟨some task, .works task⟩ (ih _)

/-- A task that has nothing more to do. -/
def Ended (task : Nat) (d : Desk) : Prop :=
  ∀ agenda, d.agenda? task = some agenda → agenda = []

theorem Ended.advance {task : Nat} (h : d.Ended task) :
    (d.advance task).Ended task ∧ (d.advance task).outcome? task = d.outcome? task := by
  match hagenda : d.agenda? task with
  | none =>
      rw [advance_of_gone hagenda]
      exact ⟨h, rfl⟩
  | some (a :: rest) => cases h _ hagenda
  | some [] =>
      rw [advance_of_done hagenda]
      have hsameInputs : SameInputs (task + 1) d (d.finishTask task) := sameInputs_finishTask d task
      refine ⟨fun agenda hsome => ?_, hsameInputs.outcomes task (Nat.succ_ne_self task).symm⟩
      rw [agenda?_congr (passState_finishTask d task), agenda?_abort, if_pos rfl] at hsome
      cases hsome

theorem outcome?_leave (d : Desk) (task : Nat) (o : Outcome) :
    (d.leave task o).outcome? task = some o := by
  simp [outcome?, leave]

/-- What a task left behind when it did its next action. -/
theorem outcome?_advance {task : Nat} {a : Action} {rest : List Action}
    (h : d.agenda? task = some (a :: rest)) (other : Nat) :
    (d.advance task).outcome? other = (d.act task a).desk.outcome? other := by
  obtain ⟨running, heq⟩ := advance_eq h
  rw [heq]
  rfl

/-- A task whose last action leaves something behind has ended. -/
theorem InOrder.leaves (h : d.InOrder tree home w s) {task : Nat} (hdelays : d.DelaysNothing task)
    {a : Action} (hagenda : d.agenda? task = some [a]) {d₁ : Desk} {o : Outcome}
    (hact : d.act task a = { desk := d₁.leave task o }) :
    (d.advance task).Ended task ∧ (d.advance task).outcome? task = some o := by
  refine ⟨fun agenda hsome => ?_, ?_⟩
  · rw [hdelays.advance_self h.schedulesDistinct h.sound hagenda, hact] at hsome
    exact (Option.some.inj hsome).symm
  · rw [outcome?_advance hagenda, hact]
    exact outcome?_leave d₁ task o

/-! ### The engine -/

/-- A task lets the rules built in work on a request, and is done after so many actions. -/
inductive EngineStage (request : LintRequest) (task : Nat) : Nat → Desk → Prop
  | asked {d : Desk} (hagenda : d.agenda? task = some [.evaluate request])
      (houtcome : d.outcome? task = none) : EngineStage request task 2 d
  | working {d : Desk} (hagenda : d.agenda? task = some [.conclude request .builtin])
      (houtcome : d.outcome? task = none) : EngineStage request task 1 d
  | done {d : Desk} (hended : d.Ended task)
      (houtcome : d.outcome? task = some (.engine (Engine.builtin.evaluate request))) :
      EngineStage request task 0 d

theorem EngineStage.congr {request : LintRequest} {task left : Nat}
    (h : EngineStage request task left d) (hagenda : d'.agenda? task = d.agenda? task)
    (houtcome : d'.outcome? task = d.outcome? task) : EngineStage request task left d' := by
  cases h with
  | asked ha ho => exact .asked (hagenda.trans ha) (houtcome.trans ho)
  | working ha ho => exact .working (hagenda.trans ha) (houtcome.trans ho)
  | done hended ho => exact .done (fun agenda h => hended agenda (hagenda ▸ h)) (houtcome.trans ho)

theorem outcomes_after (d : Desk) (task milliseconds : Nat) (next : List Action) :
    (d.after task milliseconds next).desk.outcomes = d.outcomes := by
  unfold after
  split <;> rfl

theorem EngineStage.advance {request : LintRequest} {task left : Nat}
    (h : EngineStage request task left d) (hd : d.InOrder tree home w s)
    (hdelays : d.DelaysNothing task) : EngineStage request task (left - 1) (d.advance task) := by
  cases h with
  | asked hagenda houtcome =>
      refine .working ?_ ?_
      · rw [hdelays.advance_self hd.schedulesDistinct hd.sound hagenda, Desk.act, next_after,
          hd.lints.engine]
        rfl
      · have hsame : (d.act task (.evaluate request)).desk.outcomes = d.outcomes :=
          outcomes_after _ _ _ _
        rw [outcome?_advance hagenda, outcome?, hsame]
        exact houtcome
  | working hagenda _ =>
      obtain ⟨hended, houtcome⟩ := hd.leaves hdelays hagenda rfl
      exact .done hended houtcome
  | done hended houtcome =>
      obtain ⟨hended', hsame⟩ := hended.advance
      exact .done hended' (hsame.trans houtcome)

/-! ### The collection -/

/-- The collection that is made to report the violations of a document. -/
def reportOf (w : Workspace) (s : Settings) (document : Document) : Collection where
  document := document
  settings := s
  workspace := w
  purpose := .report

/-- What a lookup that goes alone comes to with so many calls, or more. -/
def Reached (tree : Disk) (home : Option Path) (q : Query) (calls : Nat) (l : Lookup) : Prop :=
  Lookup.Leads tree.layer home q calls (Lookup.start q tree.layer { home }).1 l

/-- A task waits for the engine, which a task of its own has asked. -/
structure AwaitsEngine (c : Collection) (request : LintRequest) (task engineTask left : Nat)
    (d : Desk) : Prop where
  agenda : d.agenda? task = some [.collectResult c request.name engineTask]
  outcome : d.outcome? task = none
  ne_task : engineTask ≠ task
  ne_host : engineTask ≠ host
  delays : d.DelaysNothing engineTask
  engineStage : EngineStage request engineTask left d

section CollectStage

variable (tree : Disk) (home : Option Path) (w : Workspace) (s : Settings) (document : Document)
  (config : RuleConfig) (set : IgnoreSet)

/-- How far a task has got that collects the violations of a document. Before the engine is asked
it has done at most as many actions as its lookup accounts for. -/
inductive CollectStage (task actions : Nat) (d : Desk) : Prop
  | begins (hagenda : d.agenda? task = some [.collect document .report]) (hactions : actions = 0)
      (houtcome : d.outcome? task = none)
  | looks {a : Action} {l : Lookup} {calls : Nat} (hagenda : d.agenda? task = some [a])
      (ha : a = .ask (.lookup (reportOf w s document) l) ∧ actions ≤ 2 * calls + 1 ∨
        a = .take (.lookup (reportOf w s document) l) ∧ actions ≤ 2 * calls + 2)
      (hreached : Reached tree home (reportOf w s document).query calls l)
      (houtcome : d.outcome? task = none)
  | waits {engineTask left : Nat} (hkept : set.ignores (w.relativePath document) = false)
      (h : AwaitsEngine (reportOf w s document) (document.request config) task engineTask left d)
  | ends (hended : d.Ended task) (houtcome : d.outcome? task =
        some (.violations (document.violationsWith config set (w.relativePath document))))

variable {tree home w s document config set} {task engineTask actions left : Nat} {c : Collection}
  {request : LintRequest}

theorem AwaitsEngine.others (hs : s.IsBare) (hd : d.InOrder tree home w s)
    (hdelays : d.DelaysNothing task) (htask : task ≠ host)
    (h : AwaitsEngine c request task engineTask left d) {worker : Option Nat}
    (hm : LintMove worker d d') (hother : worker ≠ some task) :
    AwaitsEngine c request task engineTask
      (if worker = some engineTask then left - 1 else left) d' := by
  obtain ⟨hagenda, houtcome⟩ := (hd.delaysNothing hs hdelays htask hm).2 hother
  obtain ⟨hdelaysE, hsame⟩ := hd.delaysNothing hs h.delays h.ne_host hm
  refine ⟨hagenda.trans h.agenda, houtcome.trans h.outcome, h.ne_task, h.ne_host, hdelaysE, ?_⟩
  split
  · next hworker =>
      subst hworker
      cases hm with
      | works => exact h.engineStage.advance hd h.delays
  · next hworker =>
      obtain ⟨hagendaE, houtcomeE⟩ := hsame hworker
      exact h.engineStage.congr hagendaE houtcomeE

/-- What others do leaves a collection where it is. -/
theorem CollectStage.others (hs : s.IsBare) (hd : d.InOrder tree home w s)
    (hdelays : d.DelaysNothing task) (htask : task ≠ host)
    (h : CollectStage tree home w s document config set task actions d) {worker : Option Nat}
    (hm : LintMove worker d d') (hother : worker ≠ some task) :
    CollectStage tree home w s document config set task actions d' := by
  obtain ⟨hagenda, houtcome⟩ := (hd.delaysNothing hs hdelays htask hm).2 hother
  cases h with
  | begins ha hactions ho => exact .begins (hagenda.trans ha) hactions (houtcome.trans ho)
  | looks ha haction hreached ho =>
      exact .looks (hagenda.trans ha) haction hreached (houtcome.trans ho)
  | waits hkept hwaits => exact .waits hkept (hwaits.others hs hd hdelays htask hm hother)
  | ends hended ho => exact .ends (fun agenda h => hended agenda (hagenda ▸ h)) (houtcome.trans ho)

/-- Up to the engine nothing is left behind, and tasks stay in order. -/
theorem InOrder.beforeEngine (hd : d.InOrder tree home w s) (task : Nat) (c : Collection)
    (result : Lookup × Resolver) (g : Gate) :
    let d₁ := ((d.afterLookup result).ignoreSet c).2.putGate task g
    d₁.Sound ∧ d.nextTask ≤ d₁.nextTask ∧ ∀ other, d₁.outcome? other = d.outcome? other := by
  intro d₁
  have hlookup : StartsHelpers d (d.afterLookup result) := .same rfl
  have hstarts : StartsHelpers d d₁ :=
    (hlookup.trans (ignoreSet_startsHelpers _ c)).trans (.same (passState_putGate _ task g))
  have hpassChanges : PassChanges (fun _ => False) d d₁ := hstarts.passChanges
  refine ⟨hd.sound.passChanges hpassChanges, hpassChanges.extends.nextTask, fun other => ?_⟩
  have hsameInputs : SameInputs (other + 1) (d.afterLookup result)
      ((d.afterLookup result).ignoreSet c).2 :=
    sameInputs_ignoreSet _ c
  obtain ⟨ready, hostReady, hput⟩ := putGate_eq ((d.afterLookup result).ignoreSet c).2 task g
  have hgate : d₁.outcome? other = ((d.afterLookup result).ignoreSet c).2.outcome? other := by
    rw [show d₁ = _ from hput]
    rfl
  exact hgate.trans (hsameInputs.outcomes other (Nat.succ_ne_self other).symm)

/-- A task that asks the engine waits for it. -/
theorem InOrder.waits (hd : d.InOrder tree home w s) (hdelays : d.DelaysNothing task) {a : Action}
    (hagenda : d.agenda? task = some [a]) (houtcome : d.outcome? task = none) {d₁ : Desk}
    (hsound : d₁.Sound) (hnext : d.nextTask ≤ d₁.nextTask)
    (houtcomes : ∀ other, d₁.outcome? other = d.outcome? other)
    (hact : d.act task a = { desk := (d₁.spawn [.evaluate request]).2
                             next := [.collectResult c request.name d₁.nextTask] }) :
    AwaitsEngine c request task d₁.nextTask 2 (d.advance task) := by
  have hne : d₁.nextTask ≠ task := by
    have := hdelays.lt
    omega
  have hnone : d.outcome? d₁.nextTask = none := by
    rw [Option.eq_none_iff_forall_ne_some]
    intro o ho
    have := hd.left ho
    omega
  have hleft : ∀ other, (d.advance task).outcome? other = d.outcome? other := by
    intro other
    rw [outcome?_advance hagenda, hact]
    exact houtcomes other
  have hagenda' := hdelays.advance_self hd.schedulesDistinct hd.sound hagenda
  rw [hact] at hagenda'
  obtain ⟨running, hadvance⟩ := advance_eq hagenda
  rw [hact] at hadvance
  refine ⟨hagenda', (hleft task).trans houtcome, hne, Nat.ne_of_gt hsound.timersMatch.nextTask_pos,
    ⟨?_, fun uri hpending => ?_⟩, .asked ?_ ((hleft _).trans hnone)⟩
  · rw [hadvance]
    exact Nat.lt_succ_self _
  · rw [hadvance] at hpending
    exact Nat.lt_irrefl _ (hsound.timersMatch.pending_lt hpending).2
  · rw [hadvance]
    refine (agenda?_setAgenda _ task _ d₁.nextTask).trans ?_
    rw [if_neg hne, agenda?_spawn, hsound.timersMatch.agenda?_nextTask, if_pos rfl]
    rfl

/-- A lookup goes on, and if it is done the engine is asked or the document is ignored. -/
theorem InOrder.follow (hs : s.IsBare) (hd : d.InOrder tree home w s)
    (hdelays : d.DelaysNothing task)
    (hread : d.HasRead (reportOf w s document).ignoreKey set) {a : Action}
    (hagenda : d.agenda? task = some [a]) (houtcome : d.outcome? task = none) {l : Lookup}
    {result : Lookup × Resolver} (hcomes : Lookup.Comes tree.layer home .unset
      (reportOf w s document).query d.resolver.cache l result)
    (hact : d.act task a =
      (d.afterLookup result).followLookup task (reportOf w s document) result.1) {calls : Nat}
    (hreached : Reached tree home (reportOf w s document).query calls result.1)
    (hconfig : ∀ e, result.1 = .done e → e.config = config) (hactions : actions ≤ 2 * calls + 1) :
    CollectStage tree home w s document config set task actions (d.advance task) := by
  by_cases hdone : ∃ e, result.1 = .done e
  · obtain ⟨e, he⟩ := hdone
    obtain ⟨g, -, hfollow⟩ := (hd.lints.afterLookup hcomes).followLookup_done hs task
      (c := reportOf w s document) rfl e
    obtain ⟨hsound, hnext, houtcomes⟩ := hd.beforeEngine task (reportOf w s document) result g
    have hkeeps : KeepsIgnores d (d.afterLookup result) := .of_tasks rfl rfl
    have hset : ((d.afterLookup result).ignoreSet (reportOf w s document)).1 = set :=
      (hread.keepsIgnores hkeeps).ignoreSet
    rw [he, hfollow, hset, hconfig e he] at hact
    cases hignored : set.ignores (w.relativePath document) with
    | true =>
        obtain ⟨hended, hnone⟩ := hd.leaves hdelays hagenda (hact.trans (if_pos hignored))
        refine .ends hended (hnone.trans ?_)
        rw [Document.violationsWith, LintRequest.unlessIgnored, if_pos hignored]
        rfl
    | false =>
        have hkept : ¬set.ignores ((reportOf w s document).workspace.relativePath
            (reportOf w s document).document) = true := by
          simp [reportOf, hignored]
        exact .waits hignored (hd.waits hdelays hagenda houtcome hsound hnext houtcomes
          (hact.trans (if_neg hkept)))
  · have hopen : d.act task a = { desk := d.afterLookup result
                                  next := [.ask (.lookup (reportOf w s document) result.1)] } := by
      rw [hact]
      unfold followLookup
      split
      · next entry heq => exact absurd ⟨entry, heq⟩ hdone
      · rfl
    refine .looks (l := result.1) ?_ (.inl ⟨rfl, hactions⟩) hreached ?_
    · rw [hdelays.advance_self hd.schedulesDistinct hd.sound hagenda, hopen]
      rfl
    · rw [outcome?_advance hagenda, hopen]
      exact houtcome

/-! ### One action of the task -/

theorem Lints.collectionOf (h : d.Lints tree home w s) (document : Document) :
    d.collectionOf document .report = reportOf w s document := by
  rw [Desk.collectionOf, h.settings, h.workspace]
  rfl

/-- A lookup that an action goes on with waits for the disk. -/
theorem Lints.awaits (h : d.Lints tree home w s) {l : Lookup} {a : Action}
    (ha : a = .ask (.lookup c l) ∨ a = .take (.lookup c l)) (hholds : d.Holds task a) :
    c.Awaits tree home s d.resolver l := by
  rcases ha with rfl | rfl
  · cases h.held hholds with
    | plain hplain => cases hplain
    | asks hl => exact hl
  · cases h.held hholds with
    | plain hplain => cases hplain
    | takes hl => exact hl

/-- A task that waits goes on waiting until the engine is done. -/
theorem AwaitsEngine.stays (hs : s.IsBare) (hd : d.InOrder tree home w s)
    (hdelays : d.DelaysNothing task) (h : AwaitsEngine c request task engineTask left d)
    (hleft : left ≠ 0) : AwaitsEngine c request task engineTask left (d.advance task) := by
  have hnone : d.outcome? engineTask = none := by
    cases h.engineStage with
    | asked _ hnone => exact hnone
    | working _ hnone => exact hnone
    | done => exact absurd rfl hleft
  have hact : d.act task (.collectResult c request.name engineTask) =
      { desk := { d with awaiting := d.awaiting ++ [(task, engineTask)] }
        next := [.collectResult c request.name engineTask]
        waits := true } := by
    rw [Desk.act, takeResult, hnone]
  obtain ⟨hdelaysE, hsame⟩ := hd.delaysNothing hs h.delays h.ne_host (.works task)
  obtain ⟨hagendaE, houtcomeE⟩ := hsame fun heq => h.ne_task (Option.some.inj heq).symm
  refine ⟨?_, ?_, h.ne_task, h.ne_host, hdelaysE, h.engineStage.congr hagendaE houtcomeE⟩
  · rw [hdelays.advance_self hd.schedulesDistinct hd.sound h.agenda, hact]
    rfl
  · rw [outcome?_advance h.agenda, hact]
    exact h.outcome

/-- What the engine said is taken when it is done. -/
theorem AwaitsEngine.ends (hd : d.InOrder tree home w s) (hdelays : d.DelaysNothing task)
    (hkept : set.ignores (w.relativePath document) = false)
    (h : AwaitsEngine (reportOf w s document) (document.request config) task engineTask 0 d) :
    (d.advance task).Ended task ∧ (d.advance task).outcome? task = some (.violations
      (document.violationsWith config set (w.relativePath document))) := by
  have hdone : d.outcome? engineTask =
      some (.engine (Engine.builtin.evaluate (document.request config))) := by
    cases h.engineStage with
    | done _ hdone => exact hdone
  let found := (Engine.builtin.evaluate (document.request config)).violations document.name d.log
  have hact : d.act task (.collectResult (reportOf w s document) (document.request config).name
      engineTask) = { desk := { d with log := found.2 }.leave task (.violations found.1) } := by
    rw [Desk.act, takeResult, hdone]
    rfl
  obtain ⟨hended, houtcome⟩ := hd.leaves hdelays h.agenda hact
  have hasked : (document.request config).unlessIgnored set (w.relativePath document) =
      some (document.request config) := if_neg (by simp [hkept])
  refine ⟨hended, houtcome.trans ?_⟩
  rw [Document.violationsWith, hasked]
  exact congrArg (some ∘ Outcome.violations) (EngineResult.violations_fst _ _ _ _)

/-- What can be told of a collection before it is made: the document is linted, and a lookup alone
comes to a configuration after so many calls. -/
structure CollectPlan (tree : Disk) (home : Option Path) (w : Workspace) (s : Settings)
    (document : Document) (config : RuleConfig) (calls : Nat) : Prop where
  bare : s.IsBare
  lintable : (reportOf w s document).isLintable = true
  ends : ∃ e, (Lookup.alone tree.layer home (reportOf w s document).query)^[calls]
    (Lookup.start (reportOf w s document).query tree.layer { home }).1 = .done e ∧
      e.config = config

variable {calls : Nat}

/-- Every lookup that comes to an end has the configuration foretold. -/
theorem CollectPlan.config_eq (h : CollectPlan tree home w s document config calls) {made : Nat}
    {e : ResolvedConfig}
    (hreached : Reached tree home (reportOf w s document).query made (.done e)) :
    e.config = config := by
  obtain ⟨m, -, hagrees⟩ := hreached
  obtain ⟨e₁, he₁, hview⟩ := hagrees.exists_done
  obtain ⟨e₂, he₂, rfl⟩ := h.ends
  obtain rfl := Lookup.eq_of_iterate he₂ he₁
  exact (congrArg Prod.fst hview).symm

/-- A lookup that still waits has not made as many calls. -/
theorem CollectPlan.lt_calls (h : CollectPlan tree home w s document config calls) {made : Nat}
    {l : Lookup} (hreached : Reached tree home (reportOf w s document).query made l)
    (hcall : l.call?.isSome) : made < calls := by
  by_contra hmade
  obtain ⟨m, hm, hagrees⟩ := hreached
  obtain ⟨e, he, -⟩ := h.ends
  obtain ⟨k, rfl⟩ := Nat.exists_eq_add_of_le' (show calls ≤ m by omega)
  rw [Function.iterate_add_apply, he, Lookup.iterate_alone_done] at hagrees
  rcases hagrees with rfl | ⟨-, e', -, rfl, -⟩
  · cases hcall
  · cases hcall

/-- A task that collects gets on with its own actions. -/
theorem CollectStage.advance (hp : CollectPlan tree home w s document config calls)
    (hd : d.InOrder tree home w s) (hdelays : d.DelaysNothing task)
    (hread : d.HasRead (reportOf w s document).ignoreKey set)
    (h : CollectStage tree home w s document config set task actions d) :
    CollectStage tree home w s document config set task (actions + 1) (d.advance task) := by
  have hs := hp.bare
  cases h with
  | begins hagenda hactions houtcome =>
      have hcomes := hd.lints.start_comes hs (c := reportOf w s document) rfl
      refine hd.follow hs hdelays hread hagenda houtcome hcomes ?_ hcomes.leads
        (fun e he => hp.config_eq (he ▸ hcomes.leads)) (by omega)
      rw [← hd.lints.startCollection_eq, ← hd.lints.collectionOf]
      refine if_pos ?_
      rw [hd.lints.collectionOf]
      exact hp.lintable
  | @looks a l made hagenda ha hreached houtcome =>
      have hawaits := hd.lints.awaits (ha.imp And.left And.left)
        ⟨_, hagenda, List.mem_singleton_self a⟩
      rcases ha with ⟨rfl, hactions⟩ | ⟨rfl, hactions⟩
      · obtain ⟨asked, hact⟩ := hd.lints.makeLookup_eq task hawaits
        change d.act task (.ask (.lookup (reportOf w s document) l)) = _ at hact
        refine .looks ?_ (.inr ⟨rfl, by omega⟩) hreached ?_
        · rw [hdelays.advance_self hd.schedulesDistinct hd.sound hagenda, hact]
          rfl
        · rw [outcome?_advance hagenda, hact]
          exact houtcome
      · have hcomes := hd.lints.resume_comes hs hawaits
        have hone : Lookup.Leads tree.layer home (reportOf w s document).query 1 l
            (Lookup.alone tree.layer home (reportOf w s document).query l) :=
          ⟨1, Nat.le_refl 1, .refl _⟩
        have hreached' := hreached.trans (hone.trans hcomes.leads)
        exact hd.follow hs hdelays hread hagenda houtcome hcomes
          (hd.lints.takeLookup_eq task hawaits.served l) hreached'
          (fun e he => hp.config_eq (he ▸ hreached')) (by omega)
  | @waits engineTask left hkept hwaits =>
      cases left with
      | zero =>
          obtain ⟨hended, houtcome⟩ := hwaits.ends hd hdelays hkept
          exact .ends hended houtcome
      | succ left => exact .waits hkept (hwaits.stays hs hd hdelays (Nat.succ_ne_zero left))
  | ends hended houtcome =>
      obtain ⟨hended', hsame⟩ := hended.advance
      exact .ends hended' (hsame.trans houtcome)

/-! ### Whole runs -/

variable (tree home w s document config set) in
/-- A desk in order, whose ignore file has been read, with a task that collects. -/
structure Collects (task actions : Nat) (d : Desk) : Prop where
  inOrder : d.InOrder tree home w s
  hasRead : d.HasRead (reportOf w s document).ignoreKey set
  ne_host : task ≠ host
  delays : d.DelaysNothing task
  collectStage : CollectStage tree home w s document config set task actions d

theorem Collects.advance (hp : CollectPlan tree home w s document config calls)
    (h : Collects tree home w s document config set task actions d) :
    Collects tree home w s document config set task (actions + 1) (d.advance task) := by
  have hmove : LintMove (some task) d (d.advance task) := .works task
  exact ⟨h.inOrder.move hp.bare hmove, h.inOrder.hasRead hp.bare h.hasRead hmove, h.ne_host,
    (h.inOrder.delaysNothing hp.bare h.delays h.ne_host hmove).1,
    h.collectStage.advance hp h.inOrder h.delays h.hasRead⟩

theorem Collects.others (hp : CollectPlan tree home w s document config calls)
    (h : Collects tree home w s document config set task actions d) {worker : Option Nat}
    (hm : LintMove worker d d') (hother : worker ≠ some task) :
    Collects tree home w s document config set task actions d' :=
  ⟨h.inOrder.move hp.bare hm, h.inOrder.hasRead hp.bare h.hasRead hm, h.ne_host,
    (h.inOrder.delaysNothing hp.bare h.delays h.ne_host hm).1,
    h.collectStage.others hp.bare h.inOrder h.delays h.ne_host hm hother⟩

/-- A task that is asked for the violations of a document begins to collect them. -/
theorem InOrder.collects (hs : s.IsBare) (h : d.InOrder tree home w s)
    (hread : d.HasRead (reportOf w s document).ignoreKey set) (config : RuleConfig) :
    Collects tree home w s document config set d.nextTask 0
      ((HostEvent.starts (.violations document)).apply d) := by
  have hmove : LintMove none d ((HostEvent.starts (.violations document)).apply d) :=
    .hosts _ rfl
  have hpos : d.nextTask ≠ host := Nat.ne_of_gt h.sound.timersMatch.nextTask_pos
  have hnone : d.outcome? d.nextTask = none := by
    rw [Option.eq_none_iff_forall_ne_some]
    exact fun o ho => Nat.lt_irrefl _ (h.left ho)
  refine ⟨h.move hs hmove, h.hasRead hs hread hmove, hpos,
    ⟨Nat.lt_succ_self _, fun uri hpending => ?_⟩, .begins ?_ rfl hnone⟩
  · exact Nat.lt_irrefl _ (h.sound.timersMatch.pending_lt (d := d) hpending).2
  · refine (agenda?_spawn d _ d.nextTask).trans ?_
    rw [h.sound.timersMatch.agenda?_nextTask, if_pos rfl]
    rfl

/-- A task that collects goes on doing so, whatever else is done. -/
theorem Collects.run (hp : CollectPlan tree home w s document config calls)
    (h : Collects tree home w s document config set task actions d) (hrun : LintRun d d') :
    ∃ actions', Collects tree home w s document config set task actions' d' := by
  induction hrun with
  | refl => exact ⟨actions, h⟩
  | tail _ hmove ih =>
      obtain ⟨done, hdone⟩ := ih
      obtain ⟨worker, hm⟩ := hmove
      by_cases hworker : worker = some task
      · subst hworker
        cases hm
        exact ⟨done + 1, hdone.advance hp⟩
      · exact ⟨done, hdone.others hp hm hworker⟩

/-- Nothing but the violations is left behind. -/
theorem Collects.eq_violations (h : Collects tree home w s document config set task actions d)
    {o : Outcome} (ho : d.outcome? task = some o) :
    o = .violations (document.violationsWith config set (w.relativePath document)) := by
  cases h.collectStage with
  | begins _ _ hnone => cases hnone.symm.trans ho
  | looks _ _ _ hnone => cases hnone.symm.trans ho
  | waits _ hwaits => cases hwaits.outcome.symm.trans ho
  | ends _ hsome => exact Option.some.inj (ho.symm.trans hsome)

theorem Collects.replicate (hp : CollectPlan tree home w s document config calls)
    (h : Collects tree home w s document config set task actions d) (n : Nat) :
    Collects tree home w s document config set task (actions + n)
      (d.works (List.replicate n task)) := by
  induction n generalizing actions d with
  | zero => exact h
  | succ n ih =>
      have hnext := ih (h.advance hp)
      rwa [Nat.add_assoc, Nat.add_comm 1 n] at hnext

/-- A task that waits for the engine is done when the engine has been let work. -/
theorem Collects.finish_waits (hp : CollectPlan tree home w s document config calls)
    (h : Collects tree home w s document config set task actions d)
    (hkept : set.ignores (w.relativePath document) = false)
    (hwaits : AwaitsEngine (reportOf w s document) (document.request config) task engineTask left
      d) :
    ∃ tasks, (d.works tasks).outcome? task = some (.violations
      (document.violationsWith config set (w.relativePath document))) := by
  induction left generalizing d with
  | zero => exact ⟨[task], (hwaits.ends h.inOrder h.delays hkept).2⟩
  | succ left ih =>
      have hmove : LintMove (some engineTask) d (d.advance engineTask) := .works engineTask
      have hother : some engineTask ≠ some task := fun heq => hwaits.ne_task (Option.some.inj heq)
      have hnext := hwaits.others hp.bare h.inOrder h.delays h.ne_host hmove hother
      rw [if_pos rfl] at hnext
      obtain ⟨tasks, hdone⟩ := ih (h.others hp hmove hother) hnext
      exact ⟨engineTask :: tasks, hdone⟩

/-- Whatever has been done, the task can be brought to its end. -/
theorem Collects.finish (hp : CollectPlan tree home w s document config calls)
    (h : Collects tree home w s document config set task actions d) :
    ∃ tasks, (d.works tasks).outcome? task = some (.violations
      (document.violationsWith config set (w.relativePath document))) := by
  -- so many actions are more than its lookup accounts for
  have hlate := h.replicate hp (2 * calls + 1)
  generalize hd : d.works (List.replicate (2 * calls + 1) task) = d₁ at hlate
  have hmore : ∃ tasks, (d₁.works tasks).outcome? task = some (.violations
      (document.violationsWith config set (w.relativePath document))) := by
    cases hlate.collectStage with
    | begins _ hactions => omega
    | @looks a l made hagenda ha hreached _ =>
        have hawaits := hlate.inOrder.lints.awaits (ha.imp And.left And.left)
          ⟨_, hagenda, List.mem_singleton_self a⟩
        have := hp.lt_calls hreached hawaits.call
        omega
    | waits hkept hwaits => exact hlate.finish_waits hp hkept hwaits
    | ends _ houtcome => exact ⟨[], houtcome⟩
  obtain ⟨tasks, hdone⟩ := hmore
  refine ⟨List.replicate (2 * calls + 1) task ++ tasks, ?_⟩
  rw [works, List.foldl_append]
  change (List.foldl _ (d.works _) tasks).outcome? task = _
  rw [hd]
  exact hdone

/-! ### The ignore file -/

/-- When the first lookup for a folder is done, a task of its own is to read the ignore file. -/
theorem InOrder.asks_ignoreFile (hs : s.IsBare) (h : d.InOrder tree home w s) {a : Action}
    (hagenda : d.agenda? task = some [a]) {l : Lookup} {result : Lookup × Resolver}
    {e : ResolvedConfig}
    (hcomes : Lookup.Comes tree.layer home .unset (reportOf w s document).query d.resolver.cache l
      result)
    (hact : d.act task a =
      (d.afterLookup result).followLookup task (reportOf w s document) result.1)
    (hdone : result.1 = .done e) {name : String} (hignoring : s.ignoring = .file name)
    (hserved : document.uri.hasFileSystem = true)
    (hnew : d.ignores.find? (reportOf w s document).ignoreKey = none) :
    (d.advance task).agenda? d.nextTask = some [.ask (.ignoreFile (reportOf w s document).ignoreKey
      d.ignores.epoch ((reportOf w s document).ignorePath name))] := by
  obtain ⟨g, -, hfollow⟩ := (h.lints.afterLookup hcomes).followLookup_done hs task
    (c := reportOf w s document) rfl e
  have hfiles : (d.afterLookup result).files.layer.isAvailable = true := by
    rw [show (d.afterLookup result).files = .disk tree from h.lints.files]
    rfl
  have hasked := agenda?_ignoreSet (c := reportOf w s document) hignoring hserved hfiles hnew
    h.sound.timersMatch.agenda?_nextTask
  have hgate := (agenda?_congr (passState_putGate _ task g) d.nextTask).trans hasked
  have hne : d.nextTask ≠ task := Nat.ne_of_gt (h.sound.timersMatch.task_lt hagenda)
  obtain ⟨running, hadvance⟩ := advance_eq hagenda
  rw [hadvance, hact, hdone, hfollow]
  refine (agenda?_setAgenda _ task _ d.nextTask).trans ?_
  rw [if_neg hne]
  unfold invoke
  split
  · exact hgate
  · refine (agenda?_spawn _ _ _).trans ?_
    rw [hgate]
    rfl

theorem InOrder.takes_ignoreFile (hs : s.IsBare) (h : d.InOrder tree home w s) {reader : Nat}
    {key : IgnoreKey} {path : Path}
    (hagenda : d.agenda? reader = some [.ask (.ignoreFile key d.ignores.epoch path)]) :
    (d.advance reader).agenda? reader =
      some [.take (.ignoreFile key (d.advance reader).ignores.epoch path)] := by
  have hepoch := (h.lints.advance hs reader).2.2
  obtain ⟨htasks, -, hnext⟩ := makeCall_ignoreFile d reader key d.ignores.epoch path
  obtain ⟨running, hadvance⟩ := advance_eq hagenda
  rw [hepoch, hadvance]
  refine (agenda?_setAgenda _ reader _ reader).trans ?_
  have hsame : (d.act reader (.ask (.ignoreFile key d.ignores.epoch path))).desk.agenda? reader =
      some [.ask (.ignoreFile key d.ignores.epoch path)] :=
    (congrArg (List.lookup reader) htasks).trans hagenda
  rw [if_pos rfl, hsame]
  exact congrArg (fun next => some (next ++ [])) hnext

end CollectStage

end Desk

end LintDesk
