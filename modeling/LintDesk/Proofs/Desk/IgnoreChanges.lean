import LintDesk.Proofs.Desk.Interleaving
import LintDesk.Proofs.Desk.Views
import LintDesk.Proofs.Ignore.Epochs

/-! # Changes to ignore sets

All that an action or an event does, as far as ignore sets and the tasks that read ignore files are
concerned, is a sequence of the changes listed in `IgnoreChange`. Actions that read ignore files are
left out here.
-/

namespace LintDesk

/-- What the ignore set of a collection is kept for. -/
def Collection.ignoreKey (c : Collection) : IgnoreKey :=
  ⟨c.folder?.map (·.uri), c.settings.ignoring⟩

/-- The ignore file that an action reads, with the key and the epoch it is read for. -/
def Action.reading? : Action → Option (IgnoreKey × Nat × Path)
  | .ask (.ignoreFile key epoch path) => some (key, epoch, path)
  | .take (.ignoreFile key epoch path) => some (key, epoch, path)
  | _ => none

/-- An ignore file is asked for and its text is taken. -/
theorem Action.reading?_cases {a : Action} {key : IgnoreKey} {epoch : Nat} {path : Path}
    (h : a.reading? = some (key, epoch, path)) :
    a = .ask (.ignoreFile key epoch path) ∨ a = .take (.ignoreFile key epoch path) := by
  unfold reading? at h
  split at h
  · cases h
    exact .inl rfl
  · cases h
    exact .inr rfl
  · cases h

namespace Desk

/-! ### Changes that do not concern ignore files -/

/-- The ignore sets are the same, and nobody has come to read an ignore file. -/
structure KeepsIgnores (d d' : Desk) : Prop where
  ignores : d'.ignores = d.ignores
  agenda : ∀ task agenda, d'.agenda? task = some agenda → (∃ a ∈ agenda, a.reading? ≠ none) →
    d.agenda? task = some agenda

theorem KeepsIgnores.refl (d : Desk) : KeepsIgnores d d :=
  ⟨rfl, fun _ _ h _ => h⟩

theorem KeepsIgnores.trans {d d₁ d' : Desk} (h : KeepsIgnores d d₁) (h' : KeepsIgnores d₁ d') :
    KeepsIgnores d d' :=
  ⟨h'.ignores.trans h.ignores, fun task agenda hsome hreads =>
    h.agenda task agenda (h'.agenda task agenda hsome hreads) hreads⟩

theorem KeepsIgnores.of_tasks {d d' : Desk} (ht : d'.tasks = d.tasks)
    (hi : d'.ignores = d.ignores) : KeepsIgnores d d' :=
  ⟨hi, fun task _ hsome _ => (congrArg (List.lookup task) ht).symm.trans hsome⟩

theorem KeepsIgnores.of_passState {d d' : Desk} (hb : d'.passState = d.passState)
    (hi : d'.ignores = d.ignores) : KeepsIgnores d d' :=
  .of_tasks (congrArg PassState.tasks hb) hi

/-- Before a change that keeps ignore sets, something else is changed than tasks and ignore sets. -/
theorem KeepsIgnores.after_same {d d₁ d' : Desk} (h : KeepsIgnores d₁ d') (ht : d₁.tasks = d.tasks)
    (hi : d₁.ignores = d.ignores) : KeepsIgnores d d' :=
  (KeepsIgnores.of_tasks ht hi).trans h

/-- A task joins that reads no ignore file. -/
theorem keepsIgnores_append (d : Desk) (joined : Nat) {agenda : List Action}
    (h : ∀ a ∈ agenda, a.reading? = none) :
    KeepsIgnores d { d with tasks := d.tasks ++ [(joined, agenda)] } := by
  refine ⟨rfl, fun task found hsome ⟨a, ha, hreads⟩ => ?_⟩
  rw [agenda?_append] at hsome
  rcases agenda?_of_join hsome with hold | ⟨-, rfl⟩
  · exact hold
  · exact absurd (h a ha) hreads

theorem keepsIgnores_spawn (d : Desk) (agenda : List Action) (h : ∀ a ∈ agenda, a.reading? = none) :
    KeepsIgnores d (d.spawn agenda).2 :=
  (keepsIgnores_append d d.nextTask h).trans (.of_tasks rfl rfl)

theorem agenda?_of_setAgenda {d : Desk} {task other : Nat} {agenda found : List Action}
    (h : (d.setAgenda task agenda).agenda? other = some found) :
    other = task ∧ found = agenda ∨ other ≠ task ∧ d.agenda? other = some found := by
  rw [agenda?_setAgenda] at h
  split at h
  · next hother =>
      obtain ⟨-, -, rfl⟩ := Option.map_eq_some_iff.mp h
      exact .inl ⟨hother, rfl⟩
  · next hother => exact .inr ⟨hother, h⟩

theorem keepsIgnores_setAgenda (d : Desk) (task : Nat) {agenda : List Action}
    (h : ∀ a ∈ agenda, a.reading? = none) : KeepsIgnores d (d.setAgenda task agenda) := by
  refine ⟨rfl, fun other found hsome ⟨a, ha, hreads⟩ => ?_⟩
  rcases agenda?_of_setAgenda hsome with ⟨-, rfl⟩ | ⟨-, hold⟩
  · exact absurd (h a ha) hreads
  · exact hold

theorem KeepsIgnores.setAgenda {d d' : Desk} (ht : d'.tasks = d.tasks) (hi : d'.ignores = d.ignores)
    (task : Nat) (agenda : List Action) :
    KeepsIgnores (d.setAgenda task agenda) (d'.setAgenda task agenda) :=
  .of_tasks (congrArg (List.map _) ht) hi

theorem keepsIgnores_abort (d : Desk) (task : Nat) : KeepsIgnores d (d.abort task) := by
  refine ⟨rfl, fun other found hsome _ => ?_⟩
  rw [agenda?_abort] at hsome
  split at hsome
  · cases hsome
  · exact hsome

theorem keepsIgnores_foldl_abort (aborted : List Nat) (d : Desk) :
    KeepsIgnores d (aborted.foldl abort d) :=
  aborted.foldlRecOn abort (motive := KeepsIgnores d) (.refl d) fun d' h task _ =>
    h.trans (keepsIgnores_abort d' task)

theorem keepsIgnores_wake (d : Desk) (task : Nat) : KeepsIgnores d (d.wake task) :=
  .of_passState (passState_wake d task) (field_wake Desk.ignores (fun _ _ _ => rfl) d task)

theorem keepsIgnores_foldl_wake (tasks : List Nat) (d : Desk) :
    KeepsIgnores d (tasks.foldl wake d) :=
  .of_passState (passState_foldl_wake tasks d)
    (field_foldl_wake Desk.ignores (fun _ _ _ => rfl) tasks d)

theorem keepsIgnores_finishTask (d : Desk) (task : Nat) : KeepsIgnores d (d.finishTask task) := by
  unfold finishTask wakeAwaiting
  exact (keepsIgnores_abort d task).trans ((keepsIgnores_foldl_wake _ _).after_same rfl rfl)

theorem keepsIgnores_after (d : Desk) (task milliseconds : Nat) (next : List Action) :
    KeepsIgnores d (d.after task milliseconds next).desk := by
  refine .of_passState (passState_after d task milliseconds next) ?_
  unfold after
  split <;> rfl

theorem keepsIgnores_openPass (d : Desk) (document : Document) :
    KeepsIgnores d (d.openPass document).2 :=
  .of_tasks rfl rfl

theorem keepsIgnores_dropPending (d : Desk) (uri : Url) : KeepsIgnores d (d.dropPending uri) := by
  unfold dropPending
  split
  · exact (keepsIgnores_abort _ _).after_same rfl rfl
  · exact .refl d

theorem keepsIgnores_lintSoon (d : Desk) (document : Document) :
    KeepsIgnores d (d.lintSoon document) := by
  have hspawn := keepsIgnores_spawn d [.holdBack document] (by simp [Action.reading?])
  unfold lintSoon
  dsimp only
  split
  · exact hspawn.trans ((keepsIgnores_abort _ _).after_same rfl rfl)
  · exact hspawn.trans (.of_tasks rfl rfl)

theorem keepsIgnores_outdateAll (d : Desk) (cancel : Bool) :
    KeepsIgnores d (d.outdateAll cancel) := by
  unfold outdateAll
  exact (keepsIgnores_foldl_abort _ _).after_same rfl rfl

theorem keepsIgnores_clearAll (d : Desk) : KeepsIgnores d d.clearAll :=
  (keepsIgnores_outdateAll d false).trans (.of_tasks rfl rfl)

theorem keepsIgnores_closeDocument (d : Desk) (uri : Url) :
    KeepsIgnores d (d.closeDocument uri) := by
  unfold closeDocument
  dsimp only
  split
  · next task _ => exact (keepsIgnores_abort d task).trans (.of_tasks rfl rfl)
  · exact .of_tasks rfl rfl

theorem keepsIgnores_runMode (d : Desk) (uri : Url) : KeepsIgnores d (d.runMode uri).2 := by
  refine .of_passState (passState_runMode d uri) ?_
  unfold runMode
  split <;> rfl

theorem keepsIgnores_putGate (d : Desk) (task : Nat) (g : Gate) :
    KeepsIgnores d (d.putGate task g) := by
  unfold putGate
  dsimp only
  split
  · split
    · exact (keepsIgnores_wake _ _).after_same rfl rfl
    · exact .of_tasks rfl rfl
  · exact .of_tasks rfl rfl

/-! ### What actions and events change -/

/-- A single change, as far as ignore files are concerned. -/
inductive IgnoreChange : Desk → Desk → Prop where
  | keepsIgnores {d d' : Desk} (h : KeepsIgnores d d') : IgnoreChange d d'
  | gets (d : Desk) (key : IgnoreKey) : IgnoreChange d { d with ignores := (d.ignores.get key).2 }
  /-- The reading of an ignore file is reserved, and a task is started for it. -/
  | reserves {d : Desk} {c : Collection} {name : String} (hname : c.settings.ignoring = .file name)
      (h : (d.ignores.reserve c.ignoreKey d.ignores.epoch).1 = true) :
      IgnoreChange d ({ d with ignores := (d.ignores.reserve c.ignoreKey d.ignores.epoch).2 }.spawn
        [.ask (.ignoreFile c.ignoreKey d.ignores.epoch (c.ignorePath name))]).2
  | forgets (d : Desk) : IgnoreChange d d.forgetIgnores

abbrev IgnoreChanges : Desk → Desk → Prop :=
  Relation.ReflTransGen IgnoreChange

theorem KeepsIgnores.ignoreChanges {d d' : Desk} (h : KeepsIgnores d d') : IgnoreChanges d d' :=
  .single (.keepsIgnores h)

/-- An effect that leaves no reading of an ignore file to the task itself. -/
structure NoReadEffect (d : Desk) (e : Effect) : Prop where
  desk : IgnoreChanges d e.desk
  next : ∀ b ∈ e.next, b.reading? = none

theorem NoReadEffect.after_keepsIgnores {d d₁ : Desk} {e : Effect} (h : NoReadEffect d₁ e)
    (hq : KeepsIgnores d d₁) : NoReadEffect d e :=
  ⟨hq.ignoreChanges.trans h.desk, h.next⟩

/-- The task has come to its end. -/
theorem NoReadEffect.of_keepsIgnores {d : Desk} {e : Effect} (h : KeepsIgnores d e.desk)
    (hn : e.next = []) : NoReadEffect d e :=
  ⟨h.ignoreChanges, by simp [hn]⟩

theorem noReadEffect_after (d : Desk) (task milliseconds : Nat) {next : List Action}
    (h : ∀ b ∈ next, b.reading? = none) : NoReadEffect d (d.after task milliseconds next) :=
  ⟨(keepsIgnores_after d task milliseconds next).ignoreChanges, by rwa [next_after]⟩

theorem keepsIgnores_useViolations (d : Desk) (task : Nat) (c : Collection)
    (violations : List Violation) : KeepsIgnores d (d.useViolations task c violations) := by
  unfold useViolations
  split
  · unfold publish
    dsimp only
    split <;> exact .of_tasks rfl rfl
  · exact .of_tasks rfl rfl
  · exact .of_tasks rfl rfl

theorem noReadEffect_invoke (d : Desk) (task : Nat) (c : Collection) (config : RuleConfig)
    (ignores : IgnoreSet) (rules : List CustomRule) :
    NoReadEffect d (d.invoke task c config ignores rules) := by
  unfold invoke
  split
  · exact .of_keepsIgnores (keepsIgnores_useViolations d task c []) rfl
  · exact ⟨(keepsIgnores_spawn d _ (by simp [Action.reading?])).ignoreChanges,
      by simp [Action.reading?]⟩

theorem noReadEffect_takeResult (d : Desk) (task : Nat) (c : Collection) (name : String)
    (engineTask : Nat) : NoReadEffect d (d.takeResult task c name engineTask) := by
  unfold takeResult
  split
  · exact .of_keepsIgnores ((keepsIgnores_useViolations _ task c _).after_same rfl rfl) rfl
  · exact ⟨.single (.keepsIgnores (.of_tasks rfl rfl)), by simp [Action.reading?]⟩

theorem noReadEffect_followPassage (d : Desk) (task : Nat) (client : RuleClient) (r : RuleRequest)
    (p : Passage) : NoReadEffect d (d.followPassage task client r p) := by
  cases p with
  | queued => exact ⟨.refl, by simp [followPassage, Action.reading?]⟩
  | asking epoch =>
      have hnext : ∀ b ∈ [Action.answer client r epoch], b.reading? = none := by
        simp [Action.reading?]
      exact (noReadEffect_after _ task d.promptDelay hnext).after_keepsIgnores (.of_tasks rfl rfl)
  | loading epoch holds left rules => exact ⟨.refl, by simp [followPassage, Action.reading?]⟩
  | done rules =>
      cases client with
      | direct => exact .of_keepsIgnores (.of_tasks rfl rfl) rfl
      | collection c config ignores => exact noReadEffect_invoke d task c config ignores rules

theorem noReadEffect_putGate (d : Desk) (task : Nat) (g : Gate) (client : RuleClient)
    (r : RuleRequest) (p : Passage) :
    NoReadEffect d ((d.putGate task g).followPassage task client r p) :=
  (noReadEffect_followPassage _ task client r p).after_keepsIgnores (keepsIgnores_putGate d task g)

theorem noReadEffect_takeAnswer (d : Desk) (task : Nat) (client : RuleClient) (r : RuleRequest)
    (epoch : Nat) : NoReadEffect d (d.takeAnswer task client r epoch) := by
  unfold takeAnswer
  dsimp only
  refine (noReadEffect_putGate _ task _ client r _).after_keepsIgnores ?_
  split
  · split <;> exact .of_tasks rfl rfl
  · exact .of_tasks rfl rfl

/-- To use the ignore set of a document is to get it, and maybe to reserve the reading of its
file. -/
theorem ignoreSet_ignoreChanges (d : Desk) (c : Collection) :
    IgnoreChanges d (d.ignoreSet c).2 := by
  have hget : IgnoreChanges d { d with ignores := (d.ignores.get c.ignoreKey).2 } :=
    .single (.gets d c.ignoreKey)
  unfold ignoreSet
  dsimp only
  split
  · exact hget
  · next name hname =>
      split
      · split
        · next ignores hreserve =>
            obtain ⟨hepoch, hignores⟩ : (d.ignores.get c.ignoreKey).2.epoch = ignores.epoch ∧
                ((d.ignores.get c.ignoreKey).2.reserve c.ignoreKey
                  (d.ignores.get c.ignoreKey).2.epoch) = (true, ignores) := by
              refine ⟨?_, hreserve⟩
              rcases (d.ignores.get c.ignoreKey).2.reserve_cases c.ignoreKey
                (d.ignores.get c.ignoreKey).2.epoch with hfalse | ⟨-, -, htrue⟩
              · cases hfalse.symm.trans hreserve
              · rw [← (Prod.mk.inj (htrue.symm.trans hreserve)).2]
                rfl
            refine hget.tail ?_
            rw [← hepoch]
            have hchange := IgnoreChange.reserves
              (d := { d with ignores := (d.ignores.get c.ignoreKey).2 }) hname
              (congrArg Prod.fst hignores)
            rwa [hignores] at hchange
        · next ignores hreserve =>
            refine hget.tail (.keepsIgnores (.of_tasks rfl ?_))
            rcases (d.ignores.get c.ignoreKey).2.reserve_cases c.ignoreKey
              (d.ignores.get c.ignoreKey).2.epoch with hfalse | ⟨-, -, htrue⟩
            · exact (Prod.mk.inj (hreserve.symm.trans hfalse)).2
            · cases htrue.symm.trans hreserve
      · exact hget

theorem noReadEffect_followLookup (d : Desk) (task : Nat) (c : Collection) (l : Lookup) :
    NoReadEffect d (d.followLookup task c l) := by
  unfold followLookup
  split
  · have hrequest := noReadEffect_putGate (d.ignoreSet c).2 task
    exact ⟨(ignoreSet_ignoreChanges d c).trans (hrequest _ _ _ _).desk, (hrequest _ _ _ _).next⟩
  · exact ⟨.refl, by simp [Action.reading?]⟩

theorem noReadEffect_startCollection (d : Desk) (task : Nat) (c : Collection) :
    NoReadEffect d (d.startCollection task c) :=
  (noReadEffect_followLookup _ task c _).after_keepsIgnores (.of_tasks rfl rfl)

theorem noReadEffect_collect (d : Desk) (task : Nat) (document : Document) (purpose : Purpose) :
    NoReadEffect d (d.collect task document purpose) := by
  unfold collect
  dsimp only
  split
  · exact noReadEffect_startCollection d task _
  · exact .of_keepsIgnores (keepsIgnores_useViolations d task _ []) rfl

theorem noReadEffect_startPass (d : Desk) (task : Nat) (document : Document) :
    NoReadEffect d (d.startPass task document) := by
  unfold startPass
  dsimp only
  split
  · exact (noReadEffect_startCollection _ task _).after_keepsIgnores
      (keepsIgnores_openPass d document)
  · exact .of_keepsIgnores (keepsIgnores_openPass d document) rfl

theorem noReadEffect_lintNow (d : Desk) (task : Nat) (document : Document) :
    NoReadEffect d (d.lintNow task document) :=
  (noReadEffect_startPass _ task document).after_keepsIgnores
    (keepsIgnores_dropPending d document.uri)

theorem noReadEffect_startRefresh (d : Desk) : NoReadEffect d d.startRefresh :=
  ⟨(keepsIgnores_clearAll d).ignoreChanges, by simp [startRefresh, Action.reading?]⟩

theorem noReadEffect_startEnabling (d : Desk) (enabled : Bool) :
    NoReadEffect d (d.startEnabling enabled) := by
  unfold startEnabling
  split
  · exact .of_keepsIgnores (.refl d) rfl
  · dsimp only
    split
    · exact (noReadEffect_startRefresh _).after_keepsIgnores (.of_tasks rfl rfl)
    · have hoff : KeepsIgnores d (({ d with enabled }.note (.switched enabled)).outdateAll true) :=
        (keepsIgnores_outdateAll _ true).after_same rfl rfl
      exact .of_keepsIgnores (hoff.trans (.of_tasks rfl rfl)) rfl

theorem ignoreChanges_forgetAll (d : Desk) : IgnoreChanges d d.forgetAll := by
  have hconfig : KeepsIgnores d d.forgetConfig := .of_tasks rfl rfl
  have hrules : KeepsIgnores d.forgetConfig.forgetIgnores d.forgetAll := .of_tasks rfl rfl
  exact (hconfig.ignoreChanges.tail (.forgets d.forgetConfig)).tail (.keepsIgnores hrules)

theorem noReadEffect_makeCall (d : Desk) (task : Nat) {w : FileWork}
    (hw : (Action.take w).reading? = none) : NoReadEffect d (d.makeCall task w) := by
  unfold makeCall
  split
  · exact (noReadEffect_after _ task _ (by simpa using hw)).after_keepsIgnores (.of_tasks rfl rfl)
  · exact ⟨.refl, by simpa using hw⟩

theorem noReadEffect_takeCall (d : Desk) (task : Nat) {w : FileWork}
    (hw : (Action.take w).reading? = none) : NoReadEffect d (d.takeCall task w) := by
  cases w with
  | lookup c l =>
      exact (noReadEffect_followLookup _ task c _).after_keepsIgnores (.of_tasks rfl rfl)
  | rules client r p =>
      exact (noReadEffect_putGate _ task _ client r _).after_keepsIgnores (.of_tasks rfl rfl)
  | ignoreFile key epoch path => cases hw

theorem noReadEffect_save (d : Desk) (task : Nat) (document : Document) :
    NoReadEffect d (d.act task (.save document)) := by
  have hmode := keepsIgnores_runMode d document.uri
  unfold act
  dsimp only
  split
  · next heq =>
      rw [heq] at hmode
      exact (noReadEffect_lintNow _ task document).after_keepsIgnores hmode
  · next heq =>
      rw [heq] at hmode
      exact .of_keepsIgnores hmode rfl

theorem noReadEffect_await (d : Desk) (task other : Nat) :
    NoReadEffect d (d.act task (.await other)) := by
  unfold act
  dsimp only
  split
  · exact ⟨.single (.keepsIgnores (.of_tasks rfl rfl)), by simp [Action.reading?]⟩
  · exact .of_keepsIgnores (.refl d) rfl

/-- An action that reads no ignore file leaves none to be read to its task. -/
theorem noReadEffect_act (d : Desk) (task : Nat) {a : Action} (ha : a.reading? = none) :
    NoReadEffect d (d.act task a) := by
  have hafter : ∀ (d : Desk) (milliseconds : Nat) (b : Action), b.reading? = none →
      NoReadEffect d (d.after task milliseconds [b]) :=
    fun d milliseconds b hb => noReadEffect_after d task milliseconds (by simpa using hb)
  cases a with
  | lint document => exact noReadEffect_lintNow d task document
  | pass document => exact noReadEffect_startPass d task document
  | collect document purpose => exact noReadEffect_collect d task document purpose
  | ask w =>
      exact noReadEffect_makeCall d task (by cases w <;> first | rfl | cases ha)
  | take w => exact noReadEffect_takeCall d task ha
  | request client r => exact noReadEffect_putGate d task _ client r _
  | takeTurn client r => exact noReadEffect_putGate d task _ client r _
  | answer client r epoch => exact noReadEffect_takeAnswer d task client r epoch
  | evaluate r => exact (hafter _ _ _ rfl).after_keepsIgnores (.of_tasks rfl rfl)
  | conclude r e => exact .of_keepsIgnores (.of_tasks rfl rfl) rfl
  | collectResult c name engineTask => exact noReadEffect_takeResult d task c name engineTask
  | holdBack document => exact hafter _ _ _ rfl
  | fire document =>
      exact .of_keepsIgnores (keepsIgnores_spawn d [.pass document] (by simp [Action.reading?])) rfl
  | save document => exact noReadEffect_save d task document
  | refresh => exact noReadEffect_startRefresh d
  | lintVisible => exact ⟨.refl, by simp [act, Action.reading?]⟩
  | startOver =>
      have hrefresh := noReadEffect_startRefresh d.forgetAll
      exact ⟨(ignoreChanges_forgetAll d).trans hrefresh.desk, hrefresh.next⟩
  | setEnabled enabled => exact noReadEffect_startEnabling d enabled
  | toggle => exact (noReadEffect_startEnabling _ _).after_keepsIgnores (.of_tasks rfl rfl)
  | close uri => exact .of_keepsIgnores (keepsIgnores_closeDocument d uri) rfl
  | sleep milliseconds => exact noReadEffect_after d task milliseconds (by simp)
  | await other => exact noReadEffect_await d task other

theorem keepsIgnores_start (d : Desk) {a : Action} (h : a.reading? = none) :
    KeepsIgnores d (d.start a) :=
  keepsIgnores_spawn d [a] (by simpa using h)

theorem keepsIgnores_putDocument (d : Desk) (document : Document) :
    KeepsIgnores d (d.putDocument document) := by
  unfold putDocument
  split <;> exact .of_tasks rfl rfl

theorem keepsIgnores_didChange (d : Desk) (document : Document) :
    KeepsIgnores d (d.didChange document) := by
  have hmode := keepsIgnores_runMode d document.uri
  unfold didChange
  split
  · next heq =>
      rw [heq] at hmode
      exact hmode.trans (keepsIgnores_lintSoon _ document)
  · next heq =>
      rw [heq] at hmode
      exact hmode

theorem keepsIgnores_cursorMoved (d : Desk) (document : Document) :
    KeepsIgnores d (d.cursorMoved document) := by
  unfold cursorMoved
  split
  · exact keepsIgnores_lintSoon d document
  · exact .refl d

theorem ignoreChanges_restart (d : Desk) :
    IgnoreChanges d (d.forgetAll.clearAll.start .lintVisible) :=
  (ignoreChanges_forgetAll d).trans
    ((keepsIgnores_clearAll d.forgetAll).trans (keepsIgnores_start _ rfl)).ignoreChanges

theorem NoticeSpec.ignoreChanges {d d' : Desk} {notice : Server.Notice}
    (h : NoticeSpec d notice d') : IgnoreChanges d d' := by
  cases h with
  | idles => exact .refl
  | opens document =>
      exact ((keepsIgnores_putDocument d document).trans (keepsIgnores_start _ rfl)).ignoreChanges
  | edits => exact ((keepsIgnores_putDocument d _).trans (keepsIgnores_didChange _ _)).ignoreChanges
  | saves => exact (keepsIgnores_start d rfl).ignoreChanges
  | savesText =>
      exact ((keepsIgnores_putDocument d _).trans (keepsIgnores_start _ rfl)).ignoreChanges
  | closes uri =>
      have hdrop : KeepsIgnores d (d.dropDocument uri) := .of_tasks rfl rfl
      exact (hdrop.trans (keepsIgnores_closeDocument _ uri)).ignoreChanges
  | configures settings =>
      have hsettings : KeepsIgnores d { d with settings := Server.settingsOf (some settings) } :=
        .of_tasks rfl rfl
      exact hsettings.ignoreChanges.trans (ignoreChanges_restart _)
  | invalidates uris => exact ignoreChanges_restart d
  | @moves uri line document _ =>
      have hcursor : KeepsIgnores d { d with cursor := some (uri, line) } := .of_tasks rfl rfl
      exact (hcursor.trans (keepsIgnores_cursorMoved _ document)).ignoreChanges
  | points => exact .single (.keepsIgnores (.of_tasks rfl rfl))

theorem event_ignoreChanges (d : Desk) (e : HostEvent) : IgnoreChanges d (e.apply d) := by
  have hcall : ∀ call : Call, call.action.reading? = none := fun call => by cases call <;> rfl
  cases e with
  | starts call => exact (keepsIgnores_start d (hcall call)).ignoreChanges
  | waits calls =>
      refine (keepsIgnores_append d host fun a ha => ?_).ignoreChanges
      obtain ⟨call, -, rfl⟩ := List.mem_map.mp ha
      exact hcall call
  | requests document => exact (keepsIgnores_lintSoon d document).ignoreChanges
  | edits document => exact (keepsIgnores_didChange d document).ignoreChanges
  | moves document => exact (keepsIgnores_cursorMoved d document).ignoreChanges
  | shows documents => exact .single (.keepsIgnores (.of_tasks rfl rfl))
  | configures settings => exact .single (.keepsIgnores (.of_tasks rfl rfl))
  | notices notice => exact (notice_spec d notice).ignoreChanges

end Desk

end LintDesk
