import LintDesk.Proofs.Desk.Interleaving
import LintDesk.Proofs.Desk.Views
import LintDesk.Proofs.Ignore.Epochs

/-! # What violations are judged by

The violations of a document depend on the files, the workspace, the settings, the engine, and on
what was remembered of them. Most of what a desk does leaves these inputs alone, leaves nothing
behind in the name of another task, and gives tasks only plain work.
-/

namespace LintDesk

/-- What the violations of documents depend on, ignore sets apart. -/
structure LintInputs where
  files : Files
  workspace : Workspace
  settings : SettingsLayers
  engine : Engine
  resolver : Resolver
  gate : Gate
  /-- The epoch of the ignore sets. -/
  epoch : Nat

/-- Work that neither goes on with a lookup, nor asks for custom rules, nor forgets anything. -/
def Action.isPlain : Action → Bool
  | .ask (.lookup _ _) => false
  | .ask (.rules _ _ _) => false
  | .take (.lookup _ _) => false
  | .take (.rules _ _ _) => false
  | .request _ _ => false
  | .takeTurn _ _ => false
  | .answer _ _ _ => false
  | .startOver => false
  | _ => true

/-- A call that asks for violations, at most. -/
def Call.IsPlain (call : Call) : Prop :=
  call.action.isPlain = true

/-- A notice about documents. -/
def Server.Notice.IsPlain : Server.Notice → Prop
  | .configured _ => False
  | .filesChanged _ => False
  | _ => True

/-- An event by which documents come, change and go, or are linted. -/
def HostEvent.IsPlain : HostEvent → Prop
  | .starts call => call.IsPlain
  | .waits calls => ∀ call ∈ calls, call.IsPlain
  | .configures _ => False
  | .notices notice => notice.IsPlain
  | _ => True

namespace Desk

def lintInputs (d : Desk) : LintInputs where
  files := d.files
  workspace := d.workspace
  settings := d.settings
  engine := d.engine
  resolver := d.resolver
  gate := d.gate
  epoch := d.ignores.epoch

/-- A change for a task that leaves the inputs of lints alone. -/
structure SameInputs (task : Nat) (d d' : Desk) : Prop where
  lintInputs : d'.lintInputs = d.lintInputs
  outcomes : ∀ other ≠ task, d'.outcome? other = d.outcome? other
  held : ∀ {other a}, d'.Holds other a → d.Holds other a ∨ a.isPlain = true

/-- An effect that leaves the inputs of lints alone, and plain work to its task. -/
structure PlainEffect (task : Nat) (d : Desk) (e : Effect) : Prop where
  desk : SameInputs task d e.desk
  next : ∀ b ∈ e.next, b.isPlain = true

variable {task : Nat} {d d' : Desk}

theorem SameInputs.refl (d : Desk) : SameInputs task d d :=
  ⟨rfl, fun _ _ => rfl, fun h => .inl h⟩

theorem SameInputs.trans {d₁ : Desk} (h : SameInputs task d d₁) (h' : SameInputs task d₁ d') :
    SameInputs task d d' where
  lintInputs := h'.lintInputs.trans h.lintInputs
  outcomes other hother := (h'.outcomes other hother).trans (h.outcomes other hother)
  held hholds := by
    rcases h'.held hholds with hholds | hplain
    · exact h.held hholds
    · exact .inr hplain

/-- A change by which tasks may go, and none comes. -/
theorem SameInputs.of_shrink (hinputs : d'.lintInputs = d.lintInputs)
    (houtcomes : d'.outcomes = d.outcomes)
    (hagenda : ∀ {other agenda}, d'.agenda? other = some agenda → d.agenda? other = some agenda) :
    SameInputs task d d' where
  lintInputs := hinputs
  outcomes other _ := congrArg (List.lookup other) houtcomes
  held := fun ⟨agenda, hsome, ha⟩ => .inl ⟨agenda, hagenda hsome, ha⟩

theorem SameInputs.of_same (hinputs : d'.lintInputs = d.lintInputs)
    (houtcomes : d'.outcomes = d.outcomes) (htasks : d'.tasks = d.tasks) : SameInputs task d d' :=
  .of_shrink hinputs houtcomes fun hsome => (congrArg (List.lookup _) htasks).symm.trans hsome

theorem PlainEffect.after_sameInputs {d₁ : Desk} {e : Effect} (h : PlainEffect task d₁ e)
    (hs : SameInputs task d d₁) : PlainEffect task d e :=
  ⟨hs.trans h.desk, h.next⟩

/-- The task has come to its end. -/
theorem PlainEffect.of_sameInputs {e : Effect} (h : SameInputs task d e.desk) (hn : e.next = []) :
    PlainEffect task d e :=
  ⟨h, by simp [hn]⟩

/-! ### Tasks -/

theorem sameInputs_append (d : Desk) (joined : Nat) {agenda : List Action}
    (h : ∀ a ∈ agenda, a.isPlain = true) :
    SameInputs task d { d with tasks := d.tasks ++ [(joined, agenda)] } := by
  refine ⟨rfl, fun _ _ => rfl, ?_⟩
  rintro other a ⟨found, hsome, ha⟩
  rw [agenda?_append] at hsome
  rcases agenda?_of_join hsome with hold | ⟨-, rfl⟩
  · exact .inl ⟨found, hold, ha⟩
  · exact .inr (h a ha)

theorem sameInputs_spawn (d : Desk) {agenda : List Action} (h : ∀ a ∈ agenda, a.isPlain = true) :
    SameInputs task d (d.spawn agenda).2 :=
  (sameInputs_append d d.nextTask h).trans (.of_same rfl rfl rfl)

theorem sameInputs_start (d : Desk) {a : Action} (h : a.isPlain = true) :
    SameInputs task d (d.start a) :=
  sameInputs_spawn d (by simpa using h)

theorem sameInputs_abort (d : Desk) (aborted : Nat) : SameInputs task d (d.abort aborted) := by
  refine .of_shrink rfl rfl fun hsome => ?_
  rw [agenda?_abort] at hsome
  split at hsome
  · cases hsome
  · exact hsome

theorem sameInputs_foldl_abort (aborted : List Nat) (d : Desk) :
    SameInputs task d (aborted.foldl abort d) :=
  aborted.foldlRecOn abort (motive := SameInputs task d) (.refl d) fun d' h other _ =>
    h.trans (sameInputs_abort d' other)

theorem sameInputs_wake (d : Desk) (woken : Nat) : SameInputs task d (d.wake woken) :=
  .of_same (field_wake lintInputs (fun _ _ _ => rfl) d woken)
    (field_wake outcomes (fun _ _ _ => rfl) d woken) (field_wake tasks (fun _ _ _ => rfl) d woken)

theorem sameInputs_foldl_wake (woken : List Nat) (d : Desk) :
    SameInputs task d (woken.foldl wake d) :=
  woken.foldlRecOn wake (motive := SameInputs task d) (.refl d) fun d' h other _ =>
    h.trans (sameInputs_wake d' other)

theorem sameInputs_finishTask (d : Desk) (finished : Nat) :
    SameInputs task d (d.finishTask finished) := by
  have hends : SameInputs task d (d.abort finished) := sameInputs_abort d finished
  have hdone : SameInputs task (d.abort finished)
      { d with
        tasks := d.tasks.filter (·.1 ≠ finished)
        running := none
        awaiting := d.awaiting.filter (·.2 ≠ finished) } := .of_same rfl rfl rfl
  unfold finishTask wakeAwaiting
  exact hends.trans (hdone.trans (sameInputs_foldl_wake _ _))

theorem sameInputs_leave (d : Desk) (task : Nat) (o : Outcome) :
    SameInputs task d (d.leave task o) := by
  refine ⟨rfl, fun other hother => ?_, fun h => .inl h⟩
  have hne : (other == task) = false := beq_eq_false_iff_ne.mpr hother
  unfold outcome? leave
  dsimp only
  rw [List.lookup_cons, hne, lookup_filter_ne, if_neg hother]

theorem plainEffect_after (d : Desk) (milliseconds : Nat) {next : List Action}
    (h : ∀ b ∈ next, b.isPlain = true) : PlainEffect task d (d.after task milliseconds next) := by
  unfold after
  split
  · exact ⟨.refl d, h⟩
  · exact ⟨.of_same rfl rfl rfl, h⟩

/-! ### Schedules -/

theorem sameInputs_openPass (d : Desk) (document : Document) :
    SameInputs task d (d.openPass document).2 :=
  .of_same rfl rfl rfl

theorem sameInputs_dropPending (d : Desk) (uri : Url) : SameInputs task d (d.dropPending uri) := by
  have hput : ∀ s, SameInputs task d (d.putSchedule uri s) := fun _ => .of_same rfl rfl rfl
  unfold dropPending
  split
  · exact (hput _).trans (sameInputs_abort _ _)
  · exact .refl d

theorem sameInputs_lintSoon (d : Desk) (document : Document) :
    SameInputs task d (d.lintSoon document) := by
  have hspawn : SameInputs task d (d.spawn [.holdBack document]).2 :=
    sameInputs_spawn d (by simp [Action.isPlain])
  have hput : ∀ s,
      SameInputs task d ((d.spawn [.holdBack document]).2.putSchedule document.uri s) :=
    fun _ => hspawn.trans (.of_same rfl rfl rfl)
  unfold lintSoon
  dsimp only
  split
  · exact (hput _).trans (sameInputs_abort _ _)
  · exact hput _

theorem sameInputs_outdateAll (d : Desk) (cancel : Bool) :
    SameInputs task d (d.outdateAll cancel) := by
  have hrenew : SameInputs task d
      { d with
        schedules := renew cancel d.generation d.schedules
        generation := d.generation + d.schedules.length } := .of_same rfl rfl rfl
  unfold outdateAll
  exact hrenew.trans (sameInputs_foldl_abort _ _)

theorem sameInputs_closeDocument (d : Desk) (uri : Url) :
    SameInputs task d (d.closeDocument uri) := by
  unfold closeDocument
  dsimp only
  split
  · next pending _ => exact (sameInputs_abort d pending).trans (.of_same rfl rfl rfl)
  · exact .of_same rfl rfl rfl

theorem sameInputs_runMode (d : Desk) (uri : Url) : SameInputs task d (d.runMode uri).2 := by
  unfold runMode
  split
  · exact .refl d
  · exact .of_same rfl rfl rfl

theorem plainEffect_startRefresh (d : Desk) : PlainEffect task d d.startRefresh :=
  ⟨(sameInputs_outdateAll d false).trans (.of_same rfl rfl rfl),
    by simp [startRefresh, Action.isPlain]⟩

theorem plainEffect_startEnabling (d : Desk) (enabled : Bool) :
    PlainEffect task d (d.startEnabling enabled) := by
  have hswitch : SameInputs task d ({ d with enabled }.note (.switched enabled)) :=
    .of_same rfl rfl rfl
  unfold startEnabling
  split
  · exact .of_sameInputs (.refl d) rfl
  · dsimp only
    split
    · exact (plainEffect_startRefresh _).after_sameInputs hswitch
    · refine .of_sameInputs ((hswitch.trans (sameInputs_outdateAll _ true)).trans ?_) rfl
      exact .of_same rfl rfl rfl

/-! ### Violations -/

theorem sameInputs_useViolations (d : Desk) (task : Nat) (c : Collection)
    (violations : List Violation) : SameInputs task d (d.useViolations task c violations) := by
  unfold useViolations
  split
  · unfold publish
    dsimp only
    split <;> exact .of_same rfl rfl rfl
  · exact sameInputs_leave d task _
  · exact sameInputs_leave d task _

theorem plainEffect_invoke (d : Desk) (task : Nat) (c : Collection) (config : RuleConfig)
    (ignores : IgnoreSet) (rules : List CustomRule) :
    PlainEffect task d (d.invoke task c config ignores rules) := by
  unfold invoke
  split
  · exact .of_sameInputs (sameInputs_useViolations d task c []) rfl
  · exact ⟨sameInputs_spawn d (by simp [Action.isPlain]), by simp [Action.isPlain]⟩

theorem plainEffect_takeResult (d : Desk) (task : Nat) (c : Collection) (name : String)
    (engineTask : Nat) : PlainEffect task d (d.takeResult task c name engineTask) := by
  have hlog : ∀ log, SameInputs task d { d with log } := fun _ => .of_same rfl rfl rfl
  unfold takeResult
  split
  · exact .of_sameInputs ((hlog _).trans (sameInputs_useViolations _ task c _)) rfl
  · exact ⟨.of_same rfl rfl rfl, by simp [Action.isPlain]⟩

/-! ### Ignore sets -/

/-- A change to the ignore sets, within their epoch. -/
theorem sameInputs_ignores (d : Desk) {ignores : IgnoreCache}
    (h : ignores.epoch = d.ignores.epoch) : SameInputs task d { d with ignores } :=
  .of_same (by simp [lintInputs, h]) rfl rfl

theorem sameInputs_ignoreSet (d : Desk) (c : Collection) : SameInputs task d (d.ignoreSet c).2 := by
  let key : IgnoreKey := ⟨c.folder?.map (·.uri), c.settings.ignoring⟩
  have hget : SameInputs task d { d with ignores := (d.ignores.get key).2 } :=
    sameInputs_ignores d (d.ignores.epoch_get key)
  have hepoch := (d.ignores.get key).2.epoch_reserve key (d.ignores.get key).2.epoch
  unfold ignoreSet
  dsimp only
  split
  · exact hget
  · split
    · split
      · next ignores hreserve =>
          rw [hreserve] at hepoch
          have hreserved := hget.trans (sameInputs_ignores _ hepoch)
          exact hreserved.trans (sameInputs_spawn _ (by simp [Action.isPlain]))
      · next ignores hreserve =>
          rw [hreserve] at hepoch
          exact hget.trans (sameInputs_ignores _ hepoch)
    · exact hget

theorem plainEffect_takeIgnoreFile (d : Desk) (task : Nat) (key : IgnoreKey) (epoch : Nat)
    (path : Path) : PlainEffect task d (d.takeCall task (.ignoreFile key epoch path)) := by
  unfold takeCall
  dsimp only
  split
  · next predicate _ =>
      have hepoch := d.ignores.epoch_append key epoch predicate
      split
      · next ignores happend =>
          rw [happend] at hepoch
          exact (plainEffect_startRefresh _).after_sameInputs (sameInputs_ignores d hepoch)
      · next ignores happend =>
          rw [happend] at hepoch
          exact .of_sameInputs (sameInputs_ignores d hepoch) rfl
  · exact .of_sameInputs (.refl d) rfl
  · exact .of_sameInputs (.of_same rfl rfl rfl) rfl

/-! ### Events -/

theorem sameInputs_putDocument (d : Desk) (document : Document) :
    SameInputs task d (d.putDocument document) := by
  unfold putDocument
  split <;> exact .of_same rfl rfl rfl

theorem sameInputs_didChange (d : Desk) (document : Document) :
    SameInputs task d (d.didChange document) := by
  have hmode : SameInputs task d _ := sameInputs_runMode d document.uri
  unfold didChange
  split
  · next heq =>
      rw [heq] at hmode
      exact hmode.trans (sameInputs_lintSoon _ document)
  · next heq =>
      rw [heq] at hmode
      exact hmode

theorem sameInputs_cursorMoved (d : Desk) (document : Document) :
    SameInputs task d (d.cursorMoved document) := by
  unfold cursorMoved
  split
  · exact sameInputs_lintSoon d document
  · exact .refl d

theorem NoticeSpec.sameInputs {notice : Server.Notice} (hn : NoticeSpec d notice d')
    (h : notice.IsPlain) : SameInputs task d d' := by
  cases hn with
  | idles => exact .refl d
  | opens document => exact (sameInputs_putDocument d document).trans (sameInputs_start _ rfl)
  | edits => exact (sameInputs_putDocument d _).trans (sameInputs_didChange _ _)
  | saves => exact sameInputs_start d rfl
  | savesText => exact (sameInputs_putDocument d _).trans (sameInputs_start _ rfl)
  | closes uri =>
      have hdrop : SameInputs task d (d.dropDocument uri) := .of_same rfl rfl rfl
      exact hdrop.trans (sameInputs_closeDocument _ uri)
  | configures settings => cases h
  | invalidates uris => cases h
  | @moves uri line document _ =>
      have hcursor : SameInputs task d { d with cursor := some (uri, line) } := .of_same rfl rfl rfl
      exact hcursor.trans (sameInputs_cursorMoved _ document)
  | points => exact .of_same rfl rfl rfl

theorem sameInputs_event (d : Desk) {e : HostEvent} (h : e.IsPlain) :
    SameInputs task d (e.apply d) := by
  cases e with
  | starts call => exact sameInputs_start d h
  | waits calls =>
      refine sameInputs_append d host fun a ha => ?_
      obtain ⟨call, hcall, rfl⟩ := List.mem_map.mp ha
      exact h call hcall
  | requests document => exact sameInputs_lintSoon d document
  | edits document => exact sameInputs_didChange d document
  | moves document => exact sameInputs_cursorMoved d document
  | shows documents => exact .of_same rfl rfl rfl
  | configures settings => cases h
  | notices notice => exact (notice_spec d notice).sameInputs h

end Desk

end LintDesk
