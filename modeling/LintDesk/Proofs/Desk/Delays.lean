import LintDesk.Proofs.Desk.CurrentPasses

/-! # What leaves delayed lints alone

Only asking for a lint delays one, and only its timer going off starts the pass that was delayed.
All else that an action or an event does keeps timers (`KeepsTimer`): tasks that were there keep
their agendas and their timers or end, tasks that come delay nothing, and the clock stands still.
-/

namespace LintDesk

/-- Whether an action neither delays a lint of a document nor begins the pass that was delayed. -/
def Action.SparesTimer (uri : Url) (a : Action) : Prop :=
  ∀ document, a.delayed? = some document ∨ a = .pass document → document.uri ≠ uri

/-- Whether a notice asks for a delayed lint of a document. -/
def Server.Notice.delays (uri : Url) : Server.Notice → Prop
  | .changed u _ _ => u = uri
  | .cursorMoved u _ => u = uri
  | _ => False

/-- Whether an event asks for a delayed lint of a document. -/
def HostEvent.delays (uri : Url) : HostEvent → Prop
  | .requests document => document.uri = uri
  | .edits document => document.uri = uri
  | .moves document => document.uri = uri
  | .notices notice => notice.delays uri
  | _ => False

namespace Desk

/-- A change that neither delays a lint of a document nor starts the pass that was delayed. The
host's own task is left out. -/
structure KeepsTimer (uri : Url) (d d' : Desk) : Prop where
  clock : d'.clock = d.clock
  nextTask : d.nextTask ≤ d'.nextTask
  older : ∀ {task agenda}, 0 < task → task < d.nextTask → d'.agenda? task = some agenda →
    d.agenda? task = some agenda
  newer : ∀ {task a}, 0 < task → d.nextTask ≤ task → d'.Holds task a →
    d.Holds task a ∨ a.SparesTimer uri
  timers : ∀ {t}, t ∈ d.timers → 0 < t.task → t.task < d.nextTask →
    t ∈ d'.timers ∨ d'.agenda? t.task = none

variable {uri : Url}

theorem KeepsTimer.refl (d : Desk) : KeepsTimer uri d d :=
  ⟨rfl, Nat.le_refl _, fun _ _ h => h, fun _ _ h => .inl h, fun h _ _ => .inl h⟩

theorem KeepsTimer.trans {d d₁ d₂ : Desk} (h : KeepsTimer uri d d₁) (h' : KeepsTimer uri d₁ d₂) :
    KeepsTimer uri d d₂ where
  clock := h'.clock.trans h.clock
  nextTask := Nat.le_trans h.nextTask h'.nextTask
  older hpos hlt hsome :=
    h.older hpos hlt (h'.older hpos (Nat.lt_of_lt_of_le hlt h.nextTask) hsome)
  newer {task a} hpos hle hholds := by
    by_cases hlt : task < d₁.nextTask
    · obtain ⟨agenda, hsome, ha⟩ := hholds
      exact h.newer hpos hle ⟨agenda, h'.older hpos hlt hsome, ha⟩
    · rcases h'.newer hpos (Nat.le_of_not_lt hlt) hholds with hholds | hspares
      · exact h.newer hpos hle hholds
      · exact .inr hspares
  timers {t} ht hpos hlt := by
    have hlt' : t.task < d₁.nextTask := Nat.lt_of_lt_of_le hlt h.nextTask
    rcases h.timers ht hpos hlt with ht | hnone
    · exact h'.timers ht hpos hlt'
    · refine .inr (Option.eq_none_iff_forall_ne_some.mpr fun agenda hsome => ?_)
      have hbefore := h'.older hpos hlt' hsome
      rw [hnone] at hbefore
      cases hbefore

/-- A change by which tasks may go, with their timers, and none comes. -/
theorem KeepsTimer.of_shrink {d d' : Desk} (hclock : d'.clock = d.clock)
    (hnext : d'.nextTask = d.nextTask)
    (hagenda : ∀ {task agenda}, d'.agenda? task = some agenda → d.agenda? task = some agenda)
    (htimers : ∀ t ∈ d.timers, t ∈ d'.timers ∨ d'.agenda? t.task = none) : KeepsTimer uri d d' where
  clock := hclock
  nextTask := Nat.le_of_eq hnext.symm
  older _ _ hsome := hagenda hsome
  newer _ _ := fun ⟨agenda, hsome, ha⟩ => .inl ⟨agenda, hagenda hsome, ha⟩
  timers ht _ _ := htimers _ ht

/-- A change of what has to do with neither tasks nor time. -/
theorem KeepsTimer.of_same {d d' : Desk} (hclock : d'.clock = d.clock)
    (hnext : d'.nextTask = d.nextTask) (htasks : d'.tasks = d.tasks)
    (htimers : d'.timers = d.timers) : KeepsTimer uri d d' :=
  .of_shrink hclock hnext (fun hsome => (congrArg (List.lookup _) htasks).symm.trans hsome)
    fun _ ht => .inl (htimers ▸ ht)

/-- Before a change that keeps timers, something else is changed than tasks and time. -/
theorem KeepsTimer.after_same {d d₁ d' : Desk} (h : KeepsTimer uri d₁ d')
    (hclock : d₁.clock = d.clock) (hnext : d₁.nextTask = d.nextTask) (htasks : d₁.tasks = d.tasks)
    (htimers : d₁.timers = d.timers) : KeepsTimer uri d d' :=
  (KeepsTimer.of_same hclock hnext htasks htimers).trans h

/-! ### Tasks and timers -/

theorem keepsTimer_spawn (d : Desk) {agenda : List Action} (h : ∀ a ∈ agenda, a.SparesTimer uri) :
    KeepsTimer uri d (d.spawn agenda).2 := by
  refine ⟨rfl, Nat.le_succ _, fun _ hlt hsome => ?_, ?_, fun ht _ _ => .inl ht⟩
  · rwa [agenda?_spawn, if_neg (Nat.ne_of_lt hlt), Option.or_none] at hsome
  · rintro task a - - ⟨found, hsome, ha⟩
    rw [agenda?_spawn] at hsome
    rcases agenda?_of_join hsome with hsome | ⟨-, rfl⟩
    · exact .inl ⟨found, hsome, ha⟩
    · exact .inr (h a ha)

theorem agenda?_of_abort {d : Desk} {aborted task : Nat} {agenda : List Action}
    (h : (d.abort aborted).agenda? task = some agenda) : d.agenda? task = some agenda := by
  rw [agenda?_abort] at h
  split at h
  · cases h
  · exact h

theorem keepsTimer_abort (d : Desk) (aborted : Nat) : KeepsTimer uri d (d.abort aborted) := by
  refine .of_shrink rfl rfl agenda?_of_abort fun t ht => ?_
  by_cases heq : t.task = aborted
  · exact .inr (by rw [agenda?_abort, if_pos heq])
  · exact .inl (List.mem_filter.mpr ⟨ht, by simpa using heq⟩)

theorem keepsTimer_foldl_abort (aborted : List Nat) (d : Desk) :
    KeepsTimer uri d (aborted.foldl abort d) :=
  aborted.foldlRecOn abort (motive := KeepsTimer uri d) (.refl d) fun d' h task _ =>
    h.trans (keepsTimer_abort d' task)

theorem keepsTimer_wake (d : Desk) (task : Nat) : KeepsTimer uri d (d.wake task) :=
  .of_same (field_wake clock (fun _ _ _ => rfl) d task)
    (field_wake nextTask (fun _ _ _ => rfl) d task)
    (field_wake Desk.tasks (fun _ _ _ => rfl) d task)
    (field_wake timers (fun _ _ _ => rfl) d task)

theorem keepsTimer_foldl_wake (woken : List Nat) (d : Desk) :
    KeepsTimer uri d (woken.foldl wake d) :=
  woken.foldlRecOn wake (motive := KeepsTimer uri d) (.refl d) fun d' h task _ =>
    h.trans (keepsTimer_wake d' task)

theorem keepsTimer_finishTask (d : Desk) (task : Nat) : KeepsTimer uri d (d.finishTask task) := by
  have hends : KeepsTimer uri d { d with tasks := d.tasks.filter (·.1 ≠ task), running := none } :=
    .of_shrink rfl rfl agenda?_of_abort fun _ ht => .inl ht
  unfold finishTask wakeAwaiting
  exact hends.trans ((keepsTimer_foldl_wake _ _).after_same rfl rfl rfl rfl)

theorem keepsTimer_after (d : Desk) (task milliseconds : Nat) (next : List Action) :
    KeepsTimer uri d (d.after task milliseconds next).desk := by
  unfold after
  split
  · exact .refl d
  · exact .of_shrink rfl rfl id fun _ ht => .inl (List.mem_append_left _ ht)

/-! ### Schedules -/

theorem keepsTimer_dropPending (d : Desk) (dropped : Url) :
    KeepsTimer uri d (d.dropPending dropped) := by
  unfold dropPending
  split
  · exact (keepsTimer_abort _ _).after_same rfl rfl rfl rfl
  · exact .refl d

theorem keepsTimer_outdateAll (d : Desk) (cancel : Bool) :
    KeepsTimer uri d (d.outdateAll cancel) := by
  unfold outdateAll
  exact (keepsTimer_foldl_abort _ _).after_same rfl rfl rfl rfl

theorem keepsTimer_clearAll (d : Desk) : KeepsTimer uri d d.clearAll :=
  (keepsTimer_outdateAll d false).trans (.of_same rfl rfl rfl rfl)

theorem keepsTimer_closeDocument (d : Desk) (closed : Url) :
    KeepsTimer uri d (d.closeDocument closed) := by
  unfold closeDocument
  dsimp only
  split
  · next task _ => exact (keepsTimer_abort d task).trans (.of_same rfl rfl rfl rfl)
  · exact .of_same rfl rfl rfl rfl

/-- To delay lints of other documents keeps the timer of a document. -/
theorem keepsTimer_lintSoon (d : Desk) {document : Document} (h : document.uri ≠ uri) :
    KeepsTimer uri d (d.lintSoon document) := by
  have hspawn : KeepsTimer uri d (d.spawn [.holdBack document]).2 :=
    keepsTimer_spawn d (by simpa [Action.SparesTimer, Action.delayed?] using h)
  unfold lintSoon
  dsimp only
  split
  · exact hspawn.trans ((keepsTimer_abort _ _).after_same rfl rfl rfl rfl)
  · exact hspawn.trans (.of_same rfl rfl rfl rfl)

theorem keepsTimer_runMode (d : Desk) (u : Url) : KeepsTimer uri d (d.runMode u).2 := by
  unfold runMode
  split
  · exact .refl d
  · exact .of_same rfl rfl rfl rfl

theorem keepsTimer_putGate (d : Desk) (task : Nat) (g : Gate) :
    KeepsTimer uri d (d.putGate task g) := by
  unfold putGate
  dsimp only
  split
  · split
    · exact (keepsTimer_wake _ _).after_same rfl rfl rfl rfl
    · exact .of_same rfl rfl rfl rfl
  · exact .of_same rfl rfl rfl rfl

/-! ### Actions -/

/-- The task itself is left nothing to do that delays lints of the document. -/
structure KeepsTimerEffect (uri : Url) (d : Desk) (e : Effect) : Prop where
  desk : KeepsTimer uri d e.desk
  next : ∀ b ∈ e.next, b.SparesTimer uri

theorem KeepsTimerEffect.after_keepsTimer {d d₁ : Desk} {e : Effect} (h : KeepsTimerEffect uri d₁ e)
    (hc : KeepsTimer uri d d₁) : KeepsTimerEffect uri d e :=
  ⟨hc.trans h.desk, h.next⟩

theorem KeepsTimerEffect.of_keepsTimer {d : Desk} {e : Effect} (h : KeepsTimer uri d e.desk)
    (hn : e.next = []) : KeepsTimerEffect uri d e :=
  ⟨h, by simp [hn]⟩

theorem sparesTimer_of_ne {a : Action} (hd : a.delayed? = none)
    (hp : ∀ document, a ≠ .pass document) : a.SparesTimer uri := by
  rintro document (h | h)
  · rw [hd] at h
    cases h
  · exact absurd h (hp document)

theorem keepsTimerEffect_after (d : Desk) (task milliseconds : Nat) {b : Action}
    (h : b.SparesTimer uri) : KeepsTimerEffect uri d (d.after task milliseconds [b]) :=
  ⟨keepsTimer_after d task milliseconds [b], by simpa using h⟩

theorem keepsTimer_useViolations (d : Desk) (task : Nat) (c : Collection)
    (violations : List Violation) : KeepsTimer uri d (d.useViolations task c violations) := by
  unfold useViolations
  split
  · unfold publish
    dsimp only
    split <;> exact .of_same rfl rfl rfl rfl
  · exact .of_same rfl rfl rfl rfl
  · exact .of_same rfl rfl rfl rfl

theorem keepsTimerEffect_invoke (d : Desk) (task : Nat) (c : Collection) (config : RuleConfig)
    (ignores : IgnoreSet) (rules : List CustomRule) :
    KeepsTimerEffect uri d (d.invoke task c config ignores rules) := by
  unfold invoke
  split
  · exact .of_keepsTimer (keepsTimer_useViolations d task c []) rfl
  · refine ⟨keepsTimer_spawn d ?_, ?_⟩
    · simpa using sparesTimer_of_ne rfl (by simp)
    · simpa using sparesTimer_of_ne rfl (by simp)

theorem keepsTimerEffect_takeResult (d : Desk) (task : Nat) (c : Collection) (name : String)
    (engineTask : Nat) : KeepsTimerEffect uri d (d.takeResult task c name engineTask) := by
  unfold takeResult
  split
  · exact .of_keepsTimer ((keepsTimer_useViolations _ task c _).after_same rfl rfl rfl rfl) rfl
  · exact ⟨.of_same rfl rfl rfl rfl, by simpa using sparesTimer_of_ne rfl (by simp)⟩

theorem keepsTimerEffect_followPassage (d : Desk) (task : Nat) (client : RuleClient)
    (r : RuleRequest) (p : Passage) : KeepsTimerEffect uri d (d.followPassage task client r p) := by
  cases p with
  | queued => exact ⟨.refl d, by simpa [followPassage] using sparesTimer_of_ne rfl (by simp)⟩
  | asking epoch =>
      have hnext : (Action.answer client r epoch).SparesTimer uri := sparesTimer_of_ne rfl (by simp)
      exact (keepsTimerEffect_after _ task d.promptDelay hnext).after_keepsTimer
        (.of_same rfl rfl rfl rfl)
  | loading epoch holds left rules =>
      exact ⟨.refl d, by simpa [followPassage] using sparesTimer_of_ne rfl (by simp)⟩
  | done rules =>
      cases client with
      | direct => exact .of_keepsTimer (.of_same rfl rfl rfl rfl) rfl
      | collection c config ignores => exact keepsTimerEffect_invoke d task c config ignores rules

theorem keepsTimerEffect_putGate (d : Desk) (task : Nat) (g : Gate) (client : RuleClient)
    (r : RuleRequest) (p : Passage) :
    KeepsTimerEffect uri d ((d.putGate task g).followPassage task client r p) :=
  (keepsTimerEffect_followPassage _ task client r p).after_keepsTimer (keepsTimer_putGate d task g)

theorem keepsTimerEffect_takeAnswer (d : Desk) (task : Nat) (client : RuleClient) (r : RuleRequest)
    (epoch : Nat) : KeepsTimerEffect uri d (d.takeAnswer task client r epoch) := by
  unfold takeAnswer
  dsimp only
  refine (keepsTimerEffect_putGate _ task _ client r _).after_keepsTimer ?_
  split
  · split <;> exact .of_same rfl rfl rfl rfl
  · exact .of_same rfl rfl rfl rfl

theorem keepsTimer_ignoreSet (d : Desk) (c : Collection) : KeepsTimer uri d (d.ignoreSet c).2 := by
  unfold ignoreSet
  dsimp only
  split
  · exact .of_same rfl rfl rfl rfl
  · split
    · split
      · refine (keepsTimer_spawn _ ?_).after_same rfl rfl rfl rfl
        simpa using sparesTimer_of_ne rfl (by simp)
      · exact .of_same rfl rfl rfl rfl
    · exact .of_same rfl rfl rfl rfl

theorem keepsTimerEffect_followLookup (d : Desk) (task : Nat) (c : Collection) (l : Lookup) :
    KeepsTimerEffect uri d (d.followLookup task c l) := by
  unfold followLookup
  split
  · exact (keepsTimerEffect_putGate _ task _ _ _ _).after_keepsTimer (keepsTimer_ignoreSet d c)
  · exact ⟨.refl d, by simpa using sparesTimer_of_ne rfl (by simp)⟩

theorem keepsTimerEffect_startCollection (d : Desk) (task : Nat) (c : Collection) :
    KeepsTimerEffect uri d (d.startCollection task c) :=
  (keepsTimerEffect_followLookup _ task c _).after_keepsTimer (.of_same rfl rfl rfl rfl)

theorem keepsTimerEffect_startPass (d : Desk) (task : Nat) (document : Document) :
    KeepsTimerEffect uri d (d.startPass task document) := by
  unfold startPass
  dsimp only
  split
  · exact (keepsTimerEffect_startCollection _ task _).after_keepsTimer (.of_same rfl rfl rfl rfl)
  · exact .of_keepsTimer (.of_same rfl rfl rfl rfl) rfl

theorem keepsTimerEffect_lintNow (d : Desk) (task : Nat) (document : Document) :
    KeepsTimerEffect uri d (d.lintNow task document) :=
  (keepsTimerEffect_startPass _ task document).after_keepsTimer
    (keepsTimer_dropPending d document.uri)

theorem keepsTimerEffect_startRefresh (d : Desk) : KeepsTimerEffect uri d d.startRefresh :=
  ⟨keepsTimer_clearAll d, by simpa [startRefresh] using sparesTimer_of_ne rfl (by simp)⟩

theorem keepsTimerEffect_startEnabling (d : Desk) (enabled : Bool) :
    KeepsTimerEffect uri d (d.startEnabling enabled) := by
  unfold startEnabling
  split
  · exact .of_keepsTimer (.refl d) rfl
  · dsimp only
    split
    · exact (keepsTimerEffect_startRefresh _).after_keepsTimer (.of_same rfl rfl rfl rfl)
    · have hoff :
          KeepsTimer uri d (({ d with enabled }.note (.switched enabled)).outdateAll true) :=
        (keepsTimer_outdateAll _ true).after_same rfl rfl rfl rfl
      exact .of_keepsTimer (hoff.trans (.of_same rfl rfl rfl rfl)) rfl

theorem keepsTimerEffect_takeCall (d : Desk) (task : Nat) (w : FileWork) :
    KeepsTimerEffect uri d (d.takeCall task w) := by
  cases w with
  | lookup c l =>
      exact (keepsTimerEffect_followLookup _ task c _).after_keepsTimer (.of_same rfl rfl rfl rfl)
  | rules client r p =>
      exact (keepsTimerEffect_putGate _ task _ client r _).after_keepsTimer
        (.of_same rfl rfl rfl rfl)
  | ignoreFile key epoch path =>
      unfold takeCall
      dsimp only
      split
      · split
        · exact (keepsTimerEffect_startRefresh _).after_keepsTimer (.of_same rfl rfl rfl rfl)
        · exact .of_keepsTimer (.of_same rfl rfl rfl rfl) rfl
      · exact .of_keepsTimer (.refl d) rfl
      · exact .of_keepsTimer (.of_same rfl rfl rfl rfl) rfl

theorem keepsTimerEffect_collect (d : Desk) (task : Nat) (document : Document)
    (purpose : Purpose) : KeepsTimerEffect uri d (d.collect task document purpose) := by
  unfold collect
  dsimp only
  split
  · exact keepsTimerEffect_startCollection d task _
  · exact .of_keepsTimer (keepsTimer_useViolations d task _ []) rfl

theorem keepsTimerEffect_makeCall (d : Desk) (task : Nat) (w : FileWork) :
    KeepsTimerEffect uri d (d.makeCall task w) := by
  have hw : (Action.take w).SparesTimer uri := sparesTimer_of_ne rfl (by simp)
  unfold makeCall
  split
  · exact (keepsTimerEffect_after _ task _ hw).after_keepsTimer (.of_same rfl rfl rfl rfl)
  · exact ⟨.refl d, by simpa using hw⟩

theorem keepsTimerEffect_save (d : Desk) (task : Nat) (document : Document) :
    KeepsTimerEffect uri d (d.act task (.save document)) := by
  have hmode : KeepsTimer uri d (d.runMode document.uri).2 := keepsTimer_runMode d document.uri
  unfold act
  dsimp only
  split
  · next heq =>
      rw [heq] at hmode
      exact (keepsTimerEffect_lintNow _ task document).after_keepsTimer hmode
  · next heq =>
      rw [heq] at hmode
      exact .of_keepsTimer hmode rfl

theorem keepsTimerEffect_lintVisible (d : Desk) (task : Nat) :
    KeepsTimerEffect uri d (d.act task .lintVisible) := by
  refine ⟨.refl d, fun b hb => ?_⟩
  obtain ⟨document, -, rfl⟩ := List.mem_map.mp hb
  exact sparesTimer_of_ne rfl (by simp)

theorem keepsTimerEffect_await (d : Desk) (task other : Nat) :
    KeepsTimerEffect uri d (d.act task (.await other)) := by
  unfold act
  dsimp only
  split
  · exact ⟨.of_same rfl rfl rfl rfl, by simpa using sparesTimer_of_ne rfl (by simp)⟩
  · exact .of_keepsTimer (.refl d) rfl

/-- An action that delays no lint of a document keeps its timer. -/
theorem keepsTimerEffect_act (d : Desk) (task : Nat) {a : Action}
    (ha : ∀ document, a.delayed? = some document → document.uri ≠ uri) :
    KeepsTimerEffect uri d (d.act task a) := by
  cases a with
  | lint document => exact keepsTimerEffect_lintNow d task document
  | pass document => exact keepsTimerEffect_startPass d task document
  | collect document purpose => exact keepsTimerEffect_collect d task document purpose
  | ask w => exact keepsTimerEffect_makeCall d task w
  | take w => exact keepsTimerEffect_takeCall d task w
  | request client r => exact keepsTimerEffect_putGate d task _ client r _
  | takeTurn client r => exact keepsTimerEffect_putGate d task _ client r _
  | answer client r epoch => exact keepsTimerEffect_takeAnswer d task client r epoch
  | evaluate r =>
      have hnext : (Action.conclude r d.engine).SparesTimer uri := sparesTimer_of_ne rfl (by simp)
      exact (keepsTimerEffect_after _ task _ hnext).after_keepsTimer (.of_same rfl rfl rfl rfl)
  | conclude r e => exact .of_keepsTimer (.of_same rfl rfl rfl rfl) rfl
  | collectResult c name engineTask => exact keepsTimerEffect_takeResult d task c name engineTask
  | holdBack document =>
      refine keepsTimerEffect_after d task quietTime ?_
      simpa [Action.SparesTimer, Action.delayed?] using ha document rfl
  | fire document =>
      refine .of_keepsTimer (keepsTimer_spawn d ?_) rfl
      simpa [Action.SparesTimer, Action.delayed?] using ha document rfl
  | save document => exact keepsTimerEffect_save d task document
  | refresh => exact keepsTimerEffect_startRefresh d
  | lintVisible => exact keepsTimerEffect_lintVisible d task
  | startOver => exact (keepsTimerEffect_startRefresh _).after_keepsTimer (.of_same rfl rfl rfl rfl)
  | setEnabled enabled => exact keepsTimerEffect_startEnabling d enabled
  | toggle => exact (keepsTimerEffect_startEnabling _ _).after_keepsTimer (.of_same rfl rfl rfl rfl)
  | close closed => exact .of_keepsTimer (keepsTimer_closeDocument d closed) rfl
  | sleep milliseconds => exact ⟨keepsTimer_after d task milliseconds [], by simp [act]⟩
  | await other => exact keepsTimerEffect_await d task other

/-! ### Events -/

theorem sparesTimer_action (call : Call) : call.action.SparesTimer uri :=
  sparesTimer_of_ne (by simp) (by cases call <;> simp [Call.action])

theorem keepsTimer_start (d : Desk) {a : Action} (h : a.SparesTimer uri) :
    KeepsTimer uri d (d.start a) :=
  keepsTimer_spawn d (by simpa using h)

theorem keepsTimer_wait (d : Desk) (agenda : List Action) :
    KeepsTimer uri d { d with tasks := d.tasks ++ [(host, agenda)] } := by
  have hagenda : ∀ {task}, 0 < task →
      { d with tasks := d.tasks ++ [(host, agenda)] }.agenda? task = d.agenda? task := by
    intro task hpos
    have hne : task ≠ host := Nat.ne_of_gt hpos
    rw [agenda?_append, if_neg hne, Option.or_none]
  refine ⟨rfl, Nat.le_refl _, fun hpos _ hsome => (hagenda hpos).symm.trans hsome, ?_,
    fun ht _ _ => .inl ht⟩
  rintro task a hpos - ⟨found, hsome, ha⟩
  exact .inl ⟨found, (hagenda hpos).symm.trans hsome, ha⟩

theorem keepsTimer_putDocument (d : Desk) (document : Document) :
    KeepsTimer uri d (d.putDocument document) := by
  unfold putDocument
  split <;> exact .of_same rfl rfl rfl rfl

theorem keepsTimer_didChange (d : Desk) {document : Document} (h : document.uri ≠ uri) :
    KeepsTimer uri d (d.didChange document) := by
  have hmode : KeepsTimer uri d (d.runMode document.uri).2 := keepsTimer_runMode d document.uri
  unfold didChange
  split
  · next heq =>
      rw [heq] at hmode
      exact hmode.trans (keepsTimer_lintSoon _ h)
  · next heq =>
      rw [heq] at hmode
      exact hmode

theorem keepsTimer_cursorMoved (d : Desk) {document : Document} (h : document.uri ≠ uri) :
    KeepsTimer uri d (d.cursorMoved document) := by
  unfold cursorMoved
  split
  · exact keepsTimer_lintSoon d h
  · exact .refl d

theorem keepsTimer_restart (d : Desk) :
    KeepsTimer uri d (d.forgetAll.clearAll.start .lintVisible) :=
  have hstart := keepsTimer_start d.forgetAll.clearAll (a := .lintVisible)
    (sparesTimer_of_ne rfl (by simp))
  ((keepsTimer_clearAll d.forgetAll).trans hstart).after_same rfl rfl rfl rfl

theorem NoticeSpec.keepsTimer {d d' : Desk} {notice : Server.Notice} (hn : NoticeSpec d notice d')
    (h : ¬notice.delays uri) : KeepsTimer uri d d' := by
  have hlint : ∀ document, (Action.lint document).SparesTimer uri :=
    fun _ => sparesTimer_of_ne rfl (by simp)
  have hsave : ∀ document, (Action.save document).SparesTimer uri :=
    fun _ => sparesTimer_of_ne rfl (by simp)
  cases hn with
  | idles => exact .refl d
  | opens document =>
      exact (keepsTimer_putDocument d document).trans (keepsTimer_start _ (hlint document))
  | edits hs _ =>
      exact (keepsTimer_putDocument d _).trans
        (keepsTimer_didChange _ fun hu => h ((notice_names hs).trans hu))
  | saves => exact keepsTimer_start d (hsave _)
  | savesText => exact (keepsTimer_putDocument d _).trans (keepsTimer_start _ (hsave _))
  | closes u => exact (keepsTimer_closeDocument (d.dropDocument u) u).after_same rfl rfl rfl rfl
  | configures settings => exact (keepsTimer_restart _).after_same rfl rfl rfl rfl
  | invalidates uris => exact keepsTimer_restart d
  | moves hs =>
      refine (keepsTimer_cursorMoved _ fun hu => h ?_).after_same rfl rfl rfl rfl
      exact (document?_uri hs).symm.trans hu
  | points => exact .of_same rfl rfl rfl rfl

/-- An event that asks for no delayed lint of a document keeps its timer. -/
theorem keepsTimer_event (d : Desk) {e : HostEvent} (h : ¬e.delays uri) :
    KeepsTimer uri d (e.apply d) := by
  cases e with
  | starts call => exact keepsTimer_start d (sparesTimer_action call)
  | waits calls => exact keepsTimer_wait d _
  | requests document => exact keepsTimer_lintSoon d h
  | edits document => exact keepsTimer_didChange d h
  | moves document => exact keepsTimer_cursorMoved d h
  | shows documents => exact .of_same rfl rfl rfl rfl
  | configures settings => exact .of_same rfl rfl rfl rfl
  | notices notice => exact (notice_spec d notice).keepsTimer h

end Desk

end LintDesk
