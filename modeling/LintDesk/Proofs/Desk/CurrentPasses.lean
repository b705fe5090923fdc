import LintDesk.Proofs.Desk.Timers

/-! # Only current passes publish

In every interleaving, a pass that publishes is the last one of its document, nothing has made it
outdated since it was begun, and linting is on (`published_isCurrent`).
-/

namespace LintDesk.Desk

/-- What every change leaves as it was: the agendas of older tasks unless they end, older timers
unless they are dropped, and the history so far. Generations only grow. -/
structure Extends (d d' : Desk) : Prop where
  agenda : ∀ {task agenda}, task < d.nextTask → d'.agenda? task = some agenda →
    d.agenda? task = some agenda
  pending : ∀ {uri task}, task < d.nextTask → d'.pending? uri = some task →
    d.pending? uri = some task
  nextTask : d.nextTask ≤ d'.nextTask
  generation : d.generation ≤ d'.generation
  history : d.history <+: d'.history

theorem Extends.refl (d : Desk) : Extends d d :=
  ⟨fun _ h => h, fun _ h => h, Nat.le_refl _, Nat.le_refl _, List.prefix_rfl⟩

theorem Extends.trans {d d₁ d₂ : Desk} (h : Extends d d₁) (h' : Extends d₁ d₂) :
    Extends d d₂ where
  agenda ht hsome := h.agenda ht (h'.agenda (Nat.lt_of_lt_of_le ht h.nextTask) hsome)
  pending ht hsome := h.pending ht (h'.pending (Nat.lt_of_lt_of_le ht h.nextTask) hsome)
  nextTask := Nat.le_trans h.nextTask h'.nextTask
  generation := Nat.le_trans h.generation h'.generation
  history := h.history.trans h'.history

/-- A change that keeps the tasks and all timers. -/
theorem Extends.of_agendas {d d' : Desk} (hagenda : ∀ task, d'.agenda? task = d.agenda? task)
    (hpending : ∀ uri, d'.pending? uri = d.pending? uri) (hnext : d'.nextTask = d.nextTask)
    (hgeneration : d.generation ≤ d'.generation) (hhistory : d.history <+: d'.history) :
    Extends d d' where
  agenda _ hsome := hagenda _ ▸ hsome
  pending _ hsome := hpending _ ▸ hsome
  nextTask := Nat.le_of_eq hnext.symm
  generation := hgeneration
  history := hhistory

/-- A change that drops the timer of a document, with its task. -/
theorem Extends.of_dropped {d d' : Desk} (dropped : Url)
    (hagenda : ∀ task, d'.agenda? task =
      if d.pending? dropped = some task then none else d.agenda? task)
    (hpending : ∀ uri, d'.pending? uri = if uri = dropped then none else d.pending? uri)
    (hnext : d'.nextTask = d.nextTask) (hgeneration : d'.generation = d.generation)
    (hhistory : d.history <+: d'.history) : Extends d d' where
  agenda {task _} _ hsome := by
    rw [hagenda] at hsome
    split at hsome
    · cases hsome
    · exact hsome
  pending {uri _} _ hsome := by
    rw [hpending] at hsome
    split at hsome
    · cases hsome
    · exact hsome
  nextTask := Nat.le_of_eq hnext.symm
  generation := Nat.le_of_eq hgeneration.symm
  history := hhistory

/-! ### What single changes leave as it was -/

theorem Extends.of_passState {d d' : Desk} (h : d'.passState = d.passState) : Extends d d' := by
  have hhistory : d'.history = d.history := congrArg PassState.history h
  have hgeneration : d'.generation = d.generation := congrArg PassState.generation h
  exact .of_agendas (agenda?_congr h) (pending?_congr h) (congrArg PassState.nextTask h)
    (Nat.le_of_eq hgeneration.symm) (hhistory ▸ List.prefix_rfl)

section Changes

variable (d : Desk)

theorem spawn_extends (agenda : List Action) : Extends d (d.spawn agenda).2 := by
  refine ⟨fun ht hsome => ?_, fun _ h => h, Nat.le_succ _, Nat.le_refl _, List.prefix_rfl⟩
  rwa [agenda?_spawn, if_neg (Nat.ne_of_lt ht), Option.or_none] at hsome

theorem openPass_extends (document : Document) : Extends d (d.openPass document).2 :=
  .of_agendas (fun _ => rfl) (pending?_openPass d document) rfl (Nat.le_succ _)
    (List.prefix_append _ _)

theorem dropPending_extends (uri : Url) : Extends d (d.dropPending uri) := by
  obtain ⟨schedules, tasks, ready, timers, heq⟩ := dropPending_eq d uri
  have hhistory : (d.dropPending uri).history = d.history := by rw [heq]
  refine .of_dropped uri (agenda?_dropPending d uri) (pending?_dropPending d uri) ?_ ?_
    (hhistory ▸ List.prefix_rfl)
  · rw [heq]
  · rw [heq]

/-- The lint that was delayed before ends, and the one that comes is a new task. -/
theorem lintSoon_extends (document : Document) : Extends d (d.lintSoon document) := by
  obtain ⟨tasks, ready, timers, heq⟩ := lintSoon_eq d document
  refine ⟨fun ht hsome => ?_, fun ht hsome => ?_, ?_, ?_, ?_⟩
  · rcases agenda?_lintSoon_cases hsome with ⟨-, hold⟩ | ⟨rfl, -⟩
    · exact hold
    · exact absurd ht (Nat.lt_irrefl _)
  · rw [pending?_lintSoon] at hsome
    split at hsome
    · cases hsome
      exact absurd ht (Nat.lt_irrefl _)
    · exact hsome
  · rw [heq]
    exact Nat.le_succ _
  · rw [heq]
    exact Nat.le_refl _
  · rw [heq]
    exact List.prefix_rfl

theorem publish_extends (c : Collection) (generation : Nat) (violations : List Violation) :
    Extends d (d.publish c generation violations) := by
  unfold Desk.publish
  dsimp only
  split
  · exact .of_agendas (fun _ => rfl) (fun _ => rfl) rfl (Nat.le_refl _) (List.prefix_append _ _)
  · exact .refl d

theorem clearAll_extends : Extends d d.clearAll :=
  .of_agendas (fun _ => rfl) (pending?_clearAll d) rfl (Nat.le_add_right _ _)
    (List.prefix_append _ _)

theorem switch_extends (enabled : Bool) :
    Extends d ({ d with enabled }.note (.switched enabled)) :=
  .of_agendas (fun _ => rfl) (fun _ => rfl) rfl (Nat.le_refl _) (List.prefix_append _ _)

/-- Every delayed lint is dropped. -/
theorem outdateAll_extends : Extends d (d.outdateAll true) := by
  obtain ⟨tasks, ready, timers, heq⟩ := outdateAll_eq d true
  refine ⟨fun _ h => (agenda?_outdateAll_true h).1, fun {uri task} _ h => ?_, ?_, ?_, ?_⟩
  · rw [pending?_outdateAll] at h
    cases h
  · exact Nat.le_of_eq (congrArg Desk.nextTask heq).symm
  · rw [heq]
    exact Nat.le_add_right _ _
  · exact (congrArg Desk.history heq).symm ▸ List.prefix_rfl

theorem closeDocument_extends (uri : Url) : Extends d (d.closeDocument uri) := by
  obtain ⟨tasks, ready, timers, heq⟩ := closeDocument_eq d uri
  refine .of_dropped uri (agenda?_closeDocument d uri) (pending?_closeDocument d uri) ?_ ?_ ?_
  · rw [heq]
  · rw [heq]
  · rw [heq]
    exact List.prefix_append _ _

end Changes

theorem PassChange.extends {S : Document → Prop} {d d' : Desk} (h : PassChange S d d') :
    Extends d d' := by
  cases h with
  | same hb => exact .of_passState hb
  | spawns agenda _ _ => exact spawn_extends d agenda
  | opens document _ => exact openPass_extends d document
  | drops uri => exact dropPending_extends d uri
  | delays document _ => exact lintSoon_extends d document
  | publishes c generation violations _ => exact publish_extends d c generation violations
  | clears => exact clearAll_extends d
  | enables => exact (switch_extends d true).trans (clearAll_extends _)
  | disables =>
      exact ((switch_extends d false).trans (outdateAll_extends _)).trans
        (.of_agendas (fun _ => rfl) (fun _ => rfl) rfl (Nat.le_refl _) List.prefix_rfl)
  | closes uri => exact closeDocument_extends d uri

theorem HostChange.extends {S : Document → Prop} {d d' : Desk} (h : HostChange S d d') :
    Extends d d' := by
  cases h with
  | passChange ht => exact ht.extends
  | shows documents _ =>
      exact .of_agendas (fun _ => rfl) (fun _ => rfl) rfl (Nat.le_refl _) List.prefix_rfl
  | configures settings =>
      exact .of_agendas (fun _ => rfl) (fun _ => rfl) rfl (Nat.le_refl _) List.prefix_rfl

theorem HostChanges.extends {S : Document → Prop} {d d' : Desk} (h : HostChanges S d d') :
    Extends d d' := by
  induction h with
  | refl => exact .refl d
  | tail _ hs ih => exact ih.trans hs.extends

theorem PassChanges.extends {S : Document → Prop} {d d' : Desk} (h : PassChanges S d d') :
    Extends d d' :=
  h.hostChanges.extends

/-! ### One action -/

/-- The invariant of all runs. -/
structure Sound (d : Desk) : Prop where
  passesOrdered : d.PassesOrdered
  timersMatch : d.TimersMatch

theorem IsFresh.sound {d : Desk} (h : d.IsFresh) : d.Sound :=
  ⟨h.passesOrdered, h.timersMatch⟩

theorem Sound.hostChange {S : Document → Prop} {d d' : Desk} (h : d.Sound)
    (hs : HostChange S d d') : d'.Sound := by
  have htimersMatch := h.timersMatch
  cases hs with
  | passChange ht => exact ⟨h.passesOrdered.passChange ht, htimersMatch.passChange ht⟩
  | shows documents _ =>
      exact ⟨h.passesOrdered.congr (fun _ _ hg => .inl hg) rfl rfl rfl rfl, htimersMatch.task_lt,
        htimersMatch.pending_lt, htimersMatch.nextTask_pos, htimersMatch.timer, htimersMatch.begun⟩
  | configures settings =>
      exact ⟨h.passesOrdered.congr (fun _ _ hg => .inl hg) rfl rfl rfl rfl, htimersMatch.task_lt,
        htimersMatch.pending_lt, htimersMatch.nextTask_pos, htimersMatch.timer, htimersMatch.begun⟩

theorem Sound.hostChanges {S : Document → Prop} {d d' : Desk} (h : d.Sound)
    (hs : HostChanges S d d') : d'.Sound := by
  induction hs with
  | refl => exact h
  | tail _ hs ih => exact ih.hostChange hs

theorem Sound.passChanges {S : Document → Prop} {d d' : Desk} (h : d.Sound)
    (ht : PassChanges S d d') : d'.Sound :=
  h.hostChanges ht.hostChanges

theorem Sound.of_passState {d d' : Desk} (h : d.Sound) (hb : d'.passState = d.passState) :
    d'.Sound :=
  h.passChanges (PassChanges.of_passState (S := fun _ => False) hb)

theorem snapshot?_of_client? {a : Action} {o : Option Collection} (h : a.client? = some o) :
    a.snapshot? = none ∧ a.delayed? = none := by
  cases a <;> first | exact ⟨rfl, rfl⟩ | cases h

theorem delayed?_of_collects {a : Action} (h : a.collects = true) : a.delayed? = none := by
  cases a <;> first | rfl | cases h

theorem delayed?_of_canRefresh {a : Action} (h : a.canRefresh = true) : a.delayed? = none := by
  cases a <;> first | rfl | cases h

theorem delayed?_of_snapshot? {a : Action} {document : Document} (h : a.snapshot? = some document) :
    a.delayed? = none := by
  cases a <;> first | rfl | cases h

theorem pass?_of_client? {a : Action} {o : Option Collection} (h : a.client? = some o) :
    a.pass? = o.bind Collection.pass? := by
  cases a <;> simp_all [Action.pass?, Action.client?]

theorem CollectSpec.next {o : Option Collection} {d : Desk} {e : Effect} (h : CollectSpec o d e)
    {b : Action} (hb : b ∈ e.next) :
    (b.snapshot? = none ∧ b.delayed? = none) ∧ b.pass? = o.bind Collection.pass? := by
  cases h with
  | goesOn _ hn ha =>
      rw [hn, List.mem_singleton] at hb
      subst hb
      exact ⟨snapshot?_of_client? ha, pass?_of_client? ha⟩
  | ends _ _ hn => simp [hn] at hb
  | publishes _ _ _ hn _ => simp [hn] at hb

theorem Begun.next {d : Desk} {document : Document} {e : Effect} (h : Begun d document e)
    {b : Action} (hb : b ∈ e.next) :
    (b.snapshot? = none ∧ b.delayed? = none) ∧ b.BegunIn e.desk.history := by
  cases h with
  | stops _ _ hn => simp [hn] at hb
  | @collects c hc hs =>
      obtain ⟨hnone, hpass⟩ := hs.next hb
      have hbegun : b.BegunIn (d.openPass document).2.history :=
        fun _ _ hp => began_mem_openPass hc (hpass.symm.trans hp)
      have hpassChanges : PassChanges (fun _ => False) (d.openPass document).2 e.desk :=
        hs.passChanges fun _ _ hp => began_mem_openPass hc hp
      exact ⟨hnone, hbegun.mono fun m hm => hpassChanges.extends.history.subset hm⟩

/-- What comes next delays a lint only if the action before it did. -/
theorem ActSpec.delayed?_next {d : Desk} {a : Action} {e : Effect} (h : ActSpec d a e) {b : Action}
    (hb : b ∈ e.next) : b.delayed? = a.delayed? := by
  cases h with
  | collects ha _ hs => rw [(hs.next hb).1.2, delayed?_of_collects ha]
  | begins ha _ hbegun => rw [(hbegun.next hb).1.2, delayed?_of_snapshot? ha]
  | replaces ha _ hbegun => rw [(hbegun.next hb).1.2, delayed?_of_snapshot? ha]
  | holds _ hn =>
      rw [hn, List.mem_singleton] at hb
      rw [hb]
      rfl
  | fires _ hn => simp [hn] at hb
  | shows _ hn =>
      rw [hn] at hb
      obtain ⟨document, -, rfl⟩ := List.mem_map.mp hb
      rfl
  | refreshes ha _ _ hn =>
      rw [hn, List.mem_singleton] at hb
      rw [hb, delayed?_of_canRefresh ha]
      rfl
  | enables ha _ _ hn =>
      rw [hn, List.mem_singleton] at hb
      rw [hb, delayed?_of_canRefresh ha]
      rfl
  | disables _ _ _ hn => simp [hn] at hb
  | closes _ hn => simp [hn] at hb
  | idles ha _ hn =>
      rw [(plain_of_isAside (hn b hb)).1.1]
      rcases ha with ha | ha | ⟨document, rfl⟩
      · rw [(plain_of_isAside ha).1.1]
      · rw [delayed?_of_canRefresh ha]
      · rfl

/-- What comes next goes on with a pass that was begun. -/
theorem ActSpec.begunIn_next {d : Desk} {a : Action} {e : Effect} (h : ActSpec d a e)
    (hbegun : a.BegunIn d.history) {b : Action} (hb : b ∈ e.next) :
    b.BegunIn e.desk.history := by
  have hextends := (h.passChanges hbegun).extends
  have hnone : b.pass? = none → b.BegunIn e.desk.history := by
    intro hp document generation hsome
    rw [hp] at hsome
    cases hsome
  cases h with
  | collects _ ho hs =>
      have hb' : b.BegunIn d.history := by
        intro document generation hp
        rw [(hs.next hb).2, ← ho] at hp
        exact hbegun document generation hp
      exact hb'.mono fun m hm => hextends.history.subset hm
  | begins _ _ hbegun => exact (hbegun.next hb).2
  | replaces _ _ hbegun => exact (hbegun.next hb).2
  | holds _ hn =>
      rw [hn, List.mem_singleton] at hb
      exact hnone (hb ▸ rfl)
  | fires _ hn => simp [hn] at hb
  | shows _ hn =>
      rw [hn] at hb
      obtain ⟨document, -, rfl⟩ := List.mem_map.mp hb
      exact hnone rfl
  | refreshes _ _ _ hn =>
      rw [hn, List.mem_singleton] at hb
      exact hnone (hb ▸ rfl)
  | enables _ _ _ hn =>
      rw [hn, List.mem_singleton] at hb
      exact hnone (hb ▸ rfl)
  | disables _ _ _ hn => simp [hn] at hb
  | closes _ hn => simp [hn] at hb
  | idles _ _ hn => exact hnone (plain_of_isAside (hn b hb)).1.2

/-- A task does nothing, ends, or does its first action and keeps the rest for later. -/
theorem advance_cases (d : Desk) (task : Nat) :
    (d.advance task).passState = d.passState ∨
    d.agenda? task = some [] ∧ (d.advance task).passState = (d.abort task).passState ∨
    ∃ a rest e, d.agenda? task = some (a :: rest) ∧ ActSpec d a e ∧
      (d.advance task).passState = (e.desk.setAgenda task (e.next ++ rest)).passState := by
  unfold advance
  split
  · exact .inl rfl
  · next hagenda => exact .inr (.inl ⟨hagenda, passState_finishTask d task⟩)
  · next a rest hagenda =>
      refine .inr (.inr ⟨a, rest, d.act task a, hagenda, act_spec d task a, ?_⟩)
      dsimp only
      split <;> rfl

theorem TimersMatch.setAgenda {d : Desk} (h : d.TimersMatch) {task : Nat} {agenda : List Action}
    (hagenda : ∀ old, d.agenda? task = some old → ∀ a ∈ agenda,
      (∀ uri, d.pending? uri = some task ↔ a.delayed?.map Document.uri = some uri) ∧
      a.BegunIn d.history) : (d.setAgenda task agenda).TimersMatch := by
  refine ⟨fun {t agenda'} hsome => ?_, h.pending_lt, h.nextTask_pos, fun hh uri => ?_,
    fun hh => ?_⟩
  · rw [agenda?_setAgenda] at hsome
    split at hsome
    · obtain ⟨old, hold, -⟩ := Option.map_eq_some_iff.mp hsome
      exact h.task_lt hold
    · exact h.task_lt hsome
  · rcases holds_setAgenda hh with hh | ⟨rfl, ha, old, hold⟩
    · exact h.timer hh uri
    · exact (hagenda old hold _ ha).1 uri
  · rcases holds_setAgenda hh with hh | ⟨rfl, ha, old, hold⟩
    · exact h.begun hh
    · exact (hagenda old hold _ ha).2

theorem Sound.setAgenda {d : Desk} (h : d.Sound) {task : Nat} {agenda : List Action}
    (htimersMatch : (d.setAgenda task agenda).TimersMatch) : (d.setAgenda task agenda).Sound :=
  ⟨h.passesOrdered.congr (fun _ _ hg => .inl hg) rfl rfl rfl rfl, htimersMatch⟩

/-- One action keeps the invariant. -/
theorem Sound.act {d : Desk} (h : d.Sound) {task : Nat} {a : Action} {rest : List Action}
    {e : Effect} (hagenda : d.agenda? task = some (a :: rest)) (hspec : ActSpec d a e) :
    (e.desk.setAgenda task (e.next ++ rest)).Sound := by
  have ha : d.Holds task a := ⟨a :: rest, hagenda, List.mem_cons_self⟩
  have hbegun := h.timersMatch.begun ha
  have hpassChanges := hspec.passChanges hbegun
  have hextends := hpassChanges.extends
  have hlt := h.timersMatch.task_lt hagenda
  have hsound := h.passChanges hpassChanges
  refine hsound.setAgenda (hsound.timersMatch.setAgenda fun old hold b hb => ?_)
  -- The task still has its agenda, and its timer if it has one.
  have hold' : e.desk.Holds task a := by
    have heq := hextends.agenda hlt hold
    obtain rfl : old = a :: rest := Option.some.inj (heq.symm.trans hagenda)
    exact ⟨_, hold, List.mem_cons_self⟩
  rcases List.mem_append.mp hb with hb | hb
  · rw [hspec.delayed?_next hb]
    exact ⟨hsound.timersMatch.timer hold', hspec.begunIn_next hbegun hb⟩
  · have hrest : e.desk.Holds task b := by
      have heq := hextends.agenda hlt hold
      obtain rfl : old = a :: rest := Option.some.inj (heq.symm.trans hagenda)
      exact ⟨_, hold, List.mem_cons_of_mem a hb⟩
    exact ⟨hsound.timersMatch.timer hrest, hsound.timersMatch.begun hrest⟩

/-! ### Runs -/

theorem Sound.advance {d : Desk} (h : d.Sound) (task : Nat) : (d.advance task).Sound := by
  rcases advance_cases d task with hb | ⟨-, hb⟩ | ⟨a, rest, e, hagenda, hspec, hb⟩
  · exact h.of_passState hb
  · have habort : (d.abort task).Sound :=
      ⟨h.passesOrdered.congr (fun _ _ hg => .inl hg) rfl rfl rfl rfl, h.timersMatch.abort task⟩
    exact habort.of_passState hb
  · exact (h.act hagenda hspec).of_passState hb

theorem Sound.event {d : Desk} (h : d.Sound) (e : HostEvent) : (e.apply d).Sound := by
  by_cases hwaits : ∃ calls, e = .waits calls
  · obtain ⟨calls, rfl⟩ := hwaits
    exact ⟨h.passesOrdered.congr (fun _ _ hg => .inl hg) rfl rfl rfl rfl, h.timersMatch.wait calls⟩
  · exact h.hostChanges (HostEvent.hostChanges d fun calls heq => hwaits ⟨calls, heq⟩)

theorem Sound.move {ok : HostEvent → Prop} {d d' : Desk} (h : d.Sound) (hm : Move ok d d') :
    d'.Sound := by
  cases hm with
  | works task => exact h.advance task
  | drifts hb => exact h.of_passState hb
  | hosts e _ => exact h.event e

/-- Every run keeps the invariant. -/
theorem Sound.run {ok : HostEvent → Prop} {d d' : Desk} (h : d.Sound) (hr : Run ok d d') :
    d'.Sound := by
  induction hr with
  | refl => exact h
  | tail _ hm ih => exact ih.move hm

/-- A task shows no other documents, and generations only grow. -/
theorem Sound.visible_advance {d : Desk} (h : d.Sound) (task : Nat) :
    (d.advance task).visible = d.visible ∧ d.generation ≤ (d.advance task).generation := by
  have hpassState : ∀ {d₁ : Desk}, (d.advance task).passState = d₁.passState →
      (d.advance task).visible = d₁.visible ∧ (d.advance task).generation = d₁.generation :=
    fun hb => ⟨congrArg PassState.visible hb, congrArg PassState.generation hb⟩
  rcases advance_cases d task with hb | ⟨-, hb⟩ | ⟨a, rest, e, hagenda, hspec, hb⟩
  · exact ⟨(hpassState hb).1, Nat.le_of_eq (hpassState hb).2.symm⟩
  · exact ⟨(hpassState hb).1, Nat.le_of_eq (hpassState hb).2.symm⟩
  · have hpassChanges := hspec.passChanges (h.timersMatch.begun ⟨_, hagenda, List.mem_cons_self⟩)
    exact ⟨(hpassState hb).1.trans hpassChanges.visible.1,
      Nat.le_trans hpassChanges.extends.generation (Nat.le_of_eq (hpassState hb).2.symm)⟩

theorem generation_le_event (d : Desk) (e : HostEvent) :
    d.generation ≤ (e.apply d).generation := by
  by_cases hwaits : ∃ calls, e = .waits calls
  · obtain ⟨calls, rfl⟩ := hwaits
    exact Nat.le_refl _
  · exact (HostEvent.hostChanges d fun calls heq => hwaits ⟨calls, heq⟩).extends.generation

theorem Sound.generation_le {ok : HostEvent → Prop} {d d' : Desk} (h : d.Sound) (hr : Run ok d d') :
    d.generation ≤ d'.generation := by
  induction hr with
  | refl => exact Nat.le_refl _
  | tail hprev hm ih =>
      refine Nat.le_trans ih ?_
      cases hm with
      | works task => exact ((h.run hprev).visible_advance task).2
      | drifts hb => exact Nat.le_of_eq (congrArg PassState.generation hb).symm
      | hosts e _ => exact generation_le_event _ e

/-- Whatever was published at any point of any run was published by a pass that was current then,
with linting on; and what the host was told to show is what these passes published. -/
theorem published_isCurrent {d₀ d : Desk} (h₀ : d₀.IsFresh) (hr : Run (fun _ => True) d₀ d) :
    d.events.filterMap Event.published? = d.history.filterMap Mark.published? ∧
    ∀ before document generation after,
      d.history = before ++ .published document generation :: after →
      isOn before = true ∧ IsCurrent before document generation :=
  have hsound := h₀.sound.run hr
  ⟨hsound.passesOrdered.told, hsound.passesOrdered.publishedCurrent⟩

/-- A document is closed and opened again while its first pass waits for the engine. The first pass
ends first, and only the second one publishes. -/
theorem published_isCurrent_of_reopened :
    let note := draft "A" "a\n"
    let d := (((HostEvent.starts (.lint note)).apply quietDesk).works [1])
    let d := ((HostEvent.starts (.lint note)).apply ((HostEvent.starts (.close note.uri)).apply d))
    let d := d.works [3, 4, 2, 2, 1, 5, 5, 4]
    d.history = [.began note 1, .closed note.uri, .began note 2, .published note 2] ∧
    IsCurrent [.began note 1, .closed note.uri, .began note 2] note 2 := by
  intro note d₁ d₂ d₃
  have hr : Run (fun _ => True) quietDesk d₃ :=
    (((host_run _ trivial _).trans (works_run [1] _)).trans
      ((host_run _ trivial _).trans (host_run _ trivial _))).trans (works_run _ _)
  have hhistory : d₃.history =
      [.began note 1, .closed note.uri, .began note 2, .published note 2] := by decide
  exact ⟨hhistory, ((published_isCurrent quietDesk_isFresh hr).2 _ note 2 [] hhistory).2⟩

end LintDesk.Desk
