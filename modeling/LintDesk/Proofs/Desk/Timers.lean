import LintDesk.Proofs.Desk.Passes

/-! # Timers and agendas

A delayed lint is held by exactly one task, the pending one of its document, and that task holds
nothing else. So aborting the pending task of a document takes nothing from other documents, and
leaves no timer behind. Together with `PassesOrdered` this is the invariant of all runs.
-/

namespace LintDesk.Desk

/-- Timers are known to the schedules, and agendas go on with passes that were begun. -/
structure TimersMatch (d : Desk) : Prop where
  task_lt : ∀ {task agenda}, d.agenda? task = some agenda → task < d.nextTask
  pending_lt : ∀ {uri task}, d.pending? uri = some task → 0 < task ∧ task < d.nextTask
  nextTask_pos : 0 < d.nextTask
  timer : ∀ {task a}, d.Holds task a →
    ∀ uri, d.pending? uri = some task ↔ a.delayed?.map Document.uri = some uri
  begun : ∀ {task a}, d.Holds task a → a.BegunIn d.history

theorem IsFresh.timersMatch {d : Desk} (h : d.IsFresh) : d.TimersMatch where
  task_lt ht := by simp [agenda?, h.tasks] at ht
  pending_lt hp := by simp [pending?, schedule?, h.schedules] at hp
  nextTask_pos := h.nextTask
  timer hh := by
    obtain ⟨agenda, hagenda, -⟩ := hh
    simp [agenda?, h.tasks] at hagenda
  begun hh := by
    obtain ⟨agenda, hagenda, -⟩ := hh
    simp [agenda?, h.tasks] at hagenda

/-- A task that does something else delays no lint. -/
theorem TimersMatch.pending?_ne {d : Desk} (h : d.TimersMatch) {task : Nat} {a : Action}
    (hh : d.Holds task a) (ha : a.delayed? = none) (uri : Url) : d.pending? uri ≠ some task := by
  rw [ne_eq, h.timer hh uri, ha]
  simp

theorem TimersMatch.agenda?_nextTask {d : Desk} (h : d.TimersMatch) : d.agenda? d.nextTask = none :=
  Option.eq_none_iff_forall_ne_some.mpr fun _ hsome =>
    absurd (h.task_lt hsome) (Nat.lt_irrefl _)

theorem holds_start {d : Desk} (h : d.TimersMatch) (a : Action) :
    (d.start a).Holds d.nextTask a := by
  refine ⟨[a], ?_, List.mem_singleton_self _⟩
  rw [start, agenda?_spawn, h.agenda?_nextTask, if_pos rfl]
  rfl

/-- Tasks may go, and with the pending task of a document its entry in the schedule. -/
theorem TimersMatch.shrink {d d' : Desk} (h : d.TimersMatch)
    (hagenda : ∀ task agenda, d'.agenda? task = some agenda → d.agenda? task = some agenda ∧
      ∀ uri, d'.pending? uri ≠ d.pending? uri → d.pending? uri ≠ some task)
    (hpending : ∀ uri, d'.pending? uri = d.pending? uri ∨ d'.pending? uri = none)
    (hnext : d'.nextTask = d.nextTask) (hhistory : ∀ m ∈ d.history, m ∈ d'.history) :
    d'.TimersMatch := by
  have hholds : ∀ {task a}, d'.Holds task a → d.Holds task a := by
    rintro task a ⟨agenda, hsome, ha⟩
    exact ⟨agenda, (hagenda task agenda hsome).1, ha⟩
  refine ⟨fun hsome => ?_, fun hsome => ?_, hnext ▸ h.nextTask_pos, fun hh uri => ?_, fun hh => ?_⟩
  · rw [hnext]
    exact h.task_lt (hagenda _ _ hsome).1
  · rw [hnext]
    rcases hpending _ with heq | hnone
    · exact h.pending_lt (heq ▸ hsome)
    · rw [hnone] at hsome
      cases hsome
  · by_cases heq : d'.pending? uri = d.pending? uri
    · rw [heq]
      exact h.timer (hholds hh) uri
    · obtain ⟨agenda, hsome, -⟩ := id hh
      have hne := (hagenda _ agenda hsome).2 uri heq
      rw [(hpending uri).resolve_left heq, ← h.timer (hholds hh) uri]
      simp [hne]
  · exact (h.begun (hholds hh)).mono hhistory

/-- A task that delays nothing may join. -/
theorem TimersMatch.join {d d' : Desk} (h : d.TimersMatch) (joined : Nat) (agenda : List Action)
    (hagenda : ∀ task, d'.agenda? task =
      (d.agenda? task).or (if task = joined then some agenda else none))
    (hplain : ∀ a ∈ agenda, a.delayed? = none ∧ a.pass? = none)
    (hjoined : ∀ uri, d.pending? uri ≠ some joined) (hlt : joined < d'.nextTask)
    (hnext : d.nextTask ≤ d'.nextTask) (hschedules : d'.schedules = d.schedules)
    (hhistory : d'.history = d.history) : d'.TimersMatch := by
  have hpending : ∀ uri, d'.pending? uri = d.pending? uri := by
    intro uri
    rw [pending?, schedule?, hschedules]
    rfl
  have hholds : ∀ {task a}, d'.Holds task a →
      d.Holds task a ∨ task = joined ∧ a ∈ agenda := by
    rintro task a ⟨found, hsome, ha⟩
    rcases agenda?_of_join (hagenda task ▸ hsome) with hsome | ⟨heq, rfl⟩
    · exact .inl ⟨found, hsome, ha⟩
    · exact .inr ⟨heq, ha⟩
  refine ⟨fun hsome => ?_, fun hsome => ?_, Nat.zero_lt_of_lt hlt, fun hh uri => ?_,
    fun hh => ?_⟩
  · rcases agenda?_of_join (hagenda _ ▸ hsome) with hsome | ⟨heq, -⟩
    · exact Nat.lt_of_lt_of_le (h.task_lt hsome) hnext
    · exact heq ▸ hlt
  · have := h.pending_lt (hpending _ ▸ hsome)
    omega
  · rw [hpending]
    rcases hholds hh with hh | ⟨rfl, ha⟩
    · exact h.timer hh uri
    · rw [(hplain _ ha).1]
      simp [hjoined uri]
  · rw [hhistory]
    rcases hholds hh with hh | ⟨-, ha⟩
    · exact h.begun hh
    · intro document generation hp
      rw [(hplain _ ha).2] at hp
      cases hp

theorem TimersMatch.timer_lintSoon {d : Desk} (h : d.TimersMatch) {document : Document}
    {task : Nat} {a : Action} (hh : (d.lintSoon document).Holds task a) (uri : Url) :
    (d.lintSoon document).pending? uri = some task ↔ a.delayed?.map Document.uri = some uri := by
  obtain ⟨agenda, hsome, ha⟩ := hh
  rw [pending?_lintSoon]
  rcases agenda?_lintSoon_cases hsome with ⟨hne, hsome⟩ | ⟨rfl, rfl⟩
  · -- The task is older than the timer that was set now.
    have htimer := h.timer ⟨agenda, hsome, ha⟩ uri
    split
    · next huri =>
        rw [huri] at htimer ⊢
        have hother : d.nextTask ≠ task := (Nat.ne_of_gt (h.task_lt hsome))
        simpa [hother, hne] using htimer
    · exact htimer
  · rw [List.mem_singleton.mp ha]
    split
    · next huri => simp [Action.delayed?, huri]
    · next huri =>
        have hnot : d.pending? uri ≠ some d.nextTask := by
          intro hsome
          exact Nat.lt_irrefl _ (h.pending_lt hsome).2
        simpa [Action.delayed?, hnot] using Ne.symm huri

theorem TimersMatch.lintSoon {d : Desk} (h : d.TimersMatch) (document : Document) :
    (d.lintSoon document).TimersMatch := by
  obtain ⟨tasks, ready, timers, heq⟩ := lintSoon_eq d document
  have hnext : (d.lintSoon document).nextTask = d.nextTask + 1 := by rw [heq]
  have hhistory : (d.lintSoon document).history = d.history := by rw [heq]; rfl
  refine ⟨fun hsome => ?_, fun hsome => ?_, ?_, h.timer_lintSoon, ?_⟩
  · rw [hnext]
    rcases agenda?_lintSoon_cases hsome with ⟨-, hsome⟩ | ⟨rfl, -⟩
    · exact Nat.lt_succ_of_lt (h.task_lt hsome)
    · exact Nat.lt_succ_self _
  · rw [hnext]
    rw [pending?_lintSoon] at hsome
    split at hsome
    · cases hsome
      exact ⟨h.nextTask_pos, Nat.lt_succ_self _⟩
    · have := h.pending_lt hsome
      omega
  · rw [hnext]
    exact Nat.succ_pos _
  · rintro task a ⟨agenda, hsome, ha⟩
    rw [hhistory]
    rcases agenda?_lintSoon_cases hsome with ⟨-, hsome⟩ | ⟨-, rfl⟩
    · exact h.begun ⟨agenda, hsome, ha⟩
    · intro document' generation hp
      rw [List.mem_singleton.mp ha] at hp
      cases hp

theorem TimersMatch.publish {d : Desk} (h : d.TimersMatch) (c : Collection) (generation : Nat)
    (violations : List Violation) : (d.publish c generation violations).TimersMatch := by
  unfold Desk.publish
  dsimp only
  split
  · exact h.shrink (fun _ _ hsome => ⟨hsome, fun _ hne => absurd rfl hne⟩) (fun _ => .inl rfl) rfl
      fun m hm => List.mem_append_left _ hm
  · exact h

/-- Making all passes outdated without dropping delayed lints touches no task. -/
theorem TimersMatch.clearAll {d : Desk} (h : d.TimersMatch) : d.clearAll.TimersMatch := by
  have hpending := pending?_clearAll d
  exact h.shrink (fun _ _ hsome => ⟨hsome, fun uri hne => absurd (hpending uri) hne⟩)
    (fun uri => .inl (hpending uri)) rfl fun m hm => List.mem_append_left _ hm

theorem TimersMatch.disable {d : Desk} (h : d.TimersMatch) :
    ((({ d with enabled := false }.note (.switched false)).outdateAll true).tell
      .clearAll).TimersMatch := by
  let off := { d with enabled := false }.note (.switched false)
  obtain ⟨tasks, ready, timers, heq⟩ := outdateAll_eq off true
  refine h.shrink (fun task agenda hsome => ?_) (fun uri => .inr (pending?_outdateAll off true uri))
    ?_ fun m hm => ?_
  · obtain ⟨hsome, hne⟩ := agenda?_outdateAll_true (d := off) hsome
    exact ⟨hsome, fun uri _ => hne uri⟩
  · change (off.outdateAll true).nextTask = _
    rw [heq]
    rfl
  · change m ∈ (off.outdateAll true).history
    rw [heq]
    exact List.mem_append_left _ hm

theorem TimersMatch.close {d : Desk} (h : d.TimersMatch) (closed : Url) :
    (d.closeDocument closed).TimersMatch := by
  obtain ⟨tasks, ready, timers, heq⟩ := closeDocument_eq d closed
  have hpending := pending?_closeDocument d closed
  refine h.shrink (fun task agenda hsome => ?_) (fun uri => ?_) (by rw [heq]) fun m hm => ?_
  · rw [agenda?_closeDocument] at hsome
    split at hsome
    · cases hsome
    · next hne =>
        refine ⟨hsome, fun uri hchanged => ?_⟩
        rw [hpending] at hchanged
        split at hchanged
        · next huri => rwa [huri]
        · exact absurd rfl hchanged
  · rw [hpending]
    split
    · exact .inr rfl
    · exact .inl rfl
  · rw [heq]
    exact List.mem_append_left _ hm

theorem TimersMatch.dropPending {d : Desk} (h : d.TimersMatch) (dropped : Url) :
    (d.dropPending dropped).TimersMatch := by
  have hpending := pending?_dropPending d dropped
  obtain ⟨schedules, tasks, ready, timers, heq⟩ := dropPending_eq d dropped
  refine h.shrink (fun task agenda hsome => ?_) (fun uri => ?_) (by rw [heq]) fun m hm => ?_
  · rw [agenda?_dropPending] at hsome
    split at hsome
    · cases hsome
    · next hne =>
        refine ⟨hsome, fun uri hchanged => ?_⟩
        rw [hpending] at hchanged
        split at hchanged
        · next huri => rwa [huri]
        · exact absurd rfl hchanged
  · rw [hpending]
    split
    · exact .inr rfl
    · exact .inl rfl
  · rwa [heq]

theorem TimersMatch.openPass {d : Desk} (h : d.TimersMatch) (document : Document) :
    (d.openPass document).2.TimersMatch := by
  have hpending := pending?_openPass d document
  exact h.shrink (fun _ _ hsome => ⟨hsome, fun uri hne => absurd (hpending uri) hne⟩)
    (fun uri => .inl (hpending uri)) rfl fun m hm => List.mem_append_left _ hm

/-- The host's own task delays nothing. -/
theorem TimersMatch.wait {d : Desk} (h : d.TimersMatch) (calls : List Call) :
    (HostEvent.apply d (.waits calls)).TimersMatch := by
  refine h.join host (calls.map Call.action) (agenda?_append d host _) (fun a ha => ?_)
    (fun uri hsome => ?_) h.nextTask_pos (Nat.le_refl _) rfl rfl
  · obtain ⟨call, -, rfl⟩ := List.mem_map.mp ha
    simp
  · exact absurd (h.pending_lt hsome).1 (Nat.lt_irrefl _)

theorem TimersMatch.abort {d : Desk} (h : d.TimersMatch) (task : Nat) :
    (d.abort task).TimersMatch := by
  refine h.shrink (fun t agenda hsome => ?_) (fun _ => .inl rfl) rfl fun _ hm => hm
  rw [agenda?_abort] at hsome
  split at hsome
  · cases hsome
  · exact ⟨hsome, fun _ hne => absurd rfl hne⟩

/-- Every change to the pass state keeps timers and agendas in order. -/
theorem TimersMatch.passChange {S : Document → Prop} {d d' : Desk} (h : d.TimersMatch)
    (ht : PassChange S d d') : d'.TimersMatch := by
  cases ht with
  | same hb =>
      have hpending := pending?_congr hb
      have hhistory : d'.history = d.history := congrArg PassState.history hb
      exact h.shrink
        (fun task _ hsome =>
          ⟨agenda?_congr hb task ▸ hsome, fun uri hne => absurd (hpending uri) hne⟩)
        (fun uri => .inl (hpending uri)) (congrArg PassState.nextTask hb) fun m hm => hhistory ▸ hm
  | spawns agenda hplain _ =>
      refine h.join d.nextTask agenda (fun task => agenda?_spawn d agenda task) hplain
        (fun uri hsome => ?_) (Nat.lt_succ_self _) (Nat.le_succ _) rfl rfl
      exact absurd (h.pending_lt hsome).2 (Nat.lt_irrefl _)
  | opens document _ => exact h.openPass document
  | drops uri => exact h.dropPending uri
  | delays document _ => exact h.lintSoon document
  | publishes c generation violations _ => exact h.publish c generation violations
  | clears => exact h.clearAll
  | enables =>
      have hon : ({ d with enabled := true }.note (.switched true)).TimersMatch :=
        h.shrink (fun _ _ hsome => ⟨hsome, fun _ hne => absurd rfl hne⟩) (fun _ => .inl rfl) rfl
          fun m hm => List.mem_append_left _ hm
      exact hon.clearAll
  | disables => exact h.disable
  | closes uri => exact h.close uri

end LintDesk.Desk
