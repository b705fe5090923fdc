import LintDesk.Proofs.Desk.PassState
import LintDesk.Proofs.Lookup

/-! # Views of a desk

A desk is looked at through three partial functions: the generation a document carries, the task
that delays its next lint, and the agenda of a task. Here stands what each operation does to them.
-/

namespace LintDesk

namespace Desk

/-- The generation that a document carries. -/
def generation? (d : Desk) (uri : Url) : Option Nat :=
  (d.schedule? uri).map (·.generation)

/-- The task that delays the next lint of a document. -/
def pending? (d : Desk) (uri : Url) : Option Nat :=
  (d.schedule? uri).bind (·.pending)

/-- What a task still has to do. -/
def agenda? (d : Desk) (task : Nat) : Option (List Action) :=
  d.tasks.lookup task

/-- A task still has to do an action. -/
def Holds (d : Desk) (task : Nat) (a : Action) : Prop :=
  ∃ agenda, d.agenda? task = some agenda ∧ a ∈ agenda

theorem carries_iff {d : Desk} {uri : Url} {generation : Nat} :
    d.carries uri generation = true ↔ d.generation? uri = some generation := by
  unfold carries generation?
  cases d.schedule? uri <;> simp

/-! ### Views and boards -/

theorem agenda?_congr {d d' : Desk} (h : d'.passState = d.passState) (task : Nat) :
    d'.agenda? task = d.agenda? task :=
  congrArg (fun b : PassState => b.tasks.lookup task) h

theorem generation?_congr {d d' : Desk} (h : d'.passState = d.passState) (uri : Url) :
    d'.generation? uri = d.generation? uri :=
  congrArg (fun b : PassState => (b.schedules.lookup uri).map Schedule.generation) h

theorem pending?_congr {d d' : Desk} (h : d'.passState = d.passState) (uri : Url) :
    d'.pending? uri = d.pending? uri :=
  congrArg (fun b : PassState => (b.schedules.lookup uri).bind Schedule.pending) h

/-! ### Tasks -/

theorem agenda?_append (d : Desk) (joined : Nat) (agenda : List Action) (task : Nat) :
    { d with tasks := d.tasks ++ [(joined, agenda)] }.agenda? task =
      (d.agenda? task).or (if task = joined then some agenda else none) := by
  have hone : [(joined, agenda)].lookup task =
      if task = joined then some agenda else none := by grind
  rw [← hone]
  exact List.lookup_append

theorem agenda?_spawn (d : Desk) (agenda : List Action) (task : Nat) :
    (d.spawn agenda).2.agenda? task =
      (d.agenda? task).or (if task = d.nextTask then some agenda else none) :=
  agenda?_append d d.nextTask agenda task

/-- A task that joins brings its own agenda. -/
theorem agenda?_of_join {agenda? : Option (List Action)} {task joined : Nat}
    {agenda found : List Action}
    (h : agenda?.or (if task = joined then some agenda else none) = some found) :
    agenda? = some found ∨ task = joined ∧ found = agenda := by
  rcases Option.or_eq_some_iff.mp h with h | ⟨-, h⟩
  · exact .inl h
  · split at h
    · next heq => exact .inr ⟨heq, (Option.some.inj h).symm⟩
    · cases h

theorem agenda?_abort (d : Desk) (aborted task : Nat) :
    (d.abort aborted).agenda? task = if task = aborted then none else d.agenda? task :=
  lookup_filter_ne d.tasks aborted task

theorem agenda?_setAgenda (d : Desk) (changed : Nat) (agenda : List Action) (task : Nat) :
    (d.setAgenda changed agenda).agenda? task =
      if task = changed then (d.agenda? task).map fun _ => agenda else d.agenda? task :=
  lookup_map_set d.tasks changed task agenda

theorem holds_setAgenda {d : Desk} {changed task : Nat} {agenda : List Action} {a : Action}
    (h : (d.setAgenda changed agenda).Holds task a) :
    d.Holds task a ∨ task = changed ∧ a ∈ agenda ∧ ∃ old, d.agenda? task = some old := by
  obtain ⟨found, hsome, ha⟩ := h
  rw [agenda?_setAgenda] at hsome
  split at hsome
  · next heq =>
      obtain ⟨old, hold, rfl⟩ := Option.map_eq_some_iff.mp hsome
      exact .inr ⟨heq, ha, old, hold⟩
  · exact .inl ⟨found, hsome, ha⟩

/-- A task that is no more does nothing. -/
theorem advance_of_gone {d : Desk} {task : Nat} (h : d.agenda? task = none) :
    d.advance task = { d with running := none } := by
  unfold advance
  rw [show d.tasks.lookup task = none from h]

/-- A task with nothing left to do ends. -/
theorem advance_of_done {d : Desk} {task : Nat} (h : d.agenda? task = some []) :
    d.advance task = d.finishTask task := by
  unfold advance
  rw [show d.tasks.lookup task = some [] from h]

/-- A task does its next action, and keeps the others for later. -/
theorem advance_eq {d : Desk} {task : Nat} {a : Action} {rest : List Action}
    (h : d.agenda? task = some (a :: rest)) :
    ∃ running, d.advance task =
      { (d.act task a).desk.setAgenda task ((d.act task a).next ++ rest) with running } := by
  unfold advance
  rw [show d.tasks.lookup task = some (a :: rest) from h]
  dsimp only
  split
  · exact ⟨_, rfl⟩
  · exact ⟨_, rfl⟩

theorem agenda?_foldl_abort (aborted : List Nat) (d : Desk) (task : Nat) :
    (aborted.foldl abort d).agenda? task =
      if task ∈ aborted then none else d.agenda? task := by
  induction aborted generalizing d with
  | nil => simp
  | cons first rest ih =>
      rw [List.foldl_cons, ih, agenda?_abort]
      by_cases hrest : task ∈ rest <;> by_cases hfirst : task = first <;> simp [hrest, hfirst]

/-- Nothing but the tasks is touched by aborting some of them. -/
theorem foldl_abort_eq (aborted : List Nat) (d : Desk) :
    ∃ tasks ready timers, aborted.foldl abort d = { d with tasks, ready, timers } := by
  induction aborted generalizing d with
  | nil => exact ⟨d.tasks, d.ready, d.timers, rfl⟩
  | cons first rest ih =>
      obtain ⟨tasks, ready, timers, h⟩ := ih (d.abort first)
      exact ⟨tasks, ready, timers, h⟩

/-! ### Schedules -/

theorem schedule?_putSchedule (d : Desk) (changed : Url) (s : Schedule) (uri : Url) :
    (d.putSchedule changed s).schedule? uri =
      if uri = changed then some s else d.schedule? uri := by
  unfold schedule? putSchedule
  dsimp only
  rw [List.lookup_cons, lookup_filter_ne]
  grind

theorem generation?_openPass (d : Desk) (document : Document) (uri : Url) :
    (d.openPass document).2.generation? uri =
      if uri = document.uri then some (d.generation + 1) else d.generation? uri := by
  have h := schedule?_putSchedule { d with generation := d.generation + 1 } document.uri
    { (d.schedule? document.uri).getD {} with generation := d.generation + 1 } uri
  unfold generation? openPass note
  change Option.map _ (schedule? (putSchedule _ _ _) uri) = _
  rw [h]
  split <;> rfl

theorem pending?_openPass (d : Desk) (document : Document) (uri : Url) :
    (d.openPass document).2.pending? uri = d.pending? uri := by
  have h := schedule?_putSchedule { d with generation := d.generation + 1 } document.uri
    { (d.schedule? document.uri).getD {} with generation := d.generation + 1 } uri
  unfold pending? openPass note
  change Option.bind (schedule? (putSchedule _ _ _) uri) _ = _
  rw [h]
  split
  · next huri =>
      rw [huri]
      cases d.schedule? document.uri <;> rfl
  · rfl

/-- Dropping a delayed lint changes nothing but the pending task of the document. -/
theorem dropPending_cases (d : Desk) (uri : Url) :
    (d.pending? uri = none ∧ d.dropPending uri = d) ∨
    ∃ task s, d.schedule? uri = some s ∧ s.pending = some task ∧
      d.dropPending uri = (d.putSchedule uri { s with pending := none }).abort task := by
  unfold dropPending pending?
  split
  · next task generation heq => exact .inr ⟨task, _, heq, rfl, rfl⟩
  · next hnone =>
      refine .inl ⟨?_, rfl⟩
      cases hs : d.schedule? uri with
      | none => rfl
      | some s =>
          cases hp : s.pending with
          | none => exact hp
          | some task => exact absurd (hs.trans (by rw [← hp])) (hnone task s.generation)

theorem dropPending_eq (d : Desk) (uri : Url) :
    ∃ schedules tasks ready timers,
      d.dropPending uri = { d with schedules, tasks, ready, timers } := by
  rcases dropPending_cases d uri with ⟨-, h⟩ | ⟨task, s, -, -, h⟩
  · exact ⟨_, _, _, _, h⟩
  · exact ⟨_, _, _, _, h⟩

theorem generation?_dropPending (d : Desk) (dropped uri : Url) :
    (d.dropPending dropped).generation? uri = d.generation? uri := by
  rcases dropPending_cases d dropped with ⟨-, h⟩ | ⟨task, s, hs, -, h⟩
  · rw [h]
  · rw [h]
    unfold generation?
    change Option.map _ (schedule? (putSchedule _ _ _) uri) = _
    rw [schedule?_putSchedule]
    split
    · next huri => rw [huri, hs]; rfl
    · rfl

theorem pending?_dropPending (d : Desk) (dropped uri : Url) :
    (d.dropPending dropped).pending? uri = if uri = dropped then none else d.pending? uri := by
  rcases dropPending_cases d dropped with ⟨hnone, h⟩ | ⟨task, s, hs, -, h⟩
  · rw [h]
    split
    · next huri => rw [huri, hnone]
    · rfl
  · rw [h]
    unfold pending?
    change Option.bind (schedule? (putSchedule _ _ _) uri) _ = _
    rw [schedule?_putSchedule]
    split <;> rfl

theorem agenda?_dropPending (d : Desk) (dropped : Url) (task : Nat) :
    (d.dropPending dropped).agenda? task =
      if d.pending? dropped = some task then none else d.agenda? task := by
  rcases dropPending_cases d dropped with ⟨hnone, h⟩ | ⟨pending, s, hs, hp, h⟩
  · rw [h, hnone]
    rfl
  · rw [h, agenda?_abort]
    have hpending : d.pending? dropped = some pending := by simp [pending?, hs, hp]
    rw [hpending]
    by_cases ht : task = pending
    · simp [ht]
    · rw [if_neg ht, if_neg fun heq => ht (Option.some.inj heq).symm]
      rfl

/-! ### All schedules -/

theorem lookup_renew (cancel : Bool) (generation : Nat) (l : List (Url × Schedule)) (uri : Url) :
    (l.lookup uri = none ∧ (renew cancel generation l).lookup uri = none) ∨
    ∃ s renewed, l.lookup uri = some s ∧ generation < renewed ∧
      renewed ≤ generation + l.length ∧
      (renew cancel generation l).lookup uri =
        some { pending := if cancel then none else s.pending, generation := renewed } := by
  induction l generalizing generation with
  | nil => exact .inl ⟨rfl, rfl⟩
  | cons x l ih =>
      obtain ⟨first, s⟩ := x
      unfold renew
      by_cases hfirst : uri = first
      · subst hfirst
        refine .inr ⟨s, generation + 1, by simp, by omega, by simp, by simp⟩
      · have hne : (uri == first) = false := beq_eq_false_iff_ne.mpr hfirst
        simp only [List.lookup_cons, hne]
        rcases ih (generation + 1) with h | ⟨s', renewed, hs, hlt, hle, hrenewed⟩
        · exact .inl h
        · refine .inr ⟨s', renewed, hs, by omega, ?_, hrenewed⟩
          rw [List.length_cons]
          omega

theorem outdateAll_eq (d : Desk) (cancel : Bool) :
    ∃ tasks ready timers, d.outdateAll cancel =
      { d with
        schedules := renew cancel d.generation d.schedules
        generation := d.generation + d.schedules.length
        tasks, ready, timers } := by
  unfold outdateAll
  obtain ⟨tasks, ready, timers, h⟩ := foldl_abort_eq
    (if cancel then d.schedules.filterMap (·.2.pending) else [])
    { d with
      schedules := renew cancel d.generation d.schedules
      generation := d.generation + d.schedules.length }
  exact ⟨tasks, ready, timers, h⟩

theorem schedule?_outdateAll (d : Desk) (cancel : Bool) (uri : Url) :
    (d.outdateAll cancel).schedule? uri =
      (renew cancel d.generation d.schedules).lookup uri := by
  obtain ⟨tasks, ready, timers, h⟩ := outdateAll_eq d cancel
  rw [h]
  rfl

/-- No generation that was in use before is carried any more. -/
theorem generation?_outdateAll (d : Desk) (cancel : Bool) {uri : Url} {generation : Nat}
    (h : (d.outdateAll cancel).generation? uri = some generation) :
    d.generation < generation ∧ generation ≤ (d.outdateAll cancel).generation := by
  obtain ⟨tasks, ready, timers, heq⟩ := outdateAll_eq d cancel
  have hgeneration : (d.outdateAll cancel).generation = d.generation + d.schedules.length := by
    rw [heq]
  rw [generation?, schedule?_outdateAll] at h
  rcases lookup_renew cancel d.generation d.schedules uri with
    ⟨-, hnone⟩ | ⟨s, renewed, -, hlt, hle, hsome⟩
  · rw [hnone] at h
    cases h
  · rw [hsome] at h
    cases h
    exact ⟨hlt, hgeneration ▸ hle⟩

theorem pending?_outdateAll (d : Desk) (cancel : Bool) (uri : Url) :
    (d.outdateAll cancel).pending? uri = if cancel then none else d.pending? uri := by
  rw [pending?, schedule?_outdateAll, pending?, schedule?]
  rcases lookup_renew cancel d.generation d.schedules uri with
    ⟨hnone, hnone'⟩ | ⟨s, renewed, hs, -, -, hsome⟩
  · rw [hnone, hnone']
    simp
  · rw [hs, hsome]
    rfl

theorem pending?_clearAll (d : Desk) (uri : Url) : d.clearAll.pending? uri = d.pending? uri :=
  pending?_outdateAll d false uri

theorem agenda?_outdateAll_true {d : Desk} {task : Nat} {agenda : List Action}
    (h : (d.outdateAll true).agenda? task = some agenda) :
    d.agenda? task = some agenda ∧ ∀ uri, d.pending? uri ≠ some task := by
  change ((d.schedules.filterMap (·.2.pending)).foldl abort _).agenda? task = _ at h
  rw [agenda?_foldl_abort] at h
  split at h
  · cases h
  · next hnot =>
      refine ⟨h, fun uri hpending => hnot ?_⟩
      obtain ⟨s, hs, hp⟩ := Option.bind_eq_some_iff.mp hpending
      obtain ⟨before, after, hsplit, -⟩ := List.lookup_eq_some_iff.mp hs
      exact List.mem_filterMap.mpr ⟨(uri, s), by simp [hsplit], hp⟩

/-! ### Closing and editing -/

theorem closeDocument_eq (d : Desk) (uri : Url) :
    ∃ tasks ready timers, d.closeDocument uri =
      { d with
        schedules := d.schedules.filter (·.1 ≠ uri)
        runModes := d.runModes.filter (·.1 ≠ uri)
        events := d.events ++ [.clear uri]
        history := d.history ++ [.closed uri]
        tasks, ready, timers } := by
  unfold closeDocument
  dsimp only
  split
  · exact ⟨_, _, _, rfl⟩
  · exact ⟨_, _, _, rfl⟩

theorem schedule?_closeDocument (d : Desk) (closed uri : Url) :
    (d.closeDocument closed).schedule? uri =
      if uri = closed then none else d.schedule? uri := by
  obtain ⟨tasks, ready, timers, h⟩ := closeDocument_eq d closed
  rw [h]
  exact lookup_filter_ne d.schedules closed uri

theorem pending?_closeDocument (d : Desk) (closed uri : Url) :
    (d.closeDocument closed).pending? uri =
      if uri = closed then none else d.pending? uri := by
  unfold pending?
  rw [schedule?_closeDocument]
  split <;> rfl

theorem agenda?_closeDocument (d : Desk) (closed : Url) (task : Nat) :
    (d.closeDocument closed).agenda? task =
      if d.pending? closed = some task then none else d.agenda? task := by
  unfold closeDocument
  dsimp only
  split
  · next pending heq =>
      rw [show d.pending? closed = some pending from heq]
      change (abort _ pending).agenda? task = _
      rw [agenda?_abort]
      by_cases ht : task = pending
      · simp [ht]
      · rw [if_neg ht, if_neg fun heq => ht (Option.some.inj heq).symm]
        rfl
  · next heq =>
      rw [show d.pending? closed = none from heq]
      rfl

theorem lintSoon_eq (d : Desk) (document : Document) :
    ∃ tasks ready timers, d.lintSoon document =
      { d.putSchedule document.uri
          { (d.schedule? document.uri).getD {} with pending := some d.nextTask } with
        tasks, ready, timers
        nextTask := d.nextTask + 1 } := by
  unfold lintSoon
  dsimp only
  split
  · exact ⟨_, _, _, rfl⟩
  · exact ⟨_, _, _, rfl⟩

theorem schedule?_lintSoon (d : Desk) (document : Document) (uri : Url) :
    (d.lintSoon document).schedule? uri =
      if uri = document.uri then
        some { (d.schedule? document.uri).getD {} with pending := some d.nextTask }
      else d.schedule? uri := by
  obtain ⟨tasks, ready, timers, h⟩ := lintSoon_eq d document
  rw [h, ← schedule?_putSchedule]
  rfl

theorem pending?_lintSoon (d : Desk) (document : Document) (uri : Url) :
    (d.lintSoon document).pending? uri =
      if uri = document.uri then some d.nextTask else d.pending? uri := by
  unfold pending?
  rw [schedule?_lintSoon]
  split <;> rfl

theorem agenda?_lintSoon (d : Desk) (document : Document) (task : Nat) :
    (d.lintSoon document).agenda? task =
      if d.pending? document.uri = some task then none
      else (d.agenda? task).or
        (if task = d.nextTask then some [.holdBack document] else none) := by
  have hspawn := agenda?_spawn d [.holdBack document] task
  have hpending : d.pending? document.uri = ((d.schedule? document.uri).getD {}).pending := by
    unfold pending?
    cases d.schedule? document.uri <;> rfl
  unfold lintSoon
  dsimp only
  rw [hpending, ← hspawn]
  split
  · next previous heq =>
      rw [agenda?_abort, heq]
      by_cases ht : task = previous
      · simp [ht]
      · rw [if_neg ht, if_neg fun heq => ht (Option.some.inj heq).symm]
        rfl
  · next heq =>
      rw [heq]
      rfl

/-- A task is not the one whose timer has just been replaced, or it is the new timer. -/
theorem agenda?_lintSoon_cases {d : Desk} {document : Document} {task : Nat} {agenda : List Action}
    (hsome : (d.lintSoon document).agenda? task = some agenda) :
    d.pending? document.uri ≠ some task ∧ d.agenda? task = some agenda ∨
      task = d.nextTask ∧ agenda = [.holdBack document] := by
  rw [agenda?_lintSoon] at hsome
  split at hsome
  · cases hsome
  · next hne =>
      rcases agenda?_of_join hsome with hsome | hjoined
      · exact .inl ⟨hne, hsome⟩
      · exact .inr hjoined

end Desk

end LintDesk
