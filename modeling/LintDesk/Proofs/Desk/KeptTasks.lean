import LintDesk.Proofs.Desk.CurrentPasses

/-! # Tasks that nobody ends

Only the pending task of a document is ever ended by others. A task that no schedule knows keeps
its agenda until it does something itself.
-/

namespace LintDesk.Desk

/-- A document has one entry in the schedules at most. -/
def SchedulesDistinct (d : Desk) : Prop :=
  (d.schedules.map Prod.fst).Nodup

/-- A task was started and delays no lint. -/
structure DelaysNothing (task : Nat) (d : Desk) : Prop where
  lt : task < d.nextTask
  pending : ∀ uri, d.pending? uri ≠ some task

variable {S : Document → Prop} {d d' : Desk} {task : Nat}

/-! ### Schedules -/

theorem IsFresh.schedulesDistinct (h : d.IsFresh) : d.SchedulesDistinct := by
  simp [SchedulesDistinct, h.schedules]

theorem nodup_filter {schedules : List (Url × Schedule)} (h : (schedules.map Prod.fst).Nodup)
    (p : Url × Schedule → Bool) : ((schedules.filter p).map Prod.fst).Nodup :=
  h.sublist (List.filter_sublist.map _)

theorem SchedulesDistinct.putSchedule (h : d.SchedulesDistinct) (uri : Url) (s : Schedule) :
    (d.putSchedule uri s).SchedulesDistinct := by
  refine List.nodup_cons.mpr ⟨?_, nodup_filter h _⟩
  simp

theorem map_fst_renew (cancel : Bool) (generation : Nat) (schedules : List (Url × Schedule)) :
    (renew cancel generation schedules).map Prod.fst = schedules.map Prod.fst := by
  induction schedules generalizing generation with
  | nil => rfl
  | cons x schedules ih =>
      rw [renew, List.map_cons, List.map_cons, ih]

theorem SchedulesDistinct.outdateAll (h : d.SchedulesDistinct) (cancel : Bool) :
    (d.outdateAll cancel).SchedulesDistinct := by
  obtain ⟨tasks, ready, timers, heq⟩ := outdateAll_eq d cancel
  rw [heq, SchedulesDistinct, map_fst_renew]
  exact h

theorem SchedulesDistinct.passChange (h : d.SchedulesDistinct) (ht : PassChange S d d') :
    d'.SchedulesDistinct := by
  cases ht with
  | same hb => exact (congrArg (fun b : PassState => (b.schedules.map Prod.fst).Nodup) hb).mpr h
  | spawns agenda _ _ => exact h
  | opens document _ =>
      exact SchedulesDistinct.putSchedule (d := { d with generation := d.generation + 1 })
        h document.uri _
  | drops uri =>
      rcases dropPending_cases d uri with ⟨-, heq⟩ | ⟨pending, s, -, -, heq⟩
      · rwa [heq]
      · rw [heq]
        exact h.putSchedule uri _
  | delays document _ =>
      obtain ⟨tasks, ready, timers, heq⟩ := lintSoon_eq d document
      rw [heq]
      exact h.putSchedule document.uri _
  | publishes c generation violations _ =>
      unfold Desk.publish
      dsimp only
      split <;> exact h
  | clears => exact h.outdateAll false
  | enables =>
      exact SchedulesDistinct.outdateAll (d := { d with enabled := true }.note (.switched true))
        h false
  | disables =>
      exact SchedulesDistinct.outdateAll (d := { d with enabled := false }.note (.switched false))
        h true
  | closes uri =>
      obtain ⟨tasks, ready, timers, heq⟩ := closeDocument_eq d uri
      rw [heq]
      exact nodup_filter h _

/-- Every pending task is known by a lookup. -/
theorem SchedulesDistinct.exists_pending? (h : d.SchedulesDistinct)
    (hmem : task ∈ d.schedules.filterMap (·.2.pending)) : ∃ uri, d.pending? uri = some task := by
  obtain ⟨⟨uri, s⟩, hs, hpending⟩ := List.mem_filterMap.mp hmem
  obtain ⟨before, after, hsplit⟩ := List.append_of_mem hs
  have hlookup : d.schedule? uri = some s := by
    refine List.lookup_eq_some_iff.mpr ⟨before, after, hsplit, fun x hx => ?_⟩
    rw [SchedulesDistinct, hsplit, List.map_append, List.map_cons] at h
    have hdisjoint := (List.nodup_append.mp h).2.2
    simpa using (hdisjoint x.1 (List.mem_map_of_mem hx) uri (by simp)).symm
  exact ⟨uri, by rw [pending?, hlookup]; exact hpending⟩

/-! ### Agendas -/

theorem DelaysNothing.agenda?_outdateAll (h : d.DelaysNothing task) (hunique : d.SchedulesDistinct)
    (cancel : Bool) : (d.outdateAll cancel).agenda? task = d.agenda? task := by
  unfold outdateAll
  rw [agenda?_foldl_abort, if_neg]
  · rfl
  · cases cancel with
    | false => simp
    | true =>
        intro hmem
        obtain ⟨uri, hpending⟩ := hunique.exists_pending? hmem
        exact h.pending uri hpending

theorem DelaysNothing.passChange (h : d.DelaysNothing task) (hunique : d.SchedulesDistinct)
    (ht : PassChange S d d') : d'.DelaysNothing task ∧ d'.agenda? task = d.agenda? task := by
  have hextends := ht.extends
  refine ⟨⟨Nat.lt_of_lt_of_le h.lt hextends.nextTask, fun uri hpending => ?_⟩, ?_⟩
  · exact h.pending uri (hextends.pending h.lt hpending)
  · cases ht with
    | same hb => exact agenda?_congr hb task
    | spawns agenda _ _ => rw [agenda?_spawn, if_neg (Nat.ne_of_lt h.lt), Option.or_none]
    | opens document _ => rfl
    | drops uri => rw [agenda?_dropPending, if_neg (h.pending uri)]
    | delays document _ =>
        rw [agenda?_lintSoon, if_neg (h.pending document.uri), if_neg (Nat.ne_of_lt h.lt),
          Option.or_none]
    | publishes c generation violations _ =>
        unfold Desk.publish
        dsimp only
        split <;> rfl
    | clears => exact h.agenda?_outdateAll hunique false
    | enables =>
        exact DelaysNothing.agenda?_outdateAll
          (d := { d with enabled := true }.note (.switched true))
          ⟨h.lt, h.pending⟩ hunique false
    | disables =>
        exact DelaysNothing.agenda?_outdateAll
          (d := { d with enabled := false }.note (.switched false))
          ⟨h.lt, h.pending⟩ hunique true
    | closes uri => rw [agenda?_closeDocument, if_neg (h.pending uri)]

theorem SchedulesDistinct.hostChanges (h : d.SchedulesDistinct) (hs : HostChanges S d d') :
    d'.SchedulesDistinct := by
  induction hs with
  | refl => exact h
  | tail _ hstep ih =>
      cases hstep with
      | passChange ht => exact ih.passChange ht
      | shows documents _ => exact ih
      | configures settings => exact ih

/-- A task that delays nothing keeps its agenda, whatever is done around it. -/
theorem DelaysNothing.hostChanges (h : d.DelaysNothing task) (hunique : d.SchedulesDistinct)
    (hs : HostChanges S d d') : d'.DelaysNothing task ∧ d'.agenda? task = d.agenda? task := by
  induction hs with
  | refl => exact ⟨h, rfl⟩
  | tail hprev hstep ih =>
      obtain ⟨hdelays, hagenda⟩ := ih
      cases hstep with
      | passChange ht =>
          obtain ⟨hfree', hagenda'⟩ := hdelays.passChange (hunique.hostChanges hprev) ht
          exact ⟨hfree', hagenda'.trans hagenda⟩
      | shows documents _ => exact ⟨⟨hdelays.lt, hdelays.pending⟩, hagenda⟩
      | configures settings => exact ⟨⟨hdelays.lt, hdelays.pending⟩, hagenda⟩

/-! ### Moves -/

theorem Sound.act_passChanges (h : d.Sound) {a : Action} {rest : List Action}
    (hagenda : d.agenda? task = some (a :: rest)) :
    HostChanges (fun document => a.snapshot? = some document ∨ a.delayed? = some document) d
      (d.act task a).desk :=
  PassChanges.hostChanges ((act_spec d task a).passChanges
    (h.timersMatch.begun ⟨_, hagenda, List.mem_cons_self⟩))

theorem SchedulesDistinct.advance (h : d.SchedulesDistinct) (hsound : d.Sound) (worker : Nat) :
    (d.advance worker).SchedulesDistinct := by
  match hagenda : d.agenda? worker with
  | none =>
      rw [advance_of_gone hagenda]
      exact h
  | some [] =>
      rw [advance_of_done hagenda]
      have hpassState : (d.finishTask worker).schedules = d.schedules :=
        congrArg PassState.schedules (passState_finishTask d worker)
      exact (congrArg (fun l => (l.map Prod.fst).Nodup) hpassState).mpr h
  | some (a :: rest) =>
      have hact : (d.act worker a).desk.SchedulesDistinct :=
        h.hostChanges (hsound.act_passChanges hagenda)
      obtain ⟨running, heq⟩ := advance_eq hagenda
      rw [heq]
      exact hact

theorem SchedulesDistinct.event (h : d.SchedulesDistinct) (e : HostEvent) :
    (e.apply d).SchedulesDistinct := by
  by_cases hwaits : ∃ calls, e = .waits calls
  · obtain ⟨calls, rfl⟩ := hwaits
    exact h
  · exact h.hostChanges (HostEvent.hostChanges d fun calls heq => hwaits ⟨calls, heq⟩)

theorem DelaysNothing.of_passState (h : d.DelaysNothing task)
    (hpassState : d'.passState = d.passState) : d'.DelaysNothing task := by
  refine ⟨Nat.lt_of_lt_of_eq h.lt (congrArg PassState.nextTask hpassState).symm, fun uri => ?_⟩
  rw [pending?_congr hpassState uri]
  exact h.pending uri

/-- A task that delays nothing goes on delaying nothing, and other tasks leave its agenda alone. -/
theorem DelaysNothing.advance (h : d.DelaysNothing task) (hunique : d.SchedulesDistinct)
    (hsound : d.Sound) (worker : Nat) :
    (d.advance worker).DelaysNothing task ∧
      (worker ≠ task → (d.advance worker).agenda? task = d.agenda? task) := by
  match hagenda : d.agenda? worker with
  | none =>
      rw [advance_of_gone hagenda]
      exact ⟨⟨h.lt, h.pending⟩, fun _ => rfl⟩
  | some [] =>
      have hpassState : (d.advance worker).passState = (d.abort worker).passState := by
        rw [advance_of_done hagenda]
        exact passState_finishTask d worker
      have haborted : (d.abort worker).DelaysNothing task := ⟨h.lt, h.pending⟩
      refine ⟨haborted.of_passState hpassState, fun hworker => ?_⟩
      rw [agenda?_congr hpassState, agenda?_abort, if_neg hworker.symm]
  | some (a :: rest) =>
      obtain ⟨hdelays, hsame⟩ := h.hostChanges hunique (hsound.act_passChanges hagenda)
      obtain ⟨running, heq⟩ := advance_eq hagenda
      rw [heq]
      refine ⟨⟨hdelays.lt, hdelays.pending⟩, fun hworker => ?_⟩
      exact (agenda?_setAgenda _ worker _ task).trans ((if_neg hworker.symm).trans hsame)

/-- A task that delays nothing goes on with what its action leaves to it. -/
theorem DelaysNothing.advance_self (h : d.DelaysNothing task) (hunique : d.SchedulesDistinct)
    (hsound : d.Sound) {a : Action} {rest : List Action}
    (hagenda : d.agenda? task = some (a :: rest)) :
    (d.advance task).agenda? task = some ((d.act task a).next ++ rest) := by
  obtain ⟨-, hsame⟩ := h.hostChanges hunique (hsound.act_passChanges hagenda)
  obtain ⟨running, heq⟩ := advance_eq hagenda
  rw [heq]
  refine (agenda?_setAgenda _ task _ task).trans ?_
  rw [if_pos rfl, hsame, hagenda]
  rfl

theorem DelaysNothing.event (h : d.DelaysNothing task) (hunique : d.SchedulesDistinct)
    (htask : task ≠ host) (e : HostEvent) :
    (e.apply d).DelaysNothing task ∧ (e.apply d).agenda? task = d.agenda? task := by
  by_cases hwaits : ∃ calls, e = .waits calls
  · obtain ⟨calls, rfl⟩ := hwaits
    refine ⟨⟨h.lt, h.pending⟩, ?_⟩
    refine (agenda?_append d host _ task).trans ?_
    rw [if_neg htask, Option.or_none]
  · exact h.hostChanges hunique (HostEvent.hostChanges d fun calls heq => hwaits ⟨calls, heq⟩)

end LintDesk.Desk
