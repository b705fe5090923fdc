import LintDesk.Proofs.Desk.CurrentPasses

/-! # Where snapshots come from

Tasks lint what they were given, and what is visible when a loop over it begins. So if a desk has
only certain snapshots of a document, then only these are linted until the host brings another
(`HasOnly.advance`, `HasOnly.event`).
-/

namespace LintDesk.Desk

/-- Some task has the snapshot, to lint it or for later. -/
def Retains (d : Desk) (document : Document) : Prop :=
  ∃ task a, d.Holds task a ∧ (a.snapshot? = some document ∨ a.delayed? = some document)

section PassChanges

variable {S : Document → Prop}

/-- Whatever snapshots tasks hold after a change they held before, or they are among those that the
change is about. -/
theorem PassChange.holds {d d' : Desk} (h : PassChange S d d') {task : Nat} {a : Action}
    (ha : d'.Holds task a) :
    d.Holds task a ∨
    ∀ document, a.snapshot? = some document ∨ a.delayed? = some document → S document := by
  obtain ⟨agenda, hagenda, hmem⟩ := ha
  cases h with
  | same hb => exact .inl ⟨agenda, agenda?_congr hb task ▸ hagenda, hmem⟩
  | spawns joined hplain hs =>
      rw [agenda?_spawn] at hagenda
      rcases agenda?_of_join hagenda with hagenda | ⟨-, rfl⟩
      · exact .inl ⟨agenda, hagenda, hmem⟩
      · refine .inr fun document hdocument => ?_
        rcases hdocument with hdocument | hdocument
        · exact hs a hmem document hdocument
        · simp [(hplain a hmem).1] at hdocument
  | opens document _ => exact .inl ⟨agenda, hagenda, hmem⟩
  | drops uri =>
      rw [agenda?_dropPending] at hagenda
      split at hagenda
      · cases hagenda
      · exact .inl ⟨agenda, hagenda, hmem⟩
  | delays document hs =>
      rcases agenda?_lintSoon_cases hagenda with ⟨-, hagenda⟩ | ⟨-, rfl⟩
      · exact .inl ⟨agenda, hagenda, hmem⟩
      · obtain rfl := List.mem_singleton.mp hmem
        refine .inr fun document' hdocument => ?_
        rcases hdocument with hdocument | hdocument
        · cases hdocument
        · exact Option.some.inj hdocument ▸ hs
  | publishes c generation violations _ =>
      refine .inl ⟨agenda, ?_, hmem⟩
      unfold Desk.publish at hagenda
      dsimp only at hagenda
      split at hagenda <;> exact hagenda
  | clears => exact .inl ⟨agenda, hagenda, hmem⟩
  | enables => exact .inl ⟨agenda, hagenda, hmem⟩
  | disables =>
      let off := { d with enabled := false }.note (.switched false)
      exact .inl ⟨agenda, (agenda?_outdateAll_true (d := off) hagenda).1, hmem⟩
  | closes uri =>
      rw [agenda?_closeDocument] at hagenda
      split at hagenda
      · cases hagenda
      · exact .inl ⟨agenda, hagenda, hmem⟩

/-- The passes that a change begins are over the snapshots that it is about. -/
theorem PassChange.marks {d d' : Desk} (h : PassChange S d d') :
    ∃ marks, d'.history = d.history ++ marks ∧
      ∀ document generation, .began document generation ∈ marks → S document := by
  cases h with
  | same hb =>
      have hhistory : d'.history = d.history := congrArg PassState.history hb
      exact ⟨[], by simp [hhistory], by simp⟩
  | spawns joined _ _ => exact ⟨[], (List.append_nil _).symm, by simp⟩
  | opens document hs =>
      refine ⟨_, history_openPass d document, fun document' generation hm => ?_⟩
      cases List.mem_singleton.mp hm
      exact hs
  | drops uri =>
      obtain ⟨schedules, tasks, ready, timers, heq⟩ := dropPending_eq d uri
      exact ⟨[], by simp [heq], by simp⟩
  | delays document _ =>
      obtain ⟨tasks, ready, timers, heq⟩ := lintSoon_eq d document
      exact ⟨[], by simp [heq, putSchedule], by simp⟩
  | publishes c generation violations _ =>
      unfold Desk.publish
      dsimp only
      split
      · exact ⟨[.published c.document generation], rfl, by simp⟩
      · exact ⟨[], (List.append_nil _).symm, by simp⟩
  | clears => exact ⟨[.refreshed], rfl, by simp⟩
  | enables => exact ⟨[.switched true, .refreshed], List.append_assoc .., by simp⟩
  | disables =>
      obtain ⟨tasks, ready, timers, heq⟩ :=
        outdateAll_eq ({ d with enabled := false }.note (.switched false)) true
      exact ⟨[.switched false], by rw [heq]; rfl, by simp⟩
  | closes uri =>
      obtain ⟨tasks, ready, timers, heq⟩ := closeDocument_eq d uri
      exact ⟨[.closed uri], by rw [heq], by simp⟩

theorem PassChange.retains {d d' : Desk} (h : PassChange S d d') {document : Document}
    (hr : d'.Retains document) : d.Retains document ∨ S document := by
  obtain ⟨task, a, ha, hdocument⟩ := hr
  rcases h.holds ha with ha | hs
  · exact .inl ⟨task, a, ha, hdocument⟩
  · exact .inr (hs document hdocument)

/-- What comes next begins a pass only with what is visible. -/
theorem ActSpec.snapshot?_next {d : Desk} {a : Action} {e : Effect} (h : ActSpec d a e) {b : Action}
    (hb : b ∈ e.next) {document : Document} (hs : b.snapshot? = some document) :
    document ∈ d.visible := by
  cases h with
  | collects _ _ hcollect => simp [(hcollect.next hb).1.1] at hs
  | begins _ _ hbegun => simp [(hbegun.next hb).1.1] at hs
  | replaces _ _ hbegun => simp [(hbegun.next hb).1.1] at hs
  | holds _ hn =>
      rw [hn, List.mem_singleton] at hb
      subst hb
      cases hs
  | fires _ hn => simp [hn] at hb
  | shows _ hn =>
      rw [hn] at hb
      obtain ⟨v, hv, rfl⟩ := List.mem_map.mp hb
      exact Option.some.inj hs ▸ hv
  | refreshes _ _ _ hn =>
      rw [hn, List.mem_singleton] at hb
      subst hb
      cases hs
  | enables _ _ _ hn =>
      rw [hn, List.mem_singleton] at hb
      subst hb
      cases hs
  | disables _ _ _ hn => simp [hn] at hb
  | closes _ hn => simp [hn] at hb
  | idles _ _ hn => simp [(plain_of_isAside (hn b hb)).2] at hs

end PassChanges

/-- A desk has no other snapshots of a document than those in `held`, and only they were linted
since `past` was the history. -/
structure HasOnly (uri : Url) (held : Document → Prop) (past : List Mark) (d : Desk) : Prop where
  visible : ∀ document ∈ d.visible, document.uri = uri → held document
  retained : ∀ {document}, d.Retains document → document.uri = uri → held document
  begun : ∃ since, d.history = past ++ since ∧
    ∀ document generation, .began document generation ∈ since → document.uri = uri →
      held document

section HasOnly

variable {uri : Url} {held : Document → Prop} {past : List Mark} {S : Document → Prop}

theorem HasOnly.passChange {d d' : Desk} (h : HasOnly uri held past d)
    (hS : ∀ document, S document → document.uri = uri → held document) (ht : PassChange S d d') :
    HasOnly uri held past d' := by
  refine ⟨ht.visible.1 ▸ h.visible, fun hr huri => ?_, ?_⟩
  · rcases ht.retains hr with hr | hs
    · exact h.retained hr huri
    · exact hS _ hs huri
  · obtain ⟨since, hsince, hheld⟩ := h.begun
    obtain ⟨marks, hmarks, hs⟩ := ht.marks
    refine ⟨since ++ marks, by rw [hmarks, hsince, List.append_assoc], fun document g hm huri => ?_⟩
    rcases List.mem_append.mp hm with hm | hm
    · exact hheld document g hm huri
    · exact hS document (hs document g hm) huri

theorem HasOnly.hostChanges {d d' : Desk} (h : HasOnly uri held past d)
    (hS : ∀ document, S document → document.uri = uri → held document) (hs : HostChanges S d d') :
    HasOnly uri held past d' := by
  induction hs with
  | refl => exact h
  | tail _ hs ih =>
      cases hs with
      | passChange ht => exact ih.passChange hS ht
      | shows documents hshows =>
          refine ⟨fun document hdocument huri => ?_, ih.retained, ih.begun⟩
          rcases hshows document hdocument with hvisible | hdocument
          · exact ih.visible document hvisible huri
          · exact hS document hdocument huri
      | configures settings => exact ⟨ih.visible, ih.retained, ih.begun⟩

theorem HasOnly.of_passState {d d' : Desk} (h : HasOnly uri held past d)
    (hb : d'.passState = d.passState) : HasOnly uri held past d' :=
  h.passChange (S := fun _ => False) (fun _ hs => hs.elim) (.same hb)

theorem HasOnly.advance {d : Desk} (h : HasOnly uri held past d) (hsound : d.Sound) (task : Nat) :
    HasOnly uri held past (d.advance task) := by
  rcases advance_cases d task with hb | ⟨-, hb⟩ | ⟨a, rest, e, hagenda, hspec, hb⟩
  · exact h.of_passState hb
  · have habort : HasOnly uri held past (d.abort task) := by
      refine ⟨h.visible, fun hr => ?_, h.begun⟩
      obtain ⟨t, a, ⟨agenda, hsome, hmem⟩, hdocument⟩ := hr
      rw [agenda?_abort] at hsome
      split at hsome
      · cases hsome
      · exact h.retained ⟨t, a, ⟨agenda, hsome, hmem⟩, hdocument⟩
    exact habort.of_passState hb
  · have ha : d.Holds task a := ⟨_, hagenda, List.mem_cons_self⟩
    have hpassChanges := hspec.passChanges (hsound.timersMatch.begun ha)
    have hdesk :=
      h.hostChanges (fun _ hs huri => h.retained ⟨task, a, ha, hs⟩ huri) hpassChanges.hostChanges
    suffices hset : HasOnly uri held past (e.desk.setAgenda task (e.next ++ rest)) from
      hset.of_passState hb
    refine ⟨hdesk.visible, fun {document} hr huri => ?_, hdesk.begun⟩
    obtain ⟨t, b, hholds, hdocument⟩ := hr
    rcases holds_setAgenda hholds with hholds | ⟨-, hmem, -⟩
    · exact hdesk.retained ⟨t, b, hholds, hdocument⟩ huri
    · rcases List.mem_append.mp hmem with hmem | hmem
      · rcases hdocument with hdocument | hdocument
        · exact h.visible document (hspec.snapshot?_next hmem hdocument) huri
        · exact h.retained ⟨task, a, ha, .inr (hspec.delayed?_next hmem ▸ hdocument)⟩ huri
      · exact h.retained ⟨task, b, ⟨_, hagenda, List.mem_cons_of_mem a hmem⟩, hdocument⟩ huri

theorem HasOnly.event {d : Desk} (h : HasOnly uri held past d) {e : HostEvent}
    (he : ∀ document, e.brings d document → document.uri = uri → held document) :
    HasOnly uri held past (e.apply d) := by
  by_cases hwaits : ∃ calls, e = .waits calls
  · obtain ⟨calls, rfl⟩ := hwaits
    refine ⟨h.visible, fun {document} hr huri => ?_, h.begun⟩
    obtain ⟨task, a, ⟨agenda, hsome, hmem⟩, hdocument⟩ := hr
    rcases agenda?_of_join ((agenda?_append d host _ _).symm.trans hsome) with hsome | ⟨-, rfl⟩
    · exact h.retained ⟨task, a, ⟨agenda, hsome, hmem⟩, hdocument⟩ huri
    · obtain ⟨call, hcall, rfl⟩ := List.mem_map.mp hmem
      rcases hdocument with hdocument | hdocument
      · exact he document ⟨call, hcall, hdocument⟩ huri
      · simp at hdocument
  · exact h.hostChanges he (HostEvent.hostChanges d fun calls heq => hwaits ⟨calls, heq⟩)

end HasOnly

end LintDesk.Desk
