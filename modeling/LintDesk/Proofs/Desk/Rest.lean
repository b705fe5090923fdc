import LintDesk.Proofs.Desk.ServedDocuments
import LintDesk.Proofs.Desk.Snapshots
import LintDesk.Proofs.Desk.Texts

/-! # A desk at rest

A text that is stored is going to be linted, and whatever tasks and clients do, its document stays
served from then on. So at rest the diagnostics that are shown come from a pass that was begun
after the text was stored, and they are those of the text unless this pass was begun with an older
snapshot (`shown_at_rest`).
-/

namespace LintDesk.Desk

section ServedWhileOpen

variable {past : Nat} {uri : Url}

/-! ### Events -/

theorem Owes.servedWhileOpen {d : Desk} (h : d.Owes past uri) : d.ServedWhileOpen past uri :=
  fun _ _ _ => .inl h

theorem ServedWhileOpen.congr {d d' : Desk} (hd : d.ServedWhileOpen past uri)
    (hsame : .closed uri ∉ d'.history → SameFor uri d d')
    (hhistory : ∀ m ∈ d.history, m ∈ d'.history)
    (hvisible : ∀ v ∈ d'.visible, v.uri = uri → ∃ v' ∈ d.visible, v'.uri = uri) :
    d'.ServedWhileOpen past uri := by
  rintro hon hopen ⟨v, hv, huri⟩
  have hsame := hsame hopen
  have hstill : .closed uri ∉ d.history := fun hm => hopen (hhistory _ hm)
  rcases hd (hsame.enabled ▸ hon) hstill (hvisible v hv huri) with ho | hs
  · exact .inl (hsame.owes ho)
  · exact .inr (hsame.settled hs)

theorem ServedWhileOpen.of_passState {d d' : Desk} (hd : d.ServedWhileOpen past uri)
    (hb : d'.passState = d.passState) : d'.ServedWhileOpen past uri := by
  have hhistory : d'.history = d.history := congrArg PassState.history hb
  have hvisible : d'.visible = d.visible := congrArg PassState.visible hb
  exact hd.congr (fun _ => .of_passState hb) (fun m hm => hhistory ▸ hm)
    fun v hv huri => ⟨v, hvisible ▸ hv, huri⟩

theorem ServedWhileOpen.start {d : Desk} (hd : d.ServedWhileOpen past uri) (a : Action) :
    (d.start a).ServedWhileOpen past uri :=
  hd.congr (fun _ => .spawn d [a]) (fun _ hm => hm) fun v hv huri => ⟨v, hv, huri⟩

theorem owes_lintSoon {d : Desk} (h : d.TimersMatch) (document : Document) :
    (d.lintSoon document).Owes past document.uri := by
  refine ⟨d.nextTask, .holdBack document, ⟨[.holdBack document], ?_, List.mem_singleton_self _⟩,
    .inl ⟨document, .inr (.inr rfl), rfl⟩⟩
  have hne : d.pending? document.uri ≠ some d.nextTask := fun hsome =>
    absurd (h.pending_lt hsome).2 (Nat.lt_irrefl _)
  rw [agenda?_lintSoon, if_neg hne, h.agenda?_nextTask, if_pos rfl]
  rfl

theorem ServedWhileOpen.lintSoon {d : Desk} (hd : d.ServedWhileOpen past uri) (h : d.TimersMatch)
    (document : Document) : (d.lintSoon document).ServedWhileOpen past uri := by
  by_cases huri : document.uri = uri
  · exact huri ▸ (owes_lintSoon h document).servedWhileOpen
  · obtain ⟨tasks, ready, timers, heq⟩ := lintSoon_eq d document
    refine hd.congr (fun _ => .lintSoon h huri) (fun m hm => by rw [heq]; exact hm)
      fun v hv huri => ⟨v, by rw [heq] at hv; exact hv, huri⟩

theorem ServedWhileOpen.didChange {d : Desk} (hd : d.ServedWhileOpen past uri) (h : d.Sound)
    (document : Document) : (d.didChange document).ServedWhileOpen past uri := by
  have hmode := passState_runMode d document.uri
  unfold Desk.didChange
  split
  · next heq =>
      rw [heq] at hmode
      exact (hd.of_passState hmode).lintSoon (h.of_passState hmode).timersMatch document
  · next heq =>
      rw [heq] at hmode
      exact hd.of_passState hmode

theorem ServedWhileOpen.cursorMoved {d : Desk} (hd : d.ServedWhileOpen past uri) (h : d.TimersMatch)
    (document : Document) : (d.cursorMoved document).ServedWhileOpen past uri := by
  unfold Desk.cursorMoved
  split
  · exact hd.lintSoon h document
  · exact hd

theorem SameFor.shows (d : Desk) (documents : List Document) :
    SameFor uri d { d with visible := documents } :=
  ⟨⟨rfl, rfl, fun _ _ => rfl⟩, rfl, rfl, rfl⟩

/-- A document that is opened is going to be linted. -/
theorem owes_opened {d : Desk} (h : d.Sound) (document : Document) :
    ((d.putDocument document).start (.lint document)).Owes past document.uri := by
  have hsound : (d.putDocument document).Sound :=
    h.hostChanges (putDocument_hostChanges (S := fun _ => True) d trivial)
  exact ⟨_, _, holds_start hsound.timersMatch _, .inl ⟨document, .inl rfl, rfl⟩⟩

theorem ServedWhileOpen.opened {d : Desk} (hd : d.ServedWhileOpen past uri) (h : d.Sound)
    (document : Document) :
    ((d.putDocument document).start (.lint document)).ServedWhileOpen past uri := by
  by_cases huri : document.uri = uri
  · exact huri ▸ (owes_opened h document).servedWhileOpen
  · obtain ⟨documents, heq, hmem⟩ := putDocument_eq d document
    rw [heq]
    refine hd.congr (fun _ => (SameFor.shows d documents).trans (.spawn _ _)) (fun _ hm => hm)
      fun v hv hv' => ?_
    rcases hmem v hv with hold | rfl
    · exact ⟨v, hold, hv'⟩
    · exact absurd hv' huri

/-- Another text is stored for an open document. -/
theorem ServedWhileOpen.putDocument {d : Desk} (hd : d.ServedWhileOpen past uri)
    {document : Document} (hopen : ∃ old ∈ d.visible, old.uri = document.uri) :
    (d.putDocument document).ServedWhileOpen past uri := by
  obtain ⟨documents, heq, hmem⟩ := putDocument_eq d document
  rw [heq]
  refine hd.congr (fun _ => .shows d documents) (fun _ hm => hm) fun v hv huri => ?_
  rcases hmem v hv with hold | rfl
  · exact ⟨v, hold, huri⟩
  · obtain ⟨old, hold, hsame⟩ := hopen
    exact ⟨old, hold, hsame.trans huri⟩

theorem ServedWhileOpen.closed {d : Desk} (hd : d.ServedWhileOpen past uri) (h : d.Sound)
    (closed : Url) : ((d.dropDocument closed).closeDocument closed).ServedWhileOpen past uri := by
  have hdrop : (d.dropDocument closed).Sound := by
    have hshows : Sound { d with visible := d.visible.filter (·.uri != closed) } :=
      h.hostChange (.shows (S := fun _ => True) _ fun _ _ => .inr trivial)
    exact hshows.of_passState rfl
  obtain ⟨tasks, ready, timers, heq⟩ := closeDocument_eq (d.dropDocument closed) closed
  refine hd.congr (fun hopen => ?_) (fun m hm => ?_) fun v hv huri => ⟨v, ?_, huri⟩
  · have hne : closed ≠ uri := by
      rintro rfl
      apply hopen
      rw [heq]
      exact List.mem_append_right _ (List.mem_singleton_self _)
    have hsame : SameFor uri d (d.dropDocument closed) :=
      (SameFor.shows d _).trans (.of_passState rfl)
    exact hsame.trans (.closeDocument hdrop.timersMatch hne)
  · rw [heq]
    exact List.mem_append_left _ hm
  · rw [heq] at hv
    exact List.mem_of_mem_filter hv

/-- After a restart everything that is open is going to be linted. -/
theorem servedWhileOpen_restart {d : Desk} (h : d.TimersMatch) :
    (d.start .lintVisible).ServedWhileOpen past uri :=
  Owes.servedWhileOpen ⟨_, _, holds_start h _, .inr (.inl rfl)⟩

theorem ServedWhileOpen.notice {d d' : Desk} (hd : d.ServedWhileOpen past uri) (h : d.Sound)
    {notice : Server.Notice} (hn : NoticeSpec d notice d') : d'.ServedWhileOpen past uri := by
  cases hn with
  | idles => exact hd
  | opens document => exact hd.opened h document
  | edits _ hopen =>
      exact (hd.putDocument hopen).didChange
        (h.hostChanges (putDocument_hostChanges (S := fun _ => True) d trivial)) _
  | saves => exact hd.start _
  | savesText _ hopen => exact (hd.putDocument hopen).start _
  | closes closed => exact hd.closed h closed
  | configures settings =>
      have hset : Sound { d with settings := Server.settingsOf (some settings) } :=
        h.hostChange (.configures (S := fun _ => True) _)
      exact servedWhileOpen_restart (hset.of_passState (passState_forgetAll _)).timersMatch.clearAll
  | invalidates uris =>
      exact servedWhileOpen_restart (h.of_passState (passState_forgetAll d)).timersMatch.clearAll
  | @moves moved line document _ =>
      have hcursor : ServedWhileOpen { d with cursor := some (moved, line) } past uri :=
        hd.of_passState rfl
      have hsound : Sound { d with cursor := some (moved, line) } := h.of_passState rfl
      exact hcursor.cursorMoved hsound.timersMatch document
  | points => exact hd.of_passState rfl

theorem ServedWhileOpen.wait {d : Desk} (hd : d.ServedWhileOpen past uri) (calls : List Call) :
    (HostEvent.apply d (.waits calls)).ServedWhileOpen past uri := by
  refine hd.congr (fun _ => ⟨⟨rfl, rfl, fun hh _ => ?_⟩, rfl, rfl, rfl⟩) (fun _ hm => hm)
    fun v hv huri => ⟨v, hv, huri⟩
  obtain ⟨agenda, hagenda, -⟩ := hh
  refine (agenda?_append d host _ _).trans ?_
  rw [hagenda]
  rfl

theorem ServedWhileOpen.event {d : Desk} (hd : d.ServedWhileOpen past uri) (h : d.Sound)
    {e : HostEvent} (he : e.IsClient) : (e.apply d).ServedWhileOpen past uri := by
  cases e with
  | starts call => exact hd.start _
  | waits calls => exact hd.wait calls
  | notices notice => exact hd.notice h (notice_spec d notice)
  | _ => exact he.elim

/-! ### Runs -/

theorem ServedWhileOpen.advance {d : Desk} (hd : d.ServedWhileOpen past uri) (h : d.Sound)
    (hpast : past ≤ d.generation) (task : Nat) : (d.advance task).ServedWhileOpen past uri := by
  rcases advance_cases d task with hb | ⟨hempty, hb⟩ | ⟨a, rest, e, hagenda, hspec, hb⟩
  · exact hd.of_passState hb
  · have habort : (d.abort task).ServedWhileOpen past uri := by
      refine hd.congr (fun _ => ⟨⟨rfl, rfl, fun hh _ => ?_⟩, rfl, rfl, rfl⟩) (fun _ hm => hm)
        fun v hv huri => ⟨v, hv, huri⟩
      obtain ⟨agenda, hagenda, hmem⟩ := hh
      rw [agenda?_abort]
      split
      · next heq =>
          rw [heq, hempty] at hagenda
          cases hagenda
          cases hmem
      · rfl
    exact habort.of_passState hb
  · exact (hd.act h hpast hagenda hspec).of_passState hb

theorem ServedWhileOpen.run {d d' : Desk} (hd : d.ServedWhileOpen past uri) (h : d.Sound)
    (hpast : past ≤ d.generation) (hr : Run HostEvent.IsClient d d') :
    d'.ServedWhileOpen past uri := by
  induction hr with
  | refl => exact hd
  | tail hprev hm ih =>
      have hsound := h.run hprev
      have hpast := Nat.le_trans hpast (h.generation_le hprev)
      cases hm with
      | works task => exact ih.advance hsound hpast task
      | drifts hb => exact ih.of_passState hb
      | hosts e he => exact ih.event hsound he

end ServedWhileOpen

/-! ### New texts -/

theorem owes_didChange {past : Nat} {d : Desk} (h : d.Sound) (document : Document)
    (hmode : (d.runMode document.uri).1 = .onType) :
    (d.didChange document).Owes past document.uri := by
  have hpassState := passState_runMode d document.uri
  unfold Desk.didChange
  split
  · next heq =>
      rw [heq] at hpassState
      exact owes_lintSoon (h.of_passState hpassState).timersMatch document
  · next heq =>
      rw [heq] at hmode
      cases hmode

/-- A new text is going to be linted, and there is no other of its document. -/
theorem Stores.owes {past : Nat} {uri : Url} {d d' : Desk} (h : Stores uri d d') (hsound : d.Sound)
    (hne : d'.text? uri ≠ d.text? uri) :
    d'.Owes past uri ∧ ∀ v ∈ d'.visible, v.uri = uri → d'.text? uri = some v.text := by
  have hunique : ∀ document : Document, document.uri = uri →
      d'.visible = (d.putDocument document).visible →
      ∀ v ∈ d'.visible, v.uri = uri → d'.text? uri = some v.text := by
    rintro document rfl hvisible v hv huri
    rw [hvisible] at hv
    rw [text?, document?_congr hvisible, document?_putDocument, eq_of_mem_putDocument hv huri]
    rfl
  cases h with
  | opens document huri =>
      exact ⟨huri ▸ owes_opened hsound document, hunique document huri rfl⟩
  | edits version texts hmode =>
      rcases (notice_spec d (.changed uri version texts)).eq_or_edits with
        heq | ⟨document, rfl, heq⟩
      · exact absurd (by rw [heq]) hne
      · have hput : (d.putDocument document).Sound :=
          hsound.hostChanges (putDocument_hostChanges (S := fun _ => True) d trivial)
        refine ⟨?_, hunique document rfl (by rw [heq, visible_didChange])⟩
        rw [heq]
        exact owes_didChange hput document ((runMode_putDocument d document _).trans hmode)

/-- While the text of a document stays as it is, a client brings no snapshots with another text. -/
theorem HasOnly.keepsText {uri : Url} {held : Document → Prop} {past : List Mark} {d₁ d : Desk}
    (h : HasOnly uri held past d₁) (hsound : d₁.Sound)
    (hheld : ∀ document : Document, document.uri = uri → d₁.text? uri = some document.text →
      held document)
    (hr : Relation.ReflTransGen (KeepsText uri) d₁ d) : HasOnly uri held past d := by
  induction hr with
  | refl => exact h
  | tail hprev hs ih =>
      obtain ⟨hm, htext⟩ := hs
      cases hm with
      | works task => exact ih.advance (hsound.run (KeepsText.run hprev)) task
      | drifts hb => exact ih.of_passState hb
      | hosts e he =>
          refine ih.event fun document hbrings huri => hheld document huri ?_
          rw [← text?_of_keepsText hprev, ← htext, ← huri]
          cases e with
          | starts call =>
              rw [HostEvent.brings, show call.action.snapshot? = none from he] at hbrings
              cases hbrings
          | waits calls =>
              obtain ⟨call, hmem, hsome⟩ := hbrings
              rw [he call hmem] at hsome
              cases hsome
          | notices notice =>
              rw [text?, HostEvent.apply, (notice_spec _ notice).document?_eq hbrings]
              rfl
          | _ => exact he.elim

/-! ### Rest -/

/-- No timer is set, no pass is running, and no task is about to begin one. -/
def AtRest (d : Desk) : Prop :=
  ∀ task a, d.Holds task a →
    a.delayed? = none ∧ a.pass? = none ∧ a.snapshot? = none ∧ a ≠ .lintVisible

theorem AtRest.not_owes {past : Nat} {d : Desk} (h : d.AtRest) (uri : Url) :
    ¬d.Owes past uri := by
  rintro ⟨task, a, hh, howed⟩
  obtain ⟨hdelayed, hpass, hsnapshot, hvisible⟩ := h task a hh
  rcases howed with ⟨v, rfl | rfl | hv, -⟩ | rfl | ⟨v, generation, hp, -⟩
  · cases hsnapshot
  · cases hsnapshot
  · rw [hdelayed] at hv
    cases hv
  · exact hvisible rfl
  · rw [hpass] at hp
    cases hp

theorem atRest_of_tasks {d : Desk} (h : d.tasks = []) : d.AtRest := by
  rintro task a ⟨agenda, hagenda, -⟩
  simp [agenda?, h] at hagenda

/-- At rest, with linting on, the diagnostics that are shown for an open document are those of the
snapshot with which the last pass over it was begun. This pass was begun after the last change of
the text, from `d₁` to `d₂`, and its snapshot has that text, or some task had it already at `d₂`. So
an edit is lost exactly if the last pass is one that a task begins after the edit with a snapshot
that it took before. -/
theorem shown_at_rest {d₀ d : Desk} {document : Document} (h₀ : d₀.IsFresh) (hv₀ : d₀.visible = [])
    (hr : Relation.ReflTransGen (TypesText document.uri) d₀ d) (hrest : d.AtRest)
    (hon : d.enabled = true) (hvisible : d.document? document.uri = some document)
    (hopen : .closed document.uri ∉ d.history)
    (hlintable : document.isLintable (d.settingsFor document.uri).languages = true) :
    ∃ d₁ d₂ snapshot generation, Relation.ReflTransGen (TypesText document.uri) d₀ d₁ ∧
      Stores document.uri d₁ d₂ ∧ d₂.text? document.uri ≠ d₁.text? document.uri ∧
      Relation.ReflTransGen (KeepsText document.uri) d₂ d ∧
      lastBegun d.history document.uri = some (snapshot, generation) ∧
      d₂.generation < generation ∧
      (snapshot.text = document.text ∨ d₂.Retains snapshot) ∧
      (snapshot.language = document.language →
        shown d.events document.uri = some snapshot ∧
        ((∃ s, shown d.events document.uri = some s ∧ s.text = document.text) ↔
          snapshot.text = document.text)) := by
  have htext₀ : d₀.text? document.uri = none := by simp [text?, document?, hv₀]
  have htext : d.text? document.uri = some document.text := by rw [text?, hvisible]; rfl
  rcases last_stores hr with hkeeps | ⟨d₁, d₂, hr₁, htypes, hne, hkeeps⟩
  · rw [text?_of_keepsText hkeeps, htext₀] at htext
    cases htext
  have hsound₁ : d₁.Sound := h₀.sound.run (TypesText.run hr₁)
  have hsound : d₂.Sound := hsound₁.move htypes.move
  have htext₂ : d₂.text? document.uri = some document.text :=
    (text?_of_keepsText hkeeps).symm.trans htext
  -- Served since the last change: at rest a pass was begun after it.
  obtain ⟨howes, hunique⟩ := (htypes.stores hne).owes hsound₁ hne
  obtain ⟨snapshot, generation, hbegun, hyoung, hshown⟩ :=
    (howes.servedWhileOpen.run hsound (Nat.le_refl _) (KeepsText.run hkeeps) hon hopen
      ⟨document, List.mem_of_find?_eq_some hvisible, rfl⟩).resolve_left
      (hrest.not_owes document.uri)
  obtain ⟨hmem, huri⟩ := mem_of_lastBegun hbegun
  have hheld : snapshot.text = document.text ∨ d₂.Retains snapshot := by
    have honly : HasOnly document.uri
        (fun v => v.text = document.text ∨ d₂.Retains v) d₂.history d₂ := by
      refine ⟨fun v hv huri => .inl ?_, fun hretains _ => .inr hretains,
        [], (List.append_nil _).symm, by simp⟩
      exact Option.some.inj ((hunique v hv huri).symm.trans htext₂)
    obtain ⟨since, hsince, hheld⟩ := (honly.keepsText hsound (fun v _ hv =>
      .inl (Option.some.inj (hv.symm.trans htext₂))) hkeeps).begun
    refine hheld snapshot generation ?_ huri
    -- The pass is too young to be in the history before the change.
    rw [hsince] at hmem
    refine (List.mem_append.mp hmem).resolve_left fun hold => ?_
    exact absurd (hsound.passesOrdered.begun_le hold rfl).2 (Nat.not_le_of_lt hyoung)
  refine ⟨d₁, d₂, snapshot, generation, hr₁, htypes.stores hne, hne, hkeeps, hbegun, hyoung,
    hheld, fun hlanguage => ?_⟩
  have hsnapshot : shown d.events document.uri = some snapshot := by
    apply hshown
    unfold Document.isLintable at hlintable ⊢
    rwa [huri, hlanguage]
  refine ⟨hsnapshot, ?_⟩
  rw [hsnapshot]
  simp

/-- Two documents are opened and linted. The settings change, and while the loop over both waits for
the engine the second one is edited. -/
def editedDesk : Desk :=
  let a := draft "A" "a\n"
  let b := draft "B" "b\n"
  let d := HostEvent.apply (HostEvent.apply quietDesk (.notices (.opened a))) (.notices (.opened b))
  let d := HostEvent.apply (d.perform 60 [.sleep 5000]) (.notices (.configured (.obj [])))
  let d := HostEvent.apply (d.perform 60 []) (.notices (.changed b.uri 2 ["b\t\n"]))
  d.perform 80 [.sleep 5000]

/-- While tasks work on their own no text changes. -/
theorem Sound.types {uri : Url} {d d' : Desk} (h : d.Sound)
    (hr : Run (fun e => e.IsClient ∧ ∃ calls, e = .waits calls) d d') :
    Relation.ReflTransGen (TypesText uri) d d' := by
  have hsame : ∀ {d₁ d₂ : Desk}, d₂.visible = d₁.visible → d₂.text? uri = d₁.text? uri :=
    fun hvisible => by rw [text?, document?, hvisible]; rfl
  induction hr with
  | refl => exact .refl
  | tail hprev hm ih =>
      refine ih.tail ?_
      cases hm with
      | works task =>
          refine ⟨.works task, fun hne => absurd (hsame ?_) hne⟩
          exact ((h.run hprev).visible_advance task).1
      | drifts hb =>
          exact ⟨.drifts hb, fun hne => absurd (hsame (congrArg PassState.visible hb)) hne⟩
      | hosts e he =>
          obtain ⟨hclient, calls, rfl⟩ := he
          exact ⟨.hosts _ hclient, fun hne => absurd (hsame rfl) hne⟩

theorem editedDesk_types :
    Relation.ReflTransGen (TypesText (draft "B" "b\n").uri) quietDesk editedDesk := by
  let a := draft "A" "a\n"
  let b := draft "B" "b\n"
  have hother : ∀ (d : Desk) (notice : Server.Notice),
      (HostEvent.apply d (.notices notice)).text? b.uri = d.text? b.uri →
      TypesText b.uri d (HostEvent.apply d (.notices notice)) :=
    fun _ _ htext => ⟨.hosts _ trivial, fun hne => absurd htext hne⟩
  have hstores : ∀ (d : Desk) (notice : Server.Notice), Stores b.uri d (notice.apply d) →
      TypesText b.uri d (HostEvent.apply d (.notices notice)) :=
    fun _ _ h => ⟨.hosts _ trivial, fun _ => h⟩
  have hwork : ∀ (d : Desk) (fuel : Nat) (calls : List Call),
      (∀ call ∈ calls, call.action.snapshot? = none) →
      Relation.ReflTransGen (TypesText b.uri) quietDesk d →
      Relation.ReflTransGen (TypesText b.uri) quietDesk (d.perform fuel (calls.map Call.action)) :=
    fun d fuel calls hcalls hr => hr.trans ((quietDesk_isFresh.sound.run (TypesText.run hr)).types
      (perform_run calls ⟨hcalls, calls, rfl⟩ fuel d))
  have hfirst := Relation.ReflTransGen.single (hother quietDesk (.opened a) (by decide))
  have hboth := hfirst.tail (hstores _ (.opened b) (.opens b rfl))
  have hlinted := hwork _ 60 [.sleep 5000] (by decide) hboth
  have hconfigured := hlinted.tail (hother _ (.configured (.obj [])) (by decide))
  have hlooping := hwork _ 60 [] (by decide) hconfigured
  have hedited := hlooping.tail
    (hstores _ (.changed b.uri 2 ["b\t\n"]) (.edits 2 ["b\t\n"] (by decide)))
  unfold editedDesk
  dsimp only
  exact hwork _ 80 [.sleep 5000] (by decide) hedited

/-- The loop goes on with its old snapshot, and the edit is lost. -/
theorem shown_at_rest_of_edit :
    let old := draft "B" "b\n"
    let new := { draft "B" "b\t\n" with version := 2 }
    editedDesk.document? new.uri = some new ∧ shown editedDesk.events new.uri = some old ∧
    ∃ d₁ d₂ generation, Relation.ReflTransGen (TypesText new.uri) quietDesk d₁ ∧
      Stores new.uri d₁ d₂ ∧ Relation.ReflTransGen (KeepsText new.uri) d₂ editedDesk ∧
      lastBegun editedDesk.history new.uri = some (old, generation) ∧
      d₂.generation < generation ∧ d₂.Retains old := by
  intro old new
  have htypes : Relation.ReflTransGen (TypesText new.uri) quietDesk editedDesk := editedDesk_types
  have hvisible : editedDesk.document? new.uri = some new := by decide
  obtain ⟨d₁, d₂, snapshot, generation, hr, hstores, -, hkeeps, hbegun, hyoung, hheld, hshown⟩ :=
    shown_at_rest quietDesk_isFresh rfl htypes (atRest_of_tasks (by rfl)) (by decide) hvisible
      (by decide) (by decide)
  have hold : (lastBegun editedDesk.history new.uri).map Prod.fst = some old := by decide
  rw [hbegun] at hold
  obtain rfl : snapshot = old := Option.some.inj hold
  have htext : old.text ≠ new.text := by decide
  exact ⟨hvisible, (hshown rfl).1, d₁, d₂, generation, hr, hstores, hkeeps, hbegun, hyoung,
    hheld.resolve_left htext⟩

/-- So at rest the diagnostics need not be those of the text. -/
theorem edit_lost_at_rest :
    ¬∀ (d : Desk) (document : Document),
      Relation.ReflTransGen (TypesText document.uri) quietDesk d → d.AtRest → d.enabled = true →
      d.document? document.uri = some document → .closed document.uri ∉ d.history →
      document.isLintable (d.settingsFor document.uri).languages = true →
      ∃ s, shown d.events document.uri = some s ∧ s.text = document.text := by
  intro h
  let new := { draft "B" "b\t\n" with version := 2 }
  obtain ⟨s, hshown, htext⟩ := h editedDesk new editedDesk_types (atRest_of_tasks (by rfl))
    (by decide) (by decide) (by decide) (by decide)
  have hold : shown editedDesk.events new.uri = some (draft "B" "b\n") := by decide
  rw [hold] at hshown
  cases hshown
  exact absurd htext (by decide)

end LintDesk.Desk
