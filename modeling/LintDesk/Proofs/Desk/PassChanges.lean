import LintDesk.Proofs.Desk.Interleaving
import LintDesk.Proofs.Desk.Views

/-! # Single changes to the pass state

Whatever a task or a host does is a sequence of the changes listed in `PassChange` and `HostChange`,
apart from what is left on the agenda of the task itself and on that of the host. What all of them
keep is kept by every action and every event.
-/

namespace LintDesk

/-- The pass of an action is one of those in a history, if it has one. -/
def Action.BegunIn (history : List Mark) (a : Action) : Prop :=
  ∀ document generation, a.pass? = some (document, generation) →
    .began document generation ∈ history

theorem Action.BegunIn.mono {a : Action} {history history' : List Mark} (h : a.BegunIn history)
    (hle : ∀ m ∈ history, m ∈ history') : a.BegunIn history' :=
  fun document generation hp => hle _ (h document generation hp)

namespace Desk

/-- A single change to the pass state that begins or delays passes only over snapshots in `S`. -/
inductive PassChange (S : Document → Prop) : Desk → Desk → Prop where
  | same {d d' : Desk} (h : d'.passState = d.passState) : PassChange S d d'
  | spawns {d : Desk} (agenda : List Action)
      (h : ∀ a ∈ agenda, a.delayed? = none ∧ a.pass? = none)
      (hs : ∀ a ∈ agenda, ∀ document, a.snapshot? = some document → S document) :
      PassChange S d (d.spawn agenda).2
  | opens {d : Desk} (document : Document) (hs : S document) :
      PassChange S d (d.openPass document).2
  | drops {d : Desk} (uri : Url) : PassChange S d (d.dropPending uri)
  | delays {d : Desk} (document : Document) (hs : S document) : PassChange S d (d.lintSoon document)
  | publishes {d : Desk} (c : Collection) (generation : Nat) (violations : List Violation)
      (h : .began c.document generation ∈ d.history) :
      PassChange S d (d.publish c generation violations)
  | clears {d : Desk} : PassChange S d d.clearAll
  | enables {d : Desk} : PassChange S d ({ d with enabled := true }.note (.switched true)).clearAll
  | disables {d : Desk} :
      PassChange S d ((({ d with enabled := false }.note (.switched false)).outdateAll true).tell
        .clearAll)
  | closes {d : Desk} (uri : Url) : PassChange S d (d.closeDocument uri)

/-- A sequence of changes to the pass state. -/
abbrev PassChanges (S : Document → Prop) : Desk → Desk → Prop :=
  Relation.ReflTransGen (PassChange S)

/-- A single change that a host makes: also to what it shows and to the settings. -/
inductive HostChange (S : Document → Prop) : Desk → Desk → Prop where
  | passChange {d d' : Desk} (h : PassChange S d d') : HostChange S d d'
  | shows {d : Desk} (documents : List Document)
      (hs : ∀ document ∈ documents, document ∈ d.visible ∨ S document) :
      HostChange S d { d with visible := documents }
  | configures {d : Desk} (settings : SettingsLayers) : HostChange S d { d with settings }

/-- A sequence of changes that a host makes. -/
abbrev HostChanges (S : Document → Prop) : Desk → Desk → Prop :=
  Relation.ReflTransGen (HostChange S)

section Sequences

variable {S : Document → Prop}

theorem PassChanges.hostChanges {d d' : Desk} (h : PassChanges S d d') : HostChanges S d d' := by
  induction h with
  | refl => exact .refl
  | tail _ ht ih => exact ih.tail (.passChange ht)

theorem PassChanges.of_passState {d d' : Desk} (h : d'.passState = d.passState) :
    PassChanges S d d' :=
  .single (.same h)

theorem HostChanges.of_passState {d d' : Desk} (h : d'.passState = d.passState) :
    HostChanges S d d' :=
  .single (.passChange (.same h))

theorem start_passChanges (d : Desk) {a : Action} (h : a.delayed? = none ∧ a.pass? = none)
    (hs : ∀ document, a.snapshot? = some document → S document) : PassChanges S d (d.start a) :=
  .single (.spawns [a] (by simpa using h) (by simpa using hs))

/-! ### Actions -/

theorem plain_of_isAside {a : Action} (h : a.isAside = true) :
    (a.delayed? = none ∧ a.pass? = none) ∧ a.snapshot? = none := by
  unfold Action.isAside at h
  split at h <;> first | exact ⟨⟨rfl, rfl⟩, rfl⟩ | cases h

theorem StartsHelpers.history {d d' : Desk} (h : StartsHelpers d d') : d'.history = d.history := by
  induction h with
  | same h => exact congrArg PassState.history h
  | spawn _ a _ h ih => exact (congrArg PassState.history h).trans ih

theorem StartsHelpers.passChanges {d d' : Desk} (h : StartsHelpers d d') : PassChanges S d d' := by
  induction h with
  | same h => exact .of_passState h
  | spawn _ a ha h ih =>
      obtain ⟨hplain, hnone⟩ := plain_of_isAside ha
      refine (ih.trans (start_passChanges _ hplain fun document hs => ?_)).tail (.same h)
      simp [hnone] at hs

theorem CollectSpec.passChanges {o : Option Collection} {d : Desk} {e : Effect}
    (hs : CollectSpec o d e)
    (h : ∀ document generation, o.bind Collection.pass? = some (document, generation) →
      .began document generation ∈ d.history) : PassChanges S d e.desk := by
  cases hs with
  | goesOn hd _ _ => exact hd.passChanges
  | ends _ hd _ => exact hd.passChanges
  | publishes violations hc hd _ he =>
      refine (hd.passChanges.tail (.publishes _ _ violations ?_)).tail (.same he)
      rw [hd.history]
      exact h _ _ hc

theorem history_openPass (d : Desk) (document : Document) :
    (d.openPass document).2.history = d.history ++ [.began document (d.generation + 1)] := rfl

theorem began_mem_openPass {d : Desk} {document document' : Document} {c : Collection}
    {generation : Nat} (hc : c.pass? = some (document, d.generation + 1))
    (hp : c.pass? = some (document', generation)) :
    .began document' generation ∈ (d.openPass document).2.history := by
  obtain ⟨rfl, rfl⟩ := Prod.mk.inj (Option.some.inj (hc.symm.trans hp))
  simp [history_openPass]

theorem Begun.passChanges {d : Desk} {document : Document} {e : Effect} (h : Begun d document e)
    (hs : S document) : PassChanges S d e.desk := by
  have hopen : PassChanges S d (d.openPass document).2 := .single (.opens document hs)
  cases h with
  | stops _ hd _ => exact hopen.tail (.same hd)
  | collects hc hcollect =>
      exact hopen.trans (hcollect.passChanges fun _ _ hp => began_mem_openPass hc hp)

/-- What an action does is a sequence of single changes, for its own snapshot. -/
theorem ActSpec.passChanges {d : Desk} {a : Action} {e : Effect} (h : ActSpec d a e)
    (hbegun : a.BegunIn d.history) :
    PassChanges (fun document => a.snapshot? = some document ∨ a.delayed? = some document)
      d e.desk := by
  cases h with
  | collects _ ho hs => exact hs.passChanges fun document generation hp => hbegun _ _ (ho.trans hp)
  | begins ha h₁ hb => exact (PassChanges.of_passState h₁).trans (hb.passChanges (.inl ha))
  | replaces ha h₁ hb =>
      exact ((PassChanges.of_passState h₁).tail (.drops _)).trans (hb.passChanges (.inl ha))
  | holds hd _ => exact .of_passState hd
  | @fires document _ hd _ =>
      refine (start_passChanges d (a := .pass document) ⟨rfl, rfl⟩ fun document' hs => ?_).tail
        (.same hd)
      exact .inr hs
  | shows hd _ => exact .of_passState hd
  | refreshes _ h₁ hd _ => exact ((PassChanges.of_passState h₁).tail .clears).tail (.same hd)
  | enables _ h₁ hd _ => exact ((PassChanges.of_passState h₁).tail .enables).tail (.same hd)
  | disables _ h₁ hd _ => exact ((PassChanges.of_passState h₁).tail .disables).tail (.same hd)
  | closes hd _ => exact (Relation.ReflTransGen.single (.closes _)).tail (.same hd)
  | idles _ hd _ => exact .of_passState hd

/-! ### Events -/

theorem putDocument_eq (d : Desk) (document : Document) :
    ∃ documents, d.putDocument document = { d with visible := documents } ∧
      ∀ v ∈ documents, v ∈ d.visible ∨ v = document := by
  unfold putDocument
  split
  · refine ⟨_, rfl, fun v hv => ?_⟩
    obtain ⟨v', hv', rfl⟩ := List.mem_map.mp hv
    split
    · exact .inr rfl
    · exact .inl hv'
  · refine ⟨_, rfl, fun v hv => ?_⟩
    rcases List.mem_append.mp hv with hv | hv
    · exact .inl hv
    · exact .inr (List.mem_singleton.mp hv)

theorem putDocument_hostChanges (d : Desk) {document : Document} (hs : S document) :
    HostChanges S d (d.putDocument document) := by
  obtain ⟨documents, heq, hmem⟩ := putDocument_eq d document
  rw [heq]
  refine .single (.shows documents fun v hv => ?_)
  rcases hmem v hv with hold | rfl
  · exact .inl hold
  · exact .inr hs

theorem didChange_passChanges (d : Desk) {document : Document} (hs : S document) :
    PassChanges S d (d.didChange document) := by
  have hmode := passState_runMode d document.uri
  unfold didChange
  split
  · next heq =>
      rw [heq] at hmode
      exact (PassChanges.of_passState hmode).tail (.delays document hs)
  · next heq =>
      rw [heq] at hmode
      exact .of_passState hmode

theorem cursorMoved_passChanges (d : Desk) {document : Document} (hs : S document) :
    PassChanges S d (d.cursorMoved document) := by
  unfold cursorMoved
  split
  · exact .single (.delays document hs)
  · exact .refl

/-- Caches are dropped, all diagnostics are cleared, and what is visible is linted by a task. -/
theorem restart_hostChanges (d : Desk) :
    HostChanges S d (d.forgetAll.clearAll.start .lintVisible) := by
  have hforget : HostChanges S d d.forgetAll := .of_passState rfl
  have hstart : PassChanges S d.forgetAll.clearAll (d.forgetAll.clearAll.start .lintVisible) :=
    start_passChanges _ ⟨rfl, rfl⟩ fun document h => by cases h
  exact (hforget.tail (.passChange .clears)).trans hstart.hostChanges

theorem start_hostChanges (d : Desk) {a : Action} {document : Document}
    (ha : a = .lint document ∨ a = .save document) (hs : S document) :
    HostChanges S d (d.start a) := by
  rcases ha with rfl | rfl <;>
    exact (start_passChanges d ⟨rfl, rfl⟩ fun v hv => Option.some.inj hv ▸ hs).hostChanges

/-- What a notice does is a sequence of single changes for the snapshot it leads to. -/
theorem NoticeSpec.hostChanges {d d' : Desk} {notice : Server.Notice} (h : NoticeSpec d notice d')
    (hs : ∀ document, notice.snapshot? d = some document → S document) : HostChanges S d d' := by
  cases h with
  | idles => exact .refl
  | opens document =>
      exact (putDocument_hostChanges d (hs document rfl)).trans
        (start_hostChanges _ (.inl rfl) (hs document rfl))
  | edits hsnapshot _ =>
      exact (putDocument_hostChanges d (hs _ hsnapshot)).trans
        (didChange_passChanges _ (hs _ hsnapshot)).hostChanges
  | saves hsnapshot => exact start_hostChanges d (.inr rfl) (hs _ hsnapshot)
  | savesText hsnapshot _ =>
      exact (putDocument_hostChanges d (hs _ hsnapshot)).trans
        (start_hostChanges _ (.inr rfl) (hs _ hsnapshot))
  | closes uri =>
      have hshows : HostChanges S d { d with visible := d.visible.filter (·.uri != uri) } :=
        .single (.shows _ fun document h => .inl (List.mem_of_mem_filter h))
      have hdrop : HostChanges S d (d.dropDocument uri) := hshows.tail (.passChange (.same rfl))
      exact hdrop.tail (.passChange (.closes uri))
  | configures settings =>
      exact (Relation.ReflTransGen.single (.configures _)).trans (restart_hostChanges _)
  | invalidates uris => exact restart_hostChanges d
  | @moves uri line document hsnapshot =>
      have hcursor : HostChanges S d { d with cursor := some (uri, line) } := .of_passState rfl
      exact hcursor.trans (cursorMoved_passChanges _ (hs document hsnapshot)).hostChanges
  | points => exact .of_passState rfl

/-- What a host does is a sequence of single changes for what it brings, if it does not wait. -/
theorem HostEvent.hostChanges (d : Desk) {e : HostEvent} (h : ∀ calls, e ≠ .waits calls) :
    HostChanges (fun document => e.brings d document) d (e.apply d) := by
  cases e with
  | starts call => exact (start_passChanges d (by simp) fun _ hs => hs).hostChanges
  | waits calls => exact absurd rfl (h calls)
  | requests document => exact .single (.passChange (.delays document rfl))
  | edits document => exact (didChange_passChanges d rfl).hostChanges
  | moves document => exact (cursorMoved_passChanges d rfl).hostChanges
  | shows documents => exact .single (.shows documents fun v hv => .inr hv)
  | configures settings => exact .single (.configures settings)
  | notices notice => exact (notice_spec d notice).hostChanges fun _ hs => hs

theorem notice_names {d : Desk} {notice : Server.Notice} {document : Document}
    (h : notice.snapshot? d = some document) : notice.names document.uri := by
  cases notice with
  | opened v => exact congrArg Document.uri (Option.some.inj h)
  | changed uri version texts =>
      obtain ⟨text, -, h⟩ := Option.bind_eq_some_iff.mp h
      exact (updateDocument_uri h).symm
  | saved uri text =>
      cases text with
      | some text => exact (updateDocument_uri h).symm
      | none => exact (document?_uri h).symm
  | cursorMoved uri line => exact (document?_uri h).symm
  | _ => cases h

theorem HostEvent.names_of_brings {d : Desk} {e : HostEvent} {document : Document}
    (h : e.brings d document) : e.names document.uri := by
  have hcall : ∀ call : Call, call.action.snapshot? = some document →
      call.names document.uri := by
    intro call h
    cases call <;> cases h <;> rfl
  cases e with
  | starts call => exact hcall call h
  | waits calls =>
      obtain ⟨call, hmem, h⟩ := h
      exact ⟨call, hmem, hcall call h⟩
  | requests v => exact congrArg Document.uri h
  | edits v => exact congrArg Document.uri h
  | moves v => exact congrArg Document.uri h
  | shows documents => exact ⟨document, h, rfl⟩
  | configures settings => exact h.elim
  | notices notice => exact notice_names h

/-- Tasks touch neither what is shown nor the settings. -/
theorem PassChange.visible {d d' : Desk} (h : PassChange S d d') :
    d'.visible = d.visible ∧ d'.settings = d.settings := by
  cases h with
  | same hb => exact ⟨congrArg PassState.visible hb, congrArg PassState.settings hb⟩
  | spawns agenda _ => exact ⟨rfl, rfl⟩
  | opens document => exact ⟨rfl, rfl⟩
  | drops uri =>
      obtain ⟨schedules, tasks, ready, timers, heq⟩ := dropPending_eq d uri
      rw [heq]
      exact ⟨rfl, rfl⟩
  | delays document =>
      obtain ⟨tasks, ready, timers, heq⟩ := lintSoon_eq d document
      rw [heq]
      exact ⟨rfl, rfl⟩
  | publishes c generation violations _ =>
      unfold Desk.publish
      dsimp only
      split <;> exact ⟨rfl, rfl⟩
  | clears => exact ⟨rfl, rfl⟩
  | enables => exact ⟨rfl, rfl⟩
  | disables =>
      obtain ⟨tasks, ready, timers, heq⟩ :=
        outdateAll_eq ({ d with enabled := false }.note (.switched false)) true
      rw [heq]
      exact ⟨rfl, rfl⟩
  | closes uri =>
      obtain ⟨tasks, ready, timers, heq⟩ := closeDocument_eq d uri
      rw [heq]
      exact ⟨rfl, rfl⟩

theorem PassChanges.visible {d d' : Desk} (h : PassChanges S d d') :
    d'.visible = d.visible ∧ d'.settings = d.settings := by
  induction h with
  | refl => exact ⟨rfl, rfl⟩
  | tail _ ht ih => exact ⟨ht.visible.1.trans ih.1, ht.visible.2.trans ih.2⟩

end Sequences

end Desk

end LintDesk
