import LintDesk.Proofs.Desk.PassState

/-! # What an action does

`ActSpec` lists all that an action can do to the pass state and to the agenda of its task. Every
statement about runs is proved from these cases.
-/

namespace LintDesk.Desk

/-- A pass over a document was begun: nothing comes of it, or its violations are collected. -/
inductive Begun (d : Desk) (document : Document) (e : Effect) : Prop where
  | stops (hoff : d.enabled = true →
        document.isLintable (d.settingsFor document.uri).languages = false)
      (hd : e.desk.passState = (d.openPass document).2.passState) (hn : e.next = [])
  | collects {c : Collection} (hc : c.pass? = some (document, d.generation + 1))
      (hs : CollectSpec (some c) (d.openPass document).2 e)

/-- What an action can do to a desk. -/
inductive ActSpec (d : Desk) : Action → Effect → Prop where
  /-- It goes on collecting. -/
  | collects {a : Action} {o : Option Collection} {e : Effect} (ha : a.collects = true)
      (ho : a.pass? = o.bind Collection.pass?) (hs : CollectSpec o d e) : ActSpec d a e
  /-- It begins a pass. -/
  | begins {a : Action} {document : Document} {d₁ : Desk} {e : Effect}
      (ha : a.snapshot? = some document) (h₁ : d₁.passState = d.passState)
      (hb : Begun d₁ document e) : ActSpec d a e
  /-- It drops the delayed lint of a document and begins a pass. -/
  | replaces {a : Action} {document : Document} {d₁ : Desk} {e : Effect}
      (ha : a.snapshot? = some document) (h₁ : d₁.passState = d.passState)
      (hb : Begun (d₁.dropPending document.uri) document e) : ActSpec d a e
  | holds {document : Document} {e : Effect} (hd : e.desk.passState = d.passState)
      (hn : e.next = [.fire document]) : ActSpec d (.holdBack document) e
  | fires {document : Document} {e : Effect}
      (hd : e.desk.passState = (d.spawn [.pass document]).2.passState) (hn : e.next = []) :
      ActSpec d (.fire document) e
  | shows {e : Effect} (hd : e.desk.passState = d.passState) (hn : e.next = d.visible.map .lint) :
      ActSpec d .lintVisible e
  /-- It clears all diagnostics. -/
  | refreshes {a : Action} {d₁ : Desk} {e : Effect} (ha : a.canRefresh = true)
      (h₁ : d₁.passState = d.passState) (hd : e.desk.passState = d₁.clearAll.passState)
      (hn : e.next = [.lintVisible]) : ActSpec d a e
  /-- It turns linting on. -/
  | enables {a : Action} {d₁ : Desk} {e : Effect} (ha : a.canRefresh = true)
      (h₁ : d₁.passState = d.passState)
      (hd : e.desk.passState = ({ d₁ with enabled := true }.note
        (.switched true)).clearAll.passState)
      (hn : e.next = [.lintVisible]) : ActSpec d a e
  /-- It turns linting off. -/
  | disables {a : Action} {d₁ : Desk} {e : Effect} (ha : a.canRefresh = true)
      (h₁ : d₁.passState = d.passState)
      (hd : e.desk.passState =
        ((({ d₁ with enabled := false }.note (.switched false)).outdateAll true).tell
          .clearAll).passState)
      (hn : e.next = []) : ActSpec d a e
  | closes {uri : Url} {e : Effect} (hd : e.desk.passState = (d.closeDocument uri).passState)
      (hn : e.next = []) : ActSpec d (.close uri) e
  /-- It does nothing to the pass state. -/
  | idles {a : Action} {e : Effect}
      (ha : a.isAside = true ∨ a.canRefresh = true ∨ ∃ document, a = .save document)
      (hd : e.desk.passState = d.passState) (hn : ∀ b ∈ e.next, b.isAside = true) : ActSpec d a e

theorem startPass_begun (d : Desk) (task : Nat) (document : Document) :
    Begun d document (d.startPass task document) := by
  unfold startPass
  dsimp only
  split
  · exact .collects rfl (startCollection_collectSpec _ task _)
  · next hoff =>
      refine .stops (fun hon => ?_) rfl rfl
      simpa [hon, openPass, note, putSchedule, collectionOf, Collection.isLintable,
        settingsFor] using hoff

theorem startRefresh_spec {d d₁ : Desk} {a : Action} (ha : a.canRefresh = true)
    (h₁ : d₁.passState = d.passState) : ActSpec d a d₁.startRefresh :=
  .refreshes ha h₁ rfl rfl

theorem startEnabling_spec {d d₁ : Desk} {a : Action} (ha : a.canRefresh = true)
    (h₁ : d₁.passState = d.passState) (enabled : Bool) :
    ActSpec d a (d₁.startEnabling enabled) := by
  unfold startEnabling
  split
  · exact .idles (.inr (.inl ha)) h₁ (by simp)
  · cases enabled with
    | true => exact .enables ha h₁ rfl rfl
    | false => exact .disables ha h₁ rfl rfl

theorem collect_spec (d : Desk) (task : Nat) (document : Document) (purpose : Purpose) :
    ActSpec d (.collect document purpose) (d.collect task document purpose) := by
  refine .collects rfl ?_ (collect_collectSpec d task document purpose)
  cases purpose <;> rfl

theorem spec_of_collectSpec {d : Desk} {a : Action} {o : Option Collection} {e : Effect}
    (ha : a.client? = some o) (hs : CollectSpec o d e) : ActSpec d a e := by
  refine .collects ?_ ?_ hs
  · cases a <;> simp_all [Action.collects, Action.client?]
  · cases a <;> simp_all [Action.pass?, Action.client?]

theorem takeCall_spec (d : Desk) (task : Nat) (w : FileWork) :
    ActSpec d (.take w) (d.takeCall task w) := by
  cases w with
  | lookup c l => exact spec_of_collectSpec rfl (takeCall_collectSpec d task rfl)
  | rules client r p => exact spec_of_collectSpec rfl (takeCall_collectSpec d task rfl)
  | ignoreFile key epoch path =>
      simp only [takeCall]
      split
      · split
        · exact startRefresh_spec rfl rfl
        · exact .idles (.inl rfl) rfl (by simp)
      · exact .idles (.inl rfl) rfl (by simp)
      · exact .idles (.inl rfl) rfl (by simp)

theorem makeCall_spec (d : Desk) (task : Nat) (w : FileWork) :
    ActSpec d (.ask w) (d.makeCall task w) := by
  cases w with
  | lookup c l => exact spec_of_collectSpec rfl (makeCall_collectSpec d task rfl)
  | rules client r p => exact spec_of_collectSpec rfl (makeCall_collectSpec d task rfl)
  | ignoreFile key epoch path =>
      obtain ⟨hd, hn⟩ := makeCall_passState d task (.ignoreFile key epoch path)
      refine .idles (.inl rfl) hd fun b hb => ?_
      rw [hn, List.mem_singleton] at hb
      rw [hb]
      rfl

theorem save_spec (d : Desk) (task : Nat) (document : Document) :
    ActSpec d (.save document) (d.act task (.save document)) := by
  have hmode := passState_runMode d document.uri
  unfold act
  dsimp only
  split
  · next heq =>
      rw [heq] at hmode
      exact .replaces rfl hmode (startPass_begun _ task document)
  · next heq =>
      rw [heq] at hmode
      exact .idles (.inr (.inr ⟨document, rfl⟩)) hmode (by simp)

/-- Every action does one of the things that `ActSpec` lists. -/
theorem act_spec (d : Desk) (task : Nat) (a : Action) : ActSpec d a (d.act task a) := by
  cases a with
  | lint document => exact .replaces rfl rfl (startPass_begun _ task document)
  | pass document => exact .begins rfl rfl (startPass_begun d task document)
  | collect document purpose => exact collect_spec d task document purpose
  | ask w => exact makeCall_spec d task w
  | take w => exact takeCall_spec d task w
  | request client r => exact spec_of_collectSpec rfl (requestRules_collectSpec d task client r)
  | takeTurn client r =>
      exact spec_of_collectSpec rfl (putGate_followPassage_collectSpec d task _ client r _)
  | answer client r epoch =>
      exact spec_of_collectSpec rfl (takeAnswer_collectSpec d task client r epoch)
  | evaluate r =>
      exact .idles (.inl rfl) (passState_after _ _ _ _) (by simp [act, Action.isAside])
  | conclude r e => exact .idles (.inl rfl) rfl (by simp [act])
  | collectResult c name engineTask =>
      exact spec_of_collectSpec rfl (takeResult_collectSpec d task c name engineTask)
  | holdBack document => exact .holds (passState_after _ _ _ _) (next_after _ _ _ _)
  | fire document => exact .fires rfl rfl
  | save document => exact save_spec d task document
  | refresh => exact startRefresh_spec rfl rfl
  | lintVisible => exact .shows rfl rfl
  | startOver => exact startRefresh_spec rfl rfl
  | setEnabled enabled => exact startEnabling_spec rfl rfl enabled
  | toggle =>
      change ActSpec d .toggle ((d.leave task (.flag (!d.enabled))).startEnabling (!d.enabled))
      apply startEnabling_spec
      · rfl
      · rfl
  | close uri => exact .closes rfl rfl
  | sleep milliseconds => exact .idles (.inl rfl) (passState_after _ _ _ _) (by simp [act])
  | await other =>
      unfold act
      dsimp only
      split
      · exact .idles (.inl rfl) rfl (by simp [Action.isAside])
      · exact .idles (.inl rfl) rfl (by simp)

end LintDesk.Desk
