import LintDesk.Proofs.Desk.Snapshots

/-! # After a document was closed

Closing a document drops its timer and makes its passes outdated. What is left of it are snapshots
on the agendas of tasks: of a loop over what was visible, of a timer that had fired, of a task that
was to lint it. Diagnostics that are published afterwards come from these, or from what the host
still shows, if it does not name the document again (`published_after_closing`).
-/

namespace LintDesk.Desk

/-- A document is closed: by a task, or because a client said so. -/
inductive Closing (uri : Url) : Desk → Desk → Prop where
  | works {d : Desk} {task : Nat} {rest : List Action}
      (h : d.agenda? task = some (.close uri :: rest)) : Closing uri d (d.advance task)
  | notices {d : Desk} : Closing uri d (Server.Notice.apply d (.closed uri))

/-- Some task is going to begin a pass with the snapshot. -/
def HoldsSnapshot (d : Desk) (document : Document) : Prop :=
  ∃ task a, d.Holds task a ∧ a.snapshot? = some document

/-! ### Diagnostics after the close -/

theorem Closing.move {uri : Url} {d d' : Desk} (h : Closing uri d d') :
    Move (fun _ => True) d d' := by
  cases h with
  | works _ => exact .works _
  | notices => exact .hosts (.notices (.closed uri)) trivial

theorem Closing.history {uri : Url} {d d' : Desk} (h : Closing uri d d') :
    d'.history = d.history ++ [.closed uri] ∧ d'.pending? uri = none := by
  have hclose : ∀ d : Desk, (d.closeDocument uri).history = d.history ++ [.closed uri] ∧
      (d.closeDocument uri).pending? uri = none := by
    intro d
    obtain ⟨tasks, ready, timers, heq⟩ := closeDocument_eq d uri
    refine ⟨by rw [heq], ?_⟩
    rw [pending?_closeDocument, if_pos rfl]
  cases h with
  | @works task rest hagenda =>
      have hadvance : d.advance task = (d.closeDocument uri).setAgenda task rest := by
        unfold advance
        rw [show d.tasks.lookup task = _ from hagenda]
        rfl
      rw [hadvance]
      exact hclose d
  | notices => exact hclose (d.dropDocument uri)

/-- A closed document has no timer, so tasks have snapshots of it only to lint them. -/
theorem Closing.hasOnly {uri : Url} {d d' : Desk} (h : Closing uri d d') (hsound : d'.Sound) :
    HasOnly uri (fun document => d'.HoldsSnapshot document ∨ document ∈ d'.visible) d'.history
      d' := by
  refine ⟨fun document hvisible _ => .inr hvisible, fun {document} hr huri => .inl ?_,
    [], (List.append_nil _).symm, by simp⟩
  obtain ⟨task, a, ha, hdocument⟩ := hr
  rcases hdocument with hdocument | hdocument
  · exact ⟨task, a, ha, hdocument⟩
  · have hpending := (hsound.timersMatch.timer ha uri).mpr (by rw [hdocument, ← huri]; rfl)
    rw [h.history.2] at hpending
    cases hpending

/-- In a run in which the host does not name a document no more of it comes. -/
theorem HasOnly.run {uri : Url} {held : Document → Prop} {past : List Mark} {d d' : Desk}
    (h : HasOnly uri held past d) (hsound : d.Sound) (hr : Run (fun e => ¬e.names uri) d d') :
    HasOnly uri held past d' := by
  induction hr with
  | refl => exact h
  | tail hprev hm ih =>
      cases hm with
      | works task => exact ih.advance (hsound.run hprev) task
      | drifts hb => exact ih.of_passState hb
      | hosts e he =>
          exact ih.event fun document hbrings huri =>
            absurd (huri ▸ HostEvent.names_of_brings hbrings) he

/-- What is published for a document after it was closed, with the host not naming it again, comes
from a pass that was begun after the close, with a snapshot that at the close some task held or the
host still showed. -/
theorem published_after_closing {d₀ d₁ d d' : Desk} {uri : Url} (h₀ : d₀.IsFresh)
    (hr₀ : Run (fun _ => True) d₀ d₁) (hclosing : Closing uri d₁ d)
    (hr : Run (fun e => ¬e.names uri) d d') {since after : List Mark} {document : Document}
    {generation : Nat}
    (hhistory : d'.history = d.history ++ since ++ .published document generation :: after)
    (huri : document.uri = uri) :
    .began document generation ∈ since ∧ (d.HoldsSnapshot document ∨ document ∈ d.visible) := by
  have hsound : d.Sound := (h₀.sound.run hr₀).move hclosing.move
  have hsound' : d'.Sound := hsound.run hr
  obtain ⟨-, hcurrent⟩ := hsound'.passesOrdered.publishedCurrent _ document generation after
    hhistory
  have hbegan : .began document generation ∈ since := by
    rw [hclosing.history.1, List.append_assoc, List.singleton_append] at hcurrent
    exact hcurrent.began_mem_after (by simp [Mark.outdates, huri]) (by simp)
  refine ⟨hbegan, ?_⟩
  obtain ⟨since', hsince', hheld⟩ := ((hclosing.hasOnly hsound).run hsound hr).begun
  have heq : since' = since ++ .published document generation :: after :=
    List.append_cancel_left (hsince'.symm.trans (hhistory.trans (List.append_assoc ..)))
  exact hheld document generation (heq ▸ List.mem_append_left _ hbegan) huri

/-- The second of two documents is closed while a loop over both waits for the engine. The loop
goes on with its snapshot. -/
theorem published_after_closing_of_loop :
    let a := draft "A" "a\n"
    let b := draft "B" "b\n"
    let d := Server.Notice.apply loopingDesk (.closed b.uri)
    (d.perform 40 [.sleep 5000]).history =
        d.history ++ [.published a 1, .began b 2] ++ .published b 2 :: [] ∧
      d.HoldsSnapshot b := by
  intro a b d
  have hr : Run (fun e => ¬e.names b.uri) d (d.perform 40 [.sleep 5000]) :=
    perform_run [.sleep 5000] (by simp [HostEvent.names, Call.names]) 40 d
  have hhistory : (d.perform 40 [.sleep 5000]).history =
      d.history ++ [.published a 1, .began b 2] ++ .published b 2 :: [] := by decide
  have hhidden : b ∉ d.visible := by decide
  exact ⟨hhistory, (published_after_closing quietDesk_isFresh loopingDesk_run .notices hr hhistory
    rfl).2.resolve_right hhidden⟩

/-- So closing a document does not silence it. -/
theorem closing_does_not_silence :
    ¬∀ (d₁ d d' : Desk) (uri : Url), Run (fun _ => True) quietDesk d₁ → Closing uri d₁ d →
      (∀ document ∈ d.visible, document.uri ≠ uri) → Run (fun e => ¬e.names uri) d d' →
      ∀ since document generation after,
        d'.history = d.history ++ since ++ .published document generation :: after →
        document.uri ≠ uri := by
  intro h
  let b := draft "B" "b\n"
  let d := Server.Notice.apply loopingDesk (.closed b.uri)
  have hr : Run (fun e => ¬e.names b.uri) d (d.perform 40 [.sleep 5000]) :=
    perform_run [.sleep 5000] (by simp [HostEvent.names, Call.names]) 40 d
  exact h loopingDesk d _ b.uri loopingDesk_run .notices (by decide) hr
    [.published (draft "A" "a\n") 1, .began b 2] b 2 [] (by decide) rfl

end LintDesk.Desk
