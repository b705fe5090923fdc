import LintDesk.Edit.Batch
import LintDesk.Proofs.Rule.BlankFix

/-! # The order of a batch

The fixes of a batch come line by line from the last line to the first, and on one line from right
to left with the deletion of the line at the end. Dropping repeated fixes and joining complements
keep that order.
-/

namespace LintDesk

namespace PlannedFix

/-- The order of the places of two fixes: later lines first, on one line later columns first and
deletions of the line last. -/
def Before (a b : PlannedFix) : Prop :=
  b.line < a.line ∨ a.line = b.line ∧
    (b.removal.isWholeLine = true ∨ a.removal.isWholeLine = false ∧ b.start ≤ a.start)

theorem before_of_precedes {a b : PlannedFix} (h : a.precedes b = true) : a.Before b := by
  unfold precedes at h
  unfold Before
  split_ifs at h with hline hwhole hstart
  · exact Or.inl (by simpa using h)
  · exact Or.inr ⟨by simpa using hline, Or.inl h⟩
  · cases hb : b.removal.isWholeLine with
    | true => exact Or.inr ⟨by simpa using hline, Or.inl rfl⟩
    | false =>
        have ha : a.removal.isWholeLine = false := by simpa [hb] using hwhole
        have hlt : b.start < a.start := by simpa using h
        exact Or.inr ⟨by simpa using hline, Or.inr ⟨ha, hlt.le⟩⟩
  · cases hb : b.removal.isWholeLine with
    | true => exact Or.inr ⟨by simpa using hline, Or.inl rfl⟩
    | false =>
        have ha : a.removal.isWholeLine = false := by simpa [hb] using hwhole
        have heq : a.start = b.start := by simpa using hstart
        exact Or.inr ⟨by simpa using hline, Or.inr ⟨ha, heq.ge⟩⟩

theorem precedes_total (a b : PlannedFix) : (a.precedes b || b.precedes a) = true := by
  unfold precedes
  cases a.removal.isWholeLine <;> cases b.removal.isWholeLine <;> grind

theorem precedes_trans (a b c : PlannedFix) (hab : a.precedes b = true)
    (hbc : b.precedes c = true) : a.precedes c = true := by
  unfold precedes at *
  cases ha : a.removal.isWholeLine <;> cases hb : b.removal.isWholeLine <;>
    cases hc : c.removal.isWholeLine <;> grind

end PlannedFix

/-! ### Repeated fixes -/

theorem dropRepeats_sublist (fixes : List PlannedFix) : (dropRepeats fixes).Sublist fixes := by
  fun_induction dropRepeats fixes with
  | case1 => exact List.Sublist.refl _
  | case2 f rest hrest ih => exact List.Sublist.cons_cons f (hrest ▸ ih)
  | case3 rest g more hrest ih =>
      rw [hrest] at ih
      exact List.Sublist.cons_cons g (List.Sublist.trans (List.sublist_cons_self g more) ih)
  | case4 f rest g more hrest hne ih => exact List.Sublist.cons_cons f (hrest ▸ ih)

/-! ### Complements -/

/-- Joining complements moves no fix: every fix that comes out has the place of one that went
in. -/
theorem exists_place_of_mem_joinComplements {fixes : List PlannedFix} {f : PlannedFix}
    (hf : f ∈ joinComplements fixes) :
    ∃ g ∈ fixes, f.line = g.line ∧ f.start = g.start ∧ f.removal = g.removal := by
  fun_induction joinComplements fixes with
  | case1 => simp at hf
  | case2 g => exact ⟨f, hf, rfl, rfl, rfl⟩
  | case3 g h rest hjoin ih =>
      obtain ⟨k, hk, hplace⟩ := ih hf
      rcases List.mem_cons.mp hk with rfl | hk
      · exact ⟨h, by simp, hplace⟩
      · exact ⟨k, by simp [hk], hplace⟩
  | case4 g h rest hjoin ih =>
      rcases List.mem_cons.mp hf with rfl | hf
      · exact ⟨f, by simp, rfl, rfl, rfl⟩
      · obtain ⟨k, hk, hplace⟩ := ih hf
        exact ⟨k, List.mem_cons_of_mem _ hk, hplace⟩

theorem joinComplements_before {fixes : List PlannedFix}
    (h : fixes.Pairwise PlannedFix.Before) :
    (joinComplements fixes).Pairwise PlannedFix.Before := by
  fun_induction joinComplements fixes with
  | case1 => exact List.Pairwise.nil
  | case2 f => exact h
  | case3 f g rest hjoin ih =>
      apply ih
      have hg := List.pairwise_cons.mp (List.pairwise_cons.mp h).2
      exact List.pairwise_cons.mpr ⟨hg.1, hg.2⟩
  | case4 f g rest hjoin ih =>
      have hf := List.pairwise_cons.mp h
      refine List.pairwise_cons.mpr ⟨?_, ih hf.2⟩
      intro k hk
      obtain ⟨m, hm, hline, hstart, hremoval⟩ := exists_place_of_mem_joinComplements hk
      simpa [PlannedFix.Before, hline, hstart, hremoval] using hf.1 m hm

/-! ### The plan -/

theorem plannedFixes_before (violations : List Violation) (choice : FixChoice) :
    (plannedFixes violations choice).Pairwise PlannedFix.Before := by
  unfold plannedFixes
  apply joinComplements_before
  have hsorted := List.pairwise_mergeSort PlannedFix.precedes_trans PlannedFix.precedes_total
    ((violations.filter choice.accepts).filterMap PlannedFix.ofViolation?)
  exact (hsorted.imp PlannedFix.before_of_precedes).sublist (dropRepeats_sublist _)

/-- A batch goes from the last line to the first. -/
theorem plannedFixes_descend (violations : List Violation) (choice : FixChoice) :
    (plannedFixes violations choice).Pairwise fun a b => b.line ≤ a.line := by
  refine (plannedFixes_before violations choice).imp fun hbefore => ?_
  rcases hbefore with hlt | ⟨heq, -⟩
  · exact hlt.le
  · exact heq.ge

/-- A planned fix that edits white space of its line. -/
def PlannedFix.EditsBlanks (lines : List Line) (f : PlannedFix) : Prop :=
  ∃ line, lines[f.line]? = some line ∧ BlankEdit line f.start f.removal f.insertion

theorem PlannedFix.editsBlanks_of_violation {lines : List Line} {v : Violation} {f : PlannedFix}
    (hv : v.FixesBlanks lines) (hf : PlannedFix.ofViolation? v = some f) : f.EditsBlanks lines := by
  unfold PlannedFix.ofViolation? at hf
  split at hf
  · simp at hf
  · rename_i fix hfix
    obtain ⟨hown, i, line, hnumber, hline, hedit⟩ := hv fix hfix
    rw [hown, hnumber] at hf
    obtain rfl := Option.some.inj hf
    exact ⟨line, hline, hedit⟩

/-- An insertion of white space and a deletion of white space make up one edit of white space. -/
theorem joinComplements_editsBlanks {lines : List Line} {fixes : List PlannedFix}
    (h : ∀ f ∈ fixes, f.EditsBlanks lines) :
    ∀ f ∈ joinComplements fixes, f.EditsBlanks lines := by
  fun_induction joinComplements fixes with
  | case1 => simp
  | case2 f => exact h
  | case3 f g rest hjoin ih =>
      apply ih
      intro k hk
      rcases List.mem_cons.mp hk with rfl | hk
      · obtain ⟨line, hline, hg⟩ := h g (by simp)
        obtain ⟨_, _, hf⟩ := h f (by simp)
        simp only [PlannedFix.complements, Bool.and_eq_true, beq_iff_eq, decide_eq_true_eq] at hjoin
        refine ⟨line, hline, ?_⟩
        cases hremoval : g.removal with
        | wholeLine => simp [hremoval, Removal.toInt] at hjoin
        | chars count =>
            cases hnone : f.removal with
            | wholeLine => simp [hnone, Removal.toInt] at hjoin
            | chars none =>
                rw [hremoval] at hg
                rw [hnone] at hf
                exact ⟨hf.1, hg.2⟩
      · exact h k (by simp [hk])
  | case4 f g rest hjoin ih =>
      intro k hk
      rcases List.mem_cons.mp hk with rfl | hk
      · exact h k (by simp)
      · exact ih (fun m hm => h m (List.mem_cons_of_mem _ hm)) k hk

theorem plannedFixes_editsBlanks {lines : List Line} {violations : List Violation}
    (h : ∀ v ∈ violations, v.FixesBlanks lines) (choice : FixChoice) :
    ∀ f ∈ plannedFixes violations choice, f.EditsBlanks lines := by
  unfold plannedFixes
  apply joinComplements_editsBlanks
  intro f hf
  have hmem := (dropRepeats_sublist _).subset hf
  rw [List.mem_mergeSort] at hmem
  obtain ⟨v, hv, hplanned⟩ := List.mem_filterMap.mp hmem
  exact PlannedFix.editsBlanks_of_violation (h v (List.mem_of_mem_filter hv)) hplanned

end LintDesk
