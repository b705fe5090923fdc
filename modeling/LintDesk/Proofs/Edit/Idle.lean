import LintDesk.Proofs.Edit.ByLine
import LintDesk.Proofs.Text.Splitting

/-! # Batches that apply nothing

A batch applies nothing just if all its fixes are for lines that are not there. Its lines are then
as they were, but they are joined anew, so a text with several kinds of terminators comes back
changed (`applyFixes_of_none_applied`).
-/

namespace LintDesk

/-! ### The plan and what was selected -/

/-- Joining complements leaves fixes for the same lines. -/
theorem mem_lines_joinComplements {fixes : List PlannedFix} {i : Nat} :
    i ∈ (joinComplements fixes).map (·.line) ↔ i ∈ fixes.map (·.line) := by
  fun_induction joinComplements fixes with
  | case1 => rfl
  | case2 f => rfl
  | case3 f g rest hjoin ih =>
      simp only [PlannedFix.complements, Bool.and_eq_true, beq_iff_eq] at hjoin
      rw [ih]
      simp [hjoin.1.1.1.1.1]
  | case4 f g rest hjoin ih =>
      rw [List.map_cons, List.mem_cons, ih]
      simp

section Batch

variable {text : List Char} {violations : List Violation} {choice : FixChoice}

/-- A batch plans fixes for the lines for which fixes are selected. -/
theorem mem_lines_plannedFixes {i : Nat} :
    i ∈ (plannedFixes violations choice).map (·.line) ↔
      i ∈ (selectedFixes violations choice).map (·.line) := by
  unfold plannedFixes
  rw [mem_lines_joinComplements]
  simp only [List.mem_map, mem_dropRepeats, List.mem_mergeSort, selectedFixes]

theorem plannedFixes_eq_nil_iff :
    plannedFixes violations choice = [] ↔ selectedFixes violations choice = [] := by
  have hlines : ∀ i, i ∈ (plannedFixes violations choice).map (·.line) ↔
      i ∈ (selectedFixes violations choice).map (·.line) := fun _ => mem_lines_plannedFixes
  simp only [← List.map_eq_nil_iff (f := PlannedFix.line), List.eq_nil_iff_forall_not_mem, hlines]

namespace BatchState

/-! ### Fixes for missing lines -/

/-- A fix for a missing line changes nothing but what the batch remembers. -/
theorem step_of_missing (ending : LineEnding) {s : BatchState} {f : PlannedFix}
    (h : s.lines[f.line]? = none) :
    (s.step ending f).lines = s.lines ∧ (s.step ending f).applied = s.applied := by
  unfold BatchState.step
  dsimp only
  rw [h]
  split <;> exact ⟨rfl, rfl⟩

theorem foldl_of_missing (ending : LineEnding) {fixes : List PlannedFix} {s : BatchState}
    (h : ∀ f ∈ fixes, s.lines[f.line]? = none) :
    (fixes.foldl (step ending) s).lines = s.lines ∧
      (fixes.foldl (step ending) s).applied = s.applied := by
  induction fixes generalizing s with
  | nil => exact ⟨rfl, rfl⟩
  | cons f rest ih =>
      obtain ⟨hf, hrest⟩ := List.forall_mem_cons.mp h
      obtain ⟨hlines, happlied⟩ := step_of_missing ending hf
      rw [List.foldl_cons, ← hlines, ← happlied]
      exact ih (hlines.symm ▸ hrest)

theorem applied_le_step (ending : LineEnding) (s : BatchState) (f : PlannedFix) :
    s.applied ≤ (s.step ending f).applied := by
  unfold BatchState.step
  dsimp only
  split
  · split
    · exact Nat.le_succ _
    · exact Nat.le_refl _
  · exact Nat.le_refl _

theorem applied_le_foldl (ending : LineEnding) (fixes : List PlannedFix) (s : BatchState) :
    s.applied ≤ (fixes.foldl (step ending) s).applied := by
  induction fixes generalizing s with
  | nil => exact Nat.le_refl _
  | cons f rest ih => exact (applied_le_step ending s f).trans (ih (s.step ending f))

/-- The first fix for a line that is there is applied. -/
theorem applied_lt_foldl (ending : LineEnding) (lines : List Line) {fixes : List PlannedFix}
    {s : BatchState} (hlines : s.lines = lines.map some)
    (hlast : ∀ i, s.lastLine = some i → lines[i]? = none)
    (h : ∃ f ∈ fixes, lines[f.line]? ≠ none) :
    s.applied < (fixes.foldl (step ending) s).applied := by
  induction fixes generalizing s with
  | nil => simp at h
  | cons f rest ih =>
      rw [List.foldl_cons]
      cases hf : lines[f.line]? with
      | none =>
          have hmissing : s.lines[f.line]? = none := by simp [hlines, hf]
          obtain ⟨hsame, happlied⟩ := step_of_missing ending hmissing
          rw [← happlied]
          refine ih (hsame.trans hlines) (fun i hi => ?_) ?_
          · rw [(step_last ending s f).1] at hi
            exact Option.some.inj hi ▸ hf
          · obtain ⟨g, hg, hfound⟩ := h
            rcases List.mem_cons.mp hg with rfl | hg
            · exact absurd hf hfound
            · exact ⟨g, hg, hfound⟩
      | some line =>
          have hother : s.lastLine ≠ some f.line := fun heq => by
            have hnone := hlast f.line heq
            rw [hf] at hnone
            cases hnone
          have hslot : s.lines[f.line]? = some (some line) := by simp [hlines, hf]
          have hstep : (s.step ending f).applied = s.applied + 1 := by
            simp only [BatchState.step, fits_of_lastLine_ne hother, if_true, hslot]
          exact Nat.lt_of_succ_le (hstep.ge.trans (applied_le_foldl ending rest (s.step ending f)))

end BatchState

/-! ### Batches -/

theorem applied_applyFixes : (applyFixes text violations choice).applied =
    ((plannedFixes violations choice).foldl (BatchState.step (dominantEnding text))
      { lines := (splitLines text).map some }).applied := by
  unfold applyFixes
  split
  · next hnone => rw [hnone]; rfl
  · rfl

theorem content_of_selected (h : selectedFixes violations choice ≠ []) :
    (applyFixes text violations choice).content = joinLines (dominantEnding text)
      (((plannedFixes violations choice).foldl (BatchState.step (dominantEnding text))
        { lines := (splitLines text).map some }).lines.filterMap id) := by
  unfold applyFixes
  split
  · next hnone => exact absurd (plannedFixes_eq_nil_iff.mp hnone) h
  · rfl

theorem content_of_none_selected (h : selectedFixes violations choice = []) :
    (applyFixes text violations choice).content = text := by
  unfold applyFixes
  rw [plannedFixes_eq_nil_iff.mpr h]

/-- A batch applies nothing just if every selected fix is for a line that is not there. -/
theorem applied_applyFixes_eq_zero_iff : (applyFixes text violations choice).applied = 0 ↔
    ∀ i ∈ (selectedFixes violations choice).map (·.line), (splitLines text)[i]? = none := by
  simp only [← mem_lines_plannedFixes, List.forall_mem_map]
  rw [applied_applyFixes]
  constructor
  · intro hzero f hf
    by_contra hfound
    have hlt := BatchState.applied_lt_foldl (dominantEnding text) (splitLines text)
      (s := { lines := (splitLines text).map some }) rfl (by simp) ⟨f, hf, hfound⟩
    rw [hzero] at hlt
    exact absurd hlt (Nat.not_lt_zero _)
  · intro hmissing
    exact (BatchState.foldl_of_missing (dominantEnding text)
      (s := { lines := (splitLines text).map some }) (by simpa using hmissing)).2

/-- A batch that applies nothing joins the lines of the text anew. -/
theorem content_of_none_applied (h : (applyFixes text violations choice).applied = 0) :
    (applyFixes text violations choice).content =
      if selectedFixes violations choice = [] then text
      else joinLines (dominantEnding text) (splitLines text) := by
  have hmissing := applied_applyFixes_eq_zero_iff.mp h
  simp only [← mem_lines_plannedFixes, List.forall_mem_map] at hmissing
  split
  · next hnone => exact content_of_none_selected hnone
  · next hselected =>
      rw [content_of_selected hselected, (BatchState.foldl_of_missing (dominantEnding text)
        (s := { lines := (splitLines text).map some }) (by simpa using hmissing)).1]
      simp [List.filterMap_map]

theorem modified_applyFixes : (applyFixes text violations choice).modified =
    ((applyFixes text violations choice).content != text) := by
  unfold applyFixes
  split
  · simp
  · rfl

/-- A batch that applies nothing had fixes for missing lines only. It leaves every line as it was;
it leaves the text as it was just if nothing was selected or the text has one kind of terminator. -/
theorem applyFixes_of_none_applied (h : (applyFixes text violations choice).applied = 0) :
    (∀ f ∈ selectedFixes violations choice, (splitLines text)[f.line]? = none) ∧
      splitLines (applyFixes text violations choice).content = splitLines text ∧
      ((applyFixes text violations choice).content = text ∧
          (applyFixes text violations choice).modified = false ↔
        selectedFixes violations choice = [] ∨
          ∀ t ∈ terminators text, t = dominantEnding text) := by
  refine ⟨?_, ?_, ?_⟩
  · simpa using applied_applyFixes_eq_zero_iff.mp h
  · rw [content_of_none_applied h]
    split
    · rfl
    · exact splitLines_joinLines _ (splitLines_ne_nil text) fun _ => unbroken_of_mem_splitLines
  · rw [modified_applyFixes, bne_eq_false_iff_eq, and_self, content_of_none_applied h,
      ← joinLines_splitLines_iff]
    split <;> simp [*]

/-- A fix for a line that is not there, of a text with CR LF and LF. -/
theorem applyFixes_of_none_applied_of_missing :
    splitLines (applyFixes "a\r\nb\n".toList
      [{ names := ["X"], line := 9, description := "", fix := some .deleteLine }] .all).content =
        ["a".toList, "b".toList, []] :=
  (applyFixes_of_none_applied (applied_applyFixes_eq_zero_iff.mpr (by decide))).2.1

/-- A batch that applies nothing to a text with CR LF and LF makes LF of both. -/
theorem idle_batch_changes_terminators :
    ¬∀ text violations choice, (applyFixes text violations choice).applied = 0 →
      (applyFixes text violations choice).content = text ∧
        (applyFixes text violations choice).modified = false := by
  intro hall
  have hidle : (applyFixes "a\r\nb\n".toList
      [{ names := ["X"], line := 9, description := "", fix := some .deleteLine }] .all).applied =
        0 := applied_applyFixes_eq_zero_iff.mpr (by decide)
  have hcontent := content_of_none_applied hidle
  rw [(hall _ _ _ hidle).1] at hcontent
  exact absurd hcontent (by decide)

end Batch

end LintDesk
