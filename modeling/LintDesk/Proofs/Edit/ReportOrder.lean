import LintDesk.Proofs.Edit.ByLine

/-! # The order of reports

A batch sorts the selected fixes and drops repeats before it applies any. Where two fixes tie in
that order only if they are one, what is left is in a strict order, and so does not depend on the
order of the violations or on how often a fix is reported (`applyFixes_eq_of_same_fixes`).
-/

namespace LintDesk

namespace PlannedFix

/-- Two fixes tie in the order of a batch: they are for one place, both or neither of them takes the
line away, and they insert equally much. -/
structure Ties (a b : PlannedFix) : Prop where
  line : a.line = b.line
  isWholeLine : a.removal.isWholeLine = b.removal.isWholeLine
  start : a.start = b.start
  insertedUnits : a.insertedUnits = b.insertedUnits

instance (a b : PlannedFix) : Decidable (a.Ties b) :=
  decidable_of_iff (a.line = b.line ∧ a.removal.isWholeLine = b.removal.isWholeLine ∧
      a.start = b.start ∧ a.insertedUnits = b.insertedUnits)
    ⟨fun ⟨hline, hwhole, hstart, hinserted⟩ => ⟨hline, hwhole, hstart, hinserted⟩,
      fun h => ⟨h.line, h.isWholeLine, h.start, h.insertedUnits⟩⟩

theorem ties_of_precedes {a b : PlannedFix} (hab : a.precedes b = true)
    (hba : b.precedes a = true) : a.Ties b := by
  unfold precedes at hab hba
  have hline : a.line = b.line := by
    by_contra hne
    simp only [bne_iff_ne, ne_eq, hne, Ne.symm hne, not_false_eq_true, if_true,
      decide_eq_true_eq] at hab hba
    omega
  have hwhole : a.removal.isWholeLine = b.removal.isWholeLine := by
    cases ha : a.removal.isWholeLine <;> cases hb : b.removal.isWholeLine <;>
      simp_all
  have hstart : a.start = b.start := by
    by_contra hne
    simp only [hline, hwhole, bne_self_eq_false, Bool.false_eq_true, if_false, bne_iff_ne, ne_eq,
      hne, Ne.symm hne, not_false_eq_true, if_true, decide_eq_true_eq] at hab hba
    omega
  refine ⟨hline, hwhole, hstart, ?_⟩
  simp only [hline, hwhole, hstart, bne_self_eq_false, Bool.false_eq_true, if_false,
    decide_eq_true_eq] at hab hba
  exact Nat.le_antisymm hba hab

end PlannedFix

/-- Of fixes that tie only with themselves, one of each is left, in strict order. -/
theorem dropRepeats_mergeSort_strict {fixes : List PlannedFix}
    (hties : ∀ a ∈ fixes, ∀ b ∈ fixes, a.Ties b → a = b) :
    (dropRepeats (fixes.mergeSort PlannedFix.precedes)).Pairwise PlannedFix.StrictlyBefore := by
  have hsorted : (fixes.mergeSort PlannedFix.precedes).Pairwise fun a b => a.precedes b = true :=
    List.pairwise_mergeSort PlannedFix.precedes_trans PlannedFix.precedes_total _
  refine List.pairwise_iff_forall_sublist.mpr fun {a b} hsub => ?_
  have hline := dropRepeats_strict (i := a.line) hsorted fun a ha b hb _ hab hba =>
    hties a (List.mem_mergeSort.mp ha) b (List.mem_mergeSort.mp hb)
      (PlannedFix.ties_of_precedes hab hba)
  exact List.pairwise_iff_forall_sublist.mp hline hsub rfl

section

variable {violations violations' : List Violation} {choice : FixChoice}
  (hties : ∀ a ∈ selectedFixes violations choice, ∀ b ∈ selectedFixes violations choice,
    a.Ties b → a = b)
  (hsame : ∀ f, f ∈ selectedFixes violations choice ↔ f ∈ selectedFixes violations' choice)

include hties hsame

/-- A batch plans the same for violations that select the same fixes. -/
theorem plannedFixes_congr : plannedFixes violations choice = plannedFixes violations' choice := by
  have hties' : ∀ a ∈ selectedFixes violations' choice, ∀ b ∈ selectedFixes violations' choice,
      a.Ties b → a = b := fun a ha b hb =>
    hties a ((hsame a).mpr ha) b ((hsame b).mpr hb)
  have hmem : ∀ f, f ∈ dropRepeats ((selectedFixes violations choice).mergeSort
        PlannedFix.precedes) ↔
      f ∈ dropRepeats ((selectedFixes violations' choice).mergeSort PlannedFix.precedes) := by
    intro f
    rw [mem_dropRepeats, mem_dropRepeats, List.mem_mergeSort, List.mem_mergeSort, hsame]
  exact congrArg joinComplements ((dropRepeats_mergeSort_strict hties).eq_of_mem_iff
    (dropRepeats_mergeSort_strict hties') hmem)

/-- Violations that select the same fixes, in whatever order and however often, are fixed in the
same way, unless two different fixes tie. -/
theorem applyFixes_eq_of_same_fixes (text : List Char) :
    applyFixes text violations choice = applyFixes text violations' choice := by
  unfold applyFixes
  rw [plannedFixes_congr hties hsame]

end

theorem mem_selectedFixes_congr {violations violations' : List Violation}
    (h : ∀ v, v ∈ violations ↔ v ∈ violations') (choice : FixChoice) (f : PlannedFix) :
    f ∈ selectedFixes violations choice ↔ f ∈ selectedFixes violations' choice := by
  simp only [selectedFixes, List.mem_filterMap, List.mem_filter, h]

/-- An insertion and a deletion at one place, and the deletion of another line. -/
def sampleReports : List Violation :=
  [{ names := ["A"], line := 1, description := "", fix := some (.insertAt 2 "x") },
    { names := ["B"], line := 1, description := "", fix := some (.delete 2 1) },
    { names := ["C"], line := 2, description := "", fix := some .deleteLine }]

/-- Reported the other way round, and once more after that. -/
theorem applyFixes_eq_of_same_fixes_of_repeated :
    applyFixes "abc\nd\n".toList sampleReports .all =
        applyFixes "abc\nd\n".toList (sampleReports.reverse ++ sampleReports) .all ∧
      (applyFixes "abc\nd\n".toList sampleReports .all).content = "axc\n".toList := by
  refine ⟨applyFixes_eq_of_same_fixes ?_ ?_ _, ?_⟩
  · decide
  · exact mem_selectedFixes_congr (by simp) .all
  · rw [applyFixes, plannedFixes_eq_insertionSort]
    decide +kernel

end LintDesk
