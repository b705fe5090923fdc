import LintDesk.Proofs.Edit.ByLine

/-! # The plan of one line

A batch orders the fixes of all lines at once, drops repeats and joins complements in that order.
The edits inside one line stand next to each other in it, so what comes out for a line is what
these steps make of the line's own edits alone (`filter_plannedFixes_isEditOf`).
-/

namespace LintDesk

/-! ### Lists in order -/

/-- Where a property once met is met from there on, the elements without it come first. -/
theorem eq_filter_append_filter {α : Type} {p : α → Bool} {l : List α}
    (h : l.Pairwise fun a b => p a = true → p b = true) :
    l = l.filter (fun a => !p a) ++ l.filter p := by
  induction l with
  | nil => rfl
  | cons a l ih =>
      obtain ⟨ha, hl⟩ := List.pairwise_cons.mp h
      cases hp : p a with
      | false => simpa [hp] using ih hl
      | true =>
          have hall : ∀ b ∈ l, p b = true := fun b hb => ha b hb hp
          have hnone : l.filter (fun b => !p b) = [] := by simpa using hall
          simp [hp, hnone, List.filter_eq_self.mpr hall]

/-- Sorting is stable: the elements with a property come out as if they were sorted alone. -/
theorem filter_mergeSort {α : Type} {le : α → α → Bool}
    (htrans : ∀ a b c, le a b = true → le b c = true → le a c = true)
    (htotal : ∀ a b, (le a b || le b a) = true) (p : α → Bool) (l : List α) :
    (l.mergeSort le).filter p = (l.filter p).mergeSort le := by
  induction l with
  | nil => simp
  | cons a l ih =>
      obtain ⟨front, back, hsorted, hrest, hfront⟩ := List.mergeSort_cons htrans htotal a l
      cases hp : p a with
      | false =>
          rw [List.filter_cons_of_neg (by simp [hp]), ← ih, hsorted, hrest]
          simp [hp]
      | true =>
          obtain ⟨front', back', hsorted', hrest', hfront'⟩ :=
            List.mergeSort_cons htrans htotal a (l.filter p)
          have hback : ∀ b ∈ back, le a b = true := by
            have horder := List.pairwise_mergeSort htrans htotal (a :: l)
            rw [hsorted] at horder
            exact (List.pairwise_cons.mp (List.pairwise_append.mp horder).2.1).1
          have hback' : ∀ b ∈ back', le a b = true := by
            have horder := List.pairwise_mergeSort htrans htotal (a :: l.filter p)
            rw [hsorted'] at horder
            exact (List.pairwise_cons.mp (List.pairwise_append.mp horder).2.1).1
          -- both cut one list between what comes before `a` and what does not
          have hcut : front.filter p ++ back.filter p = front' ++ back' := by
            rw [← List.filter_append, ← hrest, ih, hrest']
          have hbefore := congrArg (List.filter fun b => !le a b) hcut
          have hafter := congrArg (List.filter (le a)) hcut
          have hkeep : (front.filter p).filter (fun b => !le a b) = front.filter p :=
            List.filter_eq_self.mpr fun b hb => hfront b (List.mem_filter.mp hb).1
          have hkeep' : front'.filter (fun b => !le a b) = front' :=
            List.filter_eq_self.mpr hfront'
          have hdrop : (back.filter p).filter (fun b => !le a b) = [] := by
            simpa using fun b hb hnot => absurd (hback b hb) (by simp [hnot])
          have hdrop' : back'.filter (fun b => !le a b) = [] := by simpa using hback'
          rw [List.filter_append, List.filter_append, hkeep, hkeep', hdrop, hdrop',
            List.append_nil, List.append_nil] at hbefore
          rw [hbefore] at hcut
          rw [List.filter_cons_of_pos hp, hsorted, hsorted', List.filter_append,
            List.filter_cons_of_pos hp, hbefore, List.append_cancel_left hcut]

namespace PlannedFix

/-- Edits text inside line `i`. -/
def isEditOf (i : Nat) (f : PlannedFix) : Bool :=
  f.line == i && !f.removal.isWholeLine

theorem isEditOf_iff {i : Nat} {f : PlannedFix} :
    f.isEditOf i = true ↔ f.line = i ∧ f.removal.isWholeLine = false := by
  simp [isEditOf]

/-- The fixes are kept apart: `b` is for another line or removes its line as a whole, which neither
equals `a` nor is joined with it. -/
def Apart (a b : PlannedFix) : Prop :=
  a.line = b.line → a.removal.isWholeLine = false ∧ b.removal.isWholeLine = true

theorem Apart.ne {a b : PlannedFix} (h : a.Apart b) : a ≠ b := by
  rintro rfl
  obtain ⟨hfalse, htrue⟩ := h rfl
  rw [hfalse] at htrue
  cases htrue

/-- Only edits inside a line are joined. -/
theorem isWholeLine_of_complements {a b : PlannedFix} (h : a.complements b = true) :
    a.removal.isWholeLine = false ∧ b.removal.isWholeLine = false := by
  simp only [complements, Bool.and_eq_true, beq_iff_eq, decide_eq_true_eq] at h
  constructor
  · cases ha : a.removal with
    | wholeLine => simp [ha, Removal.toInt] at h
    | chars count => rfl
  · cases hb : b.removal with
    | wholeLine => simp [hb, Removal.toInt] at h
    | chars count => rfl

theorem Apart.complements {a b : PlannedFix} (h : a.Apart b) : a.complements b = false := by
  rw [← Bool.not_eq_true]
  intro hjoin
  have hline : b.line = a.line := by
    simp only [PlannedFix.complements, Bool.and_eq_true, beq_iff_eq] at hjoin
    exact hjoin.1.1.1.1.1
  have hwhole := (h hline.symm).2
  rw [(isWholeLine_of_complements hjoin).2] at hwhole
  cases hwhole

end PlannedFix

/-! ### Steps on fixes that are kept apart -/

theorem dropRepeats_append {xs ys : List PlannedFix} (h : ∀ f ∈ xs, ∀ g ∈ ys, f ≠ g) :
    dropRepeats (xs ++ ys) = dropRepeats xs ++ dropRepeats ys := by
  induction xs with
  | nil => rfl
  | cons f xs ih =>
      obtain ⟨hf, hxs⟩ := List.forall_mem_cons.mp h
      rw [List.cons_append, dropRepeats, dropRepeats, ih hxs]
      cases dropRepeats xs with
      | cons g more => simp only [List.cons_append]; split <;> rfl
      | nil =>
          cases hys : dropRepeats ys with
          | nil => rfl
          | cons g more =>
              have hne := hf g (mem_dropRepeats.mp (by simp [hys]))
              simp [hne]

theorem joinComplements_append {xs ys : List PlannedFix} (h : ∀ f ∈ xs, ∀ g ∈ ys, f.Apart g) :
    joinComplements (xs ++ ys) = joinComplements xs ++ joinComplements ys := by
  fun_induction joinComplements xs with
  | case1 => rfl
  | case2 f =>
      cases ys with
      | nil => rw [List.append_nil, joinComplements, joinComplements, List.append_nil]
      | cons g ys =>
          have hnot := (h f (by simp) g (by simp)).complements
          rw [List.cons_append, List.nil_append, joinComplements, hnot]
          rfl
  | case3 f g rest hjoin ih =>
      rw [List.cons_append, List.cons_append, joinComplements, if_pos hjoin]
      refine ih fun a ha b hb => ?_
      rcases List.mem_cons.mp ha with rfl | ha
      · exact h g (by simp) b hb
      · exact h a (by simp [ha]) b hb
  | case4 f g rest hjoin ih =>
      rw [List.cons_append, List.cons_append, joinComplements, if_neg hjoin]
      exact congrArg (f :: ·) (ih fun a ha b hb => h a (by simp [ha]) b hb)

/-! ### The edits of a line -/

/-- The edits planned for a line, from right to left: its own selected edits in order, without
repeats, insertions joined with the deletions next to them. -/
def plannedEdits (violations : List Violation) (choice : FixChoice) (i : Nat) : List PlannedFix :=
  joinComplements (dropRepeats
    (((selectedFixes violations choice).filter (·.isEditOf i)).mergeSort PlannedFix.precedes))

variable {violations : List Violation} {choice : FixChoice}

/-- In order, the edits of a line stand between the fixes further down the text and the rest. -/
theorem exists_cut_mergeSort (fixes : List PlannedFix) (i : Nat) : ∃ above below,
    fixes.mergeSort PlannedFix.precedes =
        above ++ ((fixes.filter (·.isEditOf i)).mergeSort PlannedFix.precedes ++ below) ∧
      (∀ f ∈ above, i < f.line) ∧
      ∀ f ∈ below, f.line < i ∨ f.line = i ∧ f.removal.isWholeLine = true := by
  let sorted := fixes.mergeSort PlannedFix.precedes
  have hsorted : sorted.Pairwise PlannedFix.Before :=
    (List.pairwise_mergeSort PlannedFix.precedes_trans PlannedFix.precedes_total _).imp
      PlannedFix.before_of_precedes
  let reached := fun f : PlannedFix => decide (f.line ≤ i)
  let past := fun f : PlannedFix => f.line < i || f.line == i && f.removal.isWholeLine
  have hreached : sorted = sorted.filter (fun f => !reached f) ++ sorted.filter reached := by
    refine eq_filter_append_filter (hsorted.imp fun {a b} hab => ?_)
    simp only [reached, decide_eq_true_eq]
    rcases hab with hlt | ⟨heq, -⟩ <;> omega
  have hpast : sorted.filter reached = (sorted.filter reached).filter (fun f => !past f) ++
      (sorted.filter reached).filter past := by
    refine eq_filter_append_filter ((hsorted.sublist List.filter_sublist).imp fun {a b} hab => ?_)
    simp only [past, Bool.or_eq_true, decide_eq_true_eq, Bool.and_eq_true, beq_iff_eq]
    rcases hab with hlt | ⟨heq, hwhole | ⟨hnot, -⟩⟩
    · omega
    · simp only [hwhole, and_true]
      omega
    · simp only [hnot, Bool.false_eq_true, and_false, or_false]
      omega
  have hinside : (sorted.filter reached).filter (fun f => !past f) =
      (fixes.filter (·.isEditOf i)).mergeSort PlannedFix.precedes := by
    rw [List.filter_filter, ← filter_mergeSort PlannedFix.precedes_trans PlannedFix.precedes_total]
    refine List.filter_congr fun f _ => ?_
    rw [Bool.eq_iff_iff, PlannedFix.isEditOf_iff]
    cases hwhole : f.removal.isWholeLine with
    | true => simp [reached, past, hwhole]; omega
    | false => simp [reached, past, hwhole]; omega
  refine ⟨_, _, by rw [← hinside, ← hpast]; exact hreached, fun f hf => ?_, fun f hf => ?_⟩
  · simpa [reached] using (List.mem_filter.mp hf).2
  · simpa [past] using (List.mem_filter.mp hf).2

/-- A planned fix edits line `i` exactly if the fix that it was made of does. -/
theorem exists_isEditOf_eq {fixes : List PlannedFix} {f : PlannedFix} {i : Nat}
    (hf : f ∈ joinComplements (dropRepeats fixes)) :
    ∃ g ∈ fixes, f.isEditOf i = g.isEditOf i := by
  obtain ⟨g, hg, hline, -, hremoval⟩ := exists_place_of_mem_joinComplements hf
  exact ⟨g, mem_dropRepeats.mp hg, by simp only [PlannedFix.isEditOf, hline, hremoval]⟩

/-- What a batch plans inside a line comes from the edits selected for that line alone. -/
theorem filter_plannedFixes_isEditOf (i : Nat) :
    (plannedFixes violations choice).filter (·.isEditOf i) = plannedEdits violations choice i := by
  obtain ⟨above, below, hsorted, habove, hbelow⟩ :=
    exists_cut_mergeSort (selectedFixes violations choice) i
  let own :=
    ((selectedFixes violations choice).filter (·.isEditOf i)).mergeSort PlannedFix.precedes
  have hown : ∀ f ∈ own, f.line = i ∧ f.removal.isWholeLine = false := fun f hf =>
    PlannedFix.isEditOf_iff.mp (List.mem_filter.mp (List.mem_mergeSort.mp hf)).2
  have hrest : ∀ f ∈ own, ∀ g ∈ below, f.Apart g := by
    intro f hf g hg hline
    obtain ⟨hi, hnot⟩ := hown f hf
    rcases hbelow g hg with hlt | ⟨-, hwhole⟩
    · omega
    · exact ⟨hnot, hwhole⟩
  have hfront : ∀ f ∈ above, ∀ g ∈ own ++ below, f.Apart g := by
    intro f hf g hg hline
    have hgt := habove f hf
    rcases List.mem_append.mp hg with hg | hg
    · have hi := (hown g hg).1
      omega
    · rcases hbelow g hg with hlt | ⟨heq, -⟩ <;> omega
  have hplan : plannedFixes violations choice = joinComplements (dropRepeats above) ++
      (plannedEdits violations choice i ++ joinComplements (dropRepeats below)) := by
    change joinComplements (dropRepeats ((selectedFixes violations choice).mergeSort _)) = _
    rw [hsorted, dropRepeats_append fun f hf g hg => (hfront f hf g hg).ne,
      dropRepeats_append fun f hf g hg => (hrest f hf g hg).ne,
      joinComplements_append, joinComplements_append]
    · rfl
    · exact fun f hf g hg => hrest f (mem_dropRepeats.mp hf) g (mem_dropRepeats.mp hg)
    · intro f hf g hg
      refine hfront f (mem_dropRepeats.mp hf) g ?_
      simpa only [List.mem_append, mem_dropRepeats] using hg
  have hnoneAbove : (joinComplements (dropRepeats above)).filter (·.isEditOf i) = [] := by
    refine List.filter_eq_nil_iff.mpr fun f hf hedit => ?_
    obtain ⟨g, hg, hsame⟩ := exists_isEditOf_eq hf
    have hi := (PlannedFix.isEditOf_iff.mp (hsame.symm.trans hedit)).1
    have hgt := habove g hg
    omega
  have hnoneBelow : (joinComplements (dropRepeats below)).filter (·.isEditOf i) = [] := by
    refine List.filter_eq_nil_iff.mpr fun f hf hedit => ?_
    obtain ⟨g, hg, hsame⟩ := exists_isEditOf_eq hf
    obtain ⟨hi, hnot⟩ := PlannedFix.isEditOf_iff.mp (hsame.symm.trans hedit)
    rcases hbelow g hg with hlt | ⟨-, hwhole⟩
    · omega
    · rw [hnot] at hwhole
      cases hwhole
  have hall : (plannedEdits violations choice i).filter (·.isEditOf i) =
      plannedEdits violations choice i := by
    refine List.filter_eq_self.mpr fun f hf => ?_
    obtain ⟨g, hg, hsame⟩ := exists_isEditOf_eq hf
    exact hsame.trans (PlannedFix.isEditOf_iff.mpr (hown g hg))
  rw [hplan, List.filter_append, List.filter_append, hnoneAbove, hnoneBelow, hall,
    List.append_nil, List.nil_append]

/-! ### The deletions of a line -/

theorem mem_joinComplements_of_wholeLine {fixes : List PlannedFix} {f : PlannedFix}
    (hwhole : f.removal.isWholeLine = true) : f ∈ joinComplements fixes ↔ f ∈ fixes := by
  fun_induction joinComplements fixes with
  | case1 => rfl
  | case2 g => rfl
  | case3 g h rest hjoin ih =>
      obtain ⟨hg, hh⟩ := PlannedFix.isWholeLine_of_complements hjoin
      have hne : ∀ {k : PlannedFix}, k.removal.isWholeLine = false → f ≠ k := by
        rintro k hk rfl
        rw [hwhole] at hk
        cases hk
      simp only [ih, List.mem_cons, hne hg, hne hh, false_or, or_iff_right_iff_imp]
      exact fun heq => absurd heq (hne hh)
  | case4 g h rest hjoin ih => simp only [List.mem_cons, ih]

theorem mem_plannedFixes_of_wholeLine {f : PlannedFix} (hwhole : f.removal.isWholeLine = true) :
    f ∈ plannedFixes violations choice ↔ f ∈ selectedFixes violations choice := by
  unfold plannedFixes
  rw [mem_joinComplements_of_wholeLine hwhole, mem_dropRepeats, List.mem_mergeSort, selectedFixes]

/-- What a batch plans for a line: edits inside it, then deletions of it. -/
theorem filter_plannedFixes_line (i : Nat) :
    (plannedFixes violations choice).filter (·.line = i) = plannedEdits violations choice i ++
      (plannedFixes violations choice).filter fun f => f.line = i && f.removal.isWholeLine := by
  have hlast : ((plannedFixes violations choice).filter (·.line = i)).Pairwise
      fun a b => a.removal.isWholeLine = true → b.removal.isWholeLine = true := by
    refine ((plannedFixes_before violations choice).sublist List.filter_sublist).imp_of_mem ?_
    intro a b ha hb hab hwhole
    have hline : a.line = i := by simpa using (List.mem_filter.mp ha).2
    have hline' : b.line = i := by simpa using (List.mem_filter.mp hb).2
    rcases hab with hlt | ⟨-, hb | ⟨ha, -⟩⟩
    · omega
    · exact hb
    · rw [hwhole] at ha
      cases ha
  rw [eq_filter_append_filter hlast, List.filter_filter, List.filter_filter,
    ← filter_plannedFixes_isEditOf]
  congr 1
  · refine List.filter_congr fun f _ => ?_
    rw [PlannedFix.isEditOf, Bool.and_comm]
    rfl
  · exact List.filter_congr fun f _ => Bool.and_comm _ _

end LintDesk
