import LintDesk.Proofs.Edit.Content
import Mathlib.Data.List.Sort

/-! # A batch works line by line

What becomes of a line depends on the fixes for that line only, as long as the fixes of each line
follow one another (`getElem?_foldl_step`). Where the fixes of a line are in a strict order, the
batch considers them in that order (`filter_plannedFixes`).
-/

namespace LintDesk

/-! ### Sorting by insertion -/

section Sorting

variable {α : Type*} {le : α → α → Bool}

/-- An element is put behind what comes strictly before it. -/
theorem orderedInsert_append {a : α} {before after : List α}
    (hbefore : ∀ b ∈ before, le a b = false) (hafter : ∀ b ∈ after, le a b = true) :
    (before ++ after).orderedInsert (fun a b => le a b = true) a = before ++ a :: after := by
  induction before with
  | nil =>
      cases after with
      | nil => rfl
      | cons b after => exact List.orderedInsert_cons_of_le _ after (hafter b List.mem_cons_self)
  | cons b before ih =>
      have hb : ¬le a b = true := by simp [hbefore b]
      rw [List.cons_append, List.orderedInsert_cons, if_neg hb,
        ih fun b hb => hbefore b (List.mem_cons_of_mem _ hb), List.cons_append]

/-- A stable sort is a sort by insertion, by which closed lists can be sorted in a proof. -/
theorem mergeSort_eq_insertionSort (htrans : ∀ a b c, le a b = true → le b c = true → le a c = true)
    (htotal : ∀ a b, (le a b || le b a) = true) (l : List α) :
    l.mergeSort le = l.insertionSort fun a b => le a b = true := by
  induction l with
  | nil => simp
  | cons a l ih =>
      obtain ⟨before, after, hcons, hrest, hbefore⟩ := List.mergeSort_cons htrans htotal a l
      have hsorted := List.pairwise_mergeSort htrans htotal (a :: l)
      rw [hcons, List.pairwise_append, List.pairwise_cons] at hsorted
      rw [List.insertionSort_cons, ← ih, hrest, hcons,
        orderedInsert_append (fun b hb => by simpa using hbefore b hb) hsorted.2.1.1]

end Sorting

/-! ### The plan for one line -/

theorem joinComplements_of_none {fixes : List PlannedFix}
    (h : ∀ f ∈ fixes, ∀ g ∈ fixes, f.complements g = false) : joinComplements fixes = fixes := by
  fun_induction joinComplements fixes with
  | case1 => rfl
  | case2 f => rfl
  | case3 f g rest hjoin ih =>
      rw [h f (by simp) g (by simp)] at hjoin
      cases hjoin
  | case4 f g rest hjoin ih =>
      rw [ih fun a ha b hb => h a (by simp [ha]) b (by simp [hb])]

/-- The fixes that a batch selects, in the order of their violations. -/
def selectedFixes (violations : List Violation) (choice : FixChoice) : List PlannedFix :=
  (violations.filter choice.accepts).filterMap PlannedFix.ofViolation?

theorem plannedFixes_eq_insertionSort (violations : List Violation) (choice : FixChoice) :
    plannedFixes violations choice = joinComplements (dropRepeats
      ((selectedFixes violations choice).insertionSort fun a b => a.precedes b = true)) := by
  rw [plannedFixes, ← selectedFixes,
    mergeSort_eq_insertionSort PlannedFix.precedes_trans PlannedFix.precedes_total]

/-- One fix comes before the other in every batch. -/
def PlannedFix.StrictlyBefore (a b : PlannedFix) : Prop :=
  a.precedes b = true ∧ b.precedes a = false

theorem PlannedFix.StrictlyBefore.ne {a b : PlannedFix} (h : a.StrictlyBefore b) : a ≠ b := by
  rintro rfl
  obtain ⟨htrue, hfalse⟩ := h
  rw [htrue] at hfalse
  cases hfalse

instance : Std.Irrefl PlannedFix.StrictlyBefore :=
  ⟨fun _ h => h.ne rfl⟩

instance : Std.Antisymm PlannedFix.StrictlyBefore :=
  ⟨fun _ _ hab hba => absurd hab.1 (by simp [hba.2])⟩

/-- On one line later columns come first, and at one column longer insertions. -/
theorem PlannedFix.strictlyBefore_of_chars {a b : PlannedFix} (hline : a.line = b.line)
    {m n : Nat} (ha : a.removal = .chars m) (hb : b.removal = .chars n)
    (h : b.start < a.start ∨ b.start = a.start ∧ b.insertedUnits < a.insertedUnits) :
    a.StrictlyBefore b := by
  unfold StrictlyBefore precedes
  rcases h with hlt | ⟨heq, hlt⟩
  · simp [hline, ha, hb, Removal.isWholeLine, hlt, hlt.ne, hlt.ne', hlt.le]
  · simp [hline, ha, hb, Removal.isWholeLine, heq, hlt, hlt.le]

/-- The deletion of a line comes after all other fixes of it. -/
theorem PlannedFix.strictlyBefore_of_wholeLine {a b : PlannedFix} (hline : a.line = b.line)
    {n : Nat} (ha : a.removal = .chars n) (hb : b.removal = .wholeLine) :
    a.StrictlyBefore b := by
  unfold StrictlyBefore precedes
  simp [hline, ha, hb, Removal.isWholeLine]

/-- Two fixes of a strictly ordered list that come before each other are one. -/
theorem PlannedFix.eq_of_strictlyBefore {fixes : List PlannedFix}
    (h : fixes.Pairwise PlannedFix.StrictlyBefore) {a b : PlannedFix} (ha : a ∈ fixes)
    (hb : b ∈ fixes) (hab : a.precedes b = true) (hba : b.precedes a = true) : a = b := by
  induction fixes with
  | nil => simp at ha
  | cons f rest ih =>
      obtain ⟨hf, hrest⟩ := List.pairwise_cons.mp h
      rcases List.mem_cons.mp ha with rfl | harest
      · rcases List.mem_cons.mp hb with rfl | hbrest
        · rfl
        · rw [(hf b hbrest).2] at hba
          cases hba
      · rcases List.mem_cons.mp hb with rfl | hbrest
        · rw [(hf a harest).2] at hab
          cases hab
        · exact ih hrest harest hbrest

theorem mem_dropRepeats {fixes : List PlannedFix} {f : PlannedFix} :
    f ∈ dropRepeats fixes ↔ f ∈ fixes := by
  refine ⟨fun h => (dropRepeats_sublist fixes).subset h, fun h => ?_⟩
  fun_induction dropRepeats fixes with
  | case1 => exact h
  | case2 g rest hrest ih =>
      rw [hrest] at ih
      rcases List.mem_cons.mp h with rfl | h
      · simp
      · exact absurd (ih h) (by simp)
  | case3 rest g more hrest ih =>
      rw [hrest] at ih
      rcases List.mem_cons.mp h with rfl | h
      · simp
      · exact ih h
  | case4 g rest first more hrest hne ih =>
      rw [hrest] at ih
      rcases List.mem_cons.mp h with rfl | h
      · simp
      · exact List.mem_cons_of_mem _ (ih h)

/-- If no two fixes of a line tie, those that are not dropped are in strict order. -/
theorem dropRepeats_strict {fixes : List PlannedFix} {i : Nat}
    (hsorted : fixes.Pairwise fun a b => a.precedes b = true)
    (hties : ∀ a ∈ fixes, ∀ b ∈ fixes, a.line = i → a.precedes b = true → b.precedes a = true →
      a = b) :
    (dropRepeats fixes).Pairwise fun a b => a.line = i → a.StrictlyBefore b := by
  fun_induction dropRepeats fixes with
  | case1 => exact List.Pairwise.nil
  | case2 f rest hrest ih => simp
  | case3 rest g more hrest ih =>
      rw [hrest] at ih
      exact ih (List.pairwise_cons.mp hsorted).2 fun a ha b hb =>
        hties a (by simp [ha]) b (by simp [hb])
  | case4 f rest g more hrest hne ih =>
      obtain ⟨hf, hsorted'⟩ := List.pairwise_cons.mp hsorted
      have hstrict := ih hsorted' fun a ha b hb => hties a (by simp [ha]) b (by simp [hb])
      have hsub : ∀ b ∈ g :: more, b ∈ rest := fun b hb =>
        (dropRepeats_sublist rest).subset (hrest ▸ hb)
      rw [hrest] at hstrict
      refine List.pairwise_cons.mpr ⟨fun b hb hline => ⟨hf b (hsub b hb), ?_⟩, hstrict⟩
      rw [← Bool.not_eq_true]
      -- a tie with a later fix would be a tie with the next one
      intro hback
      have hgb : g.precedes b = true := by
        have hkept := hsorted'.sublist (dropRepeats_sublist rest)
        rw [hrest] at hkept
        rcases List.mem_cons.mp hb with rfl | hb
        · simpa using PlannedFix.precedes_total b b
        · exact (List.pairwise_cons.mp hkept).1 b hb
      have hg : g ∈ rest := hsub g (by simp)
      exact hne (hties f (by simp) g (by simp [hg]) hline (hf g hg)
        (PlannedFix.precedes_trans g b f hgb hback))

section Plan

variable {violations : List Violation} {choice : FixChoice}
  (hcomplements : ∀ f ∈ selectedFixes violations choice, ∀ g ∈ selectedFixes violations choice,
    f.complements g = false)

include hcomplements

/-- Where no selected fix complements another, the plan is the selected fixes in order. -/
theorem plannedFixes_eq : plannedFixes violations choice =
    dropRepeats ((selectedFixes violations choice).mergeSort PlannedFix.precedes) := by
  refine joinComplements_of_none fun f hf g hg => hcomplements f ?_ g ?_
  · exact List.mem_mergeSort.mp (mem_dropRepeats.mp hf)
  · exact List.mem_mergeSort.mp (mem_dropRepeats.mp hg)

theorem mem_plannedFixes {f : PlannedFix} :
    f ∈ plannedFixes violations choice ↔ f ∈ selectedFixes violations choice := by
  rw [plannedFixes_eq hcomplements, mem_dropRepeats, List.mem_mergeSort]

/-- If the selected fixes of a line have a strict order as well, the batch considers just them, in
that order. -/
theorem filter_plannedFixes {i : Nat} {byLine : List PlannedFix}
    (hmem : ∀ f, f ∈ byLine ↔ f ∈ selectedFixes violations choice ∧ f.line = i)
    (hstrict : byLine.Pairwise PlannedFix.StrictlyBefore) :
    (plannedFixes violations choice).filter (·.line = i) = byLine := by
  let sorted := (selectedFixes violations choice).mergeSort PlannedFix.precedes
  have hsorted : sorted.Pairwise fun a b => a.precedes b = true :=
    List.pairwise_mergeSort PlannedFix.precedes_trans PlannedFix.precedes_total _
  have hties : ∀ a ∈ sorted, ∀ b ∈ sorted, a.line = i → a.precedes b = true →
      b.precedes a = true → a = b := by
    intro a ha b hb hline hab hba
    have hsame : b.line = i := by
      rcases PlannedFix.before_of_precedes hab with hlt | ⟨heq, -⟩
      · rcases PlannedFix.before_of_precedes hba with hgt | ⟨heq, -⟩ <;> omega
      · omega
    exact PlannedFix.eq_of_strictlyBefore hstrict
      ((hmem a).mpr ⟨List.mem_mergeSort.mp ha, hline⟩)
      ((hmem b).mpr ⟨List.mem_mergeSort.mp hb, hsame⟩) hab hba
  have hkept : ((plannedFixes violations choice).filter (·.line = i)).Pairwise
      PlannedFix.StrictlyBefore := by
    rw [plannedFixes_eq hcomplements]
    refine ((dropRepeats_strict hsorted hties).sublist List.filter_sublist).imp_of_mem ?_
    intro a b ha _ hab
    exact hab (by simpa using (List.mem_filter.mp ha).2)
  refine hkept.eq_of_mem_iff hstrict fun f => ?_
  rw [hmem, List.mem_filter, mem_plannedFixes hcomplements]
  simp

end Plan

namespace BatchState

/-! ### One step -/

theorem step_last (ending : LineEnding) (s : BatchState) (f : PlannedFix) :
    (s.step ending f).lastLine = some f.line ∧
      (s.step ending f).lastStart = min (f.start : Int) maxInt64 := by
  unfold BatchState.step
  dsimp only
  split
  · split <;> exact ⟨rfl, rfl⟩
  · exact ⟨rfl, rfl⟩

theorem getElem?_step_of_ne (ending : LineEnding) (s : BatchState) {f : PlannedFix} {i : Nat}
    (h : f.line ≠ i) : (s.step ending f).lines[i]? = s.lines[i]? := by
  unfold BatchState.step
  dsimp only
  split
  · split
    · exact List.getElem?_set_ne h
    · rfl
  · rfl

theorem length_foldl_step (ending : LineEnding) (fixes : List PlannedFix) (s : BatchState) :
    (fixes.foldl (step ending) s).lines.length = s.lines.length := by
  induction fixes generalizing s with
  | nil => rfl
  | cons f rest ih =>
      rw [List.foldl_cons, ih]
      unfold BatchState.step
      dsimp only
      split
      · split
        · exact List.length_set
        · rfl
      · rfl

theorem getElem?_foldl_of_ne (ending : LineEnding) {fixes : List PlannedFix} {i : Nat}
    (h : ∀ f ∈ fixes, f.line ≠ i) (s : BatchState) :
    (fixes.foldl (step ending) s).lines[i]? = s.lines[i]? := by
  induction fixes generalizing s with
  | nil => rfl
  | cons f rest ih =>
      obtain ⟨hf, hrest⟩ := List.forall_mem_cons.mp h
      rw [List.foldl_cons, ih hrest, getElem?_step_of_ne ending s hf]

theorem fits_of_lastLine_ne {s : BatchState} {f : PlannedFix} (h : s.lastLine ≠ some f.line) :
    s.fits f = true := by
  have hne : (s.lastLine != some f.line) = true := bne_iff_ne.mpr h
  simp only [fits, hne, Bool.true_or]

/-! ### The fixes of one line -/

/-- Two batches under way agree on a line: it has become the same in both, and both know the same
about the fix considered last on it. -/
structure SameAt (i : Nat) (s t : BatchState) : Prop where
  slot : s.lines[i]? = t.lines[i]?
  last : s.lastLine = some i ↔ t.lastLine = some i
  start : s.lastLine = some i → s.lastStart = t.lastStart

theorem SameAt.fits {i : Nat} {s t : BatchState} (h : SameAt i s t) {f : PlannedFix}
    (hf : f.line = i) : s.fits f = t.fits f := by
  subst hf
  by_cases hs : s.lastLine = some f.line
  · simp only [BatchState.fits, hs, h.last.mp hs, h.start hs]
  · rw [fits_of_lastLine_ne hs, fits_of_lastLine_ne (mt h.last.mpr hs)]

theorem SameAt.step (ending : LineEnding) {i : Nat} {s t : BatchState} (h : SameAt i s t)
    {f : PlannedFix} (hf : f.line = i) : SameAt i (s.step ending f) (t.step ending f) := by
  obtain ⟨hs, hs'⟩ := step_last ending s f
  obtain ⟨ht, ht'⟩ := step_last ending t f
  refine ⟨?_, by rw [hs, ht], fun _ => by rw [hs', ht']⟩
  have hslot := h.slot
  subst hf
  unfold BatchState.step
  dsimp only
  rw [h.fits rfl, hslot]
  split
  · split
    · simp only [List.getElem?_set_self', hslot]
    · exact hslot
  · exact hslot

theorem SameAt.foldl (ending : LineEnding) {i : Nat} {fixes : List PlannedFix}
    (hfixes : ∀ f ∈ fixes, f.line = i) {s t : BatchState} (h : SameAt i s t) :
    SameAt i (fixes.foldl (BatchState.step ending) s) (fixes.foldl (BatchState.step ending) t) := by
  induction fixes generalizing s t with
  | nil => exact h
  | cons f rest ih =>
      obtain ⟨hf, hrest⟩ := List.forall_mem_cons.mp hfixes
      exact ih hrest (h.step ending hf)

/-- Once the fixes have come down to a line, only those for it change it. -/
theorem getElem?_foldl_of_le (ending : LineEnding) {i : Nat} {fixes : List PlannedFix}
    (horder : fixes.Pairwise fun a b => b.line ≤ a.line) (hle : ∀ f ∈ fixes, f.line ≤ i)
    (s : BatchState) : (fixes.foldl (step ending) s).lines[i]? =
      ((fixes.filter (·.line = i)).foldl (step ending) s).lines[i]? := by
  induction fixes generalizing s with
  | nil => rfl
  | cons f rest ih =>
      obtain ⟨hf, hrest⟩ := List.pairwise_cons.mp horder
      by_cases hline : f.line = i
      · rw [List.filter_cons_of_pos (by simpa using hline)]
        exact ih hrest (fun g hg => hle g (by simp [hg])) (s.step ending f)
      · have hbelow : ∀ g ∈ f :: rest, g.line ≠ i := by
          have hlt : f.line < i := lt_of_le_of_ne (hle f (by simp)) hline
          intro g hg
          rcases List.mem_cons.mp hg with rfl | hg
          · exact hline
          · exact ((hf g hg).trans_lt hlt).ne
        have hnone : (f :: rest).filter (·.line = i) = [] := by
          simpa using hbelow
        rw [hnone, getElem?_foldl_of_ne ending hbelow s]
        rfl

/-- What becomes of a line is what the fixes for it make of it. -/
theorem getElem?_foldl_step (ending : LineEnding) {i : Nat} {fixes : List PlannedFix}
    (horder : fixes.Pairwise fun a b => b.line ≤ a.line) {s : BatchState}
    (hlast : s.lastLine ≠ some i) : (fixes.foldl (step ending) s).lines[i]? =
      ((fixes.filter (·.line = i)).foldl (step ending) s).lines[i]? := by
  induction fixes generalizing s with
  | nil => rfl
  | cons f rest ih =>
      obtain ⟨hf, hrest⟩ := List.pairwise_cons.mp horder
      rcases Nat.lt_or_ge i f.line with hlt | hle
      · have hne : f.line ≠ i := hlt.ne'
        have hnext : (s.step ending f).lastLine ≠ some i := by
          rw [(step_last ending s f).1]
          simpa using hne
        have hsame : SameAt i (s.step ending f) s :=
          ⟨getElem?_step_of_ne ending s hne, iff_of_false hnext hlast, fun h => absurd h hnext⟩
        rw [List.foldl_cons, ih hrest hnext, List.filter_cons_of_neg (by simpa using hne)]
        refine (hsame.foldl ending fun g hg => ?_).slot
        simpa using (List.mem_filter.mp hg).2
      · refine getElem?_foldl_of_le ending horder (fun g hg => ?_) s
        rcases List.mem_cons.mp hg with rfl | hg
        · exact hle
        · exact (hf g hg).trans hle

/-! ### From right to left -/

/-- A fix that reaches no further than the place of the last one on its line fits. -/
theorem fits_of_le {s : BatchState} {f : PlannedFix} {count : Nat}
    (hremoval : f.removal = .chars count) (hcount : 0 < count)
    (h : s.lastLine = some f.line → min ((f.start + count : Nat) : Int) maxInt64 ≤ s.lastStart) :
    s.fits f = true := by
  by_cases hlast : s.lastLine = some f.line
  · have hle := h hlast
    simp only [fits, hremoval, Removal.toInt, Removal.maxCount, maxInt64] at hle ⊢
    rw [if_pos (by omega)]
    simp only [Bool.or_eq_true, decide_eq_true_eq]
    right
    omega
  · exact fits_of_lastLine_ne hlast

/-- A fix that fits replaces what it was made for. -/
theorem getElem?_step_chars (ending : LineEnding) {s : BatchState} {f : PlannedFix} {count : Nat}
    (hremoval : f.removal = .chars count) {before removed after : List Char}
    (hslot : s.lines[f.line]? = some (some (before ++ (removed ++ after))))
    (hstart : units before = f.start) (hcount : units removed = count) (hfits : s.fits f = true) :
    (s.step ending f).lines[f.line]? =
      some (some (before ++ (f.toFix.insertedChars ending ++ after))) := by
  have hbound : f.line < s.lines.length := (List.getElem?_eq_some_iff.mp hslot).1
  unfold BatchState.step
  simp only [hfits, if_true, hslot, PlannedFix.apply_chars hremoval hstart hcount ending]
  simp [hbound]

end BatchState

end LintDesk
