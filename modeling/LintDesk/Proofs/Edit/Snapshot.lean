import LintDesk.Proofs.Edit.Content
import LintDesk.Proofs.Edit.Idle
import LintDesk.Proofs.Edit.LinePlan
import Mathlib.Algebra.BigOperators.Group.Finset.Piecewise

/-! # A batch as one edit of the text as it was

A batch edits lines that earlier fixes have changed already. Since it works from right to left and
skips what reaches into the fix before, every edit finds its columns as they were, so the batch
makes all edits of a line at once, and its columns are those of the line as it was
(`applyFixes_simultaneous`).
-/

namespace LintDesk

/-! ### Edits made at once -/

/-- Whether a fix begins and ends to the left of a place, if there is one. -/
def PlannedFix.clearOf (last : Option Nat) (f : PlannedFix) : Bool :=
  last.all fun next => f.start < next && f.start + f.removal.count ≤ next

/-- The edits that stand, of edits from right to left: those that stay clear of the one before,
whether that one stands or not. -/
def standing : Option Nat → List PlannedFix → List PlannedFix
  | _, [] => []
  | last, f :: rest =>
    if f.clearOf last then f :: standing (some f.start) rest else standing (some f.start) rest

/-- What follows a column of a line after edits from left to right, all columns being those of the
line as it is. -/
def substitute (ending : LineEnding) (line : Line) : Nat → List PlannedFix → Line
  | column, [] => dropUnits column line
  | column, f :: rest =>
    dropUnits column (takeUnits f.start line) ++ (f.toFix.insertedChars ending ++
      substitute ending line (f.start + f.removal.count) rest)

/-- The edits that a batch makes in a line, from left to right. -/
def lineEdits (violations : List Violation) (choice : FixChoice) (i : Nat) : List PlannedFix :=
  (standing none (plannedEdits violations choice i)).reverse

/-- Whether a batch removes a line as a whole. -/
def removesLine (violations : List Violation) (choice : FixChoice) (i : Nat) : Bool :=
  (selectedFixes violations choice).any fun f => f.line == i && f.removal.isWholeLine

/-- What a batch leaves of a line. -/
def lineOutcome (ending : LineEnding) (violations : List Violation) (choice : FixChoice) (i : Nat)
    (line : Line) : Option Line :=
  if removesLine violations choice i then none
  else some (substitute ending line 0 (lineEdits violations choice i))

/-- The edit ends where the other begins, or further left. -/
def PlannedFix.LeftOf (a b : PlannedFix) : Prop :=
  a.start < b.start ∧ a.start + a.removal.count ≤ b.start

theorem PlannedFix.clearOf_some {f : PlannedFix} {n : Nat} :
    f.clearOf (some n) = true ↔ f.start < n ∧ f.start + f.removal.count ≤ n := by
  simp [clearOf]

theorem clearOf_of_mem_standing {next : Nat} {fixes : List PlannedFix}
    (horder : fixes.Pairwise fun a b => b.start ≤ a.start) (hle : ∀ f ∈ fixes, f.start ≤ next) :
    ∀ f ∈ standing (some next) fixes, f.clearOf (some next) = true := by
  induction fixes generalizing next with
  | nil => simp [standing]
  | cons f rest ih =>
      obtain ⟨hf, hrest⟩ := List.pairwise_cons.mp horder
      have hfurther : ∀ g ∈ standing (some f.start) rest, g.clearOf (some next) = true :=
        fun g hg => by
          have hclear := PlannedFix.clearOf_some.mp (ih hrest hf g hg)
          have hnext := hle f (by simp)
          exact PlannedFix.clearOf_some.mpr (by omega)
      rw [standing]
      split
      · next hclear => exact List.forall_mem_cons.mpr ⟨hclear, hfurther⟩
      · exact hfurther

/-- Edits that stand lie apart. -/
theorem standing_leftOf (last : Option Nat) {fixes : List PlannedFix}
    (horder : fixes.Pairwise fun a b => b.start ≤ a.start) :
    (standing last fixes).Pairwise fun a b => b.LeftOf a := by
  induction fixes generalizing last with
  | nil => simp [standing]
  | cons f rest ih =>
      obtain ⟨hf, hrest⟩ := List.pairwise_cons.mp horder
      rw [standing]
      split
      · exact List.pairwise_cons.mpr ⟨fun g hg =>
          PlannedFix.clearOf_some.mp (clearOf_of_mem_standing hrest hf g hg), ih _ hrest⟩
      · exact ih _ hrest

namespace BatchState

/-! ### One line under way -/

/-- Up to the place of the fix considered last, line `i` reads as it did, and what follows a column
there is what the edits made so far make of the rest of the line as it was. -/
structure Reads (ending : LineEnding) (line : Line) (i : Nat) (last : Option Nat)
    (done : List PlannedFix) (s : BatchState) : Prop where
  slot : ∃ now, s.lines[i]? = some (some now) ∧ ∀ column, (∀ p ∈ last, column ≤ p) →
    takeUnits column now = takeUnits column line ∧
      dropUnits column now = substitute ending line column done
  untouched : last = none → s.lastLine ≠ some i
  place : ∀ p ∈ last, s.lastLine = some i ∧ s.lastStart = p ∧ p ≤ units line

variable {ending : LineEnding} {line : Line} {i : Nat} {last : Option Nat}
  {done : List PlannedFix} {s : BatchState} {f : PlannedFix}

theorem Reads.start (ending : LineEnding) (hslot : s.lines[i]? = some (some line))
    (hlast : s.lastLine ≠ some i) : Reads ending line i none [] s where
  slot := ⟨line, hslot, fun _ _ => ⟨rfl, rfl⟩⟩
  untouched := fun _ => hlast
  place := by simp

/-- On its line a fix fits just if it is clear of the one considered before it. -/
theorem Reads.fits_eq (h : Reads ending line i last done s) (hsmall : units line < 2 ^ 63 - 1)
    (hline : f.line = i) (hedit : f.removal.isWholeLine = false) : s.fits f = f.clearOf last := by
  cases hlast : last with
  | none => exact fits_of_lastLine_ne (hline ▸ h.untouched hlast)
  | some p =>
      obtain ⟨hsame, hstart, hp⟩ := h.place p hlast
      cases hremoval : f.removal with
      | wholeLine => simp [hremoval, Removal.isWholeLine] at hedit
      | chars count =>
          have hp63 : p < 2 ^ 63 - 1 := by omega
          rw [Bool.eq_iff_iff, PlannedFix.clearOf_some]
          simp only [fits, hsame, hline, hremoval, Removal.isWholeLine, bne_self_eq_false,
            Bool.false_or, Removal.count, Removal.toInt, Removal.maxCount, maxInt64, hstart,
            decide_eq_true_eq]
          split <;> omega

theorem place_step (hline : f.line = i) (hstart : f.start ≤ units line)
    (hsmall : units line < 2 ^ 63 - 1) (ending : LineEnding) :
    ∀ p ∈ some f.start, (s.step ending f).lastLine = some i ∧
      (s.step ending f).lastStart = p ∧ p ≤ units line := by
  intro p hp
  obtain rfl : f.start = p := Option.some.inj hp
  obtain ⟨hlast, hplace⟩ := step_last ending s f
  refine ⟨hlast.trans (congrArg some hline), hplace.trans ?_, hstart⟩
  simp only [maxInt64]
  omega

/-- A fix that is skipped only moves the place up to which the line reads as it did. -/
theorem Reads.skip (h : Reads ending line i last done s) (hsmall : units line < 2 ^ 63 - 1)
    (hline : f.line = i) (hstart : f.start ≤ units line) (hle : ∀ p ∈ last, f.start ≤ p)
    (hfits : s.fits f = false) :
    Reads ending line i (some f.start) done (s.step ending f) ∧
      (s.step ending f).applied = s.applied := by
  obtain ⟨now, hnow, hreads⟩ := h.slot
  have hskip : (s.step ending f).lines = s.lines ∧ (s.step ending f).applied = s.applied := by
    simp [BatchState.step, hfits]
  refine ⟨⟨⟨now, by rw [hskip.1, hnow], fun column hcolumn => ?_⟩, by simp,
    place_step hline hstart hsmall ending⟩, hskip.2⟩
  exact hreads column fun p hp => (hcolumn _ rfl).trans (hle p hp)

/-- A fix that is clear of the last one finds its columns as they were. -/
theorem Reads.replace (h : Reads ending line i last done s) (hsmall : units line < 2 ^ 63 - 1)
    (hline : f.line = i) {count : Nat} (hremoval : f.removal = .chars count)
    (hstart : f.start ≤ units line) (hle : ∀ p ∈ last, f.start ≤ p) (hclear : f.clearOf last = true)
    (hfits : s.fits f = true) :
    Reads ending line i (some f.start) (f :: done) (s.step ending f) ∧
      (s.step ending f).applied = s.applied + 1 := by
  obtain ⟨now, hnow, hreads⟩ := h.slot
  have hend : ∀ p ∈ last, f.start + count ≤ p := by
    intro p hp
    obtain rfl : last = some p := hp
    simpa [hremoval, Removal.count] using (PlannedFix.clearOf_some.mp hclear).2
  have hfront := (hreads f.start hle).1
  have hrest := (hreads (f.start + count) hend).2
  let fixed := takeUnits f.start line ++ (f.toFix.insertedChars ending ++
    substitute ending line (f.start + count) done)
  have happly : f.toFix.apply now ending = .replace fixed := by
    simp [Fix.apply, PlannedFix.toFix, hremoval, fixed, ← hfront, ← hrest]
  have hplace := place_step (s := s) hline hstart hsmall ending
  subst hline
  have hbound : f.line < s.lines.length := (List.getElem?_eq_some_iff.mp hnow).1
  have hstep : (s.step ending f).lines = s.lines.set f.line (some fixed) ∧
      (s.step ending f).applied = s.applied + 1 := by
    simp [BatchState.step, hfits, hnow, happly]
  refine ⟨⟨⟨fixed, by simp [hstep.1, hbound], fun column hcolumn => ?_⟩, by simp, hplace⟩, hstep.2⟩
  have hbefore : column ≤ f.start := hcolumn _ rfl
  obtain ⟨htake, hdrop⟩ := takeUnits_append_of_le (hbefore.trans (le_units_takeUnits hstart))
    (f.toFix.insertedChars ending ++ substitute ending line (f.start + count) done)
  refine ⟨htake.trans (takeUnits_takeUnits hbefore line), hdrop.trans ?_⟩
  rw [substitute, hremoval, Removal.count]

/-- Once a fix has been considered, the line reads as before up to its place. -/
theorem Reads.step (h : Reads ending line i last done s) (hsmall : units line < 2 ^ 63 - 1)
    (hline : f.line = i) (hedit : f.removal.isWholeLine = false) (hstart : f.start ≤ units line)
    (hle : ∀ p ∈ last, f.start ≤ p) :
    Reads ending line i (some f.start) (if f.clearOf last then f :: done else done)
        (s.step ending f) ∧
      (s.step ending f).applied = s.applied + (f.clearOf last).toNat := by
  have hfits := h.fits_eq hsmall hline hedit
  cases hclear : f.clearOf last with
  | false => exact h.skip hsmall hline hstart hle (hfits.trans hclear)
  | true =>
      cases hremoval : f.removal with
      | wholeLine => simp [hremoval, Removal.isWholeLine] at hedit
      | chars count => exact h.replace hsmall hline hremoval hstart hle hclear (hfits.trans hclear)

/-- The fixes of a line make just the edits that stand. -/
theorem Reads.foldl (hsmall : units line < 2 ^ 63 - 1) {fixes : List PlannedFix}
    (h : Reads ending line i last done s) (hedits : ∀ f ∈ fixes, f.isEditOf i = true)
    (hinside : ∀ f ∈ fixes, f.start ≤ units line)
    (horder : fixes.Pairwise fun a b => b.start ≤ a.start)
    (hle : ∀ f ∈ fixes, ∀ p ∈ last, f.start ≤ p) :
    (∃ last', Reads ending line i last' ((standing last fixes).reverse ++ done)
        (fixes.foldl (BatchState.step ending) s)) ∧
      (fixes.foldl (BatchState.step ending) s).applied =
        s.applied + (standing last fixes).length := by
  induction fixes generalizing s last done with
  | nil => exact ⟨⟨last, h⟩, rfl⟩
  | cons f rest ih =>
      obtain ⟨hf, hrest⟩ := List.forall_mem_cons.mp hedits
      obtain ⟨hfinside, hrestinside⟩ := List.forall_mem_cons.mp hinside
      obtain ⟨hfurther, horder'⟩ := List.pairwise_cons.mp horder
      obtain ⟨hfle, -⟩ := List.forall_mem_cons.mp hle
      obtain ⟨hline, hedit⟩ := PlannedFix.isEditOf_iff.mp hf
      obtain ⟨hnext, happlied⟩ := h.step hsmall hline hedit hfinside hfle
      obtain ⟨hreads, hcount⟩ := ih hnext hrest hrestinside horder' fun g hg p hp => by
        obtain rfl := Option.some.inj hp
        exact hfurther g hg
      rw [List.foldl_cons, hcount, happlied, standing]
      cases hclear : f.clearOf last with
      | false => simpa [hclear] using hreads
      | true =>
          refine ⟨?_, by simp; omega⟩
          simpa [hclear] using hreads

/-! ### The deletions of a line -/

/-- A line that is gone stays gone. -/
theorem foldl_of_gone (ending : LineEnding) {fixes : List PlannedFix}
    (hline : ∀ f ∈ fixes, f.line = i) (hslot : s.lines[i]? = some none) :
    (fixes.foldl (BatchState.step ending) s).lines[i]? = some none ∧
      (fixes.foldl (BatchState.step ending) s).applied = s.applied := by
  induction fixes generalizing s with
  | nil => exact ⟨hslot, rfl⟩
  | cons f rest ih =>
      obtain ⟨rfl, hrest⟩ := List.forall_mem_cons.mp hline
      have hstep : (s.step ending f).lines = s.lines ∧ (s.step ending f).applied = s.applied := by
        unfold BatchState.step
        dsimp only
        rw [hslot]
        split <;> exact ⟨rfl, rfl⟩
      rw [List.foldl_cons, ← hstep.2]
      exact ih hrest (hstep.1.symm ▸ hslot)

/-- Of several deletions of a line the first is applied. -/
theorem foldl_deletions (ending : LineEnding) {fixes : List PlannedFix} {now : Line}
    (hdelete : ∀ f ∈ fixes, f.line = i ∧ f.removal = .wholeLine ∧ f.insertion = "")
    (hslot : s.lines[i]? = some (some now)) :
    (fixes.foldl (BatchState.step ending) s).lines[i]? =
        some (if fixes.isEmpty then some now else none) ∧
      (fixes.foldl (BatchState.step ending) s).applied = s.applied + (!fixes.isEmpty).toNat := by
  cases fixes with
  | nil => exact ⟨hslot, rfl⟩
  | cons f rest =>
      obtain ⟨⟨rfl, hremoval, hinsertion⟩, hrest⟩ := List.forall_mem_cons.mp hdelete
      have hbound : f.line < s.lines.length := (List.getElem?_eq_some_iff.mp hslot).1
      have hfits : s.fits f = true := by simp [fits, hremoval, Removal.isWholeLine]
      have happly : f.toFix.apply now ending = .deleteLine := by
        simp [Fix.apply, PlannedFix.toFix, hremoval, Fix.insertedChars, hinsertion]
      have hstep : (s.step ending f).lines = s.lines.set f.line none ∧
          (s.step ending f).applied = s.applied + 1 := by
        simp [BatchState.step, hfits, hslot, happly]
      have hgone := foldl_of_gone ending (fun g hg => (hrest g hg).1)
        (s := s.step ending f) (by simp [hstep.1, hbound])
      rw [List.foldl_cons, hgone.1, hgone.2, hstep.2]
      exact ⟨rfl, rfl⟩

/-! ### How many fixes are applied -/

/-- Whether the batch applies a fix. -/
def takes (s : BatchState) (f : PlannedFix) : Bool :=
  s.fits f && s.lines[f.line]?.any Option.isSome

theorem applied_step (ending : LineEnding) (s : BatchState) (f : PlannedFix) :
    (s.step ending f).applied = s.applied + (s.takes f).toNat := by
  unfold BatchState.step takes
  dsimp only
  cases s.fits f with
  | false => rfl
  | true =>
      rcases s.lines[f.line]? with _ | _ | line
      · rfl
      · rfl
      · rfl

theorem SameAt.takes {t : BatchState} (h : SameAt i s t) (hf : f.line = i) :
    s.takes f = t.takes f := by
  unfold BatchState.takes
  rw [h.fits hf, hf, h.slot]

theorem SameAt.refl (i : Nat) (s : BatchState) : SameAt i s s :=
  ⟨rfl, Iff.rfl, fun _ => rfl⟩

theorem SameAt.trans {t u : BatchState} (h : SameAt i s t) (h' : SameAt i t u) : SameAt i s u :=
  ⟨h.slot.trans h'.slot, h.last.trans h'.last,
    fun hs => (h.start hs).trans (h'.start (h.last.mp hs))⟩

/-- A batch that has not come past a line has dealt with it as its own fixes would alone. -/
theorem sameAt_foldl_filter (ending : LineEnding) {fixes : List PlannedFix}
    (horder : fixes.Pairwise fun a b => b.line ≤ a.line) (hle : ∀ f ∈ fixes, i ≤ f.line)
    (hlast : s.lastLine ≠ some i) :
    SameAt i (fixes.foldl (BatchState.step ending) s)
      ((fixes.filter (·.line = i)).foldl (BatchState.step ending) s) := by
  induction fixes generalizing s with
  | nil => exact .refl i s
  | cons f rest ih =>
      obtain ⟨hf, hrest⟩ := List.pairwise_cons.mp horder
      obtain ⟨hfle, hrestle⟩ := List.forall_mem_cons.mp hle
      by_cases hline : f.line = i
      · have hall : ∀ g ∈ f :: rest, g.line = i := by
          refine List.forall_mem_cons.mpr ⟨hline, fun g hg => ?_⟩
          exact le_antisymm (hline ▸ hf g hg) (hrestle g hg)
        rw [List.filter_eq_self.mpr (by simpa using hall)]
        exact .refl i _
      · have hnext : (s.step ending f).lastLine ≠ some i := by
          rw [(step_last ending s f).1]
          simpa using hline
        have hsame : SameAt i (s.step ending f) s :=
          ⟨getElem?_step_of_ne ending s hline, iff_of_false hnext hlast, fun h => absurd h hnext⟩
        rw [List.foldl_cons, List.filter_cons_of_neg (by simpa using hline)]
        exact (ih hrest hrestle hnext).trans
          (hsame.foldl ending fun g hg => by simpa using (List.mem_filter.mp hg).2)

/-- A batch applies as many fixes as its lines would on their own. -/
theorem applied_foldl (ending : LineEnding) (lines : List Line) {fixes : List PlannedFix}
    (horder : fixes.Pairwise fun a b => b.line ≤ a.line) :
    (fixes.foldl (BatchState.step ending) { lines := lines.map some }).applied =
      ∑ i ∈ Finset.range lines.length, ((fixes.filter (·.line = i)).foldl
        (BatchState.step ending) { lines := lines.map some }).applied := by
  induction fixes using List.reverseRecOn with
  | nil => simp
  | append_singleton before f ih =>
      obtain ⟨hbefore, -, hf⟩ := List.pairwise_append.mp horder
      have hsame := sameAt_foldl_filter (i := f.line) ending
        (s := { lines := lines.map some }) hbefore (fun g hg => hf g hg f (by simp)) (by simp)
      let counted := fun i => (if f.line = i then ((before.foldl (BatchState.step ending)
        { lines := lines.map some }).takes f).toNat else 0)
      have hline : ∀ i, (((before ++ [f]).filter (·.line = i)).foldl (BatchState.step ending)
          { lines := lines.map some }).applied = ((before.filter (·.line = i)).foldl
            (BatchState.step ending) { lines := lines.map some }).applied + counted i := by
        intro i
        by_cases hi : f.line = i
        · subst hi
          simp [counted, applied_step, hsame.takes rfl]
        · simp [counted, hi]
      have hmissing : ¬f.line < lines.length → (before.foldl (BatchState.step ending)
          { lines := lines.map some }).takes f = false := by
        intro hnot
        have hlength := length_foldl_step ending before { lines := lines.map some }
        simp only [List.length_map] at hlength
        unfold takes
        rw [List.getElem?_eq_none (by omega)]
        simp
      rw [List.foldl_append, List.foldl_cons, List.foldl_nil, applied_step, ih hbefore,
        Finset.sum_congr rfl fun i _ => hline i, Finset.sum_add_distrib, Finset.sum_ite_eq]
      congr 1
      split
      · rfl
      · next hnot => simp [hmissing (by simpa using hnot)]

end BatchState

/-! ### The whole text -/

section Batch

variable {text : List Char} {violations : List Violation} {choice : FixChoice}

theorem plannedEdits_sorted (violations : List Violation) (choice : FixChoice) (i : Nat) :
    (plannedEdits violations choice i).Pairwise fun a b => b.start ≤ a.start := by
  rw [← filter_plannedFixes_isEditOf]
  refine ((plannedFixes_before violations choice).sublist List.filter_sublist).imp_of_mem ?_
  intro a b ha hb hab
  obtain ⟨hline, -⟩ := PlannedFix.isEditOf_iff.mp (List.mem_filter.mp ha).2
  obtain ⟨hline', hnot⟩ := PlannedFix.isEditOf_iff.mp (List.mem_filter.mp hb).2
  rcases hab with hlt | ⟨-, hwhole | ⟨-, hle⟩⟩
  · omega
  · rw [hnot] at hwhole
    cases hwhole
  · exact hle

theorem lineEdits_leftOf (violations : List Violation) (choice : FixChoice) (i : Nat) :
    (lineEdits violations choice i).Pairwise PlannedFix.LeftOf :=
  List.pairwise_reverse.mpr (standing_leftOf none (plannedEdits_sorted violations choice i))

/-- An edit is planned at the place of a selected fix of its line. -/
theorem exists_place_of_mem_plannedEdits {i : Nat} {f : PlannedFix}
    (hf : f ∈ plannedEdits violations choice i) :
    f.isEditOf i = true ∧
      ∃ g ∈ selectedFixes violations choice, g.line = i ∧ g.start = f.start := by
  rw [← filter_plannedFixes_isEditOf] at hf
  obtain ⟨hplanned, hedit⟩ := List.mem_filter.mp hf
  obtain ⟨g, hg, hline, hstart, -⟩ := exists_place_of_mem_joinComplements hplanned
  refine ⟨hedit, g, List.mem_mergeSort.mp (mem_dropRepeats.mp hg), ?_, hstart.symm⟩
  exact hline.symm.trans (PlannedFix.isEditOf_iff.mp hedit).1

theorem isEmpty_filter_plannedFixes_deletions (i : Nat) :
    ((plannedFixes violations choice).filter fun f => f.line = i && f.removal.isWholeLine).isEmpty =
      !removesLine violations choice i := by
  rw [Bool.eq_iff_iff, List.isEmpty_iff, List.filter_eq_nil_iff, Bool.not_eq_true',
    ← Bool.not_eq_true, removesLine, List.any_eq_true]
  simp only [Bool.and_eq_true, decide_eq_true_eq, beq_iff_eq, not_exists, not_and]
  constructor
  · intro h f hf hline hwhole
    exact h f ((mem_plannedFixes_of_wholeLine hwhole).mpr hf) hline hwhole
  · intro h f hf hline hwhole
    exact h f ((mem_plannedFixes_of_wholeLine hwhole).mp hf) hline hwhole

/-- A line that no selected fix is for stays as it is. -/
theorem lineOutcome_of_untargeted (ending : LineEnding) {i : Nat} (line : Line)
    (h : ∀ f ∈ selectedFixes violations choice, f.line ≠ i) :
    lineOutcome ending violations choice i line = some line := by
  have hkept : removesLine violations choice i = false := by
    simpa [removesLine] using fun f hf heq => absurd heq (h f hf)
  have hnone : (selectedFixes violations choice).filter (·.isEditOf i) = [] :=
    List.filter_eq_nil_iff.mpr fun f hf hedit =>
      h f hf (PlannedFix.isEditOf_iff.mp hedit).1
  simp [lineOutcome, hkept, lineEdits, plannedEdits, hnone, dropRepeats, joinComplements, standing,
    substitute]

/-- A text that fits into memory together with a copy of its lines: the bytes of both and the 24
bytes of one slot for a line have addresses of 64 bits. -/
def FitsTwice (text : List Char) : Prop :=
  2 * byteLength text + 24 ≤ 2 ^ 64

theorem FitsTwice.units_lt (h : FitsTwice text) {line : Line} (hline : line ∈ splitLines text) :
    units line < 2 ^ 63 - 1 := by
  have hbytes := byteLength_le_of_mem_splitLines hline
  have hunits := units_le_byteLength line
  unfold FitsTwice at h
  omega

variable (hsize : FitsTwice text)
  (hinside : ∀ f ∈ selectedFixes violations choice, ∀ line,
    (splitLines text)[f.line]? = some line → f.start ≤ units line)
  (hdelete : ∀ f ∈ selectedFixes violations choice, f.removal.isWholeLine = true →
    f.insertion = "")

section

include hsize hinside hdelete

/-- The fixes of a line, on their own. -/
theorem foldl_lineFixes (ending : LineEnding) {i : Nat} {line : Line}
    (hline : (splitLines text)[i]? = some line) :
    let result := ((plannedFixes violations choice).filter (·.line = i)).foldl
      (BatchState.step ending) { lines := (splitLines text).map some }
    result.lines[i]? = some (lineOutcome ending violations choice i line) ∧
      result.applied = (lineEdits violations choice i).length +
        (removesLine violations choice i).toNat := by
  intro result
  have hedits : ∀ f ∈ plannedEdits violations choice i, f.isEditOf i = true := fun f hf =>
    (exists_place_of_mem_plannedEdits hf).1
  have hstarts : ∀ f ∈ plannedEdits violations choice i, f.start ≤ units line := by
    intro f hf
    obtain ⟨-, g, hg, hgline, hstart⟩ := exists_place_of_mem_plannedEdits hf
    exact hstart ▸ hinside g hg line (hgline ▸ hline)
  have hdeletions : ∀ f ∈ (plannedFixes violations choice).filter
      (fun f => f.line = i && f.removal.isWholeLine),
      f.line = i ∧ f.removal = .wholeLine ∧ f.insertion = "" := by
    intro f hf
    obtain ⟨hplanned, hkind⟩ := List.mem_filter.mp hf
    obtain ⟨hi, hwhole⟩ : f.line = i ∧ f.removal.isWholeLine = true := by simpa using hkind
    refine ⟨hi, ?_, hdelete f ((mem_plannedFixes_of_wholeLine hwhole).mp hplanned) hwhole⟩
    cases hremoval : f.removal with
    | wholeLine => rfl
    | chars count => simp [hremoval, Removal.isWholeLine] at hwhole
  obtain ⟨⟨last, hreads⟩, hcount⟩ := BatchState.Reads.foldl
    (hsize.units_lt (List.mem_of_getElem? hline))
    (.start ending (s := { lines := (splitLines text).map some }) (by simp [hline]) (by simp))
    hedits hstarts (plannedEdits_sorted violations choice i) (by simp)
  obtain ⟨now, hslot, hcolumns⟩ := hreads.slot
  have hnow : now = substitute ending line 0 (lineEdits violations choice i) := by
    simpa [lineEdits] using (hcolumns 0 (by simp)).2
  obtain ⟨hlines, happlied⟩ := BatchState.foldl_deletions ending hdeletions hslot
  rw [isEmpty_filter_plannedFixes_deletions] at hlines happlied
  simp only [result, filter_plannedFixes_line, List.foldl_append]
  rw [hlines, happlied, hcount, hnow, lineOutcome, lineEdits, List.length_reverse]
  cases removesLine violations choice i <;> simp

/-- A batch is one simultaneous edit of the text as it was. Each line is removed, or a set of edits
is made in it, all columns read in the original line and no two of them meeting; lines without a
fix stay, and the applied fixes are these edits and removals. -/
theorem applyFixes_simultaneous (hselected : selectedFixes violations choice ≠ []) :
    (applyFixes text violations choice).content = joinLines (dominantEnding text)
        ((splitLines text).zipIdx.filterMap fun (line, i) =>
          lineOutcome (dominantEnding text) violations choice i line) ∧
      (∀ i, (lineEdits violations choice i).Pairwise PlannedFix.LeftOf) ∧
      (∀ i line, (∀ f ∈ selectedFixes violations choice, f.line ≠ i) →
        lineOutcome (dominantEnding text) violations choice i line = some line) ∧
      (applyFixes text violations choice).applied =
        ∑ i ∈ Finset.range (splitLines text).length,
          ((lineEdits violations choice i).length + (removesLine violations choice i).toNat) := by
  have horder := plannedFixes_descend violations choice
  let ending := dominantEnding text
  let result := (plannedFixes violations choice).foldl (BatchState.step ending)
    { lines := (splitLines text).map some }
  have hlines : result.lines = (splitLines text).zipIdx.map fun (line, i) =>
      lineOutcome ending violations choice i line := by
    apply List.ext_getElem?
    intro i
    rw [BatchState.getElem?_foldl_step ending horder (by simp)]
    cases hline : (splitLines text)[i]? with
    | none =>
        have hlength := BatchState.length_foldl_step ending
          ((plannedFixes violations choice).filter (·.line = i))
          { lines := (splitLines text).map some }
        rw [List.getElem?_eq_none_iff] at hline
        rw [List.getElem?_eq_none (by simpa [hlength] using hline),
          List.getElem?_eq_none (by simpa using hline)]
    | some line =>
        rw [(foldl_lineFixes hsize hinside hdelete ending hline).1]
        simp [hline]
  refine ⟨?_, lineEdits_leftOf violations choice, fun i line =>
    lineOutcome_of_untargeted _ line, ?_⟩
  · rw [content_of_selected hselected, hlines, List.filterMap_map]
    rfl
  · rw [applied_applyFixes, BatchState.applied_foldl ending _ horder]
    refine Finset.sum_congr rfl fun i hi => ?_
    have hline := List.getElem?_eq_getElem (Finset.mem_range.mp hi)
    exact (foldl_lineFixes hsize hinside hdelete ending hline).2

end

/-- An insertion and a deletion at one place, a fix that reaches into them, one that does not, and
the deletion of another line. -/
theorem applyFixes_simultaneous_of_meeting :
    (applyFixes "a𝄞bc\nd\nef".toList
        [{ names := ["X"], line := 2, description := "", fix := some .deleteLine },
          { names := ["X"], line := 1, description := "", fix := some (.insertAt 4 "Z") },
          { names := ["X"], line := 1, description := "", fix := some (.delete 4 1) },
          { names := ["X"], line := 1, description := "", fix := some (.replace 2 3 "y") },
          { names := ["X"], line := 1, description := "", fix := some (.insertAt 1 "!") }]
        .all).content = "!a𝄞Zc\nef".toList := by
  rw [(applyFixes_simultaneous (by unfold FitsTwice; decide) (by decide) (by decide) (by decide)).1]
  simp only [lineOutcome, lineEdits, plannedEdits,
    mergeSort_eq_insertionSort PlannedFix.precedes_trans PlannedFix.precedes_total]
  decide +kernel

end Batch

end LintDesk
