import LintDesk.Proofs.Edit.LineFixes
import LintDesk.Proofs.Text.Splitting

/-! # What a batch of all default fixes makes of a text

A batch works on each line from right to left, so what it has not come to yet is as it was. In the
end every line is tidied, surplus lines are gone and the last line is ended.
-/

namespace LintDesk

open Rule

/-- What a batch makes of a line: nothing if it is surplus, else the tidied line, with its
terminator if it was missing. -/
def Rule.PlacedLine.outcome (ending : LineEnding) (p : PlacedLine) :
    Option Line :=
  if p.surplus then none
  else some (tidyLine p.line ++ if p.unended then ending.chars else [])

theorem forall_ne_tab {text : List Char} (h : '\t' ∉ text) : ∀ c ∈ text, (c != '\t') = true := by
  intro c hc
  simpa using fun heq : c = '\t' => h (heq ▸ hc)

namespace BatchState

/-! ### A line under way -/

/-- Line `i` is as it was up to the end of `before`: the fix considered last on it starts there or
further right. -/
structure IntactUpTo (i : Nat) (s : BatchState) (before after : List Char) : Prop where
  slot : s.lines[i]? = some (some (before ++ after))
  last : s.lastLine = some i → (units before : Int) ≤ s.lastStart

variable {i : Nat} {s : BatchState} {f : PlannedFix} {before removed more after : List Char}

/-- A fix that ends where the line is intact replaces what it was made for. -/
theorem IntactUpTo.step (ending : LineEnding)
    (h : IntactUpTo i s (before ++ (removed ++ more)) after) (hsmall : units before < 2 ^ 63)
    (hremoved : removed ≠ []) (hline : f.line = i) (hstart : f.start = units before)
    (hremoval : f.removal = .chars (units removed)) :
    IntactUpTo i (s.step ending f) before
      (f.toFix.insertedChars ending ++ (more ++ after)) := by
  subst hline
  have hpos : 0 < units removed :=
    Nat.pos_of_ne_zero fun hzero => hremoved ((units_eq_zero _).mp hzero)
  have hfits : s.fits f = true := by
    refine fits_of_le hremoval hpos fun hlast => ?_
    have hle := h.last hlast
    rw [units_append, units_append] at hle
    rw [hstart]
    omega
  constructor
  · refine getElem?_step_chars ending hremoval ?_ hstart.symm rfl hfits
    simpa using h.slot
  · intro _
    rw [(step_last ending s f).2, hstart]
    simp only [maxInt64]
    omega

theorem insertedChars_tabFix (ending : LineEnding) (width i : Nat) (run : Span) :
    (tabFix width i run).toFix.insertedChars ending =
      List.replicate (blanksFor width run.length) ' ' := by
  simp [tabFix, PlannedFix.toFix, Fix.insertedChars, List.flatMap_replicate]

/-- The fixes of the tabs of a stretch of text put blanks in their places; up to the first tab the
line stays as it was. -/
theorem IntactUpTo.foldl_tabs (ending : LineEnding) (width : Nat) (lead text : List Char)
    (h : IntactUpTo i s (lead ++ text) after) (hsmall : units (lead ++ text) < 2 ^ 63) :
    IntactUpTo i
      (((tabRuns (units lead + 1) text).map (tabFix width i)).reverse.foldl
        (BatchState.step ending) s)
      (lead ++ text.takeWhile (· != '\t'))
      (fillTabs width (text.dropWhile (· != '\t')) ++ after) := by
  induction tabSplit text generalizing lead with
  | @none text hnone =>
      rw [tabRuns_of_not_mem hnone, List.takeWhile_eq_self_iff.mpr (forall_ne_tab hnone),
        List.dropWhile_eq_nil_iff.mpr (forall_ne_tab hnone), fillTabs_nil]
      exact h
  | @run a b n ha hb rest ih =>
      have hstop : ∀ c ∈ (List.replicate (n + 1) '\t' ++ b).head?, (c != '\t') = false := by
        simp [List.replicate_succ]
      obtain ⟨htake, hdrop⟩ := takeWhile_append_of_forall (forall_ne_tab ha) hstop
      -- the tabs further right come first
      have hlater := ih (lead ++ (a ++ List.replicate (n + 1) '\t'))
        (by simpa using h) (by simpa using hsmall)
      have hcolumn : units lead + 1 + units a + (n + 1) =
          units (lead ++ (a ++ List.replicate (n + 1) '\t')) + 1 := by
        rw [units_append, units_append, units_replicate rfl]
        omega
      have hshape : lead ++ (a ++ List.replicate (n + 1) '\t') ++ b.takeWhile (· != '\t') =
          (lead ++ a) ++ (List.replicate (n + 1) '\t' ++ b.takeWhile (· != '\t')) := by simp
      rw [tabRuns_run n ha hb, hcolumn, List.map_cons, List.reverse_cons, List.foldl_append,
        List.foldl_cons, List.foldl_nil, htake, hdrop]
      rw [hshape] at hlater
      have hstep := hlater.step ending (f := tabFix width i ⟨units lead + 1 + units a, n + 1⟩)
        (by simp only [units_append] at hsmall ⊢; omega) (by simp [List.replicate_succ]) rfl
        (by rw [units_append, tabFix]; dsimp only; omega)
        (by rw [units_replicate rfl, tabFix])
      rw [insertedChars_tabFix] at hstep
      rw [fillTabs_run width (n + 1) hb, fillTabs_eq_append width b]
      simpa using hstep

/-- A fix that reaches into the one considered before it changes nothing. -/
theorem lines_step_of_lt (ending : LineEnding) (count : Nat)
    (hremoval : f.removal = .chars (count + 1)) (hlast : s.lastLine = some f.line)
    (hlt : s.lastStart < (f.start + (count + 1) : Nat)) (hsmall : f.start + (count + 1) < 2 ^ 63) :
    (s.step ending f).lines = s.lines := by
  have hfits : s.fits f = false := by
    rw [← Bool.not_eq_true]
    intro hfits
    have hle := fits_same_line hremoval hlast hsmall hfits
    omega
  simp [BatchState.step, hfits]

/-- The fix of the first tab is considered last. -/
theorem last_foldl_tabs (ending : LineEnding) (text : List Char) (htab : '\t' ∈ text)
    (s : BatchState) :
    let s' := ((tabRuns 1 text).map (tabFix 1 i)).reverse.foldl (step ending) s
    s'.lastLine = some i ∧ s'.lastStart ≤ units (text.takeWhile (· != '\t')) := by
  cases tabSplit text with
  | none hnone => exact absurd htab hnone
  | @run a b n ha hb rest =>
      have htake := (takeWhile_append_of_forall (forall_ne_tab ha)
        (r := List.replicate (n + 1) '\t' ++ b) (by simp [List.replicate_succ])).1
      rw [tabRuns_run n ha hb, List.map_cons, List.reverse_cons, List.foldl_append, htake]
      obtain ⟨hline, hstart⟩ := step_last ending
        (((tabRuns (1 + units a + (n + 1)) b).map (tabFix 1 i)).reverse.foldl (step ending) s)
        (tabFix 1 i ⟨1 + units a, n + 1⟩)
      refine ⟨hline, hstart.trans_le ?_⟩
      dsimp only [tabFix]
      omega

/-- The gap of a heading is not narrowed if a tab was in it: the batch has come to the first tab of
the gap, which is before its end. -/
theorem lines_step_gap_of_tab (ending : LineEnding) {head gap text : List Char}
    (hhead : '\t' ∉ head) (htab : '\t' ∈ gap) (hsmall : units head + units gap < 2 ^ 63)
    (hlast : s.lastLine = some i ∧
      s.lastStart ≤ units ((head ++ (gap ++ text)).takeWhile (· != '\t'))) :
    (s.step ending ⟨i, units head, .chars (units gap), ""⟩).lines = s.lines := by
  obtain ⟨hline, hstart⟩ := hlast
  have hrest : gap.dropWhile (· != '\t') ≠ [] := fun hnil => by
    simpa using List.dropWhile_eq_nil_iff.mp hnil _ htab
  have hpos : 0 < units (gap.dropWhile (· != '\t')) :=
    Nat.pos_of_ne_zero fun hzero => hrest ((units_eq_zero _).mp hzero)
  have hunits := congrArg units (List.takeWhile_append_dropWhile (p := (· != '\t')) (l := gap))
  rw [units_append] at hunits
  rw [List.takeWhile_append_of_pos (forall_ne_tab hhead),
    takeWhile_append_of_exists ⟨'\t', htab, by simp⟩, units_append] at hstart
  obtain ⟨count, hcount⟩ : ∃ count, units gap = count + 1 :=
    Nat.exists_eq_add_one_of_ne_zero (by omega)
  exact lines_step_of_lt ending count (by rw [hcount]) hline (by dsimp only; omega)
    (by dsimp only; omega)

/-- Without a tab in it, the gap of a heading is taken out. -/
theorem slot_step_gap (ending : LineEnding) {head gap text : List Char} (hhead : '\t' ∉ head)
    (htab : '\t' ∉ gap) (hgap : gap ≠ []) (hsmall : units head < 2 ^ 63)
    (h : IntactUpTo i s ((head ++ (gap ++ text)).takeWhile (· != '\t'))
      (untab ((head ++ (gap ++ text)).dropWhile (· != '\t')) ++ after)) :
    (s.step ending ⟨i, units head, .chars (units gap), ""⟩).lines[i]? =
      some (some (head ++ untab text ++ after)) := by
  rw [List.takeWhile_append_of_pos (forall_ne_tab hhead),
    List.takeWhile_append_of_pos (forall_ne_tab htab)] at h
  have hstep := h.step ending (f := ⟨i, units head, .chars (units gap), ""⟩) hsmall hgap rfl rfl rfl
  rw [hstep.slot, List.dropWhile_append_of_pos (forall_ne_tab hhead),
    List.dropWhile_append_of_pos (forall_ne_tab htab), untab_eq_append text]
  simp [PlannedFix.toFix, Fix.insertedChars]

/-- After the tabs the gap of a heading is narrowed, unless a tab was in it. -/
theorem slot_foldl_headingFixes (ending : LineEnding) {p : PlacedLine}
    (h : IntactUpTo i s (dropTrailing p.line.text) after) (hsmall : units p.line.text < 2 ^ 63) :
    ((p.headingFixes i).foldl (step ending)
      (((tabRuns 1 (dropTrailing p.line.text)).map (tabFix 1 i)).reverse.foldl (step ending) s)
        ).lines[i]? = some (some (tidyLine p.line ++ after)) := by
  have hkeptSmall : units (dropTrailing p.line.text) < 2 ^ 63 := by
    obtain ⟨blanks, hline, -⟩ := dropTrailing_append p.line.text
    rw [hline, units_append] at hsmall
    omega
  have hrestSmall : units ((dropTrailing p.line.text).dropWhile (· != '\t')) < 2 ^ 63 := by
    have hunits := congrArg units
      (List.takeWhile_append_dropWhile (p := (· != '\t')) (l := dropTrailing p.line.text))
    rw [units_append] at hunits
    omega
  have htabs := IntactUpTo.foldl_tabs ending 1 [] (dropTrailing p.line.text) h hkeptSmall
  rw [units_nil, Nat.zero_add, List.nil_append, fillTabs_one hrestSmall] at htabs
  have hlast := fun htab => last_foldl_tabs (i := i) ending (dropTrailing p.line.text) htab s
  generalize ((tabRuns 1 (dropTrailing p.line.text)).map (tabFix 1 i)).reverse.foldl (step ending) s
    = s' at htabs hlast
  have hslot : s'.lines[i]? = some (some (untab (dropTrailing p.line.text) ++ after)) := by
    rw [htabs.slot, untab_eq_append (dropTrailing p.line.text), List.append_assoc]
  unfold PlacedLine.headingFixes tidyLine
  split
  · exact hslot
  · rcases fixesOf_headingSpace i p.line.text with ⟨hnone, hnarrow⟩ |
      ⟨h', head, gap, text, hsplit, hgap, hfixes, hnarrow⟩
    · rw [hnone, hnarrow]
      exact hslot
    · have hkept : dropTrailing p.line.text = head ++ (gap ++ dropTrailing text) := by
        rw [hsplit.line_eq, ← List.append_assoc, dropTrailing_append_of_text hsplit.text,
          List.append_assoc]
      have hhead : '\t' ∉ head := by
        intro hmem
        rcases hsplit.before_chars _ hmem with heq | heq <;> cases heq
      rw [hfixes, hnarrow, List.foldl_cons, List.foldl_nil]
      rw [hkept] at htabs hslot hlast hkeptSmall
      simp only [units_append] at hkeptSmall
      by_cases htab : '\t' ∈ gap
      · rw [if_pos htab, hkept, lines_step_gap_of_tab ending hhead htab (by omega)
          (hlast (by simp [htab]))]
        exact hslot
      · rw [if_neg htab, slot_step_gap ending hhead htab hgap (by omega) htabs,
          dropTrailing_append_of_text hsplit.text, untab_append, untab_of_not_mem hhead]

/-- The fixes inside a line tidy it. -/
theorem IntactUpTo.foldl_innerFixes (ending : LineEnding) {p : PlacedLine}
    (h : IntactUpTo i s p.line.text after) (hsmall : units p.line.text < 2 ^ 63) :
    ((p.innerFixes i).foldl (BatchState.step ending) s).lines[i]? =
      some (some (tidyLine p.line ++ after)) := by
  obtain ⟨blanks, hline, hblanks, htrailing⟩ := fixesOf_trailingSpaces i p.line.text
  have hruns : fixesOf (checkHardTabs 1) i p.line.text =
      (tabRuns 1 (dropTrailing p.line.text)).map (tabFix 1 i) := by
    rw [fixesOf_hardTabs]
    conv_lhs => rw [hline]
    rw [tabRuns_append_of_not_mem]
    exact fun hmem => by simpa using hblanks _ hmem
  have htrimmed : IntactUpTo i
      ((fixesOf (checkTrailingSpaces 2) i p.line.text).foldl (BatchState.step ending) s)
      (dropTrailing p.line.text) after := by
    rw [htrailing]
    rw [hline, units_append] at hsmall
    split
    · next hnil => rwa [hline, hnil, List.append_nil] at h
    · next hne =>
        rw [hline, ← List.append_nil blanks] at h
        exact h.step ending (by omega) hne rfl rfl rfl
  unfold PlacedLine.innerFixes
  rw [List.foldl_append, List.foldl_append, hruns]
  exact slot_foldl_headingFixes ending htrimmed hsmall

theorem IntactUpTo.start {line : Line} (hslot : s.lines[i]? = some (some line))
    (hlast : s.lastLine ≠ some i) : IntactUpTo i s line [] :=
  ⟨by simpa using hslot, fun hline => absurd hline hlast⟩

/-- The terminator of a line is inserted first. -/
theorem IntactUpTo.newline (ending : LineEnding) {line : Line}
    (hslot : s.lines[i]? = some (some line)) (hlast : s.lastLine ≠ some i)
    (hsmall : units line < 2 ^ 63) :
    IntactUpTo i (s.step ending ⟨i, units line, .chars 0, "\n"⟩) line ending.chars := by
  let f : PlannedFix := ⟨i, units line, .chars 0, "\n"⟩
  have hinserted : f.toFix.insertedChars ending = ending.chars := by
    simp [f, PlannedFix.toFix, Fix.insertedChars]
  constructor
  · have hempty : s.lines[f.line]? = some (some (line ++ ([] ++ []))) := by simpa using hslot
    have hstep := getElem?_step_chars ending rfl hempty rfl rfl (fits_of_lastLine_ne hlast)
    rw [hinserted] at hstep
    simpa using hstep
  · intro _
    rw [(step_last ending s f).2]
    simp only [f, maxInt64]
    omega

theorem slot_step_deletion (ending : LineEnding) {line : Line}
    (hslot : s.lines[i]? = some (some line)) :
    (s.step ending ⟨i, 0, .wholeLine, ""⟩).lines[i]? = some none := by
  obtain ⟨hbound, hline⟩ := List.getElem?_eq_some_iff.mp hslot
  simp [step, fits, Removal.isWholeLine, Fix.apply, PlannedFix.toFix, Fix.insertedChars, hbound,
    hline]

/-- The fixes of a line, one after the other. -/
theorem slot_foldl_fixes (ending : LineEnding) {p : PlacedLine}
    (hslot : s.lines[i]? = some (some p.line.text)) (hlast : s.lastLine ≠ some i)
    (hsmall : units p.line.text < 2 ^ 63) :
    ((p.fixes i).foldl (step ending) s).lines[i]? = some (p.outcome ending) := by
  have hended : IntactUpTo i ((p.newlineFixes i).foldl (step ending) s) p.line.text
      (if p.unended then ending.chars else []) := by
    unfold PlacedLine.newlineFixes
    split
    · exact .newline ending hslot hlast hsmall
    · exact .start hslot hlast
  have htidied := hended.foldl_innerFixes ending hsmall
  unfold PlacedLine.fixes
  rw [List.foldl_append, List.foldl_append]
  generalize (p.innerFixes i).foldl (step ending) _ = s' at htidied
  unfold PlacedLine.deletions PlacedLine.outcome
  split
  · exact slot_step_deletion ending htidied
  · exact htidied

end BatchState

/-! ### The whole text -/

theorem lines_foldl_plannedFixes {text : List Char} {violations : List Violation}
    (h : check text .default [] = .ok violations)
    (hsmall : ∀ line ∈ splitLines text, units line < 2 ^ 63) (ending : LineEnding) :
    ((plannedFixes violations .all).foldl (BatchState.step ending)
      { lines := (splitLines text).map some }).lines =
      (placedLines false (analyze (splitLines text))).map (PlacedLine.outcome ending) := by
  have horder := plannedFixes_descend violations .all
  apply List.ext_getElem?
  intro i
  have htext : (splitLines text)[i]? =
      (placedLines false (analyze (splitLines text)))[i]?.map (·.line.text) := by
    have hlines := text_markFences none (splitLines text)
    change (analyze (splitLines text)).map (·.text) = _ at hlines
    conv_lhs => rw [← hlines, ← line_placedLines false (analyze (splitLines text)), List.map_map]
    exact List.getElem?_map
  rw [BatchState.getElem?_foldl_step ending horder (by simp), 
    filter_plannedFixes_check h hsmall, lineFixes, List.getElem?_map]
  cases hp : (placedLines false (analyze (splitLines text)))[i]? with
  | none =>
      rw [hp] at htext
      simp [htext]
  | some p =>
      rw [hp] at htext
      exact BatchState.slot_foldl_fixes ending (by simp [htext]) (by simp)
        (hsmall _ (List.mem_of_getElem? htext))

/-- Lines with their terminator at the end read like lines with an empty line after them. -/
theorem joinLines_concat (ending : LineEnding) (lines : List Line) (last : Line) :
    joinLines ending (lines ++ [last ++ ending.chars]) =
      joinLines ending (lines ++ [last, []]) := by
  induction lines with
  | nil => simp [joinLines, List.intercalate]
  | cons line lines ih =>
      cases lines with
      | nil => simp [joinLines, List.intercalate]
      | cons next lines =>
          rw [List.cons_append, List.cons_append] at ih ⊢
          rw [joinLines_cons, ih, List.cons_append, List.cons_append, joinLines_cons]

theorem joinLines_outcomes (ending : LineEnding) (before : Bool) (lines : List FencedLine)
    (lead : List Line) :
    joinLines ending (lead ++ (placedLines before lines).filterMap (PlacedLine.outcome ending)) =
      joinLines ending (lead ++ ((thin before lines).map tidyLine ++
        if lines.getLast?.any (!isBlankLine ·.text) then [[]] else [])) := by
  induction lines generalizing before lead with
  | nil => rfl
  | cons l rest ih =>
      have hloose : l.isLoose = true → isBlankLine l.text = true := by
        simp +contextual [FencedLine.isLoose]
      rw [placedLines, thin, List.filterMap_cons]
      cases hdrop : before && l.isLoose with
      | true =>
          obtain ⟨-, htrue⟩ := Bool.and_eq_true_iff.mp hdrop
          simp only [PlacedLine.outcome, if_true]
          rw [htrue]
          cases rest with
          | nil => simp [placedLines, thin, hloose htrue]
          | cons next more => exact ih true lead
      | false =>
          simp only [PlacedLine.outcome, Bool.false_eq_true, if_false, List.map_cons]
          cases rest with
          | nil =>
              cases hblank : isBlankLine l.text with
              | true => simp [placedLines, thin, hblank]
              | false => simpa [placedLines, thin, hblank] using joinLines_concat ending lead _
          | cons next more =>
              have hrest := ih l.isLoose (lead ++ [tidyLine l])
              simpa [List.append_assoc] using hrest

/-- A fix for the line of its violation is planned. -/
theorem exists_planned_of_fix {v : Violation} {i : Nat} (hline : v.line = i + 1)
    (h : ∃ f, v.fix = some f ∧ f.line = none) : ∃ f, PlannedFix.ofViolation? v = some f := by
  obtain ⟨f, hf, hown⟩ := h
  simp [PlannedFix.ofViolation?, hf, hown, hline]

theorem exists_planned_of_eachLine {lines : List FencedLine} {applies : FencedLine → Bool}
    {check : Nat → Line → List Violation}
    (hcheck : ∀ number line, ∀ v ∈ check number line,
      v.line = number ∧ ∃ f, v.fix = some f ∧ f.line = none ∧
        BlankEdit line (f.column - 1) f.removal (f.insertion.getD ""))
    {v : Violation} (hv : v ∈ eachLine lines applies check) :
    ∃ f, PlannedFix.ofViolation? v = some f := by
  obtain ⟨i, line, -, hmem⟩ := eachLine_exists hv
  obtain ⟨hline, f, hf, hown, -⟩ := hcheck (i + 1) line.text v hmem
  exact exists_planned_of_fix hline ⟨f, hf, hown⟩

theorem exists_planned_of_checkBlankRuns {maximum count number : Nat} {lines : List FencedLine}
    {v : Violation} (hv : v ∈ checkBlankRuns maximum count (number + 1) lines) :
    ∃ f, PlannedFix.ofViolation? v = some f := by
  obtain ⟨hdelete, i, line, hnumber, -⟩ := checkBlankRuns_deletes hv
  exact exists_planned_of_fix (i := number + i) (by omega) ⟨_, hdelete, rfl⟩

theorem exists_planned_of_checkFinalNewline {lines : List FencedLine} {v : Violation}
    (hv : v ∈ checkFinalNewline lines) : ∃ f, PlannedFix.ofViolation? v = some f := by
  obtain ⟨i, line, hnumber, -, f, hf, hown, -⟩ := checkFinalNewline_edit hv
  exact exists_planned_of_fix hnumber ⟨f, hf, hown⟩

/-- Every violation of the default rules has a fix. -/
theorem exists_fix_of_check {text : List Char} {violations : List Violation}
    (h : check text .default [] = .ok violations) :
    ∀ v ∈ violations, ∃ f, PlannedFix.ofViolation? v = some f := by
  obtain rfl := Except.ok.inj h
  intro v hv
  rw [sortByLine, List.mem_mergeSort, List.append_nil, builtinViolations_default] at hv
  simp only [List.mem_append] at hv
  rcases hv with (((hv | hv) | hv) | hv) | hv
  · exact exists_planned_of_eachLine (fun _ _ _ => checkTrailingSpaces_edit) hv
  · exact exists_planned_of_eachLine (fun _ _ _ => checkHardTabs_edit) hv
  · exact exists_planned_of_checkBlankRuns hv
  · exact exists_planned_of_eachLine (fun _ _ _ => checkHeadingSpace_edit) hv
  · exact exists_planned_of_checkFinalNewline hv

/-- Without planned fixes there is no violation. -/
theorem eq_nil_of_plannedFixes {text : List Char} {violations : List Violation}
    (h : check text .default [] = .ok violations)
    (hsmall : ∀ line ∈ splitLines text, units line < 2 ^ 63)
    (hnone : plannedFixes violations .all = []) : violations = [] := by
  rw [List.eq_nil_iff_forall_not_mem]
  intro v hv
  obtain ⟨f, hf⟩ := exists_fix_of_check h v hv
  have hselected : f ∈ (selectedFixes violations .all).filter (·.line = f.line) := by
    refine List.mem_filter.mpr ⟨List.mem_filterMap.mpr ⟨v, ?_, hf⟩, by simp⟩
    exact List.mem_filter.mpr ⟨hv, rfl⟩
  have hplanned := (selectedFixes_perm h f.line).subset hselected
  rw [← filter_plannedFixes_check h hsmall, hnone] at hplanned
  cases hplanned

/-- Fixing all violations of the default rules tidies a text that has any. -/
theorem content_applyFixes {text : List Char} {violations : List Violation}
    (h : check text .default [] = .ok violations)
    (hsmall : ∀ line ∈ splitLines text, units line < 2 ^ 63) :
    (applyFixes text violations .all).content =
      if violations = [] then text
      else joinLines (dominantEnding text) (tidyLines (analyze (splitLines text))) := by
  unfold applyFixes
  split
  · next hnone => rw [if_pos (eq_nil_of_plannedFixes h hsmall hnone)]
  · next hfixes =>
      have hviolations : violations ≠ [] := by
        rintro rfl
        exact hfixes (by simp [plannedFixes, dropRepeats, joinComplements])
      rw [if_neg hviolations]
      dsimp only
      rw [lines_foldl_plannedFixes h hsmall, List.filterMap_map]
      exact joinLines_outcomes (dominantEnding text) false (analyze (splitLines text)) []

end LintDesk
