import LintDesk.Proofs.Edit.FenceStability
import LintDesk.Proofs.Edit.Idle
import LintDesk.Proofs.Edit.Rewriting

/-! # Fixing one rule

A batch of the fixes of one rule considers, line by line, what the rule proposes there. No fix gets
in the way of another, so the lines become what `Rule.FixableRule.rewrite` says, and a second check
has nothing to report for the rule (`applyFixes_rule_rewrites`).
-/

namespace LintDesk

/-- A fix that only deletes takes its part out of its line. -/
theorem BatchState.slot_step_cut (ending : LineEnding) {i : Nat} {s : BatchState}
    {before removed after : List Char}
    (hslot : s.lines[i]? = some (some (before ++ (removed ++ after))))
    (hlast : s.lastLine ≠ some i) (hsmall : units (before ++ (removed ++ after)) < 2 ^ 63)
    (hremoved : removed ≠ []) :
    (s.step ending ⟨i, units before, .chars (units removed), ""⟩).lines[i]? =
      some (some (before ++ after)) := by
  rw [units_append] at hsmall
  have hstep := (IntactUpTo.start hslot hlast).step ending
    (f := ⟨i, units before, .chars (units removed), ""⟩) (by omega) hremoved rfl rfl rfl
  simpa [PlannedFix.toFix, Fix.insertedChars] using hstep.slot

namespace Rule

/-! ### The fixes of a rule, line by line -/

/-- The fix of trailing blanks is the only one of its line. -/
theorem fixesOf_trailingSpaces_eq (breaks i : Nat) (line : Line) :
    fixesOf (checkTrailingSpaces breaks) i line =
      if checkTrailingSpaces breaks (i + 1) line = [] then [] else [trailingFix i line] := by
  unfold fixesOf checkTrailingSpaces
  dsimp only
  split <;> rfl

theorem GapSplit.fixesOf_eq {line : Line} {h : Heading} {before gap after : List Char}
    (hsplit : GapSplit line h before gap after) (hwide : 2 ≤ h.gap) (i : Nat) :
    fixesOf checkHeadingSpace i line = [⟨i, units before, .chars (units gap), ""⟩] := by
  rw [hsplit.units_before, hsplit.units_gap, fixesOf, checkHeadingSpace, hsplit.heading]
  simp only [ge_iff_le, hwide, if_true]
  rfl

theorem mem_fixes_checkBlankRuns {maximum count start : Nat} {lines : List FencedLine}
    {f : PlannedFix} :
    f ∈ (checkBlankRuns maximum count (start + 1) lines).filterMap PlannedFix.ofViolation? ↔
      ∃ i, (spare maximum count lines)[i]? = some none ∧ f = deletionFix (start + i) := by
  induction lines generalizing count start with
  | nil => simp [checkBlankRuns, spare]
  | cons l rest ih =>
      -- the fixes for the rest are one line further down
      have hrest : ∀ {n : Nat}, f ∈ (checkBlankRuns maximum n (start + 1 + 1) rest).filterMap
          PlannedFix.ofViolation? ↔
            ∃ i, (spare maximum n rest)[i]? = some none ∧ f = deletionFix (start + (i + 1)) := by
        intro n
        simp only [ih, Nat.add_assoc, Nat.add_comm 1]
      have hsplit : ∀ (slot : Option FencedLine) (slots : List (Option FencedLine)),
          (∃ i, (slot :: slots)[i]? = some none ∧ f = deletionFix (start + i)) ↔
            slot = none ∧ f = deletionFix start ∨
              ∃ i, slots[i]? = some none ∧ f = deletionFix (start + (i + 1)) := by
        intro slot slots
        rw [← Nat.or_exists_add_one]
        simp
      rw [checkBlankRuns_cons, spare]
      split
      · rw [List.filterMap_append, List.mem_append, hrest, hsplit]
        refine or_congr ?_ Iff.rfl
        by_cases hcount : count < maximum
        · simp [hcount]
        · simp [hcount, PlannedFix.ofViolation?, RuleHead.violation, Fix.deleteLine, deletionFix,
            eq_comm]
      · rw [hrest, hsplit]
        simp

namespace FixableRule

/-- The fixes of the rule for line `i`, from right to left. -/
def fixesAt (r : FixableRule) (options : Dict Json) (lines : List FencedLine) (i : Nat)
    (l : FencedLine) : List PlannedFix :=
  match r with
  | trailingSpaces => fixesOf (checkTrailingSpaces (breaks options)) i l.text
  | hardTabs =>
    if boolOption options "code_blocks" true || !l.inFence then
      (fixesOf (checkHardTabs (natOption options "spaces_per_tab" 1)) i l.text).reverse
    else []
  | multipleBlanks =>
    if (spare (natOption options "maximum" 1) 0 lines)[i]? = some none then [deletionFix i] else []
  | headingSpace => if !l.inFence then fixesOf checkHeadingSpace i l.text else []
  | finalNewline =>
    if i + 1 = lines.length ∧ isBlankLine l.text = false then [newlineFix i l.text] else []

variable {r : FixableRule} {config : RuleConfig} {options : Dict Json} {lines : List FencedLine}
  {i : Nat} {l : FencedLine} {f : PlannedFix}

theorem mem_fixes_eachLine {applies : FencedLine → Bool} {check : Nat → Line → List Violation}
    (hplace : ∀ i line, ∀ f ∈ fixesOf check i line, f.line = i) (hl : lines[i]? = some l) :
    f ∈ (eachLine lines applies check).filterMap PlannedFix.ofViolation? ∧ f.line = i ↔
      applies l = true ∧ f ∈ fixesOf check i l.text := by
  constructor
  · rintro ⟨hf, rfl⟩
    obtain ⟨v, hv, hplanned⟩ := List.mem_filterMap.mp hf
    obtain ⟨j, l', hl', happlies, hv⟩ := mem_eachLine.mp hv
    have hown : f ∈ fixesOf check j l'.text := List.mem_filterMap.mpr ⟨v, hv, hplanned⟩
    obtain rfl := hplace j l'.text f hown
    obtain rfl := Option.some.inj (hl.symm.trans hl')
    exact ⟨happlies, hown⟩
  · rintro ⟨happlies, hf⟩
    obtain ⟨v, hv, hplanned⟩ := List.mem_filterMap.mp hf
    refine ⟨List.mem_filterMap.mpr ⟨v, ?_, hplanned⟩, hplace i l.text f hf⟩
    exact mem_eachLine.mpr ⟨i, l, hl, happlies, hv⟩

theorem mem_fixes_checkFinalNewline (hl : lines[i]? = some l) :
    f ∈ (checkFinalNewline lines).filterMap PlannedFix.ofViolation? ∧ f.line = i ↔
      (i + 1 = lines.length ∧ isBlankLine l.text = false) ∧ f = newlineFix i l.text := by
  constructor
  · rintro ⟨hf, rfl⟩
    obtain ⟨v, hv, hplanned⟩ := List.mem_filterMap.mp hf
    obtain ⟨l', hl', hlast, htext, hform⟩ := newline_of_mem hv hplanned
    obtain rfl := Option.some.inj (hl.symm.trans hl')
    exact ⟨⟨hlast, htext⟩, hform⟩
  · rintro ⟨⟨hlast, htext⟩, rfl⟩
    have hgetLast : lines.getLast? = some l := by
      rw [List.getLast?_eq_getElem?, ← hlast, Nat.add_sub_cancel, hl]
    refine ⟨?_, rfl⟩
    rw [checkFinalNewline, hgetLast]
    simp only [htext]
    rw [← hlast]
    exact List.mem_singleton_self _

theorem mem_fixesAt (hl : lines[i]? = some l) : f ∈ r.fixesAt options lines i l ↔
    f ∈ (r.finds options lines).filterMap PlannedFix.ofViolation? ∧ f.line = i := by
  cases r with
  | trailingSpaces =>
      have hplace : ∀ i line, ∀ f ∈ fixesOf (checkTrailingSpaces (breaks options)) i line,
          f.line = i := fun _ _ _ hf => (trailing_of_mem hf).1 ▸ rfl
      rw [finds, fixesAt, mem_fixes_eachLine hplace hl]
      simp
  | hardTabs =>
      have hplace : ∀ i line, ∀ f ∈ fixesOf
          (checkHardTabs (natOption options "spaces_per_tab" 1)) i line, f.line = i :=
        fun _ _ _ hf => (PlacedLine.mem_tabFixes hf).1
      rw [finds, fixesAt, mem_fixes_eachLine hplace hl]
      split <;> simp [*]
  | multipleBlanks =>
      rw [finds, fixesAt, mem_fixes_checkBlankRuns]
      simp only [Nat.zero_add]
      constructor
      · intro hf
        split at hf
        · next hgone =>
            obtain rfl := List.mem_singleton.mp hf
            exact ⟨⟨i, hgone, rfl⟩, rfl⟩
        · cases hf
      · rintro ⟨⟨j, hgone, rfl⟩, hline⟩
        obtain rfl : j = i := hline
        rw [if_pos hgone]
        exact List.mem_singleton_self _
  | headingSpace =>
      have hplace : ∀ i line, ∀ f ∈ fixesOf checkHeadingSpace i line, f.line = i := by
        intro i line f hf
        obtain ⟨h, -, -, rfl⟩ := heading_of_mem hf
        rfl
      rw [finds, fixesAt, mem_fixes_eachLine hplace hl]
      split <;> simp [*]
  | finalNewline =>
      rw [finds, fixesAt, mem_fixes_checkFinalNewline hl]
      split <;> simp [*]

theorem fixesAt_strict (r : FixableRule) (options : Dict Json) (lines : List FencedLine) (i : Nat)
    (l : FencedLine) : (r.fixesAt options lines i l).Pairwise PlannedFix.StrictlyBefore := by
  cases r with
  | trailingSpaces =>
      rw [fixesAt, fixesOf_trailingSpaces_eq]
      split <;> simp
  | hardTabs =>
      rw [fixesAt]
      split
      · exact PlacedLine.tabFixes_strict _ i l.text
      · exact List.Pairwise.nil
  | multipleBlanks =>
      rw [fixesAt]
      split <;> simp
  | headingSpace =>
      rw [fixesAt]
      split
      · rcases fixesOf_headingSpace i l.text with ⟨hnone, -⟩ | ⟨_, _, _, _, -, -, hone, -⟩
        · simp [hnone]
        · simp [hone]
      · exact List.Pairwise.nil
  | finalNewline =>
      rw [fixesAt]
      split <;> simp

/-! ### What the batch selects -/

/-- Every violation of the rule comes with a fix. -/
theorem exists_fix_of_mem_reports {v : Violation} (hv : v ∈ r.reports config lines) :
    ∃ f, PlannedFix.ofViolation? v = some f := by
  obtain ⟨options, -, hv⟩ := mem_ifOn.mp hv
  cases r with
  | trailingSpaces =>
      rw [finds] at hv
      exact exists_planned_of_eachLine (fun _ _ _ => checkTrailingSpaces_edit) hv
  | hardTabs =>
      rw [finds] at hv
      exact exists_planned_of_eachLine (fun _ _ _ => checkHardTabs_edit) hv
  | multipleBlanks => exact exists_planned_of_checkBlankRuns hv
  | headingSpace =>
      rw [finds] at hv
      exact exists_planned_of_eachLine (fun _ _ _ => checkHeadingSpace_edit) hv
  | finalNewline => exact exists_planned_of_checkFinalNewline hv

section Batch

variable {text : List Char} {violations : List Violation}

theorem mem_selectedFixes_rule (h : check text config [] = .ok violations) :
    f ∈ selectedFixes violations (.rule r.head.name) ↔
      f ∈ (r.reports config (analyze (splitLines text))).filterMap PlannedFix.ofViolation? := by
  rw [mem_selectedFixes, List.mem_filterMap]
  simp only [← mem_check_iff h, FixChoice.accepts, and_assoc]

theorem selectedFixes_rule_eq_nil_iff (h : check text config [] = .ok violations) :
    selectedFixes violations (.rule r.head.name) = [] ↔
      ∀ v ∈ violations, v.hasRule r.head.name = false := by
  constructor
  · intro hnone v hv
    rw [← Bool.not_eq_true]
    intro hrule
    obtain ⟨f, hf⟩ := exists_fix_of_mem_reports ((mem_check_iff h).mp ⟨hv, hrule⟩)
    have hselected : f ∈ selectedFixes violations (.rule r.head.name) :=
      mem_selectedFixes.mpr ⟨v, hv, hrule, hf⟩
    rw [hnone] at hselected
    cases hselected
  · intro hnone
    have hrejected : violations.filter (FixChoice.rule r.head.name).accepts = [] :=
      List.filter_eq_nil_iff.mpr fun v hv => by simp [FixChoice.accepts, hnone v hv]
    rw [selectedFixes, hrejected, List.filterMap_nil]

theorem filter_plannedFixes_rule (h : check text config [] = .ok violations)
    (hon : r.head.options? config = some options)
    (hl : (analyze (splitLines text))[i]? = some l) :
    (plannedFixes violations (.rule r.head.name)).filter (·.line = i) =
      r.fixesAt options (analyze (splitLines text)) i l := by
  refine filter_plannedFixes (fun _ hf _ hg => complements_eq_false h hf hg) (fun f => ?_)
    (r.fixesAt_strict options _ i l)
  rw [mem_fixesAt hl, mem_selectedFixes_rule h, reports_of_on hon]

/-! ### What becomes of a line -/

/-- What becomes of line `i` by the fixes of the rule. -/
def outcomeAt (r : FixableRule) (options : Dict Json) (violations : List Violation)
    (ending : LineEnding) (lines : List FencedLine) (i : Nat) (l : FencedLine) : Option Line :=
  match r with
  | trailingSpaces =>
    some (if r.reported violations i then trimEndWhere (· == ' ') l.text else l.text)
  | hardTabs => some (expandTabs (natOption options "spaces_per_tab" 1) l.text)
  | multipleBlanks =>
    if (spare (natOption options "maximum" 1) 0 lines)[i]? = some none then none else some l.text
  | headingSpace => some (if r.reported violations i then closeGap l.text else l.text)
  | finalNewline =>
    some (if i + 1 = lines.length ∧ isBlankLine l.text = false then l.text ++ ending.chars
      else l.text)

theorem slot_foldl_trailingSpaces (h : check text config [] = .ok violations)
    (hon : trailingSpaces.head.options? config = some options)
    (hl : (analyze (splitLines text))[i]? = some l) (hsmall : units l.text < 2 ^ 63)
    (ending : LineEnding) {s : BatchState} (hslot : s.lines[i]? = some (some l.text))
    (hlast : s.lastLine ≠ some i) :
    ((trailingSpaces.fixesAt options (analyze (splitLines text)) i l).foldl
      (BatchState.step ending) s).lines[i]? = some
        (trailingSpaces.outcomeAt options violations ending (analyze (splitLines text)) i l) := by
  rw [fixesAt, outcomeAt, fixesOf_trailingSpaces_eq]
  have hreported := reported_trailingSpaces h hon hl
  split
  · next hnone => simpa [hreported, hnone] using hslot
  · next hsome =>
      obtain ⟨blanks, hline, -, hunits⟩ := trimEndWhere_split l.text
      have hblanks : blanks ≠ [] := by
        rintro rfl
        rw [List.append_nil] at hline
        exact hsome (checkTrailingSpaces_eq_nil_iff.mpr (.inl (by rw [← hunits]; rfl)))
      rw [hline, ← List.append_nil blanks] at hslot hsmall
      rw [if_pos (hreported.mpr hsome), List.foldl_cons, List.foldl_nil, trailingFix, ← hunits,
        BatchState.slot_step_cut ending hslot hlast hsmall hblanks, List.append_nil]

theorem slot_foldl_headingSpace (h : check text config [] = .ok violations)
    (hon : headingSpace.head.options? config = some options)
    (hl : (analyze (splitLines text))[i]? = some l) (hsmall : units l.text < 2 ^ 63)
    (ending : LineEnding) {s : BatchState} (hslot : s.lines[i]? = some (some l.text))
    (hlast : s.lastLine ≠ some i) :
    ((headingSpace.fixesAt options (analyze (splitLines text)) i l).foldl
      (BatchState.step ending) s).lines[i]? = some
        (headingSpace.outcomeAt options violations ending (analyze (splitLines text)) i l) := by
  rw [fixesAt, outcomeAt]
  have hreported := reported_headingSpace h hon hl
  cases hfence : l.inFence with
  | true => simpa [hreported, hfence] using hslot
  | false =>
      rcases closeGap_cases l.text with ⟨hnone, hsame⟩ |
        ⟨h', before, gap, after, hsplit, hwide, hclose⟩
      · simpa [fixesOf, hnone, hsame] using hslot
      · have hgap : gap ≠ [] := by
          rintro rfl
          have hunits := hsplit.units_gap
          rw [units_nil] at hunits
          omega
        have hyes : headingSpace.reported violations i = true :=
          hreported.mpr ⟨hfence, by simp [checkHeadingSpace, hsplit.heading, hwide]⟩
        rw [hsplit.line_eq] at hslot hsmall
        rw [hyes, hclose, hsplit.fixesOf_eq hwide]
        exact BatchState.slot_step_cut ending hslot hlast hsmall hgap

theorem slot_foldl_fixesAt (h : check text config [] = .ok violations)
    (hon : r.head.options? config = some options)
    (hcode : r = hardTabs → boolOption options "code_blocks" true = true)
    (hl : (analyze (splitLines text))[i]? = some l) (hsmall : units l.text < 2 ^ 63)
    (hfit : r = hardTabs → TabsFit (natOption options "spaces_per_tab" 1) l.text)
    (ending : LineEnding) {s : BatchState} (hslot : s.lines[i]? = some (some l.text))
    (hlast : s.lastLine ≠ some i) :
    ((r.fixesAt options (analyze (splitLines text)) i l).foldl (BatchState.step ending)
      s).lines[i]? =
        some (r.outcomeAt options violations ending (analyze (splitLines text)) i l) := by
  cases r with
  | trailingSpaces => exact slot_foldl_trailingSpaces h hon hl hsmall ending hslot hlast
  | hardTabs =>
      rw [fixesAt, outcomeAt, hcode rfl]
      simp only [Bool.true_or, if_true]
      rw [fixesOf_hardTabs]
      have htabs := (BatchState.IntactUpTo.start hslot hlast).foldl_tabs ending
        (natOption options "spaces_per_tab" 1) [] l.text (by simpa using hsmall)
      rw [units_nil, Nat.zero_add, List.nil_append] at htabs
      rw [htabs.slot, List.append_nil, ← fillTabs_eq_append, fillTabs_eq_expandTabs _ (hfit rfl)]
  | multipleBlanks =>
      rw [fixesAt, outcomeAt]
      split
      · exact BatchState.slot_step_deletion ending hslot
      · exact hslot
  | headingSpace => exact slot_foldl_headingSpace h hon hl hsmall ending hslot hlast
  | finalNewline =>
      rw [fixesAt, outcomeAt]
      split
      · exact (BatchState.IntactUpTo.newline ending hslot hlast hsmall).slot
      · exact hslot

/-! ### The whole text -/

theorem slotsAfter_rule (hsize : FitsMemory text) (h : check text config [] = .ok violations)
    (hon : r.head.options? config = some options)
    (hcode : r = hardTabs → boolOption options "code_blocks" true = true)
    (hfit : r = hardTabs → ∀ line ∈ splitLines text,
      TabsFit (natOption options "spaces_per_tab" 1) line) :
    slotsAfter text violations (.rule r.head.name) =
      (analyze (splitLines text)).zipIdx.map fun (l, i) =>
        r.outcomeAt options violations (dominantEnding text) (analyze (splitLines text)) i l := by
  apply List.ext_getElem?
  intro i
  unfold slotsAfter
  rw [BatchState.getElem?_foldl_step _ (plannedFixes_descend violations _) (by simp),
    List.getElem?_map, List.getElem?_zipIdx]
  have htext := getElem?_analyze (splitLines text) i
  cases hl : (analyze (splitLines text))[i]? with
  | none =>
      have hlength : ((splitLines text).map some).length ≤ i := by
        simpa [hl] using htext
      rw [List.getElem?_eq_none (by rw [BatchState.length_foldl_step]; exact hlength)]
      rfl
  | some l =>
      rw [hl, Option.map_some] at htext
      have hmem := List.mem_of_getElem? htext
      rw [filter_plannedFixes_rule h hon hl, slot_foldl_fixesAt h hon hcode hl
        (hsize.linesFit l.text hmem) (fun hr => hfit hr l.text hmem) _ (by simp [htext]) (by simp)]
      simp

theorem filterMap_zipIdx_some (g : Line → Nat → Line) (lines : List Line) :
    ((analyze lines).zipIdx.map fun (l, i) => some (g l.text i)).filterMap id =
      lines.zipIdx.map fun (line, i) => g line i := by
  conv_rhs => rw [← text_markFences none lines, List.zipIdx_map, List.map_map]
  rw [List.filterMap_map, ← List.filterMap_eq_map]
  rfl

/-- The lines that stay are the spared ones. -/
theorem filterMap_zipIdx_spare (maximum : Nat) (lines : List FencedLine) :
    (lines.zipIdx.map fun (l, i) =>
      if (spare maximum 0 lines)[i]? = some none then none else some l.text).filterMap id =
        (cutRuns maximum lines).map (·.text) := by
  have hslots : (lines.zipIdx.map fun (l, i) =>
      if (spare maximum 0 lines)[i]? = some none then none else some l.text) =
        (spare maximum 0 lines).map (Option.map (·.text)) := by
    apply List.ext_getElem?
    intro i
    rw [List.getElem?_map, List.getElem?_zipIdx, List.getElem?_map]
    cases hl : lines[i]? with
    | none =>
        have hlength : (spare maximum 0 lines).length ≤ i := by
          rw [length_spare]
          exact List.getElem?_eq_none_iff.mp hl
        rw [List.getElem?_eq_none hlength]
        rfl
    | some l =>
        have hi : i < (spare maximum 0 lines).length := by
          rw [length_spare]
          exact (List.getElem?_eq_some_iff.mp hl).1
        cases hslot : (spare maximum 0 lines)[i] with
        | none => simp [List.getElem?_eq_getElem hi, hslot]
        | some l' =>
            have hspared : (spare maximum 0 lines)[i]? = some (some l') := by
              rw [List.getElem?_eq_getElem hi, hslot]
            simp [hspared, getElem?_spare hl hspared]
  rw [hslots, ← filterMap_spare, List.filterMap_map, List.map_filterMap]
  rfl

/-- A terminator after the last line reads like an empty line after it. -/
theorem joinLines_zipIdx_ended (ending : LineEnding) {lines : List FencedLine} {last : FencedLine}
    (hlast : lines.getLast? = some last) (htext : isBlankLine last.text = false) :
    joinLines ending ((lines.zipIdx.map fun (l, i) =>
      some (if i + 1 = lines.length ∧ isBlankLine l.text = false then l.text ++ ending.chars
        else l.text)).filterMap id) = joinLines ending (lines.map (·.text) ++ [[]]) := by
  obtain ⟨init, rfl⟩ := List.getLast?_eq_some_iff.mp hlast
  have hinit : (init.zipIdx.map fun (l, i) => (some (
      if i + 1 = (init ++ [last]).length ∧ isBlankLine l.text = false then l.text ++ ending.chars
        else l.text) : Option Line)) = (init.map (·.text)).map some := by
    rw [List.map_map]
    conv_rhs => rw [← List.zipIdx_map_fst 0 init, List.map_map]
    refine List.map_congr_left fun ⟨l, i⟩ hmem => ?_
    have hlt := List.snd_lt_of_mem_zipIdx hmem
    have hnot : i + 1 ≠ (init ++ [last]).length := by
      rw [List.length_append, List.length_singleton]
      omega
    exact congrArg some (if_neg fun hend => hnot hend.1)
  rw [List.zipIdx_append, List.map_append, hinit, List.filterMap_append]
  simpa [htext] using joinLines_concat ending (init.map (·.text)) last.text

/-- The lines that are left are the rewritten ones. -/
theorem joinLines_outcomeAt (hon : r.head.options? config = some options)
    (hreports : r.reports config (analyze (splitLines text)) ≠ []) (ending : LineEnding) :
    joinLines ending (((analyze (splitLines text)).zipIdx.map fun (l, i) =>
        r.outcomeAt options violations ending (analyze (splitLines text)) i l).filterMap id) =
      joinLines ending (r.rewrite config violations (splitLines text)) := by
  have hoptions : (r.head.options? config).getD [] = options := by rw [hon, Option.getD_some]
  cases r with
  | trailingSpaces =>
      simp only [outcomeAt, rewrite]
      rw [filterMap_zipIdx_some fun line i =>
        if trailingSpaces.reported violations i then trimEndWhere (· == ' ') line else line]
  | hardTabs =>
      simp only [outcomeAt, rewrite, hoptions]
      rw [filterMap_zipIdx_some fun line _ => expandTabs _ line]
      conv_rhs => rw [← List.zipIdx_map_fst 0 (splitLines text), List.map_map]
      rfl
  | multipleBlanks =>
      simp only [outcomeAt, rewrite, hoptions]
      rw [filterMap_zipIdx_spare]
  | headingSpace =>
      simp only [outcomeAt, rewrite]
      rw [filterMap_zipIdx_some fun line i =>
        if headingSpace.reported violations i then closeGap line else line]
  | finalNewline =>
      rw [reports_of_on hon, finds, checkFinalNewline] at hreports
      split at hreports
      · next last hlast =>
          split at hreports
          · exact absurd rfl hreports
          · next htext =>
              simp only [outcomeAt, rewrite]
              rw [joinLines_zipIdx_ended ending hlast (by simpa using htext), analyze,
                text_markFences]
      · exact absurd rfl hreports

/-- A batch of the fixes of a rule that has reported something rewrites the lines. -/
theorem content_rule (hsize : FitsMemory text) (h : check text config [] = .ok violations)
    (hcode : ∀ options, hardTabs.head.options? config = some options →
      boolOption options "code_blocks" true = true)
    (hfit : r = hardTabs → ∀ options, hardTabs.head.options? config = some options →
      ∀ line ∈ splitLines text, TabsFit (natOption options "spaces_per_tab" 1) line)
    {v : Violation} (hv : v ∈ violations) (hrule : v.hasRule r.head.name = true) :
    (applyFixes text violations (.rule r.head.name)).content =
      joinLines (dominantEnding text) (r.rewrite config violations (splitLines text)) := by
  have hreport := (mem_check_iff h).mp ⟨hv, hrule⟩
  cases hon : r.head.options? config with
  | none =>
      rw [reports_of_off hon] at hreport
      cases hreport
  | some options =>
      have hselected : selectedFixes violations (.rule r.head.name) ≠ [] := by
        rw [ne_eq, selectedFixes_rule_eq_nil_iff h]
        intro hnone
        rw [hnone v hv] at hrule
        cases hrule
      have hslots := slotsAfter_rule hsize h hon (by rintro rfl; exact hcode options hon)
        (by rintro rfl; exact hfit rfl options hon)
      unfold slotsAfter at hslots
      rw [content_of_selected hselected, hslots,
        joinLines_outcomeAt hon (List.ne_nil_of_mem hreport)]

end Batch

end FixableRule

end Rule

open Rule

/-- Fixing one rule does what the rule asks for and no more: without a violation of the rule the
text stays as it was, else its lines are rewritten; then a check finds no violation of the rule. -/
theorem applyFixes_rule_rewrites {text : List Char} (hsize : FitsMemory text) {config : RuleConfig}
    (hcode : ∀ options, Rule.hardTabs.options? config = some options →
      boolOption options "code_blocks" true = true)
    (hmaximum : ∀ options, Rule.multipleBlanks.options? config = some options →
      1 ≤ natOption options "maximum" 1) (r : FixableRule)
    (hfit : r = .hardTabs → ∀ options, Rule.hardTabs.options? config = some options →
      ∀ line ∈ splitLines text, TabsFit (natOption options "spaces_per_tab" 1) line) :
    ∃ violations, check text config [] = .ok violations ∧
      (applyFixes text violations (.rule r.head.name)).content =
        (if violations.any (·.hasRule r.head.name) then
          joinLines (dominantEnding text) (r.rewrite config violations (splitLines text))
        else text) ∧
      ∃ again, check (applyFixes text violations (.rule r.head.name)).content config [] =
          .ok again ∧
        ∀ v ∈ again, v.hasRule r.head.name = false := by
  have hcheck := check_builtin text config
  generalize sortByLine (builtinViolations config (analyze (splitLines text))) = violations
    at hcheck
  refine ⟨violations, hcheck, ?_⟩
  cases hany : violations.any (·.hasRule r.head.name) with
  | false =>
      have hnone : ∀ v ∈ violations, v.hasRule r.head.name = false := by simpa using hany
      have hcontent : (applyFixes text violations (.rule r.head.name)).content = text :=
        content_of_none_selected ((FixableRule.selectedFixes_rule_eq_nil_iff hcheck).mpr hnone)
      exact ⟨hcontent, violations, by rw [hcontent, hcheck], hnone⟩
  | true =>
      obtain ⟨v, hv, hrule⟩ := List.any_eq_true.mp hany
      have hcontent := FixableRule.content_rule hsize hcheck hcode hfit hv hrule
      have hblanks : 1 ≤ natOption ((FixableRule.multipleBlanks.head.options? config).getD [])
          "maximum" 1 := by
        cases hon : FixableRule.multipleBlanks.head.options? config with
        | none => decide
        | some options => exact hmaximum options hon
      have hlines : splitLines (joinLines (dominantEnding text)
          (r.rewrite config violations (splitLines text))) =
            r.rewrite config violations (splitLines text) :=
        splitLines_joinLines _ (FixableRule.rewrite_ne_nil (splitLines_ne_nil text) hblanks)
          (FixableRule.unbroken_rewrite fun _ => unbroken_of_mem_splitLines)
      refine ⟨hcontent, _, check_builtin _ config, fun v hv => ?_⟩
      rw [← Bool.not_eq_true]
      intro hagain
      have hreport := (FixableRule.mem_check_iff (check_builtin _ config)).mp ⟨hv, hagain⟩
      rw [hcontent, hlines, FixableRule.reports_rewrite hcheck] at hreport
      cases hreport

/-- Two headings with wide gaps, the first with a tab in it. -/
theorem applyFixes_rule_rewrites_of_headings :
    ∃ violations, check "#\t  a\r\n\r\n#  b".toList .default [] = .ok violations ∧
      (applyFixes "#\t  a\r\n\r\n#  b".toList violations (.rule "MD019")).content =
        "# a\r\n\r\n# b".toList ∧
      (applyFixes "#\t  a\r\n\r\n#  b".toList violations (.rule "MD010")).content =
        "#   a\r\n\r\n#  b".toList := by
  have htabs : Rule.hardTabs.options? .default = some [] := rfl
  have hcode : ∀ options, Rule.hardTabs.options? .default = some options →
      boolOption options "code_blocks" true = true := by
    intro options hon
    obtain rfl := Option.some.inj (htabs.symm.trans hon)
    rfl
  have hmaximum : ∀ options, Rule.multipleBlanks.options? .default = some options →
      1 ≤ natOption options "maximum" 1 := by
    intro options hon
    have hdefault : Rule.multipleBlanks.options? .default = some [] := rfl
    obtain rfl := Option.some.inj (hdefault.symm.trans hon)
    decide
  have hfit : ∀ options, Rule.hardTabs.options? .default = some options →
      ∀ line ∈ splitLines "#\t  a\r\n\r\n#  b".toList,
        TabsFit (natOption options "spaces_per_tab" 1) line := by
    intro options hon line hline
    obtain rfl := Option.some.inj (htabs.symm.trans hon)
    have hshort : ∀ line ∈ splitLines "#\t  a\r\n\r\n#  b".toList, line.length < UInt64.size := by
      decide
    exact tabsFit_one (hshort line hline)
  obtain ⟨violations, hcheck, hany, hfirst, hblank, hlast, hhard⟩ : ∃ violations,
      check "#\t  a\r\n\r\n#  b".toList .default [] = .ok violations ∧
      violations.any (·.hasRule "MD019") = true ∧
      FixableRule.headingSpace.reported violations 0 = true ∧
      FixableRule.headingSpace.reported violations 1 = false ∧
      FixableRule.headingSpace.reported violations 2 = true ∧
      violations.any (·.hasRule "MD010") = true :=
    ⟨_, by rw [check_builtin, sortByLine_eq_insertionSort], by decide +kernel, by decide +kernel,
      by decide +kernel, by decide +kernel, by decide +kernel⟩
  have hsize : FitsMemory "#\t  a\r\n\r\n#  b".toList := by
    unfold FitsMemory
    decide
  have hlines : splitLines "#\t  a\r\n\r\n#  b".toList =
      ["#\t  a".toList, [], "#  b".toList] := rfl
  refine ⟨violations, hcheck, ?_, ?_⟩
  · obtain ⟨violations', hcheck', hcontent, -⟩ :=
      applyFixes_rule_rewrites hsize hcode hmaximum .headingSpace nofun
    obtain rfl := Except.ok.inj (hcheck.symm.trans hcheck')
    rw [FixableRule.head, headingSpace, hany, if_pos rfl] at hcontent
    simp only [FixableRule.rewrite, hlines, List.zipIdx_cons, List.zipIdx_nil, Nat.zero_add,
      List.map_cons, List.map_nil, hfirst, hblank, hlast, if_true, Bool.false_eq_true,
      if_false] at hcontent
    rw [hcontent]
    rfl
  · obtain ⟨violations', hcheck', hcontent, -⟩ :=
      applyFixes_rule_rewrites hsize hcode hmaximum .hardTabs fun _ => hfit
    obtain rfl := Except.ok.inj (hcheck.symm.trans hcheck')
    have hoptions : FixableRule.hardTabs.head.options? .default = some [] := htabs
    rw [FixableRule.head, hardTabs, hhard, if_pos rfl] at hcontent
    simp only [FixableRule.rewrite, hoptions, hlines] at hcontent
    rw [hcontent]
    rfl

end LintDesk
