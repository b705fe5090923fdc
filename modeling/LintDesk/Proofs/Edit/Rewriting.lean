import LintDesk.Proofs.Edit.Proposals
import LintDesk.Proofs.Rule.BlankRuns
import LintDesk.Proofs.Text.Splitting

/-! # What fixing one rule makes of the lines

For each of the rules that propose fixes, `FixableRule.rewrite` says in one piece what becomes of
the lines of a text when just the fixes of that rule are made. Where the rule reported something, it
has nothing to report on the lines as rewritten (`FixableRule.reports_rewrite`).
-/

namespace LintDesk.Rule

/-- The rules that propose fixes. -/
inductive FixableRule where
  | trailingSpaces
  | hardTabs
  | multipleBlanks
  | headingSpace
  | finalNewline
  deriving DecidableEq, Repr

/-- A heading with the last character of its gap only. -/
def closeGap (line : Line) : Line :=
  match Heading.ofLine? line with
  | none => line
  | some h =>
    let start := h.indent + h.hashes
    line.take start ++ line.drop (start + (h.gap - 1))

namespace FixableRule

/-- What is fixed about the rule. -/
def head : FixableRule → RuleHead
  | trailingSpaces => Rule.trailingSpaces
  | hardTabs => Rule.hardTabs
  | multipleBlanks => Rule.multipleBlanks
  | headingSpace => Rule.headingSpace
  | finalNewline => Rule.finalNewline

/-- The number of blanks that make a line break, 0 if none do. -/
def breaks (options : Dict Json) : Nat :=
  let breaks := natOption options "br_spaces" 2
  if breaks < 2 then 0 else breaks

/-- What the rule finds, given its options. -/
def finds (r : FixableRule) (options : Dict Json) (lines : List FencedLine) : List Violation :=
  match r with
  | trailingSpaces => eachLine lines (fun _ => true) (checkTrailingSpaces (breaks options))
  | hardTabs =>
    eachLine lines (fun l => boolOption options "code_blocks" true || !l.inFence)
      (checkHardTabs (natOption options "spaces_per_tab" 1))
  | multipleBlanks => checkBlankRuns (natOption options "maximum" 1) 0 1 lines
  | headingSpace => eachLine lines (!·.inFence) checkHeadingSpace
  | finalNewline => checkFinalNewline lines

/-- What the rule alone reports, nothing if it is off. -/
def reports (r : FixableRule) (config : RuleConfig) (lines : List FencedLine) : List Violation :=
  ifOn r.head config fun options => r.finds options lines

/-- Whether a violation of the rule is reported for line `i`. -/
def reported (r : FixableRule) (violations : List Violation) (i : Nat) : Bool :=
  violations.any fun v => v.hasRule r.head.name && v.line == i + 1

/-- The lines of a text once the fixes of the rule are made: reported lines lose their trailing
blanks, tabs become blanks, runs of blank lines outside of code are cut, reported headings keep the
last character of their gap, or a terminator is added at the end. -/
def rewrite (r : FixableRule) (config : RuleConfig) (violations : List Violation)
    (lines : List Line) : List Line :=
  let options := (r.head.options? config).getD []
  match r with
  | trailingSpaces => lines.zipIdx.map fun (line, i) =>
    if r.reported violations i then trimEndWhere (· == ' ') line else line
  | hardTabs => lines.map (expandTabs (natOption options "spaces_per_tab" 1))
  | multipleBlanks =>
    (cutRuns (natOption options "maximum" 1) (analyze lines)).map (·.text)
  | headingSpace => lines.zipIdx.map fun (line, i) =>
    if r.reported violations i then closeGap line else line
  | finalNewline => lines ++ [[]]

variable {r : FixableRule} {config : RuleConfig} {v : Violation}

/-! ### The reports of one rule -/

theorem mem_builtinViolations {lines : List FencedLine} : v ∈ builtinViolations config lines ↔
    (∃ r : FixableRule, v ∈ r.reports config lines) ∨
      v ∈ ifOn lineLength config fun options =>
        eachLine lines (fun l => boolOption options "code_blocks" true || !l.inFence)
          (checkLineLength (natOption options "line_length" 80)) := by
  unfold builtinViolations
  simp only [List.mem_append]
  constructor
  · rintro (((((h | h) | h) | h) | h) | h)
    · exact .inl ⟨trailingSpaces, h⟩
    · exact .inl ⟨hardTabs, h⟩
    · exact .inl ⟨multipleBlanks, h⟩
    · exact .inr h
    · exact .inl ⟨headingSpace, h⟩
    · exact .inl ⟨finalNewline, h⟩
  · rintro (⟨r, h⟩ | h)
    · cases r with
      | trailingSpaces => exact .inl (.inl (.inl (.inl (.inl h))))
      | hardTabs => exact .inl (.inl (.inl (.inl (.inr h))))
      | multipleBlanks => exact .inl (.inl (.inl (.inr h)))
      | headingSpace => exact .inl (.inr h)
      | finalNewline => exact .inr h
    · exact .inl (.inl (.inr h))

theorem names_of_mem_checkBlankRuns {maximum count number : Nat} {lines : List FencedLine}
    (hv : v ∈ checkBlankRuns maximum count number lines) : v.names = multipleBlanks.head.names := by
  induction lines generalizing count number with
  | nil => cases hv
  | cons l rest ih =>
      rw [checkBlankRuns_cons] at hv
      split at hv
      · rcases List.mem_append.mp hv with hv | hv
        · split at hv
          · cases hv
          · rw [List.mem_singleton.mp hv]
            rfl
        · exact ih hv
      · exact ih hv

/-- Every violation goes by the names of its rule. -/
theorem names_of_mem_reports {lines : List FencedLine} (hv : v ∈ r.reports config lines) :
    v.names = r.head.names := by
  obtain ⟨options, -, hv⟩ := mem_ifOn.mp hv
  cases r with
  | trailingSpaces =>
      simp only [finds, mem_eachLine] at hv
      obtain ⟨i, l, -, -, hv⟩ := hv
      unfold checkTrailingSpaces at hv
      dsimp only at hv
      split at hv
      · cases hv
      · rw [List.mem_singleton.mp hv]
        rfl
  | hardTabs =>
      simp only [finds, mem_eachLine] at hv
      obtain ⟨i, l, -, -, hv⟩ := hv
      obtain ⟨run, -, rfl⟩ := List.mem_map.mp hv
      rfl
  | multipleBlanks => exact names_of_mem_checkBlankRuns hv
  | headingSpace =>
      simp only [finds, mem_eachLine] at hv
      obtain ⟨i, l, -, -, hv⟩ := hv
      unfold checkHeadingSpace at hv
      split at hv
      · split at hv
        · rw [List.mem_singleton.mp hv]
          rfl
        · cases hv
      · cases hv
  | finalNewline =>
      simp only [finds] at hv
      unfold checkFinalNewline at hv
      split at hv
      · split at hv
        · cases hv
        · rw [List.mem_singleton.mp hv]
          rfl
      · cases hv

theorem names_of_mem_lineLength {limit : Dict Json → Nat} {applies : Dict Json → FencedLine → Bool}
    {lines : List FencedLine} (hv : v ∈ ifOn lineLength config fun options =>
      eachLine lines (applies options) (checkLineLength (limit options))) :
    v.names = lineLength.names := by
  obtain ⟨options, -, hv⟩ := mem_ifOn.mp hv
  obtain ⟨i, l, -, -, hv⟩ := mem_eachLine.mp hv
  unfold checkLineLength at hv
  dsimp only at hv
  split at hv
  · rw [List.mem_singleton.mp hv]
    rfl
  · cases hv

theorem hasRule_of_names {h : RuleHead} (hv : v.names = h.names) (name : String) :
    v.hasRule name = h.names.any (sameIgnoringCase · name) := by
  rw [Violation.hasRule, hv]

/-- No two rules share a name. -/
theorem any_names_head (q r : FixableRule) :
    q.head.names.any (sameIgnoringCase · r.head.name) = decide (q = r) := by
  cases q <;> cases r <;> decide

theorem any_names_lineLength (r : FixableRule) :
    lineLength.names.any (sameIgnoringCase · r.head.name) = false := by
  cases r <;> decide

/-- The violations of a rule are what the rule alone reports. -/
theorem mem_reports_iff {lines : List FencedLine} : v ∈ r.reports config lines ↔
    v ∈ builtinViolations config lines ∧ v.hasRule r.head.name = true := by
  rw [mem_builtinViolations]
  constructor
  · intro hv
    refine ⟨.inl ⟨r, hv⟩, ?_⟩
    rw [hasRule_of_names (names_of_mem_reports hv), any_names_head, decide_eq_true rfl]
  · rintro ⟨⟨q, hv⟩ | hv, hrule⟩
    · rw [hasRule_of_names (names_of_mem_reports hv), any_names_head, decide_eq_true_eq] at hrule
      exact hrule ▸ hv
    · rw [hasRule_of_names (names_of_mem_lineLength hv), any_names_lineLength] at hrule
      cases hrule

end FixableRule

/-! ### Lines by themselves -/

theorem checkTrailingSpaces_eq_nil_iff {breaks number : Nat} {line : Line} :
    checkTrailingSpaces breaks number line = [] ↔
      line.length - (trimEndWhere (· == ' ') line).length = 0 ∨
        line.length - (trimEndWhere (· == ' ') line).length = breaks ∧
          isBlankLine (trimEndWhere (· == ' ') line) = false := by
  unfold checkTrailingSpaces
  dsimp only
  split <;> simp_all

/-- A trimmed line has no blanks at its end. -/
theorem checkTrailingSpaces_trimmed (breaks number : Nat) (line : Line) :
    checkTrailingSpaces breaks number (trimEndWhere (· == ' ') line) = [] := by
  have hagain : trimEndWhere (· == ' ') (trimEndWhere (· == ' ') line) =
      trimEndWhere (· == ' ') line := by
    rw [trimEndWhere, trimEndWhere, List.reverse_reverse, List.dropWhile_idempotent]
  refine checkTrailingSpaces_eq_nil_iff.mpr (.inl ?_)
  rw [hagain, Nat.sub_self]

theorem tab_not_mem_expandTabs (width : Nat) (line : Line) : '\t' ∉ expandTabs width line := by
  intro h
  obtain ⟨c, -, hc⟩ := List.mem_flatMap.mp h
  split at hc
  · exact absurd (List.eq_of_mem_replicate hc) (by decide)
  · next hne => exact hne (List.mem_singleton.mp hc).symm

theorem GapSplit.closeGap {line : Line} {h : Heading} {before gap after : List Char}
    (hsplit : GapSplit line h before gap after) : closeGap line = before ++ after := by
  have hbefore : before.length = h.indent + h.hashes := by
    rw [← hsplit.units_before]
    exact (units_of_forall (p := fun c => c == ' ' || c == '#')
      (by simp +contextual [charUnits, or_imp]) (by simpa using hsplit.before_chars)).symm
  have hgap : gap.length = h.gap - 1 := by
    rw [← hsplit.units_gap]
    exact (units_of_forall (p := fun c => c == ' ' || c == '\t')
      (by simp +contextual [charUnits, or_imp]) (by simpa using hsplit.gap_chars)).symm
  unfold Rule.closeGap
  rw [hsplit.heading]
  dsimp only
  rw [← hbefore, ← hgap, hsplit.line_eq, List.take_left, ← List.length_append,
    ← List.append_assoc, List.drop_left]

/-- A line has a gap to close, or it is left as it is. -/
theorem closeGap_cases (line : Line) :
    (∀ number, checkHeadingSpace number line = []) ∧ closeGap line = line ∨
      ∃ h before gap after, GapSplit line h before gap after ∧ 2 ≤ h.gap ∧
        closeGap line = before ++ after := by
  cases hh : Heading.ofLine? line with
  | none => exact .inl ⟨fun number => by simp [checkHeadingSpace, hh], by simp [closeGap, hh]⟩
  | some h =>
      obtain ⟨before, gap, after, hsplit, -⟩ := exists_gapSplit hh
      by_cases hwide : 2 ≤ h.gap
      · exact .inr ⟨h, before, gap, after, hsplit, hwide, hsplit.closeGap⟩
      · have hnone : gap = [] := (units_eq_zero gap).mp (by rw [hsplit.units_gap]; omega)
        refine .inl ⟨fun number => by simp [checkHeadingSpace, hh, hwide], ?_⟩
        rw [hsplit.closeGap, hsplit.line_eq, hnone, List.nil_append]

theorem checkHeadingSpace_closeGap (number : Nat) (line : Line) :
    checkHeadingSpace number (closeGap line) = [] := by
  rcases closeGap_cases line with ⟨hnone, hsame⟩ | ⟨h, before, gap, after, hsplit, -, hclose⟩
  · rw [hsame, hnone]
  · have hnarrow : ¬min h.gap 1 ≥ 2 := by omega
    rw [hclose, checkHeadingSpace, hsplit.narrowed]
    simp [hnarrow]

theorem fence_closeGap (line : Line) : Fence.ofLine? (closeGap line) = Fence.ofLine? line := by
  rcases closeGap_cases line with ⟨-, hsame⟩ | ⟨h, before, gap, after, hsplit, -, hclose⟩
  · rw [hsame]
  · rw [hclose, fence_of_heading hsplit.narrowed, fence_of_heading hsplit.heading]

theorem closeGap_sublist (line : Line) : (closeGap line).Sublist line := by
  rcases closeGap_cases line with ⟨-, hsame⟩ | ⟨_, before, gap, after, hsplit, -, hclose⟩
  · rw [hsame]
  · rw [hclose, hsplit.line_eq]
    exact (List.Sublist.refl before).append (List.sublist_append_right gap after)

theorem trimEndWhere_sublist (p : Char → Bool) (line : Line) :
    (trimEndWhere p line).Sublist line := by
  conv_rhs => rw [← trimEndWhere_append p line]
  exact List.sublist_append_left _ _

/-- Lines that stay the fences they are stay in code or out of it. -/
theorem markFences_map {g : FencedLine → Line}
    (hg : ∀ l, Fence.ofLine? (g l) = Fence.ofLine? l.text) (fence : Option Fence)
    (lines : List Line) : markFences fence ((markFences fence lines).map g) =
      (markFences fence lines).map fun l => ⟨g l, l.inFence⟩ := by
  have hkeeps (lines : List FencedLine) :
      KeepsFences lines (lines.map fun l => ⟨g l, l.inFence⟩) := by
    induction lines with
    | nil => exact .nil
    | cons l rest ih => exact .keep (hg l) ih
  have hmarks := (hkeeps (markFences fence lines)).markFences_eq
  rwa [List.map_map] at hmarks

theorem mem_of_mem_analyze {lines : List Line} {l : FencedLine} (h : l ∈ analyze lines) :
    l.text ∈ lines := by
  obtain ⟨i, hi⟩ := List.mem_iff_getElem?.mp h
  exact List.mem_of_getElem? (getElem?_of_analyze hi)

theorem getElem?_analyze (lines : List Line) (i : Nat) :
    lines[i]? = (analyze lines)[i]?.map (·.text) := by
  conv_lhs => rw [← text_markFences none lines]
  exact List.getElem?_map

theorem exists_of_getElem? {lines : List Line} {i : Nat} {line : Line} (h : lines[i]? = some line) :
    ∃ l, (analyze lines)[i]? = some l ∧ l.text = line := by
  rwa [getElem?_analyze, Option.map_eq_some_iff] at h

namespace FixableRule

/-! ### What is reported for a line -/

section Check

variable {text : List Char} {config : RuleConfig} {violations : List Violation}
  {r : FixableRule} {i : Nat} {l : FencedLine}

/-- The violations of a check by one rule. -/
theorem mem_check_iff (h : check text config [] = .ok violations) {v : Violation} :
    v ∈ violations ∧ v.hasRule r.head.name = true ↔
      v ∈ r.reports config (analyze (splitLines text)) := by
  rw [check_builtin] at h
  obtain rfl := Except.ok.inj h
  rw [sortByLine, List.mem_mergeSort, mem_reports_iff]

theorem reported_iff (h : check text config [] = .ok violations) :
    r.reported violations i = true ↔
      ∃ v ∈ r.reports config (analyze (splitLines text)), v.line = i + 1 := by
  simp only [reported, List.any_eq_true, Bool.and_eq_true, beq_iff_eq, ← mem_check_iff h,
    and_assoc]

/-- A rule for single lines reports something for a line just if it finds something there. -/
theorem reported_eachLine {applies : FencedLine → Bool}
    {check : Nat → Line → List Violation}
    (hcheck : Rule.check text config [] = .ok violations)
    (hreports : r.reports config (analyze (splitLines text)) =
      eachLine (analyze (splitLines text)) applies check)
    (hnumber : ∀ number line, ∀ v ∈ check number line, v.line = number)
    (hl : (analyze (splitLines text))[i]? = some l) :
    r.reported violations i = true ↔ applies l = true ∧ check (i + 1) l.text ≠ [] := by
  rw [reported_iff hcheck, hreports]
  constructor
  · rintro ⟨v, hv, hline⟩
    obtain ⟨j, l', hl', happlies, hv⟩ := mem_eachLine.mp hv
    have hj : j = i := by
      have hown := hnumber _ _ v hv
      omega
    subst hj
    obtain rfl := Option.some.inj (hl.symm.trans hl')
    exact ⟨happlies, List.ne_nil_of_mem hv⟩
  · rintro ⟨happlies, hne⟩
    obtain ⟨v, hv⟩ := List.exists_mem_of_ne_nil _ hne
    exact ⟨v, mem_eachLine.mpr ⟨i, l, hl, happlies, hv⟩, hnumber _ _ v hv⟩

variable {options : Dict Json}

theorem reports_of_on (hon : r.head.options? config = some options) (lines : List FencedLine) :
    r.reports config lines = r.finds options lines := by
  unfold reports ifOn
  rw [hon]

theorem reports_of_off (hoff : r.head.options? config = none) (lines : List FencedLine) :
    r.reports config lines = [] := by
  unfold reports ifOn
  rw [hoff]

/-- A line is reported for its trailing blanks just if it loses them. -/
theorem reported_trailingSpaces (h : check text config [] = .ok violations)
    (hon : Rule.trailingSpaces.options? config = some options)
    (hl : (analyze (splitLines text))[i]? = some l) :
    trailingSpaces.reported violations i = true ↔
      checkTrailingSpaces (breaks options) (i + 1) l.text ≠ [] := by
  have hreports : trailingSpaces.reports config (analyze (splitLines text)) =
      eachLine (analyze (splitLines text)) (fun _ => true)
        (checkTrailingSpaces (breaks options)) :=
    reports_of_on (r := trailingSpaces) hon _
  have hnumber : ∀ number line, ∀ v ∈ checkTrailingSpaces (breaks options) number line,
      v.line = number := fun _ _ _ hv => (checkTrailingSpaces_edit hv).1
  simp [reported_eachLine h hreports hnumber hl]

theorem reported_headingSpace (h : check text config [] = .ok violations)
    (hon : Rule.headingSpace.options? config = some options)
    (hl : (analyze (splitLines text))[i]? = some l) :
    headingSpace.reported violations i = true ↔
      l.inFence = false ∧ checkHeadingSpace (i + 1) l.text ≠ [] := by
  have hreports : headingSpace.reports config (analyze (splitLines text)) =
      eachLine (analyze (splitLines text)) (!·.inFence) checkHeadingSpace :=
    reports_of_on (r := headingSpace) hon _
  have hnumber : ∀ number line, ∀ v ∈ checkHeadingSpace number line, v.line = number :=
    fun _ _ _ hv => (checkHeadingSpace_edit hv).1
  simp [reported_eachLine h hreports hnumber hl]

/-- Closing the gaps of the reported headings closes those of all lines outside of code. -/
theorem rewrite_headingSpace (h : check text config [] = .ok violations)
    (hon : Rule.headingSpace.options? config = some options) :
    headingSpace.rewrite config violations (splitLines text) =
      (analyze (splitLines text)).map fun l => if l.inFence then l.text else closeGap l.text := by
  apply List.ext_getElem?
  intro i
  simp only [rewrite, List.getElem?_map, List.getElem?_zipIdx, getElem?_analyze (splitLines text)]
  cases hl : (analyze (splitLines text))[i]? with
  | none => rfl
  | some l =>
      have hreported := reported_headingSpace h hon hl
      simp only [Option.map_some, Nat.zero_add, Option.some.injEq]
      cases hfence : l.inFence with
      | true => simp [show headingSpace.reported violations i = false by simp_all]
      | false =>
          rcases closeGap_cases l.text with ⟨-, hsame⟩ | ⟨_, _, _, _, hsplit, hwide, -⟩
          · simp [hsame]
          · have hyes : headingSpace.reported violations i = true := by
              rw [hreported]
              simp [hfence, checkHeadingSpace, hsplit.heading, hwide]
            simp [hyes]

/-! ### Nothing is left to report -/

/-- On the lines as rewritten for a rule that found something, the rule finds nothing. -/
theorem reports_rewrite (h : check text config [] = .ok violations) :
    r.reports config (analyze (r.rewrite config violations (splitLines text))) = [] := by
  cases hon : r.head.options? config with
  | none => exact reports_of_off hon _
  | some options =>
      rw [reports_of_on hon]
      cases r with
      | trailingSpaces =>
          rw [finds, eachLine_eq_nil]
          intro l hl _ number
          obtain ⟨⟨line, i⟩, hline, htext⟩ := List.mem_map.mp (mem_of_mem_analyze hl)
          obtain ⟨l', hl', rfl⟩ := exists_of_getElem? (List.mem_zipIdx_iff_getElem?.mp hline)
          rw [← htext]
          dsimp only
          split
          · exact checkTrailingSpaces_trimmed _ _ _
          · next hnot =>
              rw [reported_trailingSpaces h hon hl', not_not] at hnot
              exact checkTrailingSpaces_eq_nil_iff.mpr (checkTrailingSpaces_eq_nil_iff.mp hnot)
      | hardTabs =>
          rw [finds, eachLine_eq_nil]
          intro l hl _ number
          obtain ⟨line, -, htext⟩ := List.mem_map.mp (mem_of_mem_analyze hl)
          exact checkHardTabs_of_not_mem (htext ▸ tab_not_mem_expandTabs _ line) _ _
      | multipleBlanks =>
          have hoptions : (Rule.multipleBlanks.options? config).getD [] = options := by
            rw [show Rule.multipleBlanks.options? config = some options from hon, Option.getD_some]
          simp only [rewrite, finds, head, hoptions]
          rw [analyze_cutRuns]
          exact checkBlankRuns_cutRuns 1 _
      | headingSpace =>
          have hfence : ∀ l : FencedLine, Fence.ofLine?
              (if l.inFence then l.text else closeGap l.text) = Fence.ofLine? l.text := by
            intro l
            split
            · rfl
            · exact fence_closeGap l.text
          rw [rewrite_headingSpace h hon, finds, analyze, analyze, markFences_map hfence,
            eachLine_eq_nil]
          intro l hl hout number
          obtain ⟨l', -, rfl⟩ := List.mem_map.mp hl
          have hnot : ¬l'.inFence = true := by simpa using hout
          dsimp only
          rw [if_neg hnot]
          exact checkHeadingSpace_closeGap number l'.text
      | finalNewline =>
          obtain ⟨flag, hconcat⟩ := markFences_concat none (splitLines text) []
          simp only [rewrite, finds, analyze]
          rw [hconcat]
          simp [checkFinalNewline, isBlankLine]

end Check

/-! ### Lines again -/

section Lines

variable {r : FixableRule} {config : RuleConfig} {violations : List Violation} {lines : List Line}

/-- A rewritten line has the characters of some line and blanks. -/
theorem unbroken_rewrite (h : ∀ line ∈ lines, Unbroken line) :
    ∀ line ∈ r.rewrite config violations lines, Unbroken line := by
  have hkept : ∀ {line kept : Line}, line ∈ lines → kept.Sublist line → Unbroken kept :=
    fun hline hsub c hc => h _ hline c (hsub.subset hc)
  intro line hline
  cases r with
  | trailingSpaces =>
      obtain ⟨⟨own, i⟩, hown, rfl⟩ := List.mem_map.mp hline
      refine hkept (List.fst_mem_of_mem_zipIdx hown) ?_
      dsimp only
      split
      · exact trimEndWhere_sublist _ own
      · exact List.Sublist.refl own
  | hardTabs =>
      obtain ⟨own, hown, rfl⟩ := List.mem_map.mp hline
      intro c hc
      obtain ⟨d, hd, hc⟩ := List.mem_flatMap.mp hc
      split at hc
      · rw [List.eq_of_mem_replicate hc]
        decide
      · rw [List.mem_singleton.mp hc]
        exact h own hown d hd
  | multipleBlanks =>
      obtain ⟨l, hl, rfl⟩ := List.mem_map.mp hline
      exact h _ (mem_of_mem_analyze (cutRuns_subset _ hl))
  | headingSpace =>
      obtain ⟨⟨own, i⟩, hown, rfl⟩ := List.mem_map.mp hline
      refine hkept (List.fst_mem_of_mem_zipIdx hown) ?_
      dsimp only
      split
      · exact closeGap_sublist own
      · exact List.Sublist.refl own
  | finalNewline =>
      rcases List.mem_append.mp hline with hline | hline
      · exact h line hline
      · simp [List.mem_singleton.mp hline, Unbroken]

/-- Of the rules, only the one that deletes lines could leave none, were all blank lines too
many. -/
theorem rewrite_ne_nil (hne : lines ≠ [])
    (hmaximum : 1 ≤ natOption ((multipleBlanks.head.options? config).getD []) "maximum" 1) :
    r.rewrite config violations lines ≠ [] := by
  cases r with
  | trailingSpaces => simpa [rewrite] using hne
  | hardTabs => simpa [rewrite] using hne
  | multipleBlanks =>
      have hlines : analyze lines ≠ [] := by
        intro hnil
        have htext := text_markFences none lines
        rw [← analyze, hnil] at htext
        exact hne htext.symm
      simpa only [rewrite, ne_eq, List.map_eq_nil_iff] using cutRuns_ne_nil hmaximum hlines
  | headingSpace => simpa [rewrite] using hne
  | finalNewline => simp [rewrite]

end Lines

end FixableRule

end LintDesk.Rule
