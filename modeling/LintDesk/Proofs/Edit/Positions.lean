import LintDesk.Edit.Diagnostic
import LintDesk.Proofs.Edit.Proposals

/-! # Where violations stand

A check reports in the order of the lines, and every violation is on a line of the text. The span of
a built-in rule is a stretch of its line, so that a diagnostic shows all of it, and a fix deletes a
blank line or has both ends between characters of its line (`check_places`).
-/

namespace LintDesk

/-- A column between two characters of a line, or at one of its ends. -/
def IsBoundary (line : Line) (column : Nat) : Prop :=
  ∃ before after, line = before ++ after ∧ units before = column

/-- A span that is a stretch of a line. -/
structure Span.Covers (s : Span) (line : Line) : Prop where
  column : 1 ≤ s.column
  length : 1 ≤ s.length
  finish : s.column - 1 + s.length ≤ units line

/-- A fix of a line takes all of it away if it is blank, or replaces what is between two of its
boundaries. -/
inductive Fix.Fits (line : Line) : Fix → Prop
  | deletion (hblank : isBlankLine line = true) : Fits line .deleteLine
  | replacement {f : Fix} {count : Nat} (hown : f.line = none) (hremoval : f.removal = .chars count)
      (hcolumn : 1 ≤ f.column) (hstart : IsBoundary line (f.column - 1))
      (hfinish : IsBoundary line (f.column - 1 + count)) : Fits line f

/-- Span and fix of a violation are those of a line. -/
structure Violation.Within (v : Violation) (line : Line) : Prop where
  span : ∀ s, v.span = some s → s.Covers line
  fix : ∀ f, v.fix = some f → Fix.Fits line f

/-- A violation is on a line of a text. -/
def Violation.IsOn (v : Violation) (lines : List Line) (line : Line) : Prop :=
  ∃ i, v.line = i + 1 ∧ lines[i]? = some line

theorem Violation.IsOn.number {v : Violation} {lines : List Line} {line : Line}
    (h : v.IsOn lines line) : 1 ≤ v.line ∧ v.line ≤ lines.length := by
  obtain ⟨i, hnumber, hline⟩ := h
  obtain ⟨hlt, -⟩ := List.getElem?_eq_some_iff.mp hline
  omega

theorem IsBoundary.le {line : Line} {column : Nat} (h : IsBoundary line column) :
    column ≤ units line := by
  obtain ⟨before, after, rfl, rfl⟩ := h
  rw [units_append]
  exact Nat.le_add_right _ _

/-- A span that ends in its line is shown as it is. -/
theorem Diagnostic.columns_of_covers {s : Span} {line : Line} (h : s.Covers line) :
    columns (units line) (some s) = (s.column - 1, s.column - 1 + s.length) := by
  have hfinish := h.finish
  simp only [columns, Prod.mk.injEq]
  omega

theorem Fix.fits_of_blankEdit {line : Line} {f : Fix} {count : Nat} (hown : f.line = none)
    (hremoval : f.removal = .chars count) (hcolumn : 1 ≤ f.column)
    (h : BlankEdit line (f.column - 1) f.removal (f.insertion.getD "")) : Fits line f := by
  rw [hremoval] at h
  obtain ⟨-, before, removed, after, hline, hstart, hcount, -⟩ := h
  refine .replacement hown hremoval hcolumn ⟨before, removed ++ after, hline, hstart⟩
    ⟨before ++ removed, after, by rw [hline, List.append_assoc], ?_⟩
  rw [units_append, hstart, hcount]

/-- A span that is what a fix removes. -/
theorem Fix.Fits.covers {line : Line} {f : Fix} {count : Nat} (h : Fits line f)
    (hremoval : f.removal = .chars count) (hcount : 1 ≤ count) :
    Span.Covers ⟨f.column, count⟩ line := by
  cases h with
  | deletion hblank => cases hremoval
  | replacement hown hremoval' hcolumn hstart hfinish =>
      rw [hremoval'] at hremoval
      obtain rfl := Removal.chars.inj hremoval
      exact ⟨hcolumn, hcount, hfinish.le⟩

namespace Rule

/-! ### Rules that look at one line -/

theorem checkTrailingSpaces_within {breaks number : Nat} {line : Line} {v : Violation}
    (hv : v ∈ checkTrailingSpaces breaks number line) : v.line = number ∧ v.Within line := by
  obtain ⟨hnumber, f, hfix, hown, hedit⟩ := checkTrailingSpaces_edit hv
  unfold checkTrailingSpaces at hv
  dsimp only at hv
  split at hv
  · cases hv
  · next hcount =>
      obtain rfl := List.mem_singleton.mp hv
      obtain rfl := Option.some.inj hfix
      have hfits := Fix.fits_of_blankEdit hown rfl (Nat.le_add_left _ _) hedit
      have hpos : line.length - (trimEndWhere (· == ' ') line).length ≠ 0 := by
        intro hzero
        simp [hzero] at hcount
      refine ⟨hnumber, fun s hs => ?_, fun f hf => Option.some.inj hf ▸ hfits⟩
      obtain rfl := Option.some.inj hs
      exact hfits.covers rfl (Nat.one_le_iff_ne_zero.mpr hpos)

theorem checkHardTabs_within {width number : Nat} {line : Line} {v : Violation}
    (hv : v ∈ checkHardTabs width number line) : v.line = number ∧ v.Within line := by
  obtain ⟨hnumber, f, hfix, hown, hedit⟩ := checkHardTabs_edit hv
  obtain ⟨run, hrun, rfl⟩ := List.mem_map.mp hv
  obtain rfl := Option.some.inj hfix
  have hfits := Fix.fits_of_blankEdit hown rfl (le_column_of_mem_tabRuns hrun) hedit
  refine ⟨hnumber, fun s hs => ?_, fun f hf => Option.some.inj hf ▸ hfits⟩
  obtain rfl := Option.some.inj hs
  exact hfits.covers rfl (column_lt_of_mem_tabRuns hrun).2

theorem checkLineLength_within {limit number : Nat} {line : Line} {v : Violation}
    (hv : v ∈ checkLineLength limit number line) : v.line = number ∧ v.Within line := by
  have hnone := checkLineLength_fix hv
  unfold checkLineLength at hv
  dsimp only at hv
  split at hv
  · next hlong =>
      obtain rfl := List.mem_singleton.mp hv
      refine ⟨rfl, fun s hs => ?_, fun f hf => absurd (hnone.symm.trans hf) nofun⟩
      obtain rfl := Option.some.inj hs
      exact ⟨Nat.le_add_left _ _, by dsimp only; omega, by dsimp only; omega⟩
  · cases hv

/-- The span of a heading reaches up to the first character of its text. -/
theorem checkHeadingSpace_within {number : Nat} {line : Line} {v : Violation}
    (hv : v ∈ checkHeadingSpace number line) : v.line = number ∧ v.Within line := by
  obtain ⟨hnumber, f, hfix, hown, hedit⟩ := checkHeadingSpace_edit hv
  unfold checkHeadingSpace at hv
  split at hv
  · next h hh =>
      split at hv
      · obtain rfl := List.mem_singleton.mp hv
        obtain rfl := Option.some.inj hfix
        have hfits := Fix.fits_of_blankEdit hown rfl (Nat.le_add_left _ _) hedit
        refine ⟨hnumber, fun s hs => ?_, fun f hf => Option.some.inj hf ▸ hfits⟩
        obtain rfl := Option.some.inj hs
        obtain ⟨gap, c, text, hline, -, hgap, hblanks, -⟩ := Heading.ofLine?_eq_some_iff.mp hh
        have hunits : units gap = h.gap := by
          rw [← hgap]
          exact units_of_forall (p := fun c => c == ' ' || c == '\t')
            (by simp +contextual [charUnits, or_imp]) (by simpa using hblanks)
        have hfirst := charUnits_pos c
        refine ⟨Nat.le_add_left _ _, Nat.le_add_left _ _, ?_⟩
        rw [hline, units_append, units_append, units_append, units_cons, units_replicate rfl,
          units_replicate rfl, hunits]
        dsimp only
        omega
      · cases hv
  · cases hv

/-! ### Rules that look at all lines -/

variable {lines : List Line} {v : Violation}

theorem eachLine_within {applies : FencedLine → Bool} {check : Nat → Line → List Violation}
    (hcheck : ∀ {number line v}, v ∈ check number line → v.line = number ∧ v.Within line)
    (hv : v ∈ eachLine (analyze lines) applies check) :
    ∃ line, v.IsOn lines line ∧ v.Within line := by
  obtain ⟨i, l, hl, -, hv⟩ := mem_eachLine.mp hv
  obtain ⟨hnumber, hwithin⟩ := hcheck hv
  exact ⟨l.text, ⟨i, hnumber, getElem?_of_analyze hl⟩, hwithin⟩

theorem span_of_mem_checkBlankRuns {maximum count number : Nat} {lines : List FencedLine}
    (hv : v ∈ checkBlankRuns maximum count number lines) : v.span = none := by
  induction lines generalizing count number with
  | nil => cases hv
  | cons line rest ih =>
      rw [checkBlankRuns] at hv
      split at hv
      · exact ih hv
      · dsimp only at hv
        split at hv
        · rcases List.mem_cons.mp hv with rfl | hv
          · rfl
          · exact ih hv
        · exact ih hv

theorem checkBlankRuns_within {maximum : Nat}
    (hv : v ∈ checkBlankRuns maximum 0 1 (analyze lines)) :
    ∃ line, v.IsOn lines line ∧ v.Within line := by
  obtain ⟨hfix, i, l, hnumber, hl, hblank, -⟩ := checkBlankRuns_deletes hv
  refine ⟨l.text, ⟨i, by omega, getElem?_of_analyze hl⟩, fun s hs => ?_, fun f hf => ?_⟩
  · rw [span_of_mem_checkBlankRuns hv] at hs
    cases hs
  · obtain rfl := Option.some.inj (hfix.symm.trans hf)
    exact .deletion hblank

theorem checkFinalNewline_within (hv : v ∈ checkFinalNewline (analyze lines)) :
    ∃ line, v.IsOn lines line ∧ v.Within line := by
  obtain ⟨i, l, hnumber, hl, f, hfix, hown, hedit⟩ := checkFinalNewline_edit hv
  refine ⟨l.text, ⟨i, hnumber, getElem?_of_analyze hl⟩, ?_⟩
  unfold checkFinalNewline at hv
  split at hv
  · next last hlast =>
      split at hv
      · cases hv
      · next htext =>
          obtain rfl := List.mem_singleton.mp hv
          obtain rfl := Option.some.inj hfix
          have hsame : l = last := by
            have hindex : (analyze lines).length - 1 = i := by
              change (analyze lines).length = i + 1 at hnumber
              omega
            rw [List.getLast?_eq_getElem?, hindex, hl] at hlast
            exact Option.some.inj hlast
          have hunits : 1 ≤ units last.text := by
            rw [Nat.one_le_iff_ne_zero, ne_eq, units_eq_zero]
            intro hnil
            simp [hnil, isBlankLine] at htext
          have hfits := Fix.fits_of_blankEdit hown rfl (Nat.le_add_left _ _) hedit
          refine ⟨fun s hs => ?_, fun f hf => Option.some.inj hf ▸ hfits⟩
          obtain rfl := Option.some.inj hs
          rw [hsame]
          exact ⟨hunits, Nat.le_refl 1, by dsimp only; omega⟩
  · cases hv

/-! ### The whole check -/

theorem builtinViolations_within {config : RuleConfig}
    (hv : v ∈ builtinViolations config (analyze lines)) :
    ∃ line, v.IsOn lines line ∧ v.Within line := by
  unfold builtinViolations at hv
  simp only [List.mem_append, mem_ifOn] at hv
  rcases hv with ((((⟨_, -, hv⟩ | ⟨_, -, hv⟩) | ⟨_, -, hv⟩) | ⟨_, -, hv⟩) | ⟨_, -, hv⟩) | ⟨_, -, hv⟩
  · exact eachLine_within checkTrailingSpaces_within hv
  · exact eachLine_within checkHardTabs_within hv
  · exact checkBlankRuns_within hv
  · exact eachLine_within checkLineLength_within hv
  · exact eachLine_within checkHeadingSpace_within hv
  · exact checkFinalNewline_within hv

theorem line_of_mem_checkPattern {rule : CustomRule} {program : Pattern.Program} {number : Nat}
    {line : Line} (hv : v ∈ checkPattern rule program number line) : v.line = number := by
  unfold checkPattern at hv
  split at hv
  · obtain rfl := List.mem_singleton.mp hv
    rfl
  · cases hv

theorem customViolations_isOn {config : RuleConfig} {rules : List CustomRule}
    {found : List Violation} (h : customViolations config (analyze lines) rules = .ok found)
    (hv : v ∈ found) : ∃ line, v.IsOn lines line := by
  induction rules generalizing found with
  | nil =>
      obtain rfl := Except.ok.inj h
      cases hv
  | cons rule rest ih =>
      rw [customViolations] at h
      split at h
      · cases h
      · next first hfirst =>
          split at h
          · cases h
          · next more hmore =>
              obtain rfl := Except.ok.inj h
              rcases List.mem_append.mp hv with hv | hv
              · unfold checkCustom at hfirst
                split at hfirst
                · obtain rfl := Except.ok.inj hfirst
                  cases hv
                · split at hfirst
                  · obtain rfl := Except.ok.inj hfirst
                    obtain ⟨i, l, hl, -, hv⟩ := mem_eachLine.mp hv
                    exact ⟨l.text, i, line_of_mem_checkPattern hv, getElem?_of_analyze hl⟩
                  · cases hfirst
              · exact ih hmore hv

theorem sortByLine_pairwise (violations : List Violation) :
    (sortByLine violations).Pairwise fun v w => v.line ≤ w.line := by
  have hsorted : (sortByLine violations).Pairwise fun v w => decide (v.line ≤ w.line) = true :=
    List.pairwise_mergeSort line_le_trans line_le_total violations
  exact hsorted.imp of_decide_eq_true

/-- A check reports what the built-in rules and the custom rules find, in the order of the lines.
Every violation is on a line of the text. A span that a built-in rule gives is a stretch of that
line and is shown as it is, and a fix is one of that line. -/
theorem check_places {text : List Char} {config : RuleConfig} {rules : List CustomRule}
    {violations : List Violation} (h : check text config rules = .ok violations) :
    (∃ custom, customViolations config (analyze (splitLines text)) rules = .ok custom ∧
      violations.Perm (builtinViolations config (analyze (splitLines text)) ++ custom)) ∧
    violations.Pairwise (fun v w => v.line ≤ w.line) ∧
    (∀ v ∈ violations, 1 ≤ v.line ∧ v.line ≤ (splitLines text).length) ∧
    (∀ v ∈ builtinViolations config (analyze (splitLines text)), ∀ s, v.span = some s →
      ∃ line, v.IsOn (splitLines text) line ∧ 1 ≤ s.column ∧ 1 ≤ s.length ∧
        s.column - 1 + s.length ≤ units line ∧
        Diagnostic.columns (units line) v.span = (s.column - 1, s.column - 1 + s.length)) ∧
    ∀ v ∈ violations, ∀ f, v.fix = some f →
      ∃ line, v.IsOn (splitLines text) line ∧ Fix.Fits line f := by
  have hfixes : ∀ v ∈ violations, ∀ f, v.fix = some f →
      v ∈ builtinViolations config (analyze (splitLines text)) := fun v hv f hf =>
    (mem_check_iff h (by simp [hf])).mp hv
  unfold check at h
  dsimp only at h
  split at h
  · cases h
  · next custom hcustom =>
      obtain rfl := Except.ok.inj h
      have hperm := List.mergeSort_perm
        (builtinViolations config (analyze (splitLines text)) ++ custom)
        (fun v w => decide (v.line ≤ w.line))
      refine ⟨⟨custom, hcustom, hperm⟩, sortByLine_pairwise _, fun v hv => ?_, fun v hv s hs => ?_,
        fun v hv f hf => ?_⟩
      · rcases List.mem_append.mp (hperm.mem_iff.mp hv) with hv | hv
        · obtain ⟨line, hline, -⟩ := builtinViolations_within hv
          exact hline.number
        · obtain ⟨line, hline⟩ := customViolations_isOn hcustom hv
          exact hline.number
      · obtain ⟨line, hline, hwithin⟩ := builtinViolations_within hv
        have hcovers := hwithin.span s hs
        refine ⟨line, hline, hcovers.column, hcovers.length, hcovers.finish, ?_⟩
        rw [hs, Diagnostic.columns_of_covers hcovers]
      · obtain ⟨line, hline, hwithin⟩ := builtinViolations_within (hfixes v hv f hf)
        exact ⟨line, hline, hwithin.fix f hf⟩

/-- A tab behind a character of two units, surplus lines and a match of a custom rule. -/
theorem check_places_of_wide :
    ∃ violations, check "#  😀\tb\n\n\n".toList .default
        [{ names := ["CR001"], description := "No b", tags := [], pattern := "b" }] =
      .ok violations ∧
      violations.Pairwise (fun v w => v.line ≤ w.line) ∧
      (∀ v ∈ violations, 1 ≤ v.line ∧ v.line ≤ 4) ∧
      ∃ v ∈ builtinViolations .default (analyze (splitLines "#  😀\tb\n\n\n".toList)),
        v.span = some ⟨6, 1⟩ ∧ ∃ line, v.IsOn (splitLines "#  😀\tb\n\n\n".toList) line ∧
          Diagnostic.columns (units line) v.span = (5, 6) := by
  obtain ⟨violations, hcheck⟩ : ∃ violations, check "#  😀\tb\n\n\n".toList .default
      [{ names := ["CR001"], description := "No b", tags := [], pattern := "b" }] =
    .ok violations := ⟨_, rfl⟩
  obtain ⟨-, hsorted, hnumbers, hspans, -⟩ := check_places hcheck
  have hlines : (splitLines "#  😀\tb\n\n\n".toList).length = 4 := by decide
  rw [hlines] at hnumbers
  obtain ⟨v, hv, hspan⟩ : ∃ v ∈ builtinViolations .default
      (analyze (splitLines "#  😀\tb\n\n\n".toList)), v.span = some ⟨6, 1⟩ := by decide
  obtain ⟨line, hline, -, -, -, hshown⟩ := hspans v hv _ hspan
  exact ⟨violations, hcheck, hsorted, hnumbers, v, hv, hspan, line, hline, hshown⟩

end Rule

end LintDesk
