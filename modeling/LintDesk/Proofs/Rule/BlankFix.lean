import LintDesk.Rule.Check
import LintDesk.Proofs.Text.Visible
import Mathlib.Data.List.TakeWhile

/-! # What the fixes of the rules touch

Every fix that a check proposes removes white space of its own line and inserts white space: it
cuts the line at characters, and a line that it deletes is blank.
-/

namespace LintDesk

/-- An edit of a line that removes and inserts white space only. Its ends lie between characters
of the line. -/
def BlankEdit (line : Line) (start : Nat) (removal : Removal) (insertion : String) : Prop :=
  match removal with
  | .wholeLine => isBlankLine line = true ∧ insertion = ""
  | .chars count =>
    isBlankLine insertion.toList = true ∧
      ∃ before removed after, line = before ++ (removed ++ after) ∧
        units before = start ∧ units removed = count ∧ isBlankLine removed = true

/-- The fix of a violation, if it has one, edits white space of the violation's line. -/
def Violation.FixesBlanks (lines : List Line) (v : Violation) : Prop :=
  ∀ f, v.fix = some f → f.line = none ∧ ∃ i line, v.line = i + 1 ∧ lines[i]? = some line ∧
    BlankEdit line (f.column - 1) f.removal (f.insertion.getD "")

theorem Violation.fixesBlanks_of_none {lines : List Line} {v : Violation} (h : v.fix = none) :
    v.FixesBlanks lines := by
  intro f hf
  simp [h] at hf

namespace Rule

/-! ### Lines of a kind of character -/

/-- A character that takes one code unit. -/
theorem units_of_forall {p : Char → Bool} {s : List Char}
    (hp : ∀ c, p c = true → charUnits c = 1) (h : ∀ c ∈ s, p c = true) : units s = s.length := by
  induction s with
  | nil => rfl
  | cons c s ih =>
      rw [units_cons, hp c (h c (by simp)), ih (fun d hd => h d (by simp [hd])), List.length_cons]
      omega

theorem units_takeWhile {p : Char → Bool} (hp : ∀ c, p c = true → charUnits c = 1)
    (s : List Char) : units (s.takeWhile p) = (s.takeWhile p).length :=
  units_of_forall hp (fun _ hc => List.mem_takeWhile_imp hc)

theorem trimEndWhere_append (p : Char → Bool) (s : List Char) :
    trimEndWhere p s ++ (s.reverse.takeWhile p).reverse = s := by
  rw [trimEndWhere, ← List.reverse_append, List.takeWhile_append_dropWhile, List.reverse_reverse]

/-! ### Rules that look at one line -/

theorem checkTrailingSpaces_edit {breaks number : Nat} {line : Line} {v : Violation}
    (hv : v ∈ checkTrailingSpaces breaks number line) :
    v.line = number ∧ ∃ f, v.fix = some f ∧ f.line = none ∧
      BlankEdit line (f.column - 1) f.removal (f.insertion.getD "") := by
  unfold checkTrailingSpaces at hv
  dsimp only at hv
  split at hv
  · simp at hv
  · simp only [List.mem_singleton] at hv
    subst hv
    refine ⟨rfl, _, rfl, rfl, rfl, trimEndWhere (· == ' ') line,
      (line.reverse.takeWhile (· == ' ')).reverse, [], ?_, rfl, ?_, ?_⟩
    · rw [List.append_nil, trimEndWhere_append]
    · have hunits := units_takeWhile (p := (· == ' ')) (by simp +contextual [charUnits])
        line.reverse
      have hlength := congrArg List.length (trimEndWhere_append (· == ' ') line)
      rw [List.length_append, List.length_reverse] at hlength
      rw [units_reverse, hunits]
      omega
    · simp only [isBlankLine, List.all_reverse, List.all_eq_true]
      intro c hc
      have hspace : (c == ' ') = true := List.mem_takeWhile_imp (p := (· == ' ')) hc
      rw [beq_iff_eq.mp hspace]
      decide

/-- A run of tabs is where its span says. -/
theorem tabRuns_split {column : Nat} {s : List Char} {run : Span} (h : run ∈ tabRuns column s) :
    ∃ before after, s = before ++ (List.replicate run.length '\t' ++ after) ∧
      column + units before = run.column := by
  induction s generalizing column run with
  | nil => simp [tabRuns] at h
  | cons c rest ih =>
      -- a run further right starts one character later in the longer text
      have hlater : run ∈ tabRuns (column + charUnits c) rest →
          ∃ before after, c :: rest = before ++ (List.replicate run.length '\t' ++ after) ∧
            column + units before = run.column := by
        intro hrun
        obtain ⟨before, after, hrest, hcolumn⟩ := ih hrun
        refine ⟨c :: before, after, by rw [hrest]; rfl, ?_⟩
        rw [units_cons]
        omega
      rw [tabRuns] at h
      by_cases hc : c = '\t'
      · subst hc
        have htab : charUnits '\t' = 1 := rfl
        simp only [beq_self_eq_true, if_true] at h
        cases hruns : tabRuns (column + charUnits '\t') rest with
        | nil =>
            rw [hruns] at h
            obtain rfl : run = ⟨column, 1⟩ := by simpa using h
            exact ⟨[], rest, rfl, by simp⟩
        | cons first more =>
            rw [hruns] at h hlater
            by_cases hnext : first.column = column + 1
            · simp only [hnext, beq_self_eq_true, if_true, List.mem_cons] at h
              rcases h with rfl | hmore
              · obtain ⟨before, after, hrest, hcolumn⟩ := ih (hruns ▸ List.mem_cons_self ..)
                have hempty : before = [] := (units_eq_zero before).mp (by omega)
                subst hempty
                refine ⟨[], after, ?_, by simp⟩
                simp [hrest, List.replicate_succ]
              · exact hlater (List.mem_cons_of_mem _ hmore)
            · simp only [beq_iff_eq, hnext, if_false, List.mem_cons] at h
              rcases h with rfl | rfl | hmore
              · exact ⟨[], rest, rfl, by simp⟩
              · exact hlater List.mem_cons_self
              · exact hlater (List.mem_cons_of_mem _ hmore)
      · simp only [beq_iff_eq, hc, if_false] at h
        exact hlater h

theorem checkHardTabs_edit {width number : Nat} {line : Line} {v : Violation}
    (hv : v ∈ checkHardTabs width number line) :
    v.line = number ∧ ∃ f, v.fix = some f ∧ f.line = none ∧
      BlankEdit line (f.column - 1) f.removal (f.insertion.getD "") := by
  obtain ⟨run, hrun, rfl⟩ := List.mem_map.mp hv
  obtain ⟨before, after, hline, hcolumn⟩ := tabRuns_split hrun
  refine ⟨rfl, _, rfl, rfl, ?_, before, List.replicate run.length '\t', after, hline, ?_, ?_, ?_⟩
  · simp [Fix.replace, isBlankLine, isBlank]
  · simp only [Fix.replace]
    omega
  · rw [units_of_forall (p := (· == '\t')) (by simp +contextual [charUnits]) (by simp +contextual)]
    simp
  · simp [isBlankLine, isBlank]

/-- The parts of a heading, one after the other, make up its line. -/
theorem Heading.split_of_ofLine? {line : Line} {h : Heading} (hh : Heading.ofLine? line = some h) :
    ∃ before gap after, line = before ++ (gap ++ after) ∧ units before = h.indent + h.hashes ∧
      gap.length = h.gap ∧ ∀ c ∈ gap, c = ' ' ∨ c = '\t' := by
  have hblank : ∀ c, (c == ' ') = true → charUnits c = 1 := by simp +contextual [charUnits]
  have hhash : ∀ c, (c == '#') = true → charUnits c = 1 := by simp +contextual [charUnits]
  unfold Heading.ofLine? at hh
  dsimp only at hh
  split at hh
  · obtain rfl := Option.some.inj hh
    let rest := line.dropWhile (· == ' ')
    let after := rest.dropWhile (· == '#')
    refine ⟨line.takeWhile (· == ' ') ++ rest.takeWhile (· == '#'),
      after.takeWhile (fun c => c == ' ' || c == '\t'),
      after.dropWhile (fun c => c == ' ' || c == '\t'), ?_, ?_, rfl, ?_⟩
    · rw [List.takeWhile_append_dropWhile, List.append_assoc, List.takeWhile_append_dropWhile,
        List.takeWhile_append_dropWhile]
    · rw [units_append, units_takeWhile hblank, units_takeWhile hhash]
    · intro c hc
      simpa using List.mem_takeWhile_imp hc
  · simp at hh

theorem checkHeadingSpace_edit {number : Nat} {line : Line} {v : Violation}
    (hv : v ∈ checkHeadingSpace number line) :
    v.line = number ∧ ∃ f, v.fix = some f ∧ f.line = none ∧
      BlankEdit line (f.column - 1) f.removal (f.insertion.getD "") := by
  unfold checkHeadingSpace at hv
  split at hv
  · rename_i h hline
    split at hv
    · simp only [List.mem_singleton] at hv
      subst hv
      obtain ⟨before, gap, after, hsplit, hunits, hlength, hgap⟩ := Heading.split_of_ofLine? hline
      have htake : ∀ c ∈ gap.take (h.gap - 1), (c == ' ' || c == '\t') = true := by
        intro c hc
        simpa using hgap c (List.mem_of_mem_take hc)
      refine ⟨rfl, _, rfl, rfl, rfl, before, gap.take (h.gap - 1), gap.drop (h.gap - 1) ++ after,
        ?_, ?_, ?_, ?_⟩
      · rw [← List.append_assoc (gap.take _), List.take_append_drop, hsplit]
      · simp only [Fix.delete]
        omega
      · rw [units_of_forall (by simp +contextual [charUnits, or_imp]) htake, List.length_take]
        omega
      · simp only [isBlankLine, List.all_eq_true]
        intro c hc
        rcases hgap c (List.mem_of_mem_take hc) with rfl | rfl <;> decide
    · simp at hv
  · simp at hv

theorem checkLineLength_fix {limit number : Nat} {line : Line} {v : Violation}
    (hv : v ∈ checkLineLength limit number line) : v.fix = none := by
  unfold checkLineLength at hv
  dsimp only at hv
  split at hv
  · simp only [List.mem_singleton] at hv
    subst hv
    rfl
  · simp at hv

theorem checkPattern_fix {rule : CustomRule} {program : Pattern.Program} {number : Nat}
    {line : Line} {v : Violation} (hv : v ∈ checkPattern rule program number line) :
    v.fix = none := by
  unfold checkPattern at hv
  split at hv
  · simp only [List.mem_singleton] at hv
    subst hv
    rfl
  · simp at hv

/-! ### Rules that look at all lines -/

theorem checkBlankRuns_deletes {maximum count number : Nat} {lines : List FencedLine}
    {v : Violation} (hv : v ∈ checkBlankRuns maximum count number lines) :
    v.fix = some .deleteLine ∧
      ∃ i line, v.line = number + i ∧ lines[i]? = some line ∧ isBlankLine line.text = true ∧
        line.inFence = false := by
  induction lines generalizing count number with
  | nil => simp [checkBlankRuns] at hv
  | cons line rest ih =>
      -- a violation in the rest is one line further down
      have hlater : ∀ {n : Nat}, v ∈ checkBlankRuns maximum n (number + 1) rest →
          v.fix = some .deleteLine ∧ ∃ i l, v.line = number + i ∧ (line :: rest)[i]? = some l ∧
            isBlankLine l.text = true ∧ l.inFence = false := by
        intro n hrest
        obtain ⟨hfix, i, l, hi, hl, hloose⟩ := ih hrest
        exact ⟨hfix, i + 1, l, by omega, by simpa using hl, hloose⟩
      rw [checkBlankRuns] at hv
      split at hv
      · exact hlater hv
      · rename_i hline
        dsimp only at hv
        split at hv
        · rcases List.mem_cons.mp hv with rfl | hrest
          · refine ⟨rfl, 0, line, rfl, rfl, ?_⟩
            simp only [Bool.or_eq_true, Bool.not_eq_true, not_or] at hline
            exact ⟨by simpa using hline.2, hline.1⟩
          · exact hlater hrest
        · exact hlater hv

theorem checkFinalNewline_edit {lines : List FencedLine} {v : Violation}
    (hv : v ∈ checkFinalNewline lines) :
    ∃ i line, v.line = i + 1 ∧ lines[i]? = some line ∧ ∃ f, v.fix = some f ∧ f.line = none ∧
      BlankEdit line.text (f.column - 1) f.removal (f.insertion.getD "") := by
  unfold checkFinalNewline at hv
  split at hv
  · rename_i last hlast
    split at hv
    · simp at hv
    · simp only [List.mem_singleton] at hv
      subst hv
      have hne : lines ≠ [] := by
        rintro rfl
        simp at hlast
      have hpos := List.length_pos_iff.mpr hne
      refine ⟨lines.length - 1, last, ?_, ?_, _, rfl, rfl, ?_⟩
      · change lines.length = lines.length - 1 + 1
        omega
      · rw [← List.getLast?_eq_getElem?, hlast]
      · have hinsertion : isBlankLine "\n".toList = true := by decide
        exact ⟨hinsertion, last.text, [], [], by simp, rfl, rfl, rfl⟩
  · simp at hv

theorem eachLine_exists {lines : List FencedLine} {applies : FencedLine → Bool}
    {check : Nat → Line → List Violation} {v : Violation} (hv : v ∈ eachLine lines applies check) :
    ∃ (i : Nat) (line : FencedLine), lines[i]? = some line ∧ v ∈ check (i + 1) line.text := by
  obtain ⟨⟨line, i⟩, hmem, hcheck⟩ := List.mem_flatMap.mp hv
  refine ⟨i, line, by simpa using List.mem_zipIdx_iff_getElem?.mp hmem, ?_⟩
  dsimp only at hcheck
  split at hcheck
  · exact hcheck
  · simp at hcheck

/-! ### The whole check -/

theorem text_markFences (fence : Option Fence) (lines : List Line) :
    (markFences fence lines).map (·.text) = lines := by
  fun_induction markFences fence lines <;> simp_all

/-- Marking fences keeps every line in its place. -/
theorem getElem?_of_analyze {lines : List Line} {i : Nat} {line : FencedLine}
    (h : (analyze lines)[i]? = some line) : lines[i]? = some line.text := by
  have hmap : ((analyze lines).map (·.text))[i]? = some line.text := by simp [h]
  rwa [analyze, text_markFences] at hmap

/-- A rule that edits white space of the lines it is shown. -/
private theorem eachLine_fixesBlanks {lines : List Line} {applies : FencedLine → Bool}
    {check : Nat → Line → List Violation}
    (hcheck : ∀ number line, ∀ v ∈ check number line, v.line = number ∧
      ∃ f, v.fix = some f ∧ f.line = none ∧
        BlankEdit line (f.column - 1) f.removal (f.insertion.getD "")) :
    ∀ v ∈ eachLine (analyze lines) applies check, v.FixesBlanks lines := by
  intro v hv f hf
  obtain ⟨i, line, hline, hmem⟩ := eachLine_exists hv
  obtain ⟨hnumber, g, hg, hown, hedit⟩ := hcheck (i + 1) line.text v hmem
  obtain rfl : g = f := Option.some.inj (hg.symm.trans hf)
  exact ⟨hown, i, line.text, hnumber, getElem?_of_analyze hline, hedit⟩

/-- A rule that proposes no fixes. -/
theorem eachLine_fix {lines : List FencedLine} {applies : FencedLine → Bool}
    {check : Nat → Line → List Violation}
    (hcheck : ∀ number line, ∀ v ∈ check number line, v.fix = none) :
    ∀ v ∈ eachLine lines applies check, v.fix = none := by
  intro v hv
  obtain ⟨i, line, _, hmem⟩ := eachLine_exists hv
  exact hcheck (i + 1) line.text v hmem

private theorem ifOn_fixesBlanks {lines : List Line} {rule : RuleHead} {config : RuleConfig}
    {check : Dict Json → List Violation}
    (hcheck : ∀ options, ∀ v ∈ check options, v.FixesBlanks lines) :
    ∀ v ∈ ifOn rule config check, v.FixesBlanks lines := by
  intro v hv
  unfold ifOn at hv
  split at hv
  · exact hcheck _ v hv
  · simp at hv

theorem builtinViolations_fixesBlanks (config : RuleConfig) (lines : List Line) :
    ∀ v ∈ builtinViolations config (analyze lines), v.FixesBlanks lines := by
  intro v hv
  unfold builtinViolations at hv
  simp only [List.mem_append] at hv
  rcases hv with ((((hv | hv) | hv) | hv) | hv) | hv
  · exact ifOn_fixesBlanks (fun _ =>
      eachLine_fixesBlanks fun _ _ _ => checkTrailingSpaces_edit) v hv
  · exact ifOn_fixesBlanks (fun _ => eachLine_fixesBlanks fun _ _ _ => checkHardTabs_edit) v hv
  · refine ifOn_fixesBlanks (fun options w hw f hf => ?_) v hv
    obtain ⟨hfix, i, line, hnumber, hline, hblank, -⟩ := checkBlankRuns_deletes hw
    obtain rfl : Fix.deleteLine = f := Option.some.inj (hfix.symm.trans hf)
    exact ⟨rfl, i, line.text, by omega, getElem?_of_analyze hline, hblank, rfl⟩
  · exact ifOn_fixesBlanks (fun _ w hw => Violation.fixesBlanks_of_none
      (eachLine_fix (fun _ _ _ => checkLineLength_fix) w hw)) v hv
  · exact ifOn_fixesBlanks (fun _ =>
      eachLine_fixesBlanks fun _ _ _ => checkHeadingSpace_edit) v hv
  · refine ifOn_fixesBlanks (fun options w hw f hf => ?_) v hv
    obtain ⟨i, line, hnumber, hline, g, hg, hown, hedit⟩ := checkFinalNewline_edit hw
    obtain rfl : g = f := Option.some.inj (hg.symm.trans hf)
    exact ⟨hown, i, line.text, hnumber, getElem?_of_analyze hline, hedit⟩

theorem customViolations_fix {config : RuleConfig} {fenced : List FencedLine}
    {rules : List CustomRule} {found : List Violation}
    (h : customViolations config fenced rules = .ok found) : ∀ v ∈ found, v.fix = none := by
  induction rules generalizing found with
  | nil =>
      obtain rfl : [] = found := by simpa [customViolations] using h
      simp
  | cons rule rest ih =>
      rw [customViolations] at h
      split at h
      · simp at h
      · rename_i first hfirst
        split at h
        · simp at h
        · rename_i more hmore
          obtain rfl : first ++ more = found := by simpa using h
          intro v hv
          rcases List.mem_append.mp hv with hv | hv
          · unfold checkCustom at hfirst
            split at hfirst
            · obtain rfl : [] = first := by simpa using hfirst
              simp at hv
            · split at hfirst
              · obtain rfl := Except.ok.inj hfirst
                exact eachLine_fix (fun _ _ _ => checkPattern_fix) v hv
              · simp at hfirst
          · exact ih hmore v hv

/-- Every fix of a check edits white space of the line its violation is on. -/
theorem check_fixesBlanks {text : List Char} {config : RuleConfig} {rules : List CustomRule}
    {violations : List Violation} (h : check text config rules = .ok violations) :
    ∀ v ∈ violations, v.FixesBlanks (splitLines text) := by
  unfold check at h
  dsimp only at h
  split at h
  · simp at h
  · rename_i custom hcustom
    obtain rfl := Except.ok.inj h
    intro v hv
    rw [sortByLine, List.mem_mergeSort, List.mem_append] at hv
    rcases hv with hv | hv
    · exact builtinViolations_fixesBlanks config (splitLines text) v hv
    · exact Violation.fixesBlanks_of_none (customViolations_fix hcustom v hv)

end Rule

end LintDesk
