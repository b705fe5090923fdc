import LintDesk.Proofs.Edit.LineFixes

/-! # What a check proposes for a line

Whatever the configuration, a check proposes five kinds of fixes for a line: to trim it, to expand
its tabs, to narrow the gap of its heading, to end it and to delete it. They keep out of each
other's way but for the tabs in the gap of a heading.
-/

namespace LintDesk.Rule

/-- Whether an accepted violation asks for line `i` to go away. -/
def deletesLine (violations : List Violation) (choice : FixChoice) (i : Nat) : Bool :=
  violations.any fun v => choice.accepts v && v.line == i + 1 && v.fix == some .deleteLine

/-- How many blanks a batch puts in the place of each tab of line `i`, if it does. -/
def tabWidth? (config : RuleConfig) (choice : FixChoice) (i : Nat) (l : FencedLine) : Option Nat :=
  match hardTabs.options? config with
  | none => none
  | some options =>
    if (boolOption options "code_blocks" true || !l.inFence) &&
        choice.accepts (hardTabs.violation (i + 1)) then
      some (natOption options "spaces_per_tab" 1)
    else none

/-- The fix that trims line `i`. -/
def trailingFix (i : Nat) (line : Line) : PlannedFix :=
  let kept := trimEndWhere (· == ' ') line
  ⟨i, units kept, .chars (line.length - kept.length), ""⟩

/-- The fix that ends line `i`. -/
def newlineFix (i : Nat) (line : Line) : PlannedFix :=
  ⟨i, units line, .chars 0, "\n"⟩

/-- The fix that narrows the gap of a heading on line `i`. -/
def gapFix (i : Nat) (h : Heading) : PlannedFix :=
  ⟨i, h.indent + h.hashes, .chars (h.gap - 1), ""⟩

/-- The fix that deletes line `i`. -/
def deletionFix (i : Nat) : PlannedFix :=
  ⟨i, 0, .wholeLine, ""⟩

/-- What a batch of the fixes of a check may do at a line. -/
inductive Proposal (config : RuleConfig) (violations : List Violation) (choice : FixChoice)
    (lines : List FencedLine) (i : Nat) (l : FencedLine) : PlannedFix → Prop
  | trailing (h : trimEndWhere (· == ' ') l.text ≠ l.text) :
      Proposal config violations choice lines i l (trailingFix i l.text)
  | tabs {width : Nat} {run : Span} (hwidth : tabWidth? config choice i l = some width)
      (hrun : run ∈ tabRuns 1 l.text) :
      Proposal config violations choice lines i l (tabFix width i run)
  | deletion (hblank : isBlankLine l.text = true) (hloose : l.inFence = false)
      (hdeletes : deletesLine violations choice i = true) :
      Proposal config violations choice lines i l (deletionFix i)
  | heading {h : Heading} (hh : Heading.ofLine? l.text = some h) (hgap : 2 ≤ h.gap) :
      Proposal config violations choice lines i l (gapFix i h)
  | newline (hlast : i + 1 = lines.length) (htext : isBlankLine l.text = false) :
      Proposal config violations choice lines i l (newlineFix i l.text)

theorem mem_ifOn {rule : RuleHead} {config : RuleConfig} {check : Dict Json → List Violation}
    {v : Violation} : v ∈ ifOn rule config check ↔
      ∃ options, rule.options? config = some options ∧ v ∈ check options := by
  unfold ifOn
  cases rule.options? config <;> simp

theorem mem_eachLine {lines : List FencedLine} {applies : FencedLine → Bool}
    {check : Nat → Line → List Violation} {v : Violation} : v ∈ eachLine lines applies check ↔
      ∃ i l, lines[i]? = some l ∧ applies l = true ∧ v ∈ check (i + 1) l.text := by
  simp only [eachLine, List.mem_flatMap, Prod.exists, List.mem_zipIdx_iff_getElem?]
  constructor
  · rintro ⟨l, i, hl, hv⟩
    split at hv
    · next happlies => exact ⟨i, l, hl, happlies, hv⟩
    · cases hv
  · rintro ⟨i, l, hl, happlies, hv⟩
    exact ⟨l, i, hl, by rwa [if_pos happlies]⟩

theorem mem_selectedFixes {violations : List Violation} {choice : FixChoice} {f : PlannedFix} :
    f ∈ selectedFixes violations choice ↔
      ∃ v ∈ violations, choice.accepts v = true ∧ PlannedFix.ofViolation? v = some f := by
  simp [selectedFixes, and_assoc]

/-- The violations of a check that have a fix are those of the built-in rules. -/
theorem mem_check_iff {text : List Char} {config : RuleConfig} {rules : List CustomRule}
    {violations : List Violation} (h : check text config rules = .ok violations) {v : Violation}
    (hfix : v.fix ≠ none) :
    v ∈ violations ↔ v ∈ builtinViolations config (analyze (splitLines text)) := by
  unfold check at h
  dsimp only at h
  split at h
  · cases h
  · next custom hcustom =>
      obtain rfl := Except.ok.inj h
      rw [sortByLine, List.mem_mergeSort, List.mem_append]
      exact ⟨fun hv => hv.resolve_right fun hv => hfix (customViolations_fix hcustom v hv), .inl⟩

theorem accepts_congr (choice : FixChoice) {v w : Violation} (hnames : v.names = w.names)
    (hline : v.line = w.line) : choice.accepts v = choice.accepts w := by
  cases choice <;> simp [FixChoice.accepts, Violation.hasRule, hnames, hline]

section Cases

variable {text : List Char} {config : RuleConfig} {rules : List CustomRule}
  {violations : List Violation} {choice : FixChoice} {f : PlannedFix}

theorem trailing_of_mem {breaks i : Nat} {line : Line}
    (h : f ∈ fixesOf (checkTrailingSpaces breaks) i line) :
    f = trailingFix i line ∧ trimEndWhere (· == ' ') line ≠ line := by
  obtain ⟨v, hv, hplanned⟩ := List.mem_filterMap.mp h
  unfold checkTrailingSpaces at hv
  dsimp only at hv
  split at hv
  · cases hv
  · next hcount =>
      obtain rfl := List.mem_singleton.mp hv
      refine ⟨(Option.some.inj hplanned).symm, fun heq => ?_⟩
      simp [heq] at hcount

theorem heading_of_mem {i : Nat} {line : Line} (h : f ∈ fixesOf checkHeadingSpace i line) :
    ∃ h', Heading.ofLine? line = some h' ∧ 2 ≤ h'.gap ∧ f = gapFix i h' := by
  obtain ⟨v, hv, hplanned⟩ := List.mem_filterMap.mp h
  unfold checkHeadingSpace at hv
  split at hv
  · next h' hh =>
      split at hv
      · next hgap =>
          obtain rfl := List.mem_singleton.mp hv
          exact ⟨h', hh, hgap, (Option.some.inj hplanned).symm⟩
      · cases hv
  · cases hv

theorem newline_of_mem {lines : List FencedLine} {v : Violation} (hv : v ∈ checkFinalNewline lines)
    (hplanned : PlannedFix.ofViolation? v = some f) :
    ∃ l, lines[f.line]? = some l ∧ f.line + 1 = lines.length ∧ isBlankLine l.text = false ∧
      f = newlineFix f.line l.text := by
  unfold checkFinalNewline at hv
  split at hv
  · next last hlast =>
      split at hv
      · cases hv
      · next htext =>
          obtain rfl := List.mem_singleton.mp hv
          obtain ⟨init, rfl⟩ := List.getLast?_eq_some_iff.mp hlast
          rw [List.length_append, List.length_singleton] at hplanned ⊢
          obtain rfl := Option.some.inj hplanned
          exact ⟨last, by simp, rfl, by simpa using htext, rfl⟩
  · cases hv

theorem proposal_of_selected (hcheck : check text config rules = .ok violations)
    (hf : f ∈ selectedFixes violations choice) :
    ∃ l, (analyze (splitLines text))[f.line]? = some l ∧
      Proposal config violations choice (analyze (splitLines text)) f.line l f := by
  obtain ⟨v, hv, haccepts, hplanned⟩ := mem_selectedFixes.mp hf
  have hfix : v.fix ≠ none := by
    intro hnone
    simp [PlannedFix.ofViolation?, hnone] at hplanned
  have hmem := (mem_check_iff hcheck hfix).mp hv
  unfold builtinViolations at hmem
  simp only [List.mem_append] at hmem
  rcases hmem with ((((hmem | hmem) | hmem) | hmem) | hmem) | hmem
  · obtain ⟨options, -, hmem⟩ := mem_ifOn.mp hmem
    obtain ⟨i, l, hl, -, hmem⟩ := mem_eachLine.mp hmem
    obtain ⟨rfl, htrim⟩ := trailing_of_mem (List.mem_filterMap.mpr ⟨v, hmem, hplanned⟩)
    exact ⟨l, hl, .trailing htrim⟩
  · obtain ⟨options, hon, hmem⟩ := mem_ifOn.mp hmem
    obtain ⟨i, l, hl, happlies, hmem⟩ := mem_eachLine.mp hmem
    obtain ⟨run, hrun, rfl⟩ := List.mem_map.mp hmem
    obtain rfl := Option.some.inj hplanned
    refine ⟨l, hl, .tabs ?_ hrun⟩
    have haccepts' : choice.accepts (hardTabs.violation (i + 1)) = true := by
      rw [← haccepts]
      exact accepts_congr choice rfl rfl
    simp only [tabWidth?, hon]
    rw [if_pos]
    simp [happlies, haccepts']
  · obtain ⟨options, -, hmem⟩ := mem_ifOn.mp hmem
    obtain ⟨hdelete, i, l, hnumber, hl, hblank, hloose⟩ := checkBlankRuns_deletes hmem
    have hnumber' : v.line = i + 1 := by omega
    have hdeletes : deletesLine violations choice i = true :=
      List.any_eq_true.mpr ⟨v, hv, by simp [haccepts, hnumber', hdelete]⟩
    simp only [PlannedFix.ofViolation?, hdelete, hnumber', Fix.deleteLine,
      Option.getD_none] at hplanned
    obtain rfl := Option.some.inj hplanned
    exact ⟨l, hl, .deletion hblank hloose hdeletes⟩
  · obtain ⟨options, -, hmem⟩ := mem_ifOn.mp hmem
    exact absurd (eachLine_fix (fun _ _ _ => checkLineLength_fix) v hmem) hfix
  · obtain ⟨options, -, hmem⟩ := mem_ifOn.mp hmem
    obtain ⟨i, l, hl, -, hmem⟩ := mem_eachLine.mp hmem
    obtain ⟨h, hh, hgap, rfl⟩ := heading_of_mem (List.mem_filterMap.mpr ⟨v, hmem, hplanned⟩)
    exact ⟨l, hl, .heading hh hgap⟩
  · obtain ⟨options, -, hmem⟩ := mem_ifOn.mp hmem
    obtain ⟨l, hl, hlast, htext, hform⟩ := newline_of_mem hmem hplanned
    refine ⟨l, hl, ?_⟩
    have hproposal : Proposal config violations choice (analyze (splitLines text)) f.line l
        (newlineFix f.line l.text) := .newline hlast htext
    rwa [← hform] at hproposal

/-- A line that is to go away has its deletion selected. -/
theorem deletionFix_mem_selectedFixes {i : Nat} (h : deletesLine violations choice i = true) :
    deletionFix i ∈ selectedFixes violations choice := by
  obtain ⟨v, hv, hdelete⟩ := List.any_eq_true.mp h
  simp only [Bool.and_eq_true, beq_iff_eq] at hdelete
  obtain ⟨⟨haccepts, hline⟩, hfix⟩ := hdelete
  refine mem_selectedFixes.mpr ⟨v, hv, haccepts, ?_⟩
  simp [PlannedFix.ofViolation?, hfix, hline, Fix.deleteLine, deletionFix]

/-- Where the tabs of a line are replaced, every run of them is. -/
theorem tabFix_mem_selectedFixes (hcheck : check text config rules = .ok violations) {i : Nat}
    {l : FencedLine} (hl : (analyze (splitLines text))[i]? = some l) {width : Nat}
    (hwidth : tabWidth? config choice i l = some width) {run : Span}
    (hrun : run ∈ tabRuns 1 l.text) : tabFix width i run ∈ selectedFixes violations choice := by
  unfold tabWidth? at hwidth
  split at hwidth
  · cases hwidth
  · next options hon =>
      split at hwidth
      · next happlies =>
          obtain ⟨happlies, haccepts⟩ := Bool.and_eq_true_iff.mp happlies
          obtain rfl := Option.some.inj hwidth
          have hproposed : tabFix (natOption options "spaces_per_tab" 1) i run ∈
              fixesOf (checkHardTabs (natOption options "spaces_per_tab" 1)) i l.text := by
            rw [fixesOf_hardTabs]
            exact List.mem_map_of_mem hrun
          obtain ⟨v, hv, hplanned⟩ := List.mem_filterMap.mp hproposed
          have hfix : v.fix ≠ none := by
            intro hnone
            simp [PlannedFix.ofViolation?, hnone] at hplanned
          refine mem_selectedFixes.mpr ⟨v, (mem_check_iff hcheck hfix).mpr ?_, ?_, hplanned⟩
          · simp only [builtinViolations, List.mem_append]
            exact .inl (.inl (.inl (.inl (.inr (mem_ifOn.mpr ⟨options, hon,
              mem_eachLine.mpr ⟨i, l, hl, happlies, hv⟩⟩)))))
          · obtain ⟨own, -, rfl⟩ := List.mem_map.mp hv
            rw [← haccepts]
            exact accepts_congr choice rfl rfl
      · cases hwidth

/-! ### Places -/

variable {lines : List FencedLine} {i : Nat} {l : FencedLine}

theorem trimEndWhere_split (line : Line) :
    ∃ blanks, line = trimEndWhere (· == ' ') line ++ blanks ∧ (∀ c ∈ blanks, c = ' ') ∧
      units blanks = line.length - (trimEndWhere (· == ' ') line).length := by
  have hsplit := trimEndWhere_append (· == ' ') line
  have hblanks : ∀ c ∈ (line.reverse.takeWhile (· == ' ')).reverse, c = ' ' := by
    intro c hc
    simpa using List.mem_takeWhile_imp (List.mem_reverse.mp hc)
  refine ⟨_, hsplit.symm, hblanks, ?_⟩
  rw [units_of_forall (p := (· == ' ')) (by simp +contextual [charUnits]) (by simpa using hblanks)]
  have hlength := congrArg List.length hsplit
  rw [List.length_append] at hlength
  omega

/-- Apart from ending and deleting it, a proposal removes something inside its line. -/
theorem Proposal.place (h : Proposal config violations choice lines i l f) :
    (f = newlineFix i l.text ∧ i + 1 = lines.length) ∨
      (f = deletionFix i ∧ l.isLoose = true ∧ deletesLine violations choice i = true) ∨
      (f.line = i ∧ f.start < units l.text ∧ ∃ count, f.removal = .chars (count + 1)) := by
  cases h with
  | trailing htrim =>
      obtain ⟨blanks, hline, -, hunits⟩ := trimEndWhere_split l.text
      have hpos : 0 < units blanks := by
        refine Nat.pos_of_ne_zero fun hzero => htrim ?_
        rw [(units_eq_zero blanks).mp hzero, List.append_nil] at hline
        exact hline.symm
      obtain ⟨count, hcount⟩ := Nat.exists_eq_add_one_of_ne_zero hpos.ne'
      refine .inr (.inr ⟨rfl, ?_, count, ?_⟩)
      · conv_rhs => rw [hline, units_append]
        exact Nat.lt_add_of_pos_right hpos
      · rw [← hcount, hunits]
        rfl
  | @tabs width run hwidth hrun =>
      have hmem : tabFix width i run ∈ fixesOf (checkHardTabs width) i l.text := by
        rw [fixesOf_hardTabs]
        exact List.mem_map_of_mem hrun
      exact .inr (.inr (PlacedLine.mem_tabFixes hmem))
  | deletion hblank hloose hdeletes =>
      exact .inr (.inl ⟨rfl, by simp [FencedLine.isLoose, hblank, hloose], hdeletes⟩)
  | @heading h hh hgap =>
      obtain ⟨before, gap, after, hsplit, -⟩ := exists_gapSplit hh
      refine .inr (.inr ⟨rfl, ?_, h.gap - 2, ?_⟩)
      · have hbefore := hsplit.units_before
        have hgap' := hsplit.units_gap
        rw [hsplit.line_eq, units_append, units_append]
        dsimp only [gapFix]
        omega
      · have hcount : h.gap - 1 = h.gap - 2 + 1 := by omega
        rw [← hcount]
        rfl
  | newline hlast => exact .inl ⟨rfl, hlast⟩

/-- No proposal complements another: a terminator is inserted where nothing is deleted. -/
theorem complements_eq_false (hcheck : check text config rules = .ok violations)
    {f g : PlannedFix} (hf : f ∈ selectedFixes violations choice)
    (hg : g ∈ selectedFixes violations choice) : f.complements g = false := by
  rw [← Bool.not_eq_true]
  intro hjoin
  simp only [PlannedFix.complements, Bool.and_eq_true, beq_iff_eq, decide_eq_true_eq] at hjoin
  obtain ⟨⟨⟨⟨⟨hline, hstart⟩, -⟩, hdeletes⟩, -⟩, hinserts⟩ := hjoin
  obtain ⟨l, hl, hf⟩ := proposal_of_selected hcheck hf
  obtain ⟨l', hl', hg⟩ := proposal_of_selected hcheck hg
  rw [hline] at hl' hg
  obtain rfl : l = l' := Option.some.inj (hl.symm.trans hl')
  -- the one that only inserts is the terminator, and no other fix starts there
  have hfirst : f.start = units l.text := by
    rcases hf.place with ⟨hf, -⟩ | ⟨hf, -⟩ | ⟨-, -, count, hremoval⟩
    · rw [hf]
      rfl
    · rw [hf] at hinserts
      simp [deletionFix, Removal.toInt] at hinserts
    · simp only [hremoval, Removal.toInt, Removal.maxCount] at hinserts
      omega
  rcases hg.place with ⟨hg, -⟩ | ⟨hg, -⟩ | ⟨-, hlt, -⟩
  · rw [hg] at hdeletes
    simp only [newlineFix, Removal.toInt, Removal.maxCount] at hdeletes
    omega
  · rw [hg] at hdeletes
    simp [deletionFix, Removal.toInt] at hdeletes
  · omega

/-! ### Lines that are no headings -/

/-- The fixes that expand the tabs of line `i`. -/
def tabFixes (width? : Option Nat) (i : Nat) (line : Line) : List PlannedFix :=
  width?.elim [] fun width => (tabRuns 1 line).map (tabFix width i)

/-- The fixes of a line that is no heading, from right to left; `selected` are those of the
batch. -/
def plainFixes (selected : List PlannedFix) (width? : Option Nat) (i : Nat) (line : Line) :
    List PlannedFix :=
  [newlineFix i line, trailingFix i line].filter (· ∈ selected) ++
    ((tabFixes width? i line).reverse ++ [deletionFix i].filter (· ∈ selected))

theorem mem_plainFixes (hcheck : check text config rules = .ok violations)
    (hl : (analyze (splitLines text))[i]? = some l) (hplain : Heading.ofLine? l.text = none) :
    f ∈ plainFixes (selectedFixes violations choice) (tabWidth? config choice i l) i l.text ↔
      f ∈ selectedFixes violations choice ∧ f.line = i := by
  simp only [plainFixes, List.mem_append, List.mem_filter, List.mem_cons, List.not_mem_nil,
    or_false, List.mem_reverse, decide_eq_true_eq]
  constructor
  · rintro (⟨rfl | rfl, hf⟩ | hf | ⟨rfl, hf⟩)
    · exact ⟨hf, rfl⟩
    · exact ⟨hf, rfl⟩
    · unfold tabFixes at hf
      cases hwidth : tabWidth? config choice i l with
      | none => simp [hwidth] at hf
      | some width =>
          rw [hwidth] at hf
          obtain ⟨run, hrun, rfl⟩ := List.mem_map.mp hf
          exact ⟨tabFix_mem_selectedFixes hcheck hl hwidth hrun, rfl⟩
    · exact ⟨hf, rfl⟩
  · rintro ⟨hf, hline⟩
    obtain ⟨l', hl', hproposal⟩ := proposal_of_selected hcheck hf
    rw [hline] at hl' hproposal
    obtain rfl : l = l' := Option.some.inj (hl.symm.trans hl')
    cases hproposal with
    | trailing htrim => exact .inl ⟨.inr rfl, hf⟩
    | tabs hwidth hrun =>
        refine .inr (.inl ?_)
        rw [hwidth]
        exact List.mem_map_of_mem hrun
    | deletion => exact .inr (.inr ⟨rfl, hf⟩)
    | heading hh =>
        rw [hplain] at hh
        cases hh
    | newline => exact .inl ⟨.inl rfl, hf⟩

theorem mem_tabFixes {width? : Option Nat} {line : Line} (h : f ∈ tabFixes width? i line) :
    f.line = i ∧ f.start < units (trimEndWhere (· == ' ') line) ∧
      ∃ count, f.removal = .chars (count + 1) := by
  obtain ⟨blanks, hline, hblanks, -⟩ := trimEndWhere_split line
  cases width? with
  | none => cases h
  | some width =>
      have hnone : '\t' ∉ blanks := fun hmem => by simpa using hblanks _ hmem
      have hmem : f ∈ fixesOf (checkHardTabs width) i (trimEndWhere (· == ' ') line) := by
        rw [fixesOf_hardTabs, ← tabRuns_append_of_not_mem hnone, ← hline]
        exact h
      exact PlacedLine.mem_tabFixes hmem

theorem plainFixes_strict (hcheck : check text config rules = .ok violations)
    (hl : (analyze (splitLines text))[i]? = some l) (width? : Option Nat) :
    (plainFixes (selectedFixes violations choice) width? i l.text).Pairwise
      PlannedFix.StrictlyBefore := by
  obtain ⟨blanks, hline, -⟩ := trimEndWhere_split l.text
  have hkept : units (trimEndWhere (· == ' ') l.text) ≤ units l.text := by
    conv_rhs => rw [hline, units_append]
    exact Nat.le_add_right _ _
  have htabs : (tabFixes width? i l.text).reverse.Pairwise PlannedFix.StrictlyBefore := by
    cases width? with
    | none => exact List.Pairwise.nil
    | some width =>
        have hstrict := PlacedLine.tabFixes_strict width i l.text
        rwa [fixesOf_hardTabs] at hstrict
  have hends : ([newlineFix i l.text, trailingFix i l.text].filter
      (· ∈ selectedFixes violations choice)).Pairwise PlannedFix.StrictlyBefore := by
    rw [List.pairwise_filter, List.pairwise_pair]
    intro _ hselected
    obtain ⟨l', hl', hproposal⟩ :=
      proposal_of_selected hcheck (of_decide_eq_true hselected)
    obtain rfl : l = l' := Option.some.inj (hl.symm.trans hl')
    refine PlannedFix.strictlyBefore_of_chars rfl rfl rfl (.inl ?_)
    rcases hproposal.place with ⟨heq, -⟩ | ⟨heq, -⟩ | ⟨-, hlt, -⟩
    · simp [trailingFix, newlineFix] at heq
    · simp [trailingFix, deletionFix] at heq
    · exact hlt
  refine List.pairwise_append.mpr ⟨hends, List.pairwise_append.mpr ⟨htabs, ?_, ?_⟩, ?_⟩
  · exact (List.pairwise_singleton _ _).filter _
  · intro f hf g hg
    obtain ⟨hfline, -, count, hremoval⟩ := mem_tabFixes (List.mem_reverse.mp hf)
    obtain rfl := List.mem_singleton.mp (List.mem_of_mem_filter hg)
    exact PlannedFix.strictlyBefore_of_wholeLine hfline hremoval rfl
  · intro f hf g hg
    have hplace : f.line = i ∧ units (trimEndWhere (· == ' ') l.text) ≤ f.start ∧
        ∃ count, f.removal = .chars count := by
      have hmem := List.mem_of_mem_filter hf
      simp only [List.mem_cons, List.not_mem_nil, or_false] at hmem
      rcases hmem with rfl | rfl
      · exact ⟨rfl, hkept, _, rfl⟩
      · exact ⟨rfl, Nat.le_refl _, _, rfl⟩
    obtain ⟨hfline, hle, count, hremoval⟩ := hplace
    rcases List.mem_append.mp hg with hg | hg
    · obtain ⟨hgline, hlt, count', hremoval'⟩ := mem_tabFixes (List.mem_reverse.mp hg)
      exact PlannedFix.strictlyBefore_of_chars (hfline.trans hgline.symm) hremoval hremoval'
        (.inl (hlt.trans_le hle))
    · obtain rfl := List.mem_singleton.mp (List.mem_of_mem_filter hg)
      exact PlannedFix.strictlyBefore_of_wholeLine hfline hremoval rfl

/-- A batch considers the fixes of a line that is no heading from right to left. -/
theorem filter_plannedFixes_plain (hcheck : check text config rules = .ok violations)
    (hl : (analyze (splitLines text))[i]? = some l) (hplain : Heading.ofLine? l.text = none) :
    (plannedFixes violations choice).filter (·.line = i) =
      plainFixes (selectedFixes violations choice) (tabWidth? config choice i l) i l.text :=
  filter_plannedFixes (fun _ hf _ hg => complements_eq_false hcheck hf hg)
    (fun _ => mem_plainFixes hcheck hl hplain) (plainFixes_strict hcheck hl _)

end Cases

end LintDesk.Rule
