import LintDesk.Proofs.Edit.ByLine
import LintDesk.Proofs.Rule.TidyText

/-! # The fixes that are proposed for a line

Under the default configuration the fixes of a line are, from right to left, its missing
terminator, its trailing blanks, its tabs and the gap of its heading; the deletion of a surplus
line comes last. A batch considers them in this order (`filter_plannedFixes_check`).
-/

namespace LintDesk.Rule

/-! ### Runs of tabs -/

theorem le_column_of_mem_tabRuns {column : Nat} {s : List Char} {run : Span}
    (h : run ∈ tabRuns column s) : column ≤ run.column := by
  obtain ⟨before, after, -, hcolumn⟩ := tabRuns_split h
  omega

theorem units_replicate {c : Char} (h : charUnits c = 1) (n : Nat) :
    units (List.replicate n c) = n := by
  rw [units_of_forall (p := (· == c)) (by simpa using h) (by simp +contextual),
    List.length_replicate]

theorem length_le_of_mem_tabRuns {column : Nat} {s : List Char} {run : Span}
    (h : run ∈ tabRuns column s) : run.length ≤ units s := by
  obtain ⟨before, after, rfl, -⟩ := tabRuns_split h
  rw [units_append, units_append, units_replicate rfl]
  omega

theorem tabRuns_append_of_not_mem {b : List Char} (h : '\t' ∉ b) (column : Nat) (s : List Char) :
    tabRuns column (s ++ b) = tabRuns column s := by
  induction s generalizing column with
  | nil => exact tabRuns_of_not_mem h column
  | cons c s ih => rw [List.cons_append, tabRuns, tabRuns, ih]

theorem tabRuns_replicate (n column : Nat) {b : List Char} (hb : b.head? ≠ some '\t') :
    tabRuns column (List.replicate (n + 1) '\t' ++ b) =
      ⟨column, n + 1⟩ :: tabRuns (column + (n + 1)) b := by
  have htab : charUnits '\t' = 1 := rfl
  induction n generalizing column with
  | zero =>
      -- what follows starts at least one column further on, so it is not joined
      have hlater : ∀ run ∈ tabRuns (column + 1) b, run.column ≠ column + 1 := by
        intro run hrun
        cases b with
        | nil => simp [tabRuns] at hrun
        | cons c b =>
            have hc : c ≠ '\t' := by simpa using hb
            have hpos := charUnits_pos c
            rw [tabRuns, if_neg (by simpa using hc)] at hrun
            have hle := le_column_of_mem_tabRuns hrun
            omega
      change tabRuns column ('\t' :: b) = _
      rw [tabRuns, htab]
      cases hruns : tabRuns (column + 1) b with
      | nil => rfl
      | cons run more =>
          have hne : run.column ≠ column + 1 := hlater run (by simp [hruns])
          simp [hne]
  | succ n ih =>
      have hrun := ih (column + 1)
      rw [Nat.add_assoc, Nat.add_comm 1 (n + 1)] at hrun
      change tabRuns column ('\t' :: (List.replicate (n + 1) '\t' ++ b)) = _
      rw [tabRuns, htab, hrun]
      simp

/-- A text is cut at its runs of tabs, from left to right. -/
inductive TabSplit : List Char → Prop
  | none {s : List Char} (h : '\t' ∉ s) : TabSplit s
  | run {a b : List Char} (n : Nat) (ha : '\t' ∉ a) (hb : b.head? ≠ some '\t')
      (rest : TabSplit b) : TabSplit (a ++ (List.replicate (n + 1) '\t' ++ b))

theorem tabSplit (s : List Char) : TabSplit s := by
  induction s with
  | nil => exact .none (by simp)
  | cons c s ih =>
      by_cases hc : c = '\t'
      · subst hc
        cases ih with
        | none h =>
            refine .run (a := []) (b := s) 0 (by simp) (fun hhead => h ?_) (.none h)
            exact List.mem_of_head? hhead
        | @run a b n ha hb rest =>
            cases a with
            | nil => exact .run (a := []) (n + 1) (by simp) hb rest
            | cons d a =>
                have hd : d ≠ '\t' := fun heq => ha (by simp [heq])
                exact .run (a := []) 0 (by simp) (by simpa using hd) (.run n ha hb rest)
      · cases ih with
        | none h => exact .none (by simp [h, Ne.symm hc])
        | @run a b n ha hb rest =>
            exact .run (a := c :: a) n (by simp [ha, Ne.symm hc]) hb rest

theorem tabRuns_run {a b : List Char} (n : Nat) (ha : '\t' ∉ a) (hb : b.head? ≠ some '\t')
    (column : Nat) : tabRuns column (a ++ (List.replicate (n + 1) '\t' ++ b)) =
      ⟨column + units a, n + 1⟩ :: tabRuns (column + units a + (n + 1)) b := by
  rw [tabRuns_append ha, tabRuns_replicate n _ hb]

theorem tabRuns_pairwise (column : Nat) (s : List Char) :
    (tabRuns column s).Pairwise fun a b => a.column < b.column := by
  induction tabSplit s generalizing column with
  | none h => simp [tabRuns_of_not_mem h]
  | run n ha hb rest ih =>
      rw [tabRuns_run n ha hb]
      refine List.pairwise_cons.mpr ⟨fun run hrun => ?_, ih _⟩
      have hle := le_column_of_mem_tabRuns hrun
      dsimp only
      omega

theorem column_lt_of_mem_tabRuns {column : Nat} {s : List Char} {run : Span}
    (h : run ∈ tabRuns column s) : run.column < column + units s ∧ 0 < run.length := by
  induction tabSplit s generalizing column with
  | none hnone => simp [tabRuns_of_not_mem hnone] at h
  | run n ha hb rest ih =>
      rw [tabRuns_run n ha hb] at h
      rw [units_append, units_append, units_replicate rfl]
      rcases List.mem_cons.mp h with rfl | h
      · exact ⟨by dsimp only; omega, by dsimp only; omega⟩
      · obtain ⟨hlt, hpos⟩ := ih h
        exact ⟨by omega, hpos⟩

/-! ### Trailing blanks -/

theorem trimEndWhere_append_of_text {p : Char → Bool} {b : List Char} (h : ∃ c ∈ b, p c = false)
    (a : List Char) : trimEndWhere p (a ++ b) = a ++ trimEndWhere p b := by
  obtain ⟨c, hc, hp⟩ := h
  have hne : (b.reverse.dropWhile p).isEmpty = false := by
    rw [List.isEmpty_eq_false_iff]
    intro hnil
    have hall := List.dropWhile_eq_nil_iff.mp hnil c (List.mem_reverse.mpr hc)
    rw [hp] at hall
    cases hall
  rw [trimEndWhere, List.reverse_append, List.dropWhile_append, hne]
  simp [trimEndWhere]

theorem isBlankLine_trimEndWhere (line : Line) :
    isBlankLine (trimEndWhere (· == ' ') line) = isBlankLine line := by
  have hnone : visibleChars (line.reverse.takeWhile (· == ' ')).reverse = [] := by
    refine visibleChars_of_blanks fun c hc => .inl ?_
    simpa using List.mem_takeWhile_imp (List.mem_reverse.mp hc)
  rw [Bool.eq_iff_iff, ← visibleChars_eq_nil, ← visibleChars_eq_nil]
  conv_rhs => rw [← trimEndWhere_append (· == ' ') line, visibleChars_append, hnone,
    List.append_nil]

/-- Trailing blanks are looked for in the part of a line that has text in it. -/
theorem dropTrailing_append_of_text {b : List Char} (h : ∃ c ∈ b, isBlank c = false)
    (a : List Char) : dropTrailing (a ++ b) = a ++ dropTrailing b := by
  have htext : ∀ s : List Char, (∃ c ∈ s, isBlank c = false) → isBlankLine s = false := by
    rintro s ⟨c, hc, hblank⟩
    rw [← Bool.not_eq_true, isBlankLine, List.all_eq_true]
    intro hall
    rw [hall c hc] at hblank
    cases hblank
  have hblank : ∀ c, isBlank c = false → (c == ' ') = false := by
    intro c hc
    rw [beq_eq_false_iff_ne]
    rintro rfl
    cases hc
  have htrim := trimEndWhere_append_of_text (h.imp fun c hc => ⟨hc.1, hblank c hc.2⟩) a
  have hlength : (a ++ b).length - (a ++ trimEndWhere (· == ' ') b).length =
      b.length - (trimEndWhere (· == ' ') b).length := by
    rw [List.length_append, List.length_append]
    omega
  unfold dropTrailing
  dsimp only
  rw [isBlankLine_trimEndWhere, isBlankLine_trimEndWhere, htext b h,
    htext (a ++ b) (h.imp fun c hc => ⟨List.mem_append_right a hc.1, hc.2⟩), htrim, hlength]
  split <;> rfl

/-! ### The fixes of one line -/

/-- The fixes that a rule proposes for line `i`. -/
def fixesOf (check : Nat → Line → List Violation) (i : Nat) (line : Line) : List PlannedFix :=
  (check (i + 1) line).filterMap PlannedFix.ofViolation?

/-- The fix of a run of tabs on line `i`. -/
def tabFix (width i : Nat) (run : Span) : PlannedFix :=
  ⟨i, run.column - 1, .chars run.length,
    String.ofList (List.replicate (blanksFor width run.length) ' ')⟩

theorem fixesOf_trailingSpaces (i : Nat) (line : Line) :
    ∃ blanks, line = dropTrailing line ++ blanks ∧ (∀ c ∈ blanks, c = ' ') ∧
      fixesOf (checkTrailingSpaces 2) i line =
        if blanks = [] then []
        else [⟨i, units (dropTrailing line), .chars (units blanks), ""⟩] := by
  have hsplit := trimEndWhere_append (· == ' ') line
  have hblanks : ∀ c ∈ (line.reverse.takeWhile (· == ' ')).reverse, c = ' ' := by
    intro c hc
    simpa using List.mem_takeWhile_imp (List.mem_reverse.mp hc)
  generalize (line.reverse.takeWhile (· == ' ')).reverse = blanks at hsplit hblanks
  have hunits : units blanks = blanks.length :=
    units_of_forall (p := (· == ' ')) (by simp +contextual [charUnits]) (by simpa using hblanks)
  have hcount : line.length - (trimEndWhere (· == ' ') line).length = blanks.length := by
    have hlength := congrArg List.length hsplit
    rw [List.length_append] at hlength
    omega
  unfold fixesOf checkTrailingSpaces dropTrailing
  dsimp only
  rw [hcount]
  by_cases hbreak : blanks.length = 2 ∧ isBlankLine (trimEndWhere (· == ' ') line) = false
  · refine ⟨[], by simp [hbreak], by simp, ?_⟩
    simp [hbreak]
  · refine ⟨blanks, by rw [if_neg hbreak, hsplit], hblanks, ?_⟩
    rw [if_neg hbreak]
    cases blanks with
    | nil => rfl
    | cons c blanks =>
        rw [if_neg (by simpa using hbreak), if_neg (by simp), ← hunits]
        rfl

theorem fixesOf_hardTabs (width i : Nat) (line : Line) :
    fixesOf (checkHardTabs width) i line = (tabRuns 1 line).map (tabFix width i) := by
  unfold fixesOf checkHardTabs
  rw [List.filterMap_map, ← List.filterMap_eq_map]
  congr 1

theorem fixesOf_headingSpace (i : Nat) (line : Line) :
    (fixesOf checkHeadingSpace i line = [] ∧ narrowGap line = line) ∨
      ∃ h before gap after, GapSplit line h before gap after ∧ gap ≠ [] ∧
        fixesOf checkHeadingSpace i line = [⟨i, units before, .chars (units gap), ""⟩] ∧
        narrowGap line = if '\t' ∈ gap then line else before ++ after := by
  unfold fixesOf checkHeadingSpace
  cases hh : Heading.ofLine? line with
  | none => exact .inl ⟨rfl, by simp [narrowGap, hh]⟩
  | some h =>
      obtain ⟨before, gap, after, hsplit, hnarrow⟩ := exists_gapSplit hh
      have hgap := hsplit.units_gap
      dsimp only
      by_cases hwide : h.gap ≥ 2
      · rw [if_pos hwide]
        refine .inr ⟨h, before, gap, after, hsplit, ?_, ?_, hnarrow⟩
        · rintro rfl
          rw [units_nil] at hgap
          omega
        · rw [hgap, hsplit.units_before]
          rfl
      · have hnil : gap = [] := (units_eq_zero gap).mp (by omega)
        rw [if_neg hwide]
        refine .inl ⟨rfl, ?_⟩
        rw [hnarrow, hsplit.line_eq, hnil]
        simp

/-! ### Lines in their places -/

/-- A line with what matters about its place: a surplus line is a loose one after another, and an
unended line is a last one that is not blank. -/
structure PlacedLine where
  line : FencedLine
  surplus : Bool
  unended : Bool

/-- The lines of a text in their places; `before` says whether a loose line comes before. -/
def placedLines : (before : Bool) → List FencedLine → List PlacedLine
  | _, [] => []
  | before, l :: rest =>
    ⟨l, before && l.isLoose, rest.isEmpty && !isBlankLine l.text⟩ :: placedLines l.isLoose rest

namespace PlacedLine

/-- The fix that ends an unended line. -/
def newlineFixes (i : Nat) (p : PlacedLine) : List PlannedFix :=
  if p.unended then [⟨i, units p.line.text, .chars 0, "\n"⟩] else []

/-- The fix of the heading that a line may be. -/
def headingFixes (i : Nat) (p : PlacedLine) : List PlannedFix :=
  if p.line.inFence then [] else fixesOf checkHeadingSpace i p.line.text

/-- The deletion of a surplus line. -/
def deletions (i : Nat) (p : PlacedLine) : List PlannedFix :=
  if p.surplus then [⟨i, 0, .wholeLine, ""⟩] else []

/-- The fixes inside a line, from right to left. -/
def innerFixes (i : Nat) (p : PlacedLine) : List PlannedFix :=
  fixesOf (checkTrailingSpaces 2) i p.line.text ++
    ((fixesOf (checkHardTabs 1) i p.line.text).reverse ++ p.headingFixes i)

/-- All fixes of a line, in the order a batch considers them. -/
def fixes (i : Nat) (p : PlacedLine) : List PlannedFix :=
  p.newlineFixes i ++ (p.innerFixes i ++ p.deletions i)

/-! ### Their order -/

theorem mem_newlineFixes {i : Nat} {p : PlacedLine} {f : PlannedFix} (h : f ∈ p.newlineFixes i) :
    p.unended = true ∧ f = ⟨i, units p.line.text, .chars 0, "\n"⟩ := by
  unfold newlineFixes at h
  split at h
  · next hunended => exact ⟨hunended, List.mem_singleton.mp h⟩
  · cases h

theorem mem_deletions {i : Nat} {p : PlacedLine} {f : PlannedFix} (h : f ∈ p.deletions i) :
    p.surplus = true ∧ f = ⟨i, 0, .wholeLine, ""⟩ := by
  unfold deletions at h
  split at h
  · next hsurplus => exact ⟨hsurplus, List.mem_singleton.mp h⟩
  · cases h

/-- A heading has at most one fix, which closes its gap. -/
theorem headingFixes_cases (i : Nat) (p : PlacedLine) :
    p.headingFixes i = [] ∨ ∃ h before gap after, GapSplit p.line.text h before gap after ∧
      0 < units gap ∧ p.headingFixes i = [⟨i, units before, .chars (units gap), ""⟩] := by
  unfold headingFixes
  split
  · exact .inl rfl
  · rcases fixesOf_headingSpace i p.line.text with ⟨hnone, -⟩ |
      ⟨h, before, gap, after, hsplit, hgap, hfixes, -⟩
    · exact .inl hnone
    · have hpos : 0 < units gap := Nat.pos_of_ne_zero fun hzero => hgap ((units_eq_zero _).mp hzero)
      exact .inr ⟨h, before, gap, after, hsplit, hpos, hfixes⟩

theorem mem_tabFixes {width i : Nat} {line : Line} {f : PlannedFix}
    (h : f ∈ fixesOf (checkHardTabs width) i line) :
    f.line = i ∧ f.start < units line ∧ ∃ count, f.removal = .chars (count + 1) := by
  rw [fixesOf_hardTabs] at h
  obtain ⟨run, hrun, rfl⟩ := List.mem_map.mp h
  have hle := le_column_of_mem_tabRuns hrun
  obtain ⟨hlt, hlength⟩ := column_lt_of_mem_tabRuns hrun
  obtain ⟨count, hcount⟩ := Nat.exists_eq_add_one_of_ne_zero hlength.ne'
  exact ⟨rfl, by dsimp only [tabFix]; omega, count, by rw [tabFix, hcount]⟩

theorem mem_innerFixes {i : Nat} {p : PlacedLine} {f : PlannedFix} (h : f ∈ p.innerFixes i) :
    f.line = i ∧ f.start < units p.line.text ∧ ∃ count, f.removal = .chars (count + 1) := by
  simp only [innerFixes, List.mem_append, List.mem_reverse] at h
  rcases h with h | h | h
  · obtain ⟨blanks, hline, -, hfixes⟩ := fixesOf_trailingSpaces i p.line.text
    rw [hfixes] at h
    split at h
    · cases h
    · next hblanks =>
        obtain ⟨count, hcount⟩ := Nat.exists_eq_add_one_of_ne_zero
          fun hzero => hblanks ((units_eq_zero blanks).mp hzero)
        obtain rfl := List.mem_singleton.mp h
        refine ⟨rfl, ?_, count, by rw [hcount]⟩
        conv_rhs => rw [hline, units_append, hcount]
        exact Nat.lt_add_of_pos_right (Nat.succ_pos count)
  · exact mem_tabFixes h
  · rcases headingFixes_cases i p with hnone | ⟨h', before, gap, after, hsplit, hgap, hfixes⟩
    · rw [hnone] at h
      cases h
    · rw [hfixes] at h
      obtain ⟨count, hcount⟩ := Nat.exists_eq_add_one_of_ne_zero hgap.ne'
      obtain rfl := List.mem_singleton.mp h
      refine ⟨rfl, ?_, count, by rw [hcount]⟩
      rw [hsplit.line_eq, units_append, units_append, hcount]
      dsimp only
      omega

theorem tabFixes_strict (width i : Nat) (line : Line) :
    (fixesOf (checkHardTabs width) i line).reverse.Pairwise PlannedFix.StrictlyBefore := by
  rw [fixesOf_hardTabs, List.pairwise_reverse, List.pairwise_map]
  refine (tabRuns_pairwise 1 line).imp_of_mem fun ha hb hlt => ?_
  have hle := le_column_of_mem_tabRuns ha
  exact PlannedFix.strictlyBefore_of_chars rfl rfl rfl (.inl (by dsimp only [tabFix]; omega))

/-- The fix of a heading comes after those of all tabs: a tab of its gap is to the right of where
it starts, or there as well. -/
theorem tabFixes_before_heading {i : Nat} {p : PlacedLine} {f g : PlannedFix}
    (hsmall : units p.line.text < 2 ^ 63)
    (hf : f ∈ fixesOf (checkHardTabs 1) i p.line.text) (hg : g ∈ p.headingFixes i) :
    f.StrictlyBefore g := by
  rcases headingFixes_cases i p with hnone | ⟨h, before, gap, after, hsplit, hgap, hfixes⟩
  · rw [hnone] at hg
    cases hg
  · rw [hfixes] at hg
    obtain rfl := List.mem_singleton.mp hg
    have hbefore : '\t' ∉ before := by
      intro hmem
      rcases hsplit.before_chars _ hmem with heq | heq <;> cases heq
    rw [fixesOf_hardTabs] at hf
    obtain ⟨run, hrun, rfl⟩ := List.mem_map.mp hf
    have hword : run.length < UInt64.size :=
      (length_le_of_mem_tabRuns hrun).trans_lt (hsmall.trans (by decide))
    rw [hsplit.line_eq, tabRuns_append hbefore] at hrun
    have hle := le_column_of_mem_tabRuns hrun
    obtain ⟨-, hlength⟩ := column_lt_of_mem_tabRuns hrun
    have hinserted : (tabFix 1 i run).insertedUnits = run.length := by
      rw [PlannedFix.insertedUnits, tabFix, String.toList_ofList, units_replicate rfl, blanksFor,
        Nat.mul_one, Nat.mod_eq_of_lt hword]
    have hnone : units "".toList = 0 := rfl
    refine PlannedFix.strictlyBefore_of_chars rfl rfl rfl ?_
    simp only [PlannedFix.insertedUnits] at hinserted ⊢
    rw [hinserted, hnone]
    dsimp only [tabFix]
    omega

/-- Tabs and the gap of a heading are before the trailing blanks. -/
theorem start_lt_dropTrailing {i : Nat} {p : PlacedLine} {f : PlannedFix}
    (h : f ∈ fixesOf (checkHardTabs 1) i p.line.text ∨ f ∈ p.headingFixes i) :
    f.start < units (dropTrailing p.line.text) := by
  rcases h with h | h
  · obtain ⟨blanks, hline, hblanks, -⟩ := fixesOf_trailingSpaces i p.line.text
    have hnone : '\t' ∉ blanks := fun hmem => by simpa using hblanks _ hmem
    rw [fixesOf_hardTabs, hline, tabRuns_append_of_not_mem hnone, ← fixesOf_hardTabs] at h
    exact (mem_tabFixes h).2.1
  · rcases headingFixes_cases i p with hnone | ⟨h', before, gap, after, hsplit, hgap, hfixes⟩
    · rw [hnone] at h
      cases h
    · rw [hfixes] at h
      obtain rfl := List.mem_singleton.mp h
      rw [hsplit.line_eq, ← List.append_assoc, dropTrailing_append_of_text hsplit.text,
        units_append, units_append]
      dsimp only
      omega

theorem innerFixes_strict (i : Nat) {p : PlacedLine} (hsmall : units p.line.text < 2 ^ 63) :
    (p.innerFixes i).Pairwise PlannedFix.StrictlyBefore := by
  obtain ⟨blanks, -, -, htrailing⟩ := fixesOf_trailingSpaces i p.line.text
  unfold innerFixes
  refine List.pairwise_append.mpr
    ⟨?_, List.pairwise_append.mpr ⟨tabFixes_strict 1 i p.line.text, ?_, ?_⟩, ?_⟩
  · rw [htrailing]
    split <;> simp
  · rcases headingFixes_cases i p with hnone | ⟨_, _, _, _, -, -, hfixes⟩
    · simp [hnone]
    · simp [hfixes]
  · intro f hf g hg
    exact tabFixes_before_heading hsmall (List.mem_reverse.mp hf) hg
  · intro f hf g hg
    obtain ⟨hgline, -, count, hremoval⟩ := mem_innerFixes (List.mem_append_right _ hg)
    have hlt : g.start < units (dropTrailing p.line.text) :=
      start_lt_dropTrailing ((List.mem_append.mp hg).imp_left List.mem_reverse.mp)
    rw [htrailing] at hf
    split at hf
    · cases hf
    · obtain rfl := List.mem_singleton.mp hf
      exact PlannedFix.strictlyBefore_of_chars hgline.symm rfl hremoval (.inl hlt)

theorem fixes_strict (i : Nat) {p : PlacedLine} (hsmall : units p.line.text < 2 ^ 63) :
    (p.fixes i).Pairwise PlannedFix.StrictlyBefore := by
  unfold fixes
  refine List.pairwise_append.mpr
    ⟨?_, List.pairwise_append.mpr ⟨innerFixes_strict i hsmall, ?_, ?_⟩, ?_⟩
  · unfold newlineFixes
    split <;> simp
  · unfold deletions
    split <;> simp
  · intro f hf g hg
    obtain ⟨hfline, -, count, hremoval⟩ := mem_innerFixes hf
    obtain ⟨-, rfl⟩ := mem_deletions hg
    exact PlannedFix.strictlyBefore_of_wholeLine hfline hremoval rfl
  · intro f hf g hg
    obtain ⟨-, rfl⟩ := mem_newlineFixes hf
    rcases List.mem_append.mp hg with hg | hg
    · obtain ⟨hgline, hlt, count, hremoval⟩ := mem_innerFixes hg
      exact PlannedFix.strictlyBefore_of_chars hgline.symm rfl hremoval (.inl hlt)
    · obtain ⟨-, rfl⟩ := mem_deletions hg
      exact PlannedFix.strictlyBefore_of_wholeLine rfl rfl rfl

/-- No fix of a line complements another: a terminator is inserted where nothing is deleted. -/
theorem fixes_complements {i : Nat} {p : PlacedLine} {f g : PlannedFix} (hf : f ∈ p.fixes i)
    (hg : g ∈ p.fixes i) : f.complements g = false := by
  rw [← Bool.not_eq_true]
  intro hjoin
  simp only [PlannedFix.complements, Bool.and_eq_true, beq_iff_eq, decide_eq_true_eq] at hjoin
  obtain ⟨⟨⟨⟨⟨-, hstart⟩, -⟩, hdeletes⟩, -⟩, hinserts⟩ := hjoin
  -- the one that only inserts is the terminator, and no other fix starts there
  have hfirst : f.start = units p.line.text := by
    rcases List.mem_append.mp hf with hf | hf
    · rw [(mem_newlineFixes hf).2]
    · rcases List.mem_append.mp hf with hf | hf
      · obtain ⟨-, -, count, hremoval⟩ := mem_innerFixes hf
        simp only [hremoval, Removal.toInt, Removal.maxCount] at hinserts
        omega
      · rw [(mem_deletions hf).2] at hinserts
        simp [Removal.toInt] at hinserts
  rcases List.mem_append.mp hg with hg | hg
  · rw [(mem_newlineFixes hg).2] at hdeletes
    simp only [Removal.toInt, Removal.maxCount] at hdeletes
    omega
  · rcases List.mem_append.mp hg with hg | hg
    · have hlt := (mem_innerFixes hg).2.1
      omega
    · rw [(mem_deletions hg).2] at hdeletes
      simp [Removal.toInt] at hdeletes

theorem line_of_mem_fixes {i : Nat} {p : PlacedLine} {f : PlannedFix} (h : f ∈ p.fixes i) :
    f.line = i := by
  rcases List.mem_append.mp h with h | h
  · rw [(mem_newlineFixes h).2]
  · rcases List.mem_append.mp h with h | h
    · exact (mem_innerFixes h).1
    · rw [(mem_deletions h).2]

end PlacedLine

/-! ### The fixes of a text, line by line -/

theorem line_placedLines (before : Bool) (lines : List FencedLine) :
    (placedLines before lines).map (·.line) = lines := by
  induction lines generalizing before with
  | nil => rfl
  | cons l rest ih => rw [placedLines, List.map_cons, ih]

theorem text_mem_of_placedLines {before : Bool} {fence : Option Fence} {lines : List Line}
    {p : PlacedLine} (h : p ∈ placedLines before (markFences fence lines)) :
    p.line.text ∈ lines := by
  have hline : p.line ∈ (placedLines before (markFences fence lines)).map (·.line) :=
    List.mem_map_of_mem h
  rw [line_placedLines] at hline
  have htext := List.mem_map_of_mem (f := FencedLine.text) hline
  rwa [text_markFences] at htext

theorem filterMap_eachLine (before : Bool) (lines : List FencedLine) (applies : FencedLine → Bool)
    (check : Nat → Line → List Violation) :
    (eachLine lines applies check).filterMap PlannedFix.ofViolation? =
      (placedLines before lines).zipIdx.flatMap fun (p, i) =>
        if applies p.line then fixesOf check i p.line.text else [] := by
  conv_lhs => rw [← line_placedLines before lines]
  unfold eachLine
  rw [List.zipIdx_map, List.flatMap_map, List.filterMap_flatMap]
  congr 1
  funext ⟨p, i⟩
  dsimp only [Prod.map, id]
  split <;> rfl

theorem filterMap_checkBlankRuns (count start : Nat) (lines : List FencedLine) :
    (checkBlankRuns 1 count (start + 1) lines).filterMap PlannedFix.ofViolation? =
      ((placedLines (0 < count) lines).zipIdx start).flatMap fun (p, i) => p.deletions i := by
  induction lines generalizing count start with
  | nil => rfl
  | cons l rest ih =>
      rw [placedLines, List.zipIdx_cons, List.flatMap_cons, checkBlankRuns_cons]
      cases l.isLoose with
      | false => simpa [PlacedLine.deletions] using ih 0 (start + 1)
      | true =>
          have hrest := ih (count + 1) (start + 1)
          rw [decide_eq_true (Nat.succ_pos count)] at hrest
          rcases Nat.eq_zero_or_pos count with rfl | hcount
          · simp [PlacedLine.deletions, hrest]
          · simp [PlacedLine.deletions, hcount, hcount.ne', hrest, PlannedFix.ofViolation?,
              RuleHead.violation, Fix.deleteLine]

/-- Only the last line may be unended. -/
theorem flatMap_newlineFixes (before : Bool) (start : Nat) (lines : List FencedLine)
    (last : FencedLine) :
    (((placedLines before (lines ++ [last])).zipIdx start).flatMap fun (p, i) => p.newlineFixes i) =
      if isBlankLine last.text then []
      else [⟨start + lines.length, units last.text, .chars 0, "\n"⟩] := by
  induction lines generalizing before start with
  | nil =>
      cases hblank : isBlankLine last.text <;>
        simp [placedLines, PlacedLine.newlineFixes, hblank]
  | cons l lines ih =>
      have hplace : start + 1 + lines.length = start + (lines.length + 1) := by omega
      rw [List.cons_append, placedLines, List.zipIdx_cons, List.flatMap_cons, ih]
      simp [PlacedLine.newlineFixes, hplace]

theorem filterMap_checkFinalNewline (before : Bool) (lines : List FencedLine) :
    (checkFinalNewline lines).filterMap PlannedFix.ofViolation? =
      (placedLines before lines).zipIdx.flatMap fun (p, i) => p.newlineFixes i := by
  rcases List.eq_nil_or_concat lines with rfl | ⟨init, last, rfl⟩
  · rfl
  · rw [List.concat_eq_append, flatMap_newlineFixes]
    unfold checkFinalNewline
    rw [List.getLast?_append_of_ne_nil _ (by simp), List.getLast?_singleton]
    dsimp only
    split
    · rfl
    · rw [List.length_append, List.length_singleton, Nat.zero_add]
      rfl

/-- Of fixes that are listed line by line, those of one line are the ones listed for it. -/
theorem filter_flatMap_zipIdx {α : Type} {fixes : α × Nat → List PlannedFix}
    (hline : ∀ a i, ∀ f ∈ fixes (a, i), f.line = i) (l : List α) (start i : Nat) :
    ((l.zipIdx start).flatMap fixes).filter (·.line = start + i) =
      (l[i]?.map fun a => fixes (a, start + i)).getD [] := by
  induction l generalizing start i with
  | nil => rfl
  | cons a l ih =>
      rw [List.zipIdx_cons, List.flatMap_cons, List.filter_append]
      cases i with
      | zero =>
          have hown : (fixes (a, start)).filter (·.line = start + 0) = fixes (a, start) :=
            List.filter_eq_self.mpr fun f hf => by simpa using hline a start f hf
          have hlater :
              ((l.zipIdx (start + 1)).flatMap fixes).filter (·.line = start + 0) = [] := by
            refine List.filter_eq_nil_iff.mpr fun f hf => ?_
            obtain ⟨⟨b, j⟩, hmem, hf⟩ := List.mem_flatMap.mp hf
            have hle := (List.mem_zipIdx hmem).1
            rw [hline b j f hf]
            simpa using Nat.ne_of_gt hle
          rw [hown, hlater, List.append_nil]
          rfl
      | succ i =>
          have hown : (fixes (a, start)).filter (·.line = start + (i + 1)) = [] := by
            refine List.filter_eq_nil_iff.mpr fun f hf => ?_
            rw [hline a start f hf]
            simp
          rw [hown, List.nil_append, ← Nat.add_assoc, Nat.add_right_comm, ih]
          rfl

/-- The fixes of line `i` of a text. -/
def lineFixes (lines : List FencedLine) (i : Nat) : List PlannedFix :=
  ((placedLines false lines)[i]?.map (PlacedLine.fixes i)).getD []

/-- A check without custom rules succeeds. -/
theorem check_builtin (text : List Char) (config : RuleConfig) :
    check text config [] =
      .ok (sortByLine (builtinViolations config (analyze (splitLines text)))) := by
  simp [check, customViolations]

theorem line_le_trans (u v w : Violation) (huv : decide (u.line ≤ v.line) = true)
    (hvw : decide (v.line ≤ w.line) = true) : decide (u.line ≤ w.line) = true := by
  simp only [decide_eq_true_eq] at huv hvw ⊢
  exact huv.trans hvw

theorem line_le_total (v w : Violation) :
    (decide (v.line ≤ w.line) || decide (w.line ≤ v.line)) = true := by
  simpa using Nat.le_total v.line w.line

theorem sortByLine_eq_insertionSort (violations : List Violation) :
    sortByLine violations = violations.insertionSort fun v w => v.line ≤ w.line := by
  rw [sortByLine, mergeSort_eq_insertionSort line_le_trans line_le_total]
  simp only [decide_eq_true_eq]

/-- All fixes of a check under the default configuration are selected. -/
theorem selectedFixes_all {text : List Char} {violations : List Violation}
    (h : check text .default [] = .ok violations) :
    (selectedFixes violations .all).Perm
      ((builtinViolations .default (analyze (splitLines text))).filterMap
        PlannedFix.ofViolation?) := by
  obtain rfl := Except.ok.inj ((check_builtin text .default).symm.trans h)
  have hall : ∀ vs : List Violation, vs.filter FixChoice.all.accepts = vs :=
    fun _ => List.filter_eq_self.mpr fun _ _ => rfl
  rw [selectedFixes, hall]
  exact (List.mergeSort_perm _ _).filterMap _

/-- The fixes of one line are those of its place, in some order. -/
theorem selectedFixes_perm {text : List Char} {violations : List Violation}
    (h : check text .default [] = .ok violations) (i : Nat) :
    ((selectedFixes violations .all).filter (·.line = i)).Perm
      (lineFixes (analyze (splitLines text)) i) := by
  refine ((selectedFixes_all h).filter _).trans ?_
  generalize analyze (splitLines text) = lines
  rw [builtinViolations_default]
  simp only [List.filterMap_append, List.filter_append]
  rw [filterMap_eachLine false, filterMap_eachLine false, filterMap_eachLine false,
    filterMap_checkFinalNewline false, filterMap_checkBlankRuns 0 0]
  have hpart {fixes : PlacedLine × Nat → List PlannedFix}
      (hfixes : ∀ p i, ∀ f ∈ fixes (p, i), f ∈ PlacedLine.fixes i p) :
      ((placedLines false lines).zipIdx.flatMap fixes).filter (·.line = i) =
        ((placedLines false lines)[i]?.map fun p => fixes (p, i)).getD [] := by
    have hfilter := filter_flatMap_zipIdx
      (fun p i f hf => PlacedLine.line_of_mem_fixes (hfixes p i f hf)) (placedLines false lines) 0 i
    rwa [Nat.zero_add] at hfilter
  have hheading (p : PlacedLine) (i : Nat) : (if !p.line.inFence then
      fixesOf checkHeadingSpace i p.line.text else []) = p.headingFixes i := by
    unfold PlacedLine.headingFixes
    cases p.line.inFence <;> rfl
  simp only [hheading, if_true, decide_false, Nat.lt_irrefl]
  rw [hpart, hpart, hpart, hpart, hpart]
  · unfold lineFixes
    cases (placedLines false lines)[i]? with
    | none => exact List.Perm.refl _
    | some p =>
        simp only [Option.map_some, Option.getD_some]
        unfold PlacedLine.fixes PlacedLine.innerFixes
        refine List.perm_iff_count.mpr fun f => ?_
        simp only [List.count_append, List.count_reverse]
        omega
  all_goals
    intro p i f hf
    simp only [PlacedLine.fixes, PlacedLine.innerFixes, List.mem_append, List.mem_reverse]
    tauto

/-- A batch of all fixes considers the fixes of each line from right to left. -/
theorem filter_plannedFixes_check {text : List Char} {violations : List Violation}
    (h : check text .default [] = .ok violations)
    (hsmall : ∀ line ∈ splitLines text, units line < 2 ^ 63) (i : Nat) :
    (plannedFixes violations .all).filter (·.line = i) =
      lineFixes (analyze (splitLines text)) i := by
  have hmem : ∀ i f, f ∈ lineFixes (analyze (splitLines text)) i ↔
      f ∈ selectedFixes violations .all ∧ f.line = i := by
    intro i f
    rw [← (selectedFixes_perm h i).mem_iff, List.mem_filter, decide_eq_true_iff]
  refine filter_plannedFixes (fun f hf g hg => ?_) (hmem i) ?_
  · by_cases hline : g.line = f.line
    · have hf' := (hmem f.line f).mpr ⟨hf, rfl⟩
      have hg' := (hmem f.line g).mpr ⟨hg, hline⟩
      unfold lineFixes at hf' hg'
      cases hp : (placedLines false (analyze (splitLines text)))[f.line]? with
      | none =>
          rw [hp] at hf'
          cases hf'
      | some p =>
          rw [hp] at hf' hg'
          exact PlacedLine.fixes_complements hf' hg'
    · simp [PlannedFix.complements, hline]
  · unfold lineFixes
    cases hp : (placedLines false (analyze (splitLines text)))[i]? with
    | none => exact List.Pairwise.nil
    | some p =>
        exact PlacedLine.fixes_strict i
          (hsmall _ (text_mem_of_placedLines (List.mem_of_getElem? hp)))

end LintDesk.Rule
