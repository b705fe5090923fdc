import LintDesk.Proofs.Edit.Proposals
import LintDesk.Proofs.Edit.Tidying

/-! # What a batch makes of a line

A line that is no heading is trimmed, its runs of tabs become blanks, and it is ended or deleted,
each if the batch has such a fix. Of a heading the batch changes white space only. Only the last
line of a text gets a terminator.
-/

namespace LintDesk

open Rule

namespace BatchState

variable {i : Nat} {s : BatchState} {line : Line}

/-! ### Lines that are no headings -/

/-- The terminator of a line and the blanks at its end. -/
theorem exists_intactUpTo_ends (ending : LineEnding) (selected : List PlannedFix)
    (hslot : s.lines[i]? = some (some line)) (hlast : s.lastLine ≠ some i)
    (hsmall : units line < 2 ^ 63)
    (htrim : trailingFix i line ∈ selected → trimEndWhere (· == ' ') line ≠ line) :
    ∃ kept blanks, line = kept ++ blanks ∧ (∀ c ∈ blanks, c = ' ') ∧
      IntactUpTo i (([newlineFix i line, trailingFix i line].filter (· ∈ selected)).foldl
        (step ending) s) kept (if newlineFix i line ∈ selected then ending.chars else []) := by
  have hended : IntactUpTo i (([newlineFix i line].filter (· ∈ selected)).foldl (step ending) s)
      line (if newlineFix i line ∈ selected then ending.chars else []) := by
    by_cases hnewline : newlineFix i line ∈ selected
    · have hnewline' := IntactUpTo.newline ending hslot hlast hsmall
      rw [if_pos hnewline, List.filter_cons_of_pos (by simpa using hnewline)]
      exact hnewline'
    · simpa [hnewline] using IntactUpTo.start hslot hlast
  have hsplit : [newlineFix i line, trailingFix i line].filter (· ∈ selected) =
      [newlineFix i line].filter (· ∈ selected) ++ [trailingFix i line].filter (· ∈ selected) :=
    List.filter_append (p := fun f => decide (f ∈ selected)) [newlineFix i line]
      [trailingFix i line]
  rw [hsplit, List.foldl_append]
  generalize ([newlineFix i line].filter (· ∈ selected)).foldl (step ending) s = s' at hended
  by_cases htrailing : trailingFix i line ∈ selected
  · obtain ⟨blanks, hline, hblanks, hunits⟩ := trimEndWhere_split line
    have hne : blanks ≠ [] := by
      rintro rfl
      rw [List.append_nil] at hline
      exact htrim htrailing hline.symm
    refine ⟨_, blanks, hline, hblanks, ?_⟩
    have hfix : [trailingFix i line].filter (· ∈ selected) = [trailingFix i line] := by
      simp [htrailing]
    rw [hfix, List.foldl_cons, List.foldl_nil]
    have hcut : IntactUpTo i s' (trimEndWhere (· == ' ') line ++ (blanks ++ []))
        (if newlineFix i line ∈ selected then ending.chars else []) := by
      rw [List.append_nil, ← hline]
      exact hended
    refine hcut.step ending (f := trailingFix i line) ?_ hne rfl rfl ?_
    · rw [hline, units_append] at hsmall
      omega
    · rw [hunits]
      rfl
  · refine ⟨line, [], by simp, by simp, ?_⟩
    have hnone : [trailingFix i line].filter (· ∈ selected) = [] := by simp [htrailing]
    rw [hnone]
    exact hended

/-- The fixes of a line that is no heading, one after the other. -/
theorem exists_slot_plainFixes (ending : LineEnding) (selected : List PlannedFix)
    (width? : Option Nat) (hslot : s.lines[i]? = some (some line)) (hlast : s.lastLine ≠ some i)
    (hsmall : units line < 2 ^ 63)
    (htrim : trailingFix i line ∈ selected → trimEndWhere (· == ' ') line ≠ line) :
    ∃ kept blanks, line = kept ++ blanks ∧ (∀ c ∈ blanks, c = ' ') ∧
      ((plainFixes selected width? i line).foldl (step ending) s).lines[i]? =
        some (if deletionFix i ∈ selected then none
          else some (width?.elim kept (fillTabs · kept) ++
            if newlineFix i line ∈ selected then ending.chars else [])) := by
  obtain ⟨kept, blanks, hline, hblanks, hends⟩ :=
    exists_intactUpTo_ends ending selected hslot hlast hsmall htrim
  refine ⟨kept, blanks, hline, hblanks, ?_⟩
  unfold plainFixes
  rw [List.foldl_append, List.foldl_append]
  generalize ([newlineFix i line, trailingFix i line].filter (· ∈ selected)).foldl (step ending) s
    = s' at hends
  generalize (if newlineFix i line ∈ selected then ending.chars else []) = tail at hends
  have htabs : ((tabFixes width? i line).reverse.foldl (step ending) s').lines[i]? =
      some (some (width?.elim kept (fillTabs · kept) ++ tail)) := by
    cases width? with
    | none => exact hends.slot
    | some width =>
        have hnone : '\t' ∉ blanks := fun hmem => by simpa using hblanks _ hmem
        have hruns : tabRuns 1 line = tabRuns 1 kept := by
          rw [hline, tabRuns_append_of_not_mem hnone]
        have hkept : units kept < 2 ^ 63 := by
          rw [hline, units_append] at hsmall
          omega
        have hfilled := (IntactUpTo.foldl_tabs ending width [] kept hends hkept).slot
        rw [units_nil, Nat.zero_add, List.nil_append, ← List.append_assoc,
          ← fillTabs_eq_append] at hfilled
        simpa [tabFixes, hruns] using hfilled
  generalize (tabFixes width? i line).reverse.foldl (step ending) s' = s'' at htabs
  by_cases hdelete : deletionFix i ∈ selected
  · rw [if_pos hdelete, List.filter_cons_of_pos (by simpa using hdelete)]
    exact slot_step_deletion ending htabs
  · simpa [hdelete] using htabs

/-! ### Headings -/

/-- A line under way: it is as it was up to the fix considered last, and from there on white space
was changed only; `tail` is the terminator it got. -/
structure UnderWay (ending : LineEnding) (mayEnd : Prop) (i : Nat) (s : BatchState)
    (kept old new tail : List Char) : Prop where
  slot : s.lines[i]? = some (some (kept ++ (new ++ tail)))
  visible : visibleChars new = visibleChars old
  chars : ∀ c ∈ new, c ∈ old ∨ c = ' '
  ended : tail = [] ∨ mayEnd ∧ tail = ending.chars
  last : s.lastLine = some i → s.lastStart ≤ units kept
  fresh : s.lastLine ≠ some i → old = [] ∧ new = [] ∧ tail = []

/-- Line `i` of a batch, where white space was changed only. -/
def OnlyBlanks (ending : LineEnding) (mayEnd : Prop) (i : Nat) (line : Line) (s : BatchState) :
    Prop :=
  ∃ kept old new tail, line = kept ++ old ∧ UnderWay ending mayEnd i s kept old new tail

variable {ending : LineEnding} {mayEnd : Prop} {f : PlannedFix}

theorem OnlyBlanks.start (hslot : s.lines[i]? = some (some line)) (hlast : s.lastLine ≠ some i) :
    OnlyBlanks ending mayEnd i line s :=
  ⟨line, [], [], [], by simp, by simpa using hslot, rfl, by simp, .inl rfl,
    fun hline => absurd hline hlast, fun _ => ⟨rfl, rfl, rfl⟩⟩

/-- A fix that is skipped changes nothing. -/
theorem UnderWay.skip {kept old new tail : List Char}
    (h : UnderWay ending mayEnd i s kept old new tail) (hfits : s.fits f = false)
    (hline : f.line = i) (hstart : s.lastLine = some i → (f.start : Int) ≤ s.lastStart) :
    UnderWay ending mayEnd i (s.step ending f) kept old new tail := by
  have hlast : s.lastLine = some i := by
    rw [← hline]
    exact (fits_of_other_line hfits).2
  obtain ⟨hline', hstart'⟩ := step_last ending s f
  have hlines : (s.step ending f).lines = s.lines := by simp [BatchState.step, hfits]
  refine ⟨hlines ▸ h.slot, h.visible, h.chars, h.ended, fun _ => ?_, fun hne => ?_⟩
  · have hle := h.last hlast
    have hle' := hstart hlast
    rw [hstart']
    omega
  · exact absurd (hline ▸ hline') hne

/-- A fix that puts blanks in the place of white space of a line. -/
structure PutsBlanks (line : Line) (f : PlannedFix) (before removed after : List Char) : Prop where
  line_eq : line = before ++ (removed ++ after)
  start : units before = f.start
  removal : f.removal = .chars (units removed)
  removed : visibleChars removed = []
  insertion : ∃ n, f.insertion.toList = List.replicate n ' '

/-- Where a beginning of the line reaches the end of the fix, what the fix was made for is there. -/
theorem PutsBlanks.exists_between {before removed after kept old : List Char}
    (hf : PutsBlanks line f before removed after) (hkept : line = kept ++ old)
    (hreach : units (before ++ removed) ≤ units kept) :
    ∃ between, kept = before ++ (removed ++ between) ∧ after = between ++ old := by
  obtain ⟨between, hbetween⟩ : before ++ removed <+: kept :=
    prefix_of_units_le (s := line) ⟨after, by rw [hf.line_eq, List.append_assoc]⟩
      ⟨old, hkept.symm⟩ hreach
  refine ⟨between, by rw [← hbetween, List.append_assoc], ?_⟩
  have heq := hf.line_eq.symm.trans hkept
  rw [← hbetween] at heq
  simpa [List.append_assoc] using heq

/-- Considering a fix that puts blanks in the place of white space. -/
theorem OnlyBlanks.step (h : OnlyBlanks ending mayEnd i line s) (hline : f.line = i)
    {before removed after : List Char} (hf : PutsBlanks line f before removed after)
    (horder : s.lastLine = some i → (f.start : Int) ≤ s.lastStart) (hsmall : units line < 2 ^ 63) :
    OnlyBlanks ending mayEnd i line (s.step ending f) := by
  obtain ⟨kept, old, new, tail, hkept, hway⟩ := h
  cases hfits : s.fits f with
  | false => exact ⟨kept, old, new, tail, hkept, hway.skip hfits hline horder⟩
  | true =>
      have hend : f.start + units removed ≤ units line := by
        rw [hf.line_eq, units_append, units_append, ← hf.start]
        omega
      have hreach : units (before ++ removed) ≤ units kept := by
        rw [units_append, hf.start]
        by_cases hlast : s.lastLine = some i
        · have hle := fits_same_line hf.removal (hline ▸ hlast) (by omega) hfits
          have hle' := hway.last hlast
          omega
        · rw [hkept, (hway.fresh hlast).1, List.append_nil] at hend
          exact hend
      obtain ⟨between, hbetween, hafter⟩ := hf.exists_between hkept hreach
      obtain ⟨n, hn⟩ := hf.insertion
      have hinserted : f.toFix.insertedChars ending = List.replicate n ' ' := by
        simp [PlannedFix.toFix, Fix.insertedChars, hn, List.flatMap_replicate]
      have hslot : s.lines[f.line]? =
          some (some (before ++ (removed ++ (between ++ (new ++ tail))))) := by
        rw [hline, hway.slot, hbetween]
        simp
      have hstep := getElem?_step_chars ending hf.removal hslot hf.start rfl hfits
      obtain ⟨hline', hstart'⟩ := step_last ending s f
      refine ⟨before, removed ++ after, List.replicate n ' ' ++ (between ++ new), tail, hf.line_eq,
        ?_, ?_, ?_, hway.ended, fun _ => ?_, fun hne => absurd (hline ▸ hline') hne⟩
      · rw [← hline, hstep, hinserted]
        simp
      · have hblanks : visibleChars (List.replicate n ' ') = [] := by simp [visibleChars, isBlank]
        simp [hblanks, hf.removed, hafter, hway.visible]
      · intro c hc
        simp only [List.mem_append] at hc
        rcases hc with hc | hc | hc
        · exact .inr (List.eq_of_mem_replicate hc)
        · exact .inl (by simp [hafter, hc])
        · rcases hway.chars c hc with hold | hblank
          · exact .inl (by simp [hafter, hold])
          · exact .inr hblank
      · rw [hstart', hf.start]
        omega

/-- Considering the fix that ends a line. -/
theorem OnlyBlanks.newline (h : OnlyBlanks ending mayEnd i line s) (hmay : mayEnd)
    (horder : s.lastLine = some i → (units line : Int) ≤ s.lastStart)
    (hsmall : units line < 2 ^ 63) :
    OnlyBlanks ending mayEnd i line (s.step ending (newlineFix i line)) := by
  obtain ⟨kept, old, new, tail, hkept, hway⟩ := h
  by_cases hlast : s.lastLine = some i
  · -- the place was considered already, so there is nothing to fit in
    have hfits : s.fits (newlineFix i line) = false := by
      have hle := hway.last hlast
      have hunits := congrArg units hkept
      rw [units_append] at hunits
      simp [fits, newlineFix, hlast, Removal.toInt, Removal.maxCount, Removal.isWholeLine, maxInt64]
      omega
    exact ⟨kept, old, new, tail, hkept, hway.skip hfits rfl horder⟩
  · obtain ⟨rfl, rfl, rfl⟩ := hway.fresh hlast
    rw [List.append_nil] at hkept
    subst hkept
    have hslot : s.lines[i]? = some (some line) := by simpa using hway.slot
    have hended := IntactUpTo.newline ending hslot hlast hsmall
    obtain ⟨hline', hstart'⟩ := step_last ending s (newlineFix i line)
    refine ⟨line, [], [], ending.chars, by simp, hended.slot, rfl, by simp, .inr ⟨hmay, rfl⟩,
      fun _ => ?_, fun hne => absurd hline' hne⟩
    rw [hstart']
    dsimp only [newlineFix]
    omega

/-- A batch of fixes of one line that change white space only. -/
theorem OnlyBlanks.foldl {fixes : List PlannedFix} (h : OnlyBlanks ending mayEnd i line s)
    (hfixes : ∀ f ∈ fixes, f.line = i ∧ ((mayEnd ∧ f = newlineFix i line) ∨
      ∃ before removed after, PutsBlanks line f before removed after))
    (horder : fixes.Pairwise PlannedFix.Before)
    (hfirst : s.lastLine = some i → ∀ f ∈ fixes, (f.start : Int) ≤ s.lastStart)
    (hsmall : units line < 2 ^ 63) :
    OnlyBlanks ending mayEnd i line (fixes.foldl (BatchState.step ending) s) := by
  induction fixes generalizing s with
  | nil => exact h
  | cons f rest ih =>
      obtain ⟨hf, hrest⟩ := List.forall_mem_cons.mp hfixes
      obtain ⟨hbefore, horder'⟩ := List.pairwise_cons.mp horder
      have hstart : s.lastLine = some i → (f.start : Int) ≤ s.lastStart := fun hlast =>
        hfirst hlast f (by simp)
      have hwhole : ∀ g ∈ f :: rest, g.removal.isWholeLine = false := by
        intro g hg
        rcases (hfixes g hg).2 with ⟨-, rfl⟩ | ⟨before, removed, after, hputs⟩
        · rfl
        · rw [hputs.removal]
          rfl
      have hnext : OnlyBlanks ending mayEnd i line (s.step ending f) := by
        obtain ⟨hline, ⟨hmay, rfl⟩ | ⟨before, removed, after, hputs⟩⟩ := hf
        · exact h.newline hmay hstart hsmall
        · exact h.step hline hputs hstart hsmall
      have hbound : f.start ≤ units line := by
        obtain ⟨-, ⟨-, rfl⟩ | ⟨before, removed, after, hputs⟩⟩ := hf
        · exact Nat.le_refl _
        · rw [hputs.line_eq, units_append, ← hputs.start]
          omega
      have hbelow : ∀ g ∈ rest, g.start ≤ f.start := by
        intro g hg
        rcases hbefore g hg with hlt | ⟨-, hdelete | ⟨-, hle⟩⟩
        · have hsame := (hrest g hg).1
          omega
        · rw [hwhole g (by simp [hg])] at hdelete
          cases hdelete
        · exact hle
      refine ih hnext hrest horder' fun _ g hg => ?_
      have hle := hbelow g hg
      rw [(step_last ending s f).2]
      simp only [maxInt64]
      omega

/-- What is left of a line where white space was changed only. -/
theorem OnlyBlanks.exists_slot (h : OnlyBlanks ending mayEnd i line s) :
    ∃ kept tail, s.lines[i]? = some (some (kept ++ tail)) ∧
      visibleChars kept = visibleChars line ∧ (∀ c ∈ kept, c ∈ line ∨ c = ' ') ∧
      (tail = [] ∨ mayEnd ∧ tail = ending.chars) := by
  obtain ⟨kept, old, new, tail, hkept, hway⟩ := h
  refine ⟨kept ++ new, tail, by rw [hway.slot, List.append_assoc], ?_, ?_, hway.ended⟩
  · rw [hkept, visibleChars_append, visibleChars_append, hway.visible]
  · intro c hc
    rw [hkept]
    rcases List.mem_append.mp hc with hc | hc
    · exact .inl (List.mem_append_left _ hc)
    · exact (hway.chars c hc).imp_left (List.mem_append_right _)

end BatchState

/-! ### The lines of a text -/

/-- Blanks in the place of the tabs of a line leave the fence it is, wherever a batch puts them. -/
def TabsKeepFences (config : RuleConfig) (choice : FixChoice) (lines : List FencedLine) : Prop :=
  ∀ i l width, lines[i]? = some l → tabWidth? config choice i l = some width →
    Fence.ofLine? (fillTabs width l.text) = Fence.ofLine? l.text

/-- What is left of a line that stays: text that shows the same and is the same fence, and a
terminator if the line may get one. -/
structure KeepsLine (ending : LineEnding) (mayEnd : Prop) (line kept tail : Line) : Prop where
  fence : Fence.ofLine? kept = Fence.ofLine? line
  visible : visibleChars kept = visibleChars line
  chars : ∀ c ∈ kept, c ∈ line ∨ c = ' '
  ended : tail = [] ∨ mayEnd ∧ tail = ending.chars

theorem Fence.ofLine?_of_visible {line : Line} {c : Char} {rest : List Char}
    (h : visibleChars line = c :: rest) (hc : isMarker c = false) : ofLine? line = none := by
  rcases blanks_or_first line with hall | ⟨blanks, d, more, rfl, hblanks, hd⟩
  · exact ofLine?_of_blanks hall
  · rw [ofLine?_append hblanks hd, if_neg]
    intro hmarker
    simp only [Bool.and_eq_true] at hmarker
    have hd' : d = c := by
      have hshown : isBlank d = false := by
        have hkinds := hmarker.1.1
        simp only [isMarker, Bool.or_eq_true, beq_iff_eq] at hkinds
        rcases hkinds with rfl | rfl <;> decide
      have hnone : visibleChars blanks = [] :=
        visibleChars_of_blanks fun c hc => .inl (hblanks c hc)
      rw [visibleChars_append, hnone] at h
      simpa [visibleChars, hshown] using congrArg List.head? h
    rw [hd', hc] at hmarker
    simp at hmarker

theorem visibleChars_of_heading {line : Line} {h : Heading} (hh : Heading.ofLine? line = some h) :
    ∃ rest, visibleChars line = '#' :: rest := by
  obtain ⟨gap, c, text, rfl, ⟨-, hone, -⟩, -⟩ := Heading.ofLine?_eq_some_iff.mp hh
  have hhashes : List.replicate h.hashes '#' = '#' :: List.replicate (h.hashes - 1) '#' := by
    rw [← List.replicate_succ, Nat.sub_add_cancel hone]
  have hnone : visibleChars (List.replicate h.indent ' ') = [] := by simp [visibleChars, isBlank]
  rw [visibleChars_append, hnone, hhashes, List.cons_append, visibleChars_cons]
  exact ⟨_, rfl⟩

section Text

variable {text : List Char} {config : RuleConfig} {rules : List CustomRule}
  {violations : List Violation} {choice : FixChoice} {i : Nat} {l : FencedLine}

theorem deletionFix_mem_iff (hcheck : check text config rules = .ok violations)
    (hl : (analyze (splitLines text))[i]? = some l) :
    (deletionFix i ∈ selectedFixes violations choice ↔ deletesLine violations choice i = true) ∧
      (deletesLine violations choice i = true → l.isLoose = true) := by
  have hloose : deletionFix i ∈ selectedFixes violations choice →
      l.isLoose = true ∧ deletesLine violations choice i = true := by
    intro hselected
    obtain ⟨l', hl', hproposal⟩ := proposal_of_selected hcheck hselected
    obtain rfl : l = l' := Option.some.inj (hl.symm.trans hl')
    rcases hproposal.place with ⟨heq, -⟩ | ⟨-, hfacts⟩ | ⟨-, -, count, hremoval⟩
    · simp [deletionFix, newlineFix] at heq
    · exact hfacts
    · simp [deletionFix] at hremoval
  exact ⟨⟨fun h => (hloose h).2, deletionFix_mem_selectedFixes⟩,
    fun h => (hloose (deletionFix_mem_selectedFixes h)).1⟩

/-- A proposal for a line with text ends the line or puts blanks in the place of white space. -/
theorem Rule.Proposal.putsBlanks {lines : List FencedLine} {f : PlannedFix}
    (h : Proposal config violations choice lines i l f) (htext : isBlankLine l.text = false) :
    f.line = i ∧ ((i + 1 = lines.length ∧ f = newlineFix i l.text) ∨
      ∃ before removed after, BatchState.PutsBlanks l.text f before removed after) := by
  cases h with
  | trailing =>
      obtain ⟨blanks, hline, hblanks, hunits⟩ := trimEndWhere_split l.text
      refine ⟨rfl, .inr ⟨trimEndWhere (· == ' ') l.text, blanks, [], by simpa using hline, rfl, ?_,
        visibleChars_of_blanks fun c hc => .inl (hblanks c hc), 0, rfl⟩⟩
      rw [hunits]
      rfl
  | @tabs width run hwidth hrun =>
      obtain ⟨before, after, hline, hcolumn⟩ := tabRuns_split hrun
      refine ⟨rfl, .inr ⟨before, List.replicate run.length '\t', after, hline, ?_, ?_, ?_,
        blanksFor width run.length, ?_⟩⟩
      · dsimp only [tabFix]
        omega
      · rw [units_replicate rfl]
        rfl
      · exact visibleChars_of_blanks fun c hc => .inr (List.eq_of_mem_replicate hc)
      · simp [tabFix]
  | deletion hblank =>
      rw [htext] at hblank
      cases hblank
  | heading hh =>
      obtain ⟨before, gap, after, hsplit, -⟩ := exists_gapSplit hh
      refine ⟨rfl, .inr ⟨before, gap, after, hsplit.line_eq, hsplit.units_before, ?_,
        visibleChars_of_blanks hsplit.gap_chars, 0, rfl⟩⟩
      rw [hsplit.units_gap]
      rfl
  | newline hlast => exact ⟨rfl, .inl ⟨hlast, rfl⟩⟩

variable (hcheck : check text config rules = .ok violations)
  (hl : (analyze (splitLines text))[i]? = some l) (hsmall : units l.text < 2 ^ 63)
  {s : BatchState} (hslot : s.lines[i]? = some (some l.text)) (hlast : s.lastLine ≠ some i)

include hcheck hl hsmall hslot hlast

/-- What the fixes of a line that is no heading make of it. -/
theorem exists_slot_of_plain (ending : LineEnding)
    (htabs : TabsKeepFences config choice (analyze (splitLines text)))
    (hplain : Heading.ofLine? l.text = none) :
    ∃ kept tail, KeepsLine ending (i + 1 = (analyze (splitLines text)).length) l.text kept tail ∧
      (((plannedFixes violations choice).filter (·.line = i)).foldl (BatchState.step ending)
        s).lines[i]? =
          some (if deletesLine violations choice i then none else some (kept ++ tail)) := by
  have htrim : trailingFix i l.text ∈ selectedFixes violations choice →
      trimEndWhere (· == ' ') l.text ≠ l.text := by
    intro hselected heq
    obtain ⟨l', hl', hproposal⟩ := proposal_of_selected hcheck hselected
    obtain rfl : l = l' := Option.some.inj (hl.symm.trans hl')
    rcases hproposal.place with ⟨hform, -⟩ | ⟨hform, -⟩ | ⟨-, hlt, -⟩
    · simp [trailingFix, newlineFix] at hform
    · simp [trailingFix, deletionFix] at hform
    · simp [trailingFix, heq] at hlt
  rw [filter_plannedFixes_plain hcheck hl hplain]
  obtain ⟨kept, blanks, hline, hblanks, hresult⟩ := BatchState.exists_slot_plainFixes ending
    (selectedFixes violations choice) (tabWidth? config choice i l) hslot hlast hsmall htrim
  refine ⟨_, _, ⟨?_, ?_, ?_, ?_⟩, by simpa only [(deletionFix_mem_iff hcheck hl).1] using hresult⟩
  · cases hwidth : tabWidth? config choice i l with
    | none =>
        conv_rhs => rw [hline, Fence.ofLine?_append_blanks kept hblanks]
        rfl
    | some width =>
        have hnone : '\t' ∉ blanks := fun hmem => by simpa using hblanks _ hmem
        have hfilled : fillTabs width l.text = fillTabs width kept ++ blanks := by
          rw [hline, fillTabs_append_right width kept hnone]
        rw [← htabs i l width hl hwidth, hfilled, Fence.ofLine?_append_blanks _ hblanks]
        rfl
  · have hnone := visibleChars_of_blanks fun c hc => Or.inl (hblanks c hc)
    conv_rhs => rw [hline, visibleChars_append, hnone, List.append_nil]
    cases tabWidth? config choice i l with
    | none => rfl
    | some width => exact visibleChars_fillTabsAfter width 0 kept
  · intro c hc
    rw [hline]
    cases hwidth : tabWidth? config choice i l with
    | none =>
        rw [hwidth] at hc
        exact .inl (List.mem_append_left _ hc)
    | some width =>
        rw [hwidth] at hc
        exact (mem_of_mem_fillTabsAfter width 0 hc).imp_left (List.mem_append_left _)
  · split
    · next hselected =>
        obtain ⟨l', hl', hproposal⟩ := proposal_of_selected hcheck hselected
        obtain rfl : l = l' := Option.some.inj (hl.symm.trans hl')
        rcases hproposal.place with ⟨-, hend⟩ | ⟨hform, -⟩ | ⟨-, -, count, hremoval⟩
        · exact .inr ⟨hend, rfl⟩
        · simp [newlineFix, deletionFix] at hform
        · simp [newlineFix] at hremoval
    · exact .inl rfl

/-- What the fixes of a heading make of it. -/
theorem exists_slot_of_heading (ending : LineEnding) {h : Heading}
    (hh : Heading.ofLine? l.text = some h) :
    ∃ kept tail, KeepsLine ending (i + 1 = (analyze (splitLines text)).length) l.text kept tail ∧
      (((plannedFixes violations choice).filter (·.line = i)).foldl (BatchState.step ending)
        s).lines[i]? =
          some (if deletesLine violations choice i then none else some (kept ++ tail)) := by
  obtain ⟨rest, hshown⟩ := visibleChars_of_heading hh
  have htext : isBlankLine l.text = false := by
    rw [← Bool.not_eq_true, ← visibleChars_eq_nil, hshown]
    simp
  have hstays : deletesLine violations choice i = false := by
    rw [← Bool.not_eq_true]
    intro hdeletes
    have hloose := (deletionFix_mem_iff hcheck hl).2 hdeletes
    simp [FencedLine.isLoose, htext] at hloose
  have hfixes : ∀ f ∈ (plannedFixes violations choice).filter (·.line = i), f.line = i ∧
      ((i + 1 = (analyze (splitLines text)).length ∧ f = newlineFix i l.text) ∨
        ∃ before removed after, BatchState.PutsBlanks l.text f before removed after) := by
    intro f hmem
    obtain ⟨hplanned, hline⟩ := List.mem_filter.mp hmem
    have hselected : f ∈ selectedFixes violations choice :=
      (mem_plannedFixes fun _ hf _ hg => complements_eq_false hcheck hf hg).mp hplanned
    obtain ⟨l', hl', hproposal⟩ := proposal_of_selected hcheck hselected
    rw [of_decide_eq_true hline] at hl' hproposal
    obtain rfl : l = l' := Option.some.inj (hl.symm.trans hl')
    exact hproposal.putsBlanks htext
  have hstart : BatchState.OnlyBlanks ending (i + 1 = (analyze (splitLines text)).length) i l.text
      s := .start hslot hlast
  have hblanks := hstart.foldl hfixes
    ((plannedFixes_before violations choice).sublist List.filter_sublist)
    (fun h => absurd h hlast) hsmall
  obtain ⟨kept, tail, hresult, hvisible, hchars, hended⟩ := hblanks.exists_slot
  refine ⟨kept, tail, ⟨?_, hvisible, hchars, hended⟩, by rw [hresult, hstays]; rfl⟩
  rw [fence_of_heading hh, Fence.ofLine?_of_visible (hvisible.trans hshown) rfl]

end Text

end LintDesk
