import LintDesk.Proofs.Rule.Tidiness

/-! # Tidying a text

`tidyLines` says what all default fixes together make of the lines of a text: every line is tidied,
of blank lines in a row outside of code the first is kept, and a terminator ends the last line. If
the tabs of every line stand inside its text, no rule has anything to report afterwards.
-/

namespace LintDesk

/-- A blank line outside of code. -/
def FencedLine.isLoose (l : FencedLine) : Bool :=
  !l.inFence && isBlankLine l.text

namespace Rule

/-- Of loose lines in a row the first is kept; `before` says whether one comes before the list. -/
def thin : (before : Bool) → List FencedLine → List FencedLine
  | _, [] => []
  | before, l :: rest =>
    if before && l.isLoose then thin true rest else l :: thin l.isLoose rest

/-- A line that was tidied in its place. -/
def tidied (l : FencedLine) : FencedLine where
  text := tidyLine l
  inFence := l.inFence

/-- The lines of a text as a batch of all default fixes leaves them. -/
def tidyLines (lines : List FencedLine) : List Line :=
  (thin false lines).map tidyLine ++
    if lines.getLast?.any (!isBlankLine ·.text) then [[]] else []

/-- No two loose lines follow one another. -/
def Spaced : (before : Bool) → List FencedLine → Prop
  | _, [] => True
  | before, l :: rest => ¬(before = true ∧ l.isLoose = true) ∧ Spaced l.isLoose rest

theorem isLoose_tidied (l : FencedLine) : (tidied l).isLoose = l.isLoose := by
  simp [FencedLine.isLoose, tidied, isBlankLine_tidyLine]

theorem spaced_thin (before : Bool) (lines : List FencedLine) :
    Spaced before ((thin before lines).map tidied) := by
  fun_induction thin before lines with
  | case1 => trivial
  | case2 before l rest hdrop ih =>
      obtain ⟨rfl, -⟩ := Bool.and_eq_true_iff.mp hdrop
      exact ih
  | case3 before l rest hkeep ih =>
      refine ⟨fun hboth => hkeep ?_, ?_⟩
      · rw [isLoose_tidied] at hboth
        rw [hboth.1, hboth.2]
        rfl
      · rw [isLoose_tidied]
        exact ih

theorem Spaced.append {before : Bool} {lines : List FencedLine} (h : Spaced before lines)
    {last : FencedLine} (hlast : lines.getLast? = some last) (hloose : last.isLoose = false)
    (l : FencedLine) : Spaced before (lines ++ [l]) := by
  induction lines generalizing before with
  | nil => simp at hlast
  | cons first rest ih =>
      obtain ⟨hfirst, hrest⟩ := h
      refine ⟨hfirst, ?_⟩
      cases rest with
      | nil =>
          obtain rfl : first = last := by simpa using hlast
          exact ⟨by simp [hloose], trivial⟩
      | cons next more => exact ih hrest (by simpa using hlast)

/-- A loose line counts, and one that is not ends the run. -/
theorem checkBlankRuns_cons (maximum count number : Nat) (l : FencedLine) (rest : List FencedLine) :
    checkBlankRuns maximum count number (l :: rest) =
      if l.isLoose then
        (if count < maximum then [] else [{ multipleBlanks.violation number with
          detail := some (expectedActual (toString maximum) (count + 1))
          fix := some .deleteLine }]) ++ checkBlankRuns maximum (count + 1) (number + 1) rest
      else checkBlankRuns maximum 0 (number + 1) rest := by
  have hskip : (l.inFence || !isBlankLine l.text) = !l.isLoose := by
    rw [FencedLine.isLoose, Bool.not_and, Bool.not_not]
  rw [checkBlankRuns, hskip]
  cases l.isLoose with
  | false => rfl
  | true =>
      by_cases hcount : count < maximum
      · have hnot : ¬count + 1 > maximum := by omega
        simp [hcount, hnot]
      · have hover : count + 1 > maximum := by omega
        simp [hcount, hover]

theorem checkBlankRuns_of_spaced {before : Bool} {lines : List FencedLine}
    (h : Spaced before lines) (number : Nat) :
    checkBlankRuns 1 (if before then 1 else 0) number lines = [] := by
  induction lines generalizing before number with
  | nil => rfl
  | cons l rest ih =>
      obtain ⟨hl, hrest⟩ := h
      have hrest' := ih hrest (number + 1)
      rw [checkBlankRuns_cons]
      cases hloose : l.isLoose with
      | true =>
          have hbefore : before = false := by simpa [hloose] using hl
          simpa [hloose, hbefore] using hrest'
      | false => simpa [hloose] using hrest'

/-! ### Fences stay where they are -/

/-- What a line does to the fences depends on the fence it is; a line outside of code opens
none. -/
theorem exists_markFences_cons (fence : Option Fence) (line : Line) :
    ∃ flag next, (flag = false → next = fence) ∧
      ∀ line', Fence.ofLine? line' = Fence.ofLine? line → ∀ rest,
        markFences fence (line' :: rest) = ⟨line', flag⟩ :: markFences next rest := by
  cases fence with
  | none =>
      cases hline : Fence.ofLine? line with
      | none =>
          refine ⟨false, none, fun _ => rfl, fun line' hline' rest => ?_⟩
          rw [markFences, hline']
      | some opened =>
          refine ⟨true, some opened, nofun, fun line' hline' rest => ?_⟩
          rw [markFences, hline']
  | some opened =>
      refine ⟨true, ?_, nofun, fun line' hline' rest => ?_⟩
      rotate_left
      · rw [markFences, hline']

/-- What may become of marked lines without moving a fence: lines outside of code go, and every
other line keeps its mark and stays the fence it is, if it is one. -/
inductive KeepsFences : List FencedLine → List FencedLine → Prop
  | nil : KeepsFences [] []
  | drop {l : FencedLine} {lines kept : List FencedLine} : l.inFence = false →
      KeepsFences lines kept → KeepsFences (l :: lines) kept
  | keep {l : FencedLine} {line : Line} {lines kept : List FencedLine} :
      Fence.ofLine? line = Fence.ofLine? l.text → KeepsFences lines kept →
        KeepsFences (l :: lines) (⟨line, l.inFence⟩ :: kept)

/-- No line moves into code or out of it then. -/
theorem KeepsFences.markFences_eq {fence : Option Fence} {lines : List Line}
    {kept : List FencedLine} (h : KeepsFences (markFences fence lines) kept) :
    markFences fence (kept.map (·.text)) = kept := by
  induction lines generalizing fence kept with
  | nil =>
      cases h
      rfl
  | cons line rest ih =>
      obtain ⟨flag, next, hnext, hmark⟩ := exists_markFences_cons fence line
      rw [hmark line rfl rest] at h
      cases h with
      | drop hflag hrest =>
          -- a line outside of code opens no fence
          have hsame : next = fence := hnext hflag
          exact ih (hsame ▸ hrest)
      | keep hfence hrest =>
          rw [List.map_cons, hmark _ hfence, ih hrest]

theorem keepsFences_thin (before : Bool) {lines : List FencedLine}
    (h : ∀ l ∈ lines, TabsInside l.text) :
    KeepsFences lines ((thin before lines).map tidied) := by
  fun_induction thin before lines with
  | case1 => exact .nil
  | case2 before l rest hdrop ih =>
      simp only [FencedLine.isLoose, Bool.and_eq_true, Bool.not_eq_true'] at hdrop
      exact .drop hdrop.2.1 (ih (List.forall_mem_cons.mp h).2)
  | case3 before l rest hkeep ih =>
      obtain ⟨hl, hrest⟩ := List.forall_mem_cons.mp h
      exact .keep (fence_tidyLine hl) (ih hrest)

/-- Thinning out and tidying lines moves no line into code or out of it. -/
theorem markFences_thin (before : Bool) (fence : Option Fence) {lines : List Line}
    (h : ∀ line ∈ lines, TabsInside line) :
    markFences fence ((thin before (markFences fence lines)).map tidyLine) =
      (thin before (markFences fence lines)).map tidied := by
  have hlines : ∀ l ∈ markFences fence lines, TabsInside l.text := by
    intro l hl
    refine h l.text ?_
    rw [← text_markFences fence lines]
    exact List.mem_map_of_mem hl
  have hmarks := (keepsFences_thin before hlines).markFences_eq
  rwa [List.map_map] at hmarks

theorem markFences_concat (fence : Option Fence) (lines : List Line) (last : Line) :
    ∃ flag, markFences fence (lines ++ [last]) = markFences fence lines ++ [⟨last, flag⟩] := by
  induction lines generalizing fence with
  | nil =>
      obtain ⟨flag, next, -, hmark⟩ := exists_markFences_cons fence last
      exact ⟨flag, by rw [List.nil_append, hmark last rfl]; simp [markFences]⟩
  | cons line rest ih =>
      obtain ⟨flag, next, -, hmark⟩ := exists_markFences_cons fence line
      obtain ⟨flag', hrest⟩ := ih next
      exact ⟨flag', by rw [List.cons_append, hmark line rfl, hmark line rfl, hrest]; rfl⟩

/-! ### The last line -/

theorem thin_ne_nil {lines : List FencedLine} (hne : lines ≠ []) : thin false lines ≠ [] := by
  cases lines with
  | nil => exact absurd rfl hne
  | cons l rest => simp [thin]

theorem getLast?_thin {before : Bool} {lines : List FencedLine} {last : FencedLine}
    (hlast : lines.getLast? = some last) (hloose : last.isLoose = false) :
    (thin before lines).getLast? = some last := by
  induction lines generalizing before with
  | nil => simp at hlast
  | cons l rest ih =>
      cases rest with
      | nil =>
          obtain rfl : l = last := by simpa using hlast
          simp [thin, hloose]
      | cons next more =>
          rw [List.getLast?_cons_cons] at hlast
          rw [thin]
          split
          · exact ih hlast
          · rw [List.getLast?_cons, ih hlast]
            rfl

/-- A blank last line is left in, or a blank line comes last in its place. -/
theorem isBlankLine_getLast?_thin {before : Bool} {lines : List FencedLine} {last l : FencedLine}
    (hlast : lines.getLast? = some last) (hblank : isBlankLine last.text = true)
    (h : (thin before lines).getLast? = some l) : isBlankLine l.text = true := by
  cases hloose : last.isLoose with
  | false =>
      rw [getLast?_thin hlast hloose] at h
      rwa [← Option.some.inj h]
  | true =>
      induction lines generalizing before with
      | nil => simp at hlast
      | cons first rest ih =>
          cases rest with
          | nil =>
              obtain rfl : first = last := by simpa using hlast
              rw [thin] at h
              split at h
              · simp [thin] at h
              · obtain rfl : first = l := by simpa [thin] using h
                exact hblank
          | cons next more =>
              rw [List.getLast?_cons_cons] at hlast
              rw [thin] at h
              split at h
              · exact ih hlast h
              · rw [List.getLast?_cons] at h
                cases hrest : (thin first.isLoose (next :: more)).getLast? with
                | some last' =>
                    rw [hrest] at h
                    exact ih hlast (hrest.trans h)
                | none =>
                    -- all that follows went, so the first line is loose
                    rw [hrest] at h
                    obtain rfl : first = l := by simpa using h
                    have hfirst : first.isLoose = true := by
                      by_contra hkeep
                      rw [Bool.not_eq_true] at hkeep
                      rw [hkeep, List.getLast?_eq_none_iff] at hrest
                      exact thin_ne_nil (by simp) hrest
                    simp only [FencedLine.isLoose, Bool.and_eq_true] at hfirst
                    exact hfirst.2

/-! ### Nothing is left to report -/

/-- The rules that are on by default. -/
theorem builtinViolations_default (lines : List FencedLine) :
    builtinViolations .default lines =
      eachLine lines (fun _ => true) (checkTrailingSpaces 2) ++
        eachLine lines (fun _ => true) (checkHardTabs 1) ++ checkBlankRuns 1 0 1 lines ++
        eachLine lines (!·.inFence) checkHeadingSpace ++ checkFinalNewline lines := by
  have hon : trailingSpaces.options? .default = some [] ∧ hardTabs.options? .default = some [] ∧
      multipleBlanks.options? .default = some [] ∧ headingSpace.options? .default = some [] ∧
      finalNewline.options? .default = some [] := ⟨rfl, rfl, rfl, rfl, rfl⟩
  have hoff : lineLength.options? .default = none := rfl
  obtain ⟨htrailing, htabs, hblanks, hheading, hfinal⟩ := hon
  simp only [builtinViolations, ifOn, htrailing, htabs, hblanks, hoff, hheading, hfinal,
    List.append_nil]
  rfl

theorem eachLine_eq_nil {lines : List FencedLine} {applies : FencedLine → Bool}
    {check : Nat → Line → List Violation}
    (h : ∀ l ∈ lines, applies l = true → ∀ number, check number l.text = []) :
    eachLine lines applies check = [] := by
  refine List.flatMap_eq_nil_iff.mpr fun ⟨l, index⟩ hmem => ?_
  dsimp only
  split
  · next happlies => exact h l (List.fst_mem_of_mem_zipIdx hmem) happlies (index + 1)
  · rfl

/-- No rule for single lines has anything to report on a line. -/
structure Clean (l : FencedLine) : Prop where
  trailing : ∀ number, checkTrailingSpaces 2 number l.text = []
  tabs : ∀ number, checkHardTabs 1 number l.text = []
  heading : l.inFence = false → ∀ number, checkHeadingSpace number l.text = []

theorem clean_tidied {l : FencedLine} (h : TabsInside l.text) : Clean (tidied l) where
  trailing := checkTrailingSpaces_tidyLine h
  tabs := checkHardTabs_of_not_mem (tab_not_mem_untab _) 1
  heading := fun hfence => checkHeadingSpace_tidyLine hfence h

theorem clean_empty (flag : Bool) : Clean ⟨[], flag⟩ where
  trailing := fun _ => rfl
  tabs := fun _ => rfl
  heading := fun _ _ => rfl

/-- Clean lines, none of them loose after a loose one, and a blank one at the end. -/
theorem builtinViolations_eq_nil {lines : List FencedLine} (hclean : ∀ l ∈ lines, Clean l)
    (hspaced : Spaced false lines) (hlast : ∀ l ∈ lines.getLast?, isBlankLine l.text = true) :
    builtinViolations .default lines = [] := by
  have hfinal : checkFinalNewline lines = [] := by
    unfold checkFinalNewline
    cases h : lines.getLast? with
    | none => rfl
    | some l => simp [hlast l h]
  have hblanks : checkBlankRuns 1 0 1 lines = [] := checkBlankRuns_of_spaced hspaced 1
  rw [builtinViolations_default, hfinal, hblanks,
    eachLine_eq_nil fun l hl _ => (hclean l hl).trailing,
    eachLine_eq_nil fun l hl _ => (hclean l hl).tabs,
    eachLine_eq_nil fun l hl hout => (hclean l hl).heading (by simpa using hout)]
  rfl

theorem thin_subset (before : Bool) (lines : List FencedLine) : thin before lines ⊆ lines := by
  fun_induction thin before lines with
  | case1 => exact List.Subset.refl _
  | case2 before l rest hdrop ih => exact List.subset_cons_of_subset l ih
  | case3 before l rest hkeep ih => exact List.cons_subset_cons l ih

/-- Tidying leaves nothing to report, provided that tabs stand inside the text of their lines. -/
theorem builtinViolations_tidyLines {lines : List Line} (h : ∀ line ∈ lines, TabsInside line) :
    builtinViolations .default (analyze (tidyLines (analyze lines))) = [] := by
  have hthin : analyze ((thin false (analyze lines)).map tidyLine) =
      (thin false (analyze lines)).map tidied := markFences_thin false none h
  have hspaced := spaced_thin false (analyze lines)
  have hclean : ∀ l ∈ (thin false (analyze lines)).map tidied, Clean l := by
    refine List.forall_mem_map.mpr fun l hl => ?_
    obtain ⟨i, hi⟩ := List.mem_iff_getElem?.mp (thin_subset _ _ hl)
    exact clean_tidied (h l.text (List.mem_of_getElem? (getElem?_of_analyze hi)))
  unfold tidyLines
  cases hlast : (analyze lines).getLast? with
  | none =>
      rw [Option.any_none, if_neg (by simp), List.append_nil, List.getLast?_eq_none_iff.mp hlast]
      rfl
  | some last =>
      cases hblank : isBlankLine last.text with
      | true =>
          simp only [Option.any_some, hblank]
          rw [if_neg (by simp), List.append_nil, hthin]
          refine builtinViolations_eq_nil hclean hspaced fun l hl => ?_
          rw [List.getLast?_map] at hl
          obtain ⟨l', hl', rfl⟩ := Option.map_eq_some_iff.mp hl
          rw [tidied, isBlankLine_tidyLine]
          exact isBlankLine_getLast?_thin hlast hblank hl'
      | false =>
          have hloose : last.isLoose = false := by simp [FencedLine.isLoose, hblank]
          obtain ⟨flag, hconcat⟩ :=
            markFences_concat none ((thin false (analyze lines)).map tidyLine) []
          have hkept : ((thin false (analyze lines)).map tidied).getLast? = some (tidied last) := by
            rw [List.getLast?_map, getLast?_thin hlast hloose]
            rfl
          simp only [Option.any_some, hblank]
          rw [if_pos (by simp), analyze, hconcat]
          change builtinViolations .default (analyze _ ++ _) = []
          rw [hthin]
          refine builtinViolations_eq_nil ?_ (hspaced.append hkept ?_ _) ?_
          · exact List.forall_mem_append.mpr ⟨hclean, by simpa using clean_empty flag⟩
          · rw [isLoose_tidied, hloose]
          · simp [isBlankLine]

end Rule

end LintDesk
