import LintDesk.Proofs.Edit.Tidying

/-! # Fixing over and over

One batch of all default fixes leaves nothing to report if the tabs of every line stand inside its
text. Tabs elsewhere become blanks where blanks matter, and a second batch takes care of those: two
batches always suffice.
-/

namespace LintDesk

open Rule

/-- Checks a text under the default configuration and fixes what is reported. -/
def fixOnce (text : List Char) : List Char :=
  match check text .default [] with
  | .ok violations => (applyFixes text violations .all).content
  | .error _ => text

theorem fixOnce_of_clean {text : List Char} (h : check text .default [] = .ok []) :
    fixOnce text = text := by
  unfold fixOnce
  rw [h]
  simp [applyFixes, plannedFixes, dropRepeats, joinComplements]

/-! ### The lines of a fixed text -/

theorem units_tidyLine_le (l : FencedLine) : units (tidyLine l) ≤ units l.text := by
  obtain ⟨kept, htidy, hkept⟩ := tidyLine_eq_untab l
  rw [htidy, units_untab]
  exact units_le_of_sublist hkept

/-- A line of a tidied text is empty or a tidied line of the text. -/
theorem mem_tidyLines {lines : List FencedLine} {line : Line} (h : line ∈ tidyLines lines) :
    line = [] ∨ ∃ l ∈ lines, line = tidyLine l := by
  rcases List.mem_append.mp h with h | h
  · obtain ⟨l, hl, rfl⟩ := List.mem_map.mp h
    exact .inr ⟨l, thin_subset _ _ hl, rfl⟩
  · split at h
    · exact .inl (List.mem_singleton.mp h)
    · cases h

theorem tidyLines_ne_nil {lines : List FencedLine} (h : lines ≠ []) : tidyLines lines ≠ [] := by
  unfold tidyLines
  simp [thin_ne_nil h]

theorem mem_splitLines_of_mem_analyze {text : List Char} {l : FencedLine}
    (h : l ∈ analyze (splitLines text)) : l.text ∈ splitLines text := by
  obtain ⟨i, hi⟩ := List.mem_iff_getElem?.mp h
  exact List.mem_of_getElem? (getElem?_of_analyze hi)

/-- The lines of a text that was tidied are the tidied lines. -/
theorem splitLines_tidied (ending : LineEnding) (text : List Char) :
    splitLines (joinLines ending (tidyLines (analyze (splitLines text)))) =
      tidyLines (analyze (splitLines text)) := by
  have hne : analyze (splitLines text) ≠ [] := by
    intro hnil
    have hlines := text_markFences none (splitLines text)
    change (analyze (splitLines text)).map (·.text) = _ at hlines
    rw [hnil] at hlines
    exact splitLines_ne_nil text hlines.symm
  refine splitLines_joinLines ending (tidyLines_ne_nil hne) fun line hline => ?_
  rcases mem_tidyLines hline with rfl | ⟨l, hl, rfl⟩
  · simp [Unbroken]
  · obtain ⟨kept, htidy, hkept⟩ := tidyLine_eq_untab l
    rw [htidy]
    intro c hc
    obtain ⟨d, hd, rfl⟩ := List.mem_map.mp hc
    split
    · exact ⟨by decide, by decide⟩
    · exact unbroken_of_mem_splitLines (mem_splitLines_of_mem_analyze hl) d (hkept.subset hd)

/-- A text that is fixed had nothing to report, or its lines are tidied. -/
theorem fixOnce_cases {text : List Char} (hfit : LinesFit text) :
    (check text .default [] = .ok [] ∧ fixOnce text = text) ∨
      splitLines (fixOnce text) = tidyLines (analyze (splitLines text)) := by
  obtain ⟨violations, hcheck⟩ : ∃ violations, check text .default [] = .ok violations :=
    ⟨_, check_builtin text .default⟩
  by_cases hnone : violations = []
  · rw [hnone] at hcheck
    exact .inl ⟨hcheck, fixOnce_of_clean hcheck⟩
  · have hcontent : fixOnce text =
        joinLines (dominantEnding text) (tidyLines (analyze (splitLines text))) := by
      rw [fixOnce, hcheck]
      dsimp only
      rw [content_applyFixes hcheck hfit, if_neg hnone]
    rw [hcontent]
    exact .inr (splitLines_tidied _ text)

/-! ### One batch -/

theorem check_fixOnce {text : List Char} (hfit : LinesFit text)
    (htabs : ∀ line ∈ splitLines text, TabsInside line) :
    check (fixOnce text) .default [] = .ok [] := by
  rcases fixOnce_cases hfit with ⟨hcheck, hsame⟩ | hlines
  · rw [hsame, hcheck]
  · unfold check
    rw [hlines]
    simp [customViolations, builtinViolations_tidyLines htabs, sortByLine]

/-- One batch is enough for a text whose tabs stand inside the text of their lines. -/
theorem fixOnce_leaves_nothing {text : List Char} (hsize : FitsMemory text)
    (htabs : ∀ line ∈ splitLines text, TabsInside line) :
    check (fixOnce text) .default [] = .ok [] ∧ fixOnce (fixOnce text) = fixOnce text := by
  have hclean := check_fixOnce hsize.linesFit htabs
  exact ⟨hclean, fixOnce_of_clean hclean⟩

/-- A heading with a wide gap, an inner tab and trailing blanks, blank lines, and no terminator at
the end. -/
theorem fixOnce_leaves_nothing_of_heading :
    check (fixOnce "#  a\tb   \n\n\nc".toList) .default [] = .ok [] ∧
      fixOnce (fixOnce "#  a\tb   \n\n\nc".toList) = fixOnce "#  a\tb   \n\n\nc".toList := by
  refine fixOnce_leaves_nothing ?_ ?_
  · unfold FitsMemory
    decide
  · decide

/-- A tab after the last word becomes a trailing blank, which the next check reports with a fix. -/
theorem trailing_tab_left_fixable :
    ¬∀ text, FitsMemory text → ∀ violations, check (fixOnce text) .default [] = .ok violations →
      ∀ v ∈ violations, v.fix = none := by
  intro hall
  have hfixed : fixOnce "a\t\n".toList = "a \n".toList := by decide +kernel
  obtain ⟨v, hcheck, hfix⟩ : ∃ v, check "a \n".toList .default [] = .ok [v] ∧
      v.fix = some (.delete 2 1) := ⟨_, by with_unfolding_all rfl, rfl⟩
  have hnone := hall "a\t\n".toList (by unfold FitsMemory; decide) [v] (by rw [hfixed, hcheck]) v
    (by simp)
  rw [hfix] at hnone
  cases hnone

/-! ### Two batches -/

/-- Fixing comes to rest after two batches: nothing is left to report, and every further batch
leaves the text as it is. -/
theorem fixOnce_converges {text : List Char} (hsize : FitsMemory text) :
    check (fixOnce (fixOnce text)) .default [] = .ok [] ∧
      ∀ n ≥ 2, fixOnce^[n] text = fixOnce (fixOnce text) := by
  have hclean : check (fixOnce (fixOnce text)) .default [] = .ok [] := by
    rcases fixOnce_cases hsize.linesFit with ⟨hcheck, hsame⟩ | hlines
    · rw [hsame, hsame, hcheck]
    · have hline : ∀ line ∈ splitLines (fixOnce text), units line < 2 ^ 63 ∧ '\t' ∉ line := by
        rw [hlines]
        intro line hline
        rcases mem_tidyLines hline with rfl | ⟨l, hl, rfl⟩
        · simp
        · have hle := units_tidyLine_le l
          have hlt := hsize.linesFit l.text (mem_splitLines_of_mem_analyze hl)
          exact ⟨by omega, tab_not_mem_untab _⟩
      exact check_fixOnce (fun line h => (hline line h).1)
        fun line h => tabsInside_of_not_mem (hline line h).2
  refine ⟨hclean, fun n hn => ?_⟩
  obtain ⟨k, rfl⟩ := Nat.exists_eq_add_of_le' hn
  rw [Function.iterate_add_apply]
  exact Function.iterate_fixed (fixOnce_of_clean hclean) k

/-- A heading whose gap and whose end have tabs in them. -/
theorem fixOnce_converges_of_tabs :
    check (fixOnce (fixOnce "#\t a\t\n".toList)) .default [] = .ok [] ∧
      ∀ n ≥ 2, fixOnce^[n] "#\t a\t\n".toList = fixOnce (fixOnce "#\t a\t\n".toList) := by
  refine fixOnce_converges ?_
  unfold FitsMemory
  decide

end LintDesk
