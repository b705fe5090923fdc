import LintDesk.Proofs.Edit.Outcomes

/-! # Fixing moves no line into code or out of it

A batch deletes lines outside of code only, and what it leaves of the other lines are the same
fences, unless expanded tabs make a fence of a line. So the lines that stay are marked as they
were.
-/

namespace LintDesk

open Rule

/-- What a reader sees of a line: its characters, and whether it is code. -/
def FencedLine.sight (l : FencedLine) : List Char × Bool :=
  (visibleChars l.text, l.inFence)

/-- The lines that a batch does not delete. -/
def survivors (violations : List Violation) (choice : FixChoice) (lines : List FencedLine) :
    List FencedLine :=
  (lines.zipIdx.filter fun entry => !deletesLine violations choice entry.2).map (·.1)

/-- What has become of a line, given which lines are deleted: a deleted line is no code, and
another one shows the same and is the same fence. -/
def Becomes (deleted : Nat → Bool) (entry : FencedLine × Nat) (slot : Option Line) : Prop :=
  if deleted entry.2 then slot = none ∧ entry.1.inFence = false
  else ∃ kept, slot = some kept ∧ Unbroken kept ∧
    Fence.ofLine? kept = Fence.ofLine? entry.1.text ∧
    visibleChars kept = visibleChars entry.1.text

/-- The lines that stay keep their fences and are seen as they were. -/
theorem exists_keepsFences {deleted : Nat → Bool} {lines : List FencedLine} {start : Nat}
    {slots : List (Option Line)} (h : List.Forall₂ (Becomes deleted) (lines.zipIdx start) slots) :
    ∃ kept, KeepsFences lines kept ∧ kept.map (·.text) = slots.filterMap id ∧
      kept.map FencedLine.sight =
        (((lines.zipIdx start).filter fun entry => !deleted entry.2).map (·.1)).map
          FencedLine.sight := by
  induction lines generalizing start slots with
  | nil =>
      cases h
      exact ⟨[], .nil, rfl, rfl⟩
  | cons l rest ih =>
      rw [List.zipIdx_cons] at h ⊢
      cases h with
      | @cons _ slot _ slots hfirst hrest =>
          obtain ⟨kept, hkeeps, htexts, hsights⟩ := ih hrest
          unfold Becomes at hfirst
          cases hdeleted : deleted start with
          | true =>
              simp only [hdeleted, if_true] at hfirst
              obtain ⟨rfl, hflag⟩ := hfirst
              exact ⟨kept, .drop hflag hkeeps, by simpa using htexts,
                by simpa [hdeleted] using hsights⟩
          | false =>
              simp only [hdeleted, Bool.false_eq_true, if_false] at hfirst
              obtain ⟨line, rfl, -, hfence, hvisible⟩ := hfirst
              refine ⟨⟨line, l.inFence⟩ :: kept, .keep hfence hkeeps, by simp [htexts], ?_⟩
              rw [List.map_cons, hsights]
              simp [hdeleted, FencedLine.sight, hvisible]

/-- Fences are told by the lines that stay. -/
theorem markFences_survivors (deleted : Nat → Bool) (fence : Option Fence) (lines : List Line)
    (start : Nat) {slots : List (Option Line)}
    (h : List.Forall₂ (Becomes deleted) ((markFences fence lines).zipIdx start) slots) :
    (markFences fence (slots.filterMap id)).map FencedLine.sight =
      ((((markFences fence lines).zipIdx start).filter fun entry => !deleted entry.2).map
        (·.1)).map FencedLine.sight := by
  obtain ⟨kept, hkeeps, htexts, hsights⟩ := exists_keepsFences h
  rw [← htexts, hkeeps.markFences_eq, hsights]

theorem unbroken_of_becomes {deleted : Nat → Bool} {entries : List (FencedLine × Nat)}
    {slots : List (Option Line)} (h : List.Forall₂ (Becomes deleted) entries slots) :
    ∀ line ∈ slots.filterMap id, Unbroken line := by
  intro line hline
  obtain ⟨slot, hslot, rfl : slot = some line⟩ := List.mem_filterMap.mp hline
  induction h with
  | nil => cases hslot
  | @cons entry slot _ slots hfirst _ ih =>
      rcases List.mem_cons.mp hslot with rfl | hslot
      · unfold Becomes at hfirst
        split at hfirst
        · cases hfirst.1
        · obtain ⟨kept, hkept, hunbroken, -⟩ := hfirst
          obtain rfl := Option.some.inj hkept
          exact hunbroken
      · exact ih (List.mem_filterMap.mpr ⟨_, hslot, rfl⟩) hslot

/-- Lines that were joined are the first of the text, even if the last of them is ended. -/
theorem prefix_splitLines (ending : LineEnding) {texts lines : List Line}
    (hunbroken : ∀ line ∈ texts, Unbroken line)
    (h : lines = texts ∨ ∃ init last, texts = init ++ [last] ∧
      lines = init ++ [last ++ ending.chars]) :
    texts <+: splitLines (joinLines ending lines) := by
  rcases h with rfl | ⟨init, last, rfl, rfl⟩
  · by_cases hne : lines = []
    · simp [hne]
    · have hsplit := splitLines_joinLines ending hne hunbroken
      exact hsplit.symm ▸ List.prefix_refl lines
  · have hall : ∀ line ∈ init ++ [last, []], Unbroken line := by
      intro line hline
      simp only [List.mem_append, List.mem_cons, List.not_mem_nil, or_false] at hline
      rcases hline with hline | rfl | rfl
      · exact hunbroken line (by simp [hline])
      · exact hunbroken line (by simp)
      · simp [Unbroken]
    rw [joinLines_concat, splitLines_joinLines ending (by simp) hall]
    exact ⟨[[]], by simp⟩

/-- The first lines of a text are marked as they are without the others. -/
theorem markFences_mono (fence : Option Fence) {lines more : List Line} (h : lines <+: more) :
    markFences fence lines <+: markFences fence more := by
  induction lines generalizing fence more with
  | nil => simp [markFences]
  | cons line rest ih =>
      obtain ⟨tail, rfl⟩ := h
      obtain ⟨flag, next, -, hmark⟩ := exists_markFences_cons fence line
      rw [List.cons_append, hmark line rfl, hmark line rfl]
      exact (List.prefix_cons_inj _).mpr (ih next ⟨tail, rfl⟩)

section Batch

variable {text : List Char} {config : RuleConfig} {rules : List CustomRule}
  {violations : List Violation} {choice : FixChoice}

/-- The lines of a text after a batch, in their slots. -/
def slotsAfter (text : List Char) (violations : List Violation) (choice : FixChoice) :
    List (Option Line) :=
  ((plannedFixes violations choice).foldl (BatchState.step (dominantEnding text))
    { lines := (splitLines text).map some }).lines

/-- What a batch of the fixes of a check makes of each line of the text. -/
theorem exists_slotAfter (hsize : FitsMemory text)
    (hcheck : check text config rules = .ok violations)
    (htabs : TabsKeepFences config choice (analyze (splitLines text))) {i : Nat} {l : FencedLine}
    (hl : (analyze (splitLines text))[i]? = some l) :
    ∃ kept tail, KeepsLine (dominantEnding text) (i + 1 = (analyze (splitLines text)).length)
        l.text kept tail ∧
      (slotsAfter text violations choice)[i]? =
        some (if deletesLine violations choice i then none else some (kept ++ tail)) := by
  have hline := getElem?_of_analyze hl
  have hsmall : units l.text < 2 ^ 63 :=
    hsize.linesFit l.text (List.mem_of_getElem? hline)
  have horder := plannedFixes_descend violations choice
  have hslot : ((splitLines text).map some)[i]? = some (some l.text) := by simp [hline]
  unfold slotsAfter
  rw [BatchState.getElem?_foldl_step _ horder (by simp)]
  cases hh : Heading.ofLine? l.text with
  | none => exact exists_slot_of_plain hcheck hl hsmall hslot (by simp) _ htabs hh
  | some h => exact exists_slot_of_heading hcheck hl hsmall hslot (by simp) _ hh

/-- Without its terminator, what is left of a line is what the line becomes. -/
theorem becomes_of_keepsLine (hcheck : check text config rules = .ok violations) {i : Nat}
    {l : FencedLine} (hl : (analyze (splitLines text))[i]? = some l) {ending : LineEnding}
    {mayEnd : Prop} {kept tail : Line} (h : KeepsLine ending mayEnd l.text kept tail) :
    Becomes (deletesLine violations choice) (l, i)
      (if deletesLine violations choice i then none else some kept) := by
  have hunbroken : Unbroken l.text :=
    unbroken_of_mem_splitLines (List.mem_of_getElem? (getElem?_of_analyze hl))
  unfold Becomes
  cases hdeletes : deletesLine violations choice i with
  | true =>
      have hloose := (deletionFix_mem_iff hcheck hl).2 hdeletes
      simp only [FencedLine.isLoose, Bool.and_eq_true, Bool.not_eq_true'] at hloose
      exact ⟨rfl, hloose.1⟩
  | false =>
      refine ⟨kept, rfl, fun c hc => ?_, h.fence, h.visible⟩
      rcases h.chars c hc with hmem | rfl
      · exact hunbroken c hmem
      · decide

theorem forall₂_zipIdx {α β : Type} {R : α × Nat → β → Prop} {l : List α} {l' : List β}
    (hlength : l.length = l'.length)
    (h : ∀ i a b, l[i]? = some a → l'[i]? = some b → R (a, i) b) : List.Forall₂ R l.zipIdx l' := by
  refine List.forall₂_of_length_eq_of_get (by simpa using hlength) fun i hi hi' => ?_
  have hi'' : i < l.length := by simpa using hi
  simpa using h i l[i] l'[i] (List.getElem?_eq_getElem hi'') (List.getElem?_eq_getElem hi')

theorem length_analyze (lines : List Line) : (analyze lines).length = lines.length := by
  have hlength := congrArg List.length (text_markFences none lines)
  rwa [List.length_map] at hlength

/-- The lines after a batch: all but the last are without terminators, and the last may have got
one. -/
theorem exists_texts (hsize : FitsMemory text) (hcheck : check text config rules = .ok violations)
    (htabs : TabsKeepFences config choice (analyze (splitLines text))) :
    ∃ texts, List.Forall₂ (Becomes (deletesLine violations choice))
        (analyze (splitLines text)).zipIdx texts ∧
      ((slotsAfter text violations choice).filterMap id = texts.filterMap id ∨
        ∃ init last, texts.filterMap id = init ++ [last] ∧
          (slotsAfter text violations choice).filterMap id =
            init ++ [last ++ (dominantEnding text).chars]) := by
  have houtcome := fun i l hl => exists_slotAfter (i := i) (l := l) hsize hcheck htabs hl
  have hlength : (slotsAfter text violations choice).length =
      (analyze (splitLines text)).length := by
    simp [slotsAfter, BatchState.length_foldl_step, length_analyze]
  have hne : analyze (splitLines text) ≠ [] := by
    rw [ne_eq, ← List.length_eq_zero_iff, length_analyze, List.length_eq_zero_iff]
    exact splitLines_ne_nil text
  obtain ⟨init, last, hlines⟩ := (List.eq_nil_or_concat' _).resolve_left hne
  obtain ⟨front, final, hslots⟩ := (List.eq_nil_or_concat' (slotsAfter text violations choice)
    ).resolve_left fun hnil => by simp [hnil, hlines] at hlength
  have hfront : front.length = init.length := by
    simpa [hslots, hlines] using hlength
  have hlast : (analyze (splitLines text))[init.length]? = some last := by simp [hlines]
  obtain ⟨kept, tail, hkept, hfinal⟩ := houtcome init.length last hlast
  have hfinal' : final =
      if deletesLine violations choice init.length then none else some (kept ++ tail) := by
    rw [hslots, ← hfront, List.getElem?_concat_length] at hfinal
    rw [← hfront]
    exact Option.some.inj hfinal
  refine ⟨front ++ [if deletesLine violations choice init.length then none else some kept],
    forall₂_zipIdx (by simp [hlines, hfront]) fun i l slot hl hslot => ?_, ?_⟩
  · have hi : i < init.length + 1 := by
      simpa [hlines] using (List.getElem?_eq_some_iff.mp hl).1
    rcases Nat.lt_succ_iff_lt_or_eq.mp hi with hlt | rfl
    · -- the line is not the last one, so it has got no terminator
      obtain ⟨kept, tail, hkept, hget⟩ := houtcome i l hl
      have hinner : tail = [] := by
        rcases hkept.ended with htail | ⟨hend, -⟩
        · exact htail
        · simp only [hlines, List.length_append, List.length_singleton] at hend
          omega
      rw [hslots, List.getElem?_append_left (by omega)] at hget
      rw [List.getElem?_append_left (by omega), hget, hinner, List.append_nil] at hslot
      rw [← Option.some.inj hslot]
      exact becomes_of_keepsLine hcheck hl hkept
    · obtain rfl : last = l := Option.some.inj (hlast.symm.trans hl)
      rw [← hfront, List.getElem?_concat_length, hfront] at hslot
      rw [← Option.some.inj hslot]
      exact becomes_of_keepsLine hcheck hl hkept
  · rw [hslots, hfinal']
    cases deletesLine violations choice init.length with
    | true => exact .inl rfl
    | false =>
        rcases hkept.ended with htail | ⟨-, htail⟩
        · exact .inl (by simp [htail])
        · exact .inr ⟨front.filterMap id, kept, by simp, by simp [htail]⟩

/-- The lines that stay are the first lines of the fixed text. -/
theorem prefix_splitLines_content {texts : List Line}
    (hunbroken : ∀ line ∈ texts, Unbroken line)
    (h : (slotsAfter text violations choice).filterMap id = texts ∨
      ∃ init last, texts = init ++ [last] ∧
        (slotsAfter text violations choice).filterMap id =
          init ++ [last ++ (dominantEnding text).chars]) :
    texts <+: splitLines (applyFixes text violations choice).content := by
  unfold applyFixes
  split
  · next hnone =>
      have hlines : (slotsAfter text violations choice).filterMap id = splitLines text := by
        simp [slotsAfter, hnone]
      rcases h with rfl | ⟨init, last, -, hended⟩
      · exact hlines ▸ List.prefix_refl _
      · have hline : last ++ (dominantEnding text).chars ∈ splitLines text := by
          rw [← hlines, hended]
          simp
        have hbreak := unbroken_of_mem_splitLines hline
        cases hending : dominantEnding text with
        | lf => simpa [hending, LineEnding.chars] using hbreak '\n'
        | crlf => simpa [hending, LineEnding.chars] using hbreak '\n'
        | cr => simpa [hending, LineEnding.chars] using hbreak '\r'
  · exact prefix_splitLines (dominantEnding text) hunbroken h

/-- Fixing moves no line into code or out of it: the lines that a batch does not delete are the
first lines of the fixed text, and each shows what it did and is code if it was. -/
theorem applyFixes_keeps_fences (hsize : FitsMemory text)
    (hcheck : check text config rules = .ok violations)
    (htabs : TabsKeepFences config choice (analyze (splitLines text))) :
    (survivors violations choice (analyze (splitLines text))).map FencedLine.sight <+:
      (analyze (splitLines (applyFixes text violations choice).content)).map FencedLine.sight := by
  obtain ⟨texts, htexts, hslots⟩ := exists_texts hsize hcheck htabs
  have hfirst := prefix_splitLines_content (unbroken_of_becomes htexts) hslots
  have hmarked : (survivors violations choice (analyze (splitLines text))).map FencedLine.sight =
      (analyze (texts.filterMap id)).map FencedLine.sight :=
    (markFences_survivors _ none (splitLines text) 0 htexts).symm
  rw [hmarked]
  exact (markFences_mono none hfirst).map FencedLine.sight

/-- Blank lines, tabs and trailing blanks, inside and outside of a fence, and a heading after it. -/
theorem applyFixes_keeps_fences_of_code :
    FitsMemory "\ta \n\n\n```\n\tx\n\n\n```\n#  z".toList ∧ ∃ violations,
      check "\ta \n\n\n```\n\tx\n\n\n```\n#  z".toList .default [] = .ok violations ∧
      TabsKeepFences .default .all
        (analyze (splitLines "\ta \n\n\n```\n\tx\n\n\n```\n#  z".toList)) ∧
      [("a".toList, false), ([], false), ("```".toList, true), ("x".toList, true), ([], true),
        ([], true), ("```".toList, true), ("#z".toList, false)] <+:
        (analyze (splitLines (applyFixes
          "\ta \n\n\n```\n\tx\n\n\n```\n#  z".toList violations .all).content)).map
            FencedLine.sight := by
  have hsize : FitsMemory "\ta \n\n\n```\n\tx\n\n\n```\n#  z".toList := by
    unfold FitsMemory
    decide
  obtain ⟨violations, hcheck, hstay⟩ : ∃ violations,
      check "\ta \n\n\n```\n\tx\n\n\n```\n#  z".toList .default [] = .ok violations ∧
      (survivors violations .all (analyze (splitLines
        "\ta \n\n\n```\n\tx\n\n\n```\n#  z".toList))).map FencedLine.sight =
        [("a".toList, false), ([], false), ("```".toList, true), ("x".toList, true), ([], true),
          ([], true), ("```".toList, true), ("#z".toList, false)] :=
    ⟨_, by rw [check_builtin, sortByLine_eq_insertionSort], by decide +kernel⟩
  have htabs : TabsKeepFences .default .all
      (analyze (splitLines "\ta \n\n\n```\n\tx\n\n\n```\n#  z".toList)) := by
    have hfences : ∀ l ∈ analyze (splitLines "\ta \n\n\n```\n\tx\n\n\n```\n#  z".toList),
        Fence.ofLine? (fillTabs 1 l.text) = Fence.ofLine? l.text := by decide
    intro i l width hl hwidth
    have hoptions : hardTabs.options? .default = some [] := rfl
    have haccepts : FixChoice.all.accepts (hardTabs.violation (i + 1)) = true := rfl
    obtain rfl : 1 = width := by
      simpa [tabWidth?, hoptions, haccepts, boolOption, natOption, Dict.find?] using hwidth
    exact hfences l (List.mem_of_getElem? hl)
  refine ⟨hsize, violations, hcheck, htabs, ?_⟩
  rw [← hstay]
  exact applyFixes_keeps_fences hsize hcheck htabs

/-- A blank in the place of a tab can make a fence of an indented line, and a line of code of the
next one. -/
theorem tab_before_fence_makes_code :
    ¬∀ text, FitsMemory text → ∀ config violations choice, check text config [] = .ok violations →
      (survivors violations choice (analyze (splitLines text))).map FencedLine.sight <+:
        (analyze (splitLines (applyFixes text violations choice).content)).map
          FencedLine.sight := by
  intro hall
  obtain ⟨violations, hcheck, hstay, hcontent⟩ : ∃ violations,
      check "\t```\na\n".toList .default [] = .ok violations ∧
      (survivors violations .all (analyze (splitLines "\t```\na\n".toList))).map
        FencedLine.sight = [("```".toList, false), ("a".toList, false), ([], false)] ∧
      (applyFixes "\t```\na\n".toList violations .all).content = " ```\na\n".toList :=
    ⟨_, rfl, by decide +kernel, by decide +kernel⟩
  have hprefix := hall "\t```\na\n".toList (by unfold FitsMemory; decide) .default violations .all
    hcheck
  rw [hstay, hcontent] at hprefix
  have hfixed : (analyze (splitLines " ```\na\n".toList)).map FencedLine.sight =
      [("```".toList, true), ("a".toList, true), ([], true)] := rfl
  rw [hfixed] at hprefix
  simp at hprefix

end Batch

end LintDesk
