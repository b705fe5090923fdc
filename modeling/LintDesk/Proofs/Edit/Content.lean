import LintDesk.Proofs.Edit.Plan
import Mathlib.Algebra.Group.Nat.Defs

/-! # Fixing keeps the content of a text

A batch of the fixes that a check proposes changes white space only. The batch works from right to
left, so what lies to the left of the fix considered last is still as it was, and every fix finds
the white space it was made for.
-/

namespace LintDesk

/-! ### One fix -/

/-- The text that a fix of white space inserts is white space, whatever the line ending. -/
theorem visibleChars_insertedChars {f : PlannedFix} (h : isBlankLine f.insertion.toList = true)
    (ending : LineEnding) : visibleChars (f.toFix.insertedChars ending) = [] := by
  change visibleChars (f.insertion.toList.flatMap _) = []
  generalize f.insertion.toList = s at h ⊢
  induction s with
  | nil => rfl
  | cons c s ih =>
      obtain ⟨hc, hs⟩ : isBlank c = true ∧ isBlankLine s = true := by
        simpa [isBlankLine] using h
      rw [List.flatMap_cons, visibleChars_append, ih hs, List.append_nil]
      split
      · exact visibleChars_ending ending
      · simp [visibleChars, hc]

/-- A fix cuts out what lies between its ends. -/
theorem PlannedFix.apply_chars {f : PlannedFix} {count : Nat} (hremoval : f.removal = .chars count)
    {before removed after : List Char} (hstart : units before = f.start)
    (hcount : units removed = count) (ending : LineEnding) :
    f.toFix.apply (before ++ (removed ++ after)) ending =
      .replace (before ++ (f.toFix.insertedChars ending ++ after)) := by
  have htake : takeUnits f.start (before ++ (removed ++ after)) = before := by
    rw [← hstart, takeUnits_append]
  have hdrop : dropUnits (f.start + count) (before ++ (removed ++ after)) = after := by
    rw [← hstart, ← hcount, ← units_append, ← List.append_assoc, dropUnits_append]
  simp only [Fix.apply, PlannedFix.toFix, hremoval, Nat.add_sub_cancel]
  rw [htake, hdrop, List.append_assoc]

namespace BatchState

/-! ### What a batch keeps -/

/-- A batch under way: every line still shows what it showed, the lines that fixes are ahead for
are untouched, and the line of the fix considered last is as it was up to that fix. -/
structure Keeps (lines : List Line) (s : BatchState) (ahead : List PlannedFix) : Prop where
  content : s.lines.map (fun slot => visibleChars (slot.getD [])) = lines.map visibleChars
  untouched : ∀ f ∈ ahead, f.removal.isWholeLine = false → ∀ line, lines[f.line]? = some line →
    s.lastLine ≠ some f.line → s.lines[f.line]? = some (some line)
  begun : ∀ f ∈ ahead, f.removal.isWholeLine = false → ∀ line, lines[f.line]? = some line →
    s.lastLine = some f.line → (f.start : Int) ≤ s.lastStart ∧ ∃ kept old new,
      line = kept ++ old ∧ s.lines[f.line]? = some (some (kept ++ new)) ∧ s.lastStart ≤ units kept
  below : ∀ f ∈ ahead, ∀ n, s.lastLine = some n → f.line ≤ n

theorem Keeps.start (lines : List Line) (ahead : List PlannedFix) :
    Keeps lines { lines := lines.map some } ahead where
  content := by simp
  untouched := by
    intro f _ _ line hline _
    simp [hline]
  begun := by simp
  below := by simp

/-- What a line has become shows what the line showed. -/
theorem Keeps.visibleChars_slot {lines : List Line} {s : BatchState} {ahead : List PlannedFix}
    (h : s.Keeps lines ahead) {i : Nat} {line : Line} (hline : lines[i]? = some line)
    {slot : Option Line} (hslot : s.lines[i]? = some slot) :
    visibleChars (slot.getD []) = visibleChars line := by
  have hi := congrArg (fun l : List (List Char) => l[i]?) h.content
  simpa [hline, hslot] using hi

/-- The fixes ahead find what they need once the first of them has been dealt with, whatever it
did to its own line. -/
theorem Keeps.advance {lines : List Line} {s : BatchState} {f : PlannedFix}
    {rest : List PlannedFix} (h : s.Keeps lines (f :: rest))
    (horder : (f :: rest).Pairwise PlannedFix.Before) (slots : List (Option Line)) (applied : Nat)
    (hcontent : slots.map (fun slot => visibleChars (slot.getD [])) = lines.map visibleChars)
    (hother : ∀ i, i ≠ f.line → slots[i]? = s.lines[i]?)
    (hown : f.removal.isWholeLine = false → (f.start : Int) ≤ maxInt64 ∧
      ∀ line, lines[f.line]? = some line → ∃ kept old new, line = kept ++ old ∧
        slots[f.line]? = some (some (kept ++ new)) ∧ f.start ≤ units kept) :
    Keeps lines ⟨slots, some f.line, min (f.start : Int) maxInt64, applied⟩ rest where
  content := hcontent
  untouched := by
    intro g hg hwhole line hline hlast
    have hne : g.line ≠ f.line := fun heq => hlast (by rw [heq])
    have hlt : g.line < f.line := by
      rcases (List.pairwise_cons.mp horder).1 g hg with hlt | ⟨heq, _⟩
      · exact hlt
      · exact absurd heq.symm hne
    rw [hother g.line hne]
    refine h.untouched g (by simp [hg]) hwhole line hline ?_
    intro hsame
    have := h.below f (by simp) g.line hsame
    omega
  begun := by
    intro g hg hwhole line hline hlast
    have heq : f.line = g.line := Option.some.inj hlast
    rcases (List.pairwise_cons.mp horder).1 g hg with hlt | ⟨_, hdelete | ⟨hf, hstart⟩⟩
    · omega
    · rw [hwhole] at hdelete
      cases hdelete
    · obtain ⟨hsmall, hkept⟩ := hown hf
      obtain ⟨kept, old, new, hsplit, hslot, hle⟩ := hkept line (heq ▸ hline)
      refine ⟨by simp only; omega, kept, old, new, hsplit, heq ▸ hslot, ?_⟩
      simp only
      omega
  below := by
    intro g hg n hn
    have heq : f.line = n := Option.some.inj hn
    rcases (List.pairwise_cons.mp horder).1 g hg with hlt | ⟨hline, _⟩ <;> omega

/-- A fix that is skipped changes nothing. -/
theorem Keeps.skip {lines : List Line} {s : BatchState} {f : PlannedFix} {rest : List PlannedFix}
    (h : s.Keeps lines (f :: rest)) (horder : (f :: rest).Pairwise PlannedFix.Before)
    (hsmall : f.removal.isWholeLine = false → (f.start : Int) ≤ maxInt64)
    (hown : f.removal.isWholeLine = false → s.lastLine = some f.line) :
    Keeps lines { s with lastLine := some f.line, lastStart := min (f.start : Int) maxInt64 }
      rest := by
  refine h.advance horder s.lines s.applied h.content (fun _ _ => rfl) ?_
  intro hwhole
  refine ⟨hsmall hwhole, ?_⟩
  intro line hline
  obtain ⟨hstart, kept, old, new, hsplit, hslot, hle⟩ :=
    h.begun f (by simp) hwhole line hline (hown hwhole)
  exact ⟨kept, old, new, hsplit, hslot, by omega⟩

/-- A fix that is applied replaces its line by one that shows the same. -/
theorem Keeps.replace {lines : List Line} {s : BatchState} {f : PlannedFix}
    {rest : List PlannedFix} (h : s.Keeps lines (f :: rest))
    (horder : (f :: rest).Pairwise PlannedFix.Before) {line : Line}
    (hline : lines[f.line]? = some line) {now : Line} (hnow : s.lines[f.line]? = some (some now))
    (fixed : Option Line) (applied : Nat)
    (hfixed : visibleChars (fixed.getD []) = visibleChars now)
    (hown : f.removal.isWholeLine = false → (f.start : Int) ≤ maxInt64 ∧
      ∃ kept old new, line = kept ++ old ∧ fixed = some (kept ++ new) ∧ f.start ≤ units kept) :
    Keeps lines ⟨s.lines.set f.line fixed, some f.line, min (f.start : Int) maxInt64, applied⟩
      rest := by
  have hbound : f.line < s.lines.length := (List.getElem?_eq_some_iff.mp hnow).1
  refine h.advance horder _ applied ?_ ?_ ?_
  · rw [List.map_set, hfixed, ← h.content]
    apply List.ext_getElem?
    intro i
    by_cases hi : f.line = i
    · subst hi
      have hget : s.lines[f.line] = some now := (List.getElem?_eq_some_iff.mp hnow).2
      simp [hbound, hget]
    · simp [List.getElem?_set_ne hi]
  · intro i hi
    exact List.getElem?_set_ne (Ne.symm hi)
  · intro hwhole
    obtain ⟨hsmall, kept, old, new, hsplit, hkept, hle⟩ := hown hwhole
    refine ⟨hsmall, ?_⟩
    intro other hother
    obtain rfl : line = other := Option.some.inj (hline.symm.trans hother)
    exact ⟨kept, old, new, hsplit, by simp [hbound, hkept], hle⟩

/-! ### One step and the whole batch -/

/-- A fix that fits lies to the left of the fix considered before it on its line. -/
theorem fits_same_line {s : BatchState} {f : PlannedFix} {count : Nat}
    (hremoval : f.removal = .chars count) (hlast : s.lastLine = some f.line)
    (hsmall : (f.start + count : Nat) < 2 ^ 63) (hfits : s.fits f = true) :
    (f.start + count : Nat) ≤ s.lastStart := by
  simp only [fits, hremoval, Removal.toInt, Removal.maxCount, Removal.isWholeLine, maxInt64, hlast,
    bne_self_eq_false, Bool.false_or, decide_eq_true_eq] at hfits
  split at hfits <;> omega

theorem fits_of_other_line {s : BatchState} {f : PlannedFix} (h : s.fits f = false) :
    f.removal.isWholeLine = false ∧ s.lastLine = some f.line := by
  simp only [fits, Bool.or_eq_false_iff] at h
  exact ⟨h.1.2, by simpa using h.1.1⟩

theorem Keeps.step_wholeLine {lines : List Line} {s : BatchState} {f : PlannedFix}
    {rest : List PlannedFix} (h : s.Keeps lines (f :: rest))
    (horder : (f :: rest).Pairwise PlannedFix.Before) (hedit : f.EditsBlanks lines)
    (hremoval : f.removal = .wholeLine) (ending : LineEnding) :
    (s.step ending f).Keeps lines rest := by
  obtain ⟨line, hline, hblank⟩ := hedit
  have hwhole : f.removal.isWholeLine = true := by rw [hremoval]; rfl
  have hnot : f.removal.isWholeLine = false → False := by simp [hwhole]
  rw [hremoval] at hblank
  unfold BatchState.step
  dsimp only
  rw [if_pos (by simp [fits, hwhole])]
  split
  · rename_i now hnow
    have hdelete : f.toFix.apply now ending = .deleteLine := by
      simp [Fix.apply, PlannedFix.toFix, hremoval, Fix.insertedChars, hblank.2]
    rw [hdelete]
    refine h.replace horder hline hnow none _ ?_ (fun hf => (hnot hf).elim)
    have hshown := h.visibleChars_slot hline hnow
    rw [visibleChars_eq_nil.mpr hblank.1] at hshown
    exact hshown.symm
  · exact h.skip horder (fun hf => (hnot hf).elim) (fun hf => (hnot hf).elim)

theorem Keeps.step_chars {lines : List Line} (hsize : ∀ line ∈ lines, units line < 2 ^ 63)
    {s : BatchState} {f : PlannedFix} {rest : List PlannedFix} (h : s.Keeps lines (f :: rest))
    (horder : (f :: rest).Pairwise PlannedFix.Before) (hedit : f.EditsBlanks lines) {count : Nat}
    (hremoval : f.removal = .chars count) (ending : LineEnding) :
    (s.step ending f).Keeps lines rest := by
  obtain ⟨line, hline, hblank⟩ := hedit
  have hline63 := hsize line (List.mem_of_getElem? hline)
  have hwhole : f.removal.isWholeLine = false := by rw [hremoval]; rfl
  rw [hremoval] at hblank
  obtain ⟨hinsertion, before, removed, after, hsplit, hstart, hcount, hremoved⟩ := hblank
  have hsum : f.start + count ≤ units line := by
    rw [hsplit, units_append, units_append]
    omega
  have hsmall : (f.start : Int) ≤ maxInt64 := by
    simp only [maxInt64]
    omega
  unfold BatchState.step
  dsimp only
  split
  · rename_i hfits
    -- what the line is now begins with everything up to the end of the fix
    obtain ⟨after', hnow⟩ : ∃ after',
        s.lines[f.line]? = some (some (before ++ (removed ++ after'))) := by
      by_cases hlast : s.lastLine = some f.line
      · obtain ⟨_, kept, old, new, hkept, hslot, hle⟩ :=
          h.begun f (by simp) hwhole line hline hlast
        have hend := fits_same_line hremoval hlast (by omega) hfits
        have hbeginning : before ++ removed <+: kept := by
          apply prefix_of_units_le (s := line) ⟨after, by rw [hsplit, List.append_assoc]⟩
            ⟨old, hkept.symm⟩
          rw [units_append]
          omega
        obtain ⟨between, rfl⟩ := hbeginning
        exact ⟨between ++ new, by simpa [List.append_assoc] using hslot⟩
      · exact ⟨after, by rw [h.untouched f (by simp) hwhole line hline hlast, hsplit]⟩
    rw [hnow]
    dsimp only
    rw [PlannedFix.apply_chars hremoval hstart hcount ending]
    refine h.replace horder hline hnow _ _ ?_ ?_
    · simp [visibleChars_insertedChars hinsertion, visibleChars_eq_nil.mpr hremoved]
    · exact fun _ => ⟨hsmall, before, removed ++ after, _, hsplit, rfl, hstart.ge⟩
  · rename_i hfits
    have hlast := (fits_of_other_line (by simpa using hfits)).2
    exact h.skip horder (fun _ => hsmall) (fun _ => hlast)

/-- Considering one fix keeps what every line shows. -/
theorem Keeps.step {lines : List Line} (hsize : ∀ line ∈ lines, units line < 2 ^ 63)
    {s : BatchState} {f : PlannedFix} {rest : List PlannedFix} (h : s.Keeps lines (f :: rest))
    (horder : (f :: rest).Pairwise PlannedFix.Before) (hedit : f.EditsBlanks lines)
    (ending : LineEnding) : (s.step ending f).Keeps lines rest := by
  cases hremoval : f.removal with
  | wholeLine => exact h.step_wholeLine horder hedit hremoval ending
  | chars count => exact h.step_chars hsize horder hedit hremoval ending

/-- A whole batch keeps what every line shows. -/
theorem Keeps.foldl {lines : List Line} (hsize : ∀ line ∈ lines, units line < 2 ^ 63)
    (ending : LineEnding) (fixes : List PlannedFix) {s : BatchState} (h : s.Keeps lines fixes)
    (horder : fixes.Pairwise PlannedFix.Before) (hedit : ∀ f ∈ fixes, f.EditsBlanks lines) :
    (fixes.foldl (BatchState.step ending) s).Keeps lines [] := by
  induction fixes generalizing s with
  | nil => exact h
  | cons f rest ih =>
      refine ih (h.step hsize horder (hedit f (by simp)) ending) (List.pairwise_cons.mp horder).2 ?_
      exact fun g hg => hedit g (by simp [hg])

end BatchState

/-! ### The content of a text -/

theorem visibleChars_flatten (lines : List Line) :
    visibleChars lines.flatten = (lines.map visibleChars).flatten := by
  induction lines with
  | nil => rfl
  | cons line rest ih => simp [ih]

/-- The lines that are left show what all slots show. -/
theorem visibleChars_slots (slots : List (Option Line)) :
    visibleChars (slots.filterMap id).flatten =
      (slots.map fun slot => visibleChars (slot.getD [])).flatten := by
  induction slots with
  | nil => rfl
  | cons slot rest ih =>
      cases slot with
      | none => simpa [List.filterMap_cons] using ih
      | some line => simpa [List.filterMap_cons] using ih

/-- A text that fits into memory: a signed 64-bit word can count its bytes. -/
def FitsMemory (text : List Char) : Prop :=
  byteLength text < 2 ^ 63

/-- A signed 64-bit word can count the code units of every line. -/
def LinesFit (text : List Char) : Prop :=
  ∀ line ∈ splitLines text, units line < 2 ^ 63

theorem FitsMemory.linesFit {text : List Char} (h : FitsMemory text) : LinesFit text := by
  intro line hline
  have hbytes := byteLength_le_of_mem_splitLines hline
  have hunits := units_le_byteLength line
  unfold FitsMemory at h
  omega

/-- Fixing changes white space only: whatever the configuration, the custom rules and the choice of
fixes, the fixed text has the visible characters of the text, in the same order. -/
theorem applyFixes_keeps_content {text : List Char} (hsize : FitsMemory text) {config : RuleConfig}
    {rules : List CustomRule} {violations : List Violation}
    (hcheck : Rule.check text config rules = .ok violations) (choice : FixChoice) :
    visibleChars (applyFixes text violations choice).content = visibleChars text := by
  unfold applyFixes
  split
  · rfl
  · dsimp only
    have hkeeps := BatchState.Keeps.foldl hsize.linesFit (dominantEnding text)
      (plannedFixes violations choice) (BatchState.Keeps.start (splitLines text) _)
      (plannedFixes_before violations choice)
      (plannedFixes_editsBlanks (Rule.check_fixesBlanks hcheck) choice)
    rw [visibleChars_joinLines, visibleChars_slots, hkeeps.content, ← visibleChars_flatten,
      visibleChars_splitLines]

/-- A heading with a tab in its gap, trailing blanks, blank lines and no final newline. -/
theorem applyFixes_keeps_content_of_heading :
    FitsMemory "#\t a\tb   \n\n\nc".toList ∧ ∃ violations,
      Rule.check "#\t a\tb   \n\n\nc".toList .default [] = .ok violations ∧
      visibleChars (applyFixes "#\t a\tb   \n\n\nc".toList violations .all).content =
        "#abc".toList := by
  have hsize : FitsMemory "#\t a\tb   \n\n\nc".toList := by
    unfold FitsMemory
    decide
  obtain ⟨violations, hcheck⟩ : ∃ violations,
      Rule.check "#\t a\tb   \n\n\nc".toList .default [] = .ok violations := ⟨_, rfl⟩
  refine ⟨hsize, violations, hcheck, ?_⟩
  rw [applyFixes_keeps_content hsize hcheck .all]
  decide

end LintDesk
