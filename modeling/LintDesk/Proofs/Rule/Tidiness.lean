import LintDesk.Proofs.Rule.TidyLine
import Mathlib.Data.List.DropRight

/-! # A tidied line breaks no rule

If the tabs of a line stand between other characters of its text, a tidied line has nothing left to
fix, and it is a fence, or a heading, if and only if the line was one.
-/

namespace LintDesk

/-! ### Fences -/

theorem Fence.ofLine?_of_blanks {line : Line} (h : ∀ c ∈ line, c = ' ') :
    Fence.ofLine? line = none := by
  have hdrop : line.dropWhile (· == ' ') = [] := List.dropWhile_eq_nil_iff.mpr (by simpa using h)
  simp [Fence.ofLine?, hdrop]

/-- Whether a line is a fence depends on the first character that is not a blank and its run. -/
theorem Fence.ofLine?_append {blanks : List Char} (hblanks : ∀ c ∈ blanks, c = ' ') {c : Char}
    (hc : c ≠ ' ') (rest : List Char) :
    Fence.ofLine? (blanks ++ c :: rest) =
      if isMarker c && blanks.length ≤ 3 && ((c :: rest).takeWhile (· == c)).length ≥ 3 then
        some ⟨c, ((c :: rest).takeWhile (· == c)).length⟩
      else none := by
  obtain ⟨htake, hdrop⟩ := takeWhile_append_of_forall (p := (· == ' ')) (l := blanks)
    (by simpa using hblanks) (r := c :: rest) (by simpa using hc)
  simp only [Fence.ofLine?, htake, hdrop]

theorem blanks_or_first (line : Line) :
    (∀ c ∈ line, c = ' ') ∨ ∃ blanks c rest, line = blanks ++ c :: rest ∧
      (∀ c ∈ blanks, c = ' ') ∧ c ≠ ' ' := by
  induction line with
  | nil => exact .inl (by simp)
  | cons d line ih =>
      by_cases hd : d = ' '
      · rcases ih with hall | ⟨blanks, c, rest, rfl, hblanks, hc⟩
        · exact .inl (by simpa [hd] using hall)
        · exact .inr ⟨d :: blanks, c, rest, rfl, by simpa [hd] using hblanks, hc⟩
      · exact .inr ⟨[], d, line, rfl, by simp, hd⟩

theorem Fence.ofLine?_append_blanks (line : Line) {blanks : List Char}
    (hblanks : ∀ c ∈ blanks, c = ' ') : Fence.ofLine? (line ++ blanks) = Fence.ofLine? line := by
  rcases blanks_or_first line with hall | ⟨before, c, rest, rfl, hbefore, hc⟩
  · have hall' : ∀ c ∈ line ++ blanks, c = ' ' := List.forall_mem_append.mpr ⟨hall, hblanks⟩
    rw [ofLine?_of_blanks hall, ofLine?_of_blanks hall']
  · have hstop : ∀ d ∈ blanks.head?, (d == c) = false := by
      intro d hd
      rw [hblanks d (List.mem_of_head? hd)]
      simpa using hc.symm
    have hrun := (takeWhile_append_of_stop (l := c :: rest) hstop).1
    rw [List.append_assoc, List.cons_append, ofLine?_append hbefore hc, ofLine?_append hbefore hc,
      ← List.cons_append, hrun]

namespace Rule

theorem fence_of_heading {line : Line} {h : Heading} (hh : Heading.ofLine? line = some h) :
    Fence.ofLine? line = none := by
  obtain ⟨gap, c, text, rfl, ⟨-, hone, -⟩, -⟩ := Heading.ofLine?_eq_some_iff.mp hh
  have hhashes : List.replicate h.hashes '#' = '#' :: List.replicate (h.hashes - 1) '#' := by
    rw [← List.replicate_succ, Nat.sub_add_cancel hone]
  rw [hhashes, List.cons_append, Fence.ofLine?_append (by simp +contextual) (by decide)]
  simp [Fence.isMarker]

theorem fence_narrowGap (line : Line) : Fence.ofLine? (narrowGap line) = Fence.ofLine? line := by
  rcases narrowGap_cases line with heq | ⟨h, before, gap, after, hsplit, -, heq⟩
  · rw [heq]
  · rw [heq, fence_of_heading hsplit.narrowed, fence_of_heading hsplit.heading]

theorem fence_dropTrailing (line : Line) :
    Fence.ofLine? (dropTrailing line) = Fence.ofLine? line := by
  obtain ⟨blanks, hline, hblanks⟩ := dropTrailing_append line
  conv_rhs => rw [hline, Fence.ofLine?_append_blanks _ hblanks]

/-! ### Tabs inside the text of a line -/

/-- What may come before the text of a line. -/
def isLead (c : Char) : Bool :=
  c == ' ' || c == '#' || c == '\t'

/-- What may come after the text of a line. -/
def isTrail (c : Char) : Bool :=
  c == ' ' || c == '\t'

theorem isTrail_of_isBlank {c : Char} (h : isBlank c = false) : isTrail c = false := by
  rw [isTrail, Bool.or_eq_false_iff, beq_eq_false_iff_ne, beq_eq_false_iff_ne]
  constructor <;> rintro rfl <;> cases h

/-- No tab comes before or after the text of a line. -/
def TabsInside (line : Line) : Prop :=
  '\t' ∉ line.takeWhile isLead ∧ '\t' ∉ line.reverse.takeWhile isTrail

instance (line : Line) : Decidable (TabsInside line) :=
  inferInstanceAs (Decidable (_ ∧ _))

theorem tabsInside_of_not_mem {line : Line} (h : '\t' ∉ line) : TabsInside line :=
  ⟨fun hmem => h (List.takeWhile_subset _ hmem),
    fun hmem => h (List.mem_reverse.mp (List.takeWhile_subset _ hmem))⟩

theorem mem_takeWhile_append {p : Char → Bool} {c : Char} {l : List Char}
    (h : c ∈ l.takeWhile p) (r : List Char) : c ∈ (l ++ r).takeWhile p := by
  rw [List.takeWhile_append]
  split
  · exact List.mem_append_left _ (List.takeWhile_subset _ h)
  · exact h

theorem takeWhile_append_of_exists {p : Char → Bool} {l : List Char}
    (h : ∃ c ∈ l, p c = false) (r : List Char) : (l ++ r).takeWhile p = l.takeWhile p := by
  obtain ⟨c, hc, hp⟩ := h
  rw [List.takeWhile_append, if_neg]
  intro hlength
  have hself := (List.takeWhile_prefix p).eq_of_length hlength
  have htrue := List.takeWhile_eq_self_iff.mp hself c hc
  rw [hp] at htrue
  cases htrue

theorem TabsInside.dropTrailing {line : Line} (h : TabsInside line) :
    TabsInside (dropTrailing line) := by
  obtain ⟨blanks, hline, hblanks⟩ := dropTrailing_append line
  obtain ⟨hlead, htrail⟩ := h
  rw [hline] at hlead htrail
  have hall : ∀ c ∈ blanks.reverse, isTrail c = true := fun c hc => by
    rw [hblanks c (List.mem_reverse.mp hc)]
    rfl
  refine ⟨fun hmem => hlead (mem_takeWhile_append hmem blanks), fun hmem => htrail ?_⟩
  rw [List.reverse_append, List.takeWhile_append_of_pos hall]
  exact List.mem_append_right _ hmem

theorem GapSplit.lead_chars {line : Line} {h : Heading} {before gap after : List Char}
    (hsplit : GapSplit line h before gap after) :
    (∀ c ∈ before, isLead c = true) ∧ ∀ c ∈ gap, isLead c = true := by
  constructor
  · intro c hc
    rcases hsplit.before_chars c hc with rfl | rfl <;> rfl
  · intro c hc
    rcases hsplit.gap_chars c hc with rfl | rfl <;> rfl

theorem GapSplit.tab_not_mem {line : Line} {h : Heading} {before gap after : List Char}
    (hsplit : GapSplit line h before gap after) (hlead : '\t' ∉ line.takeWhile isLead) :
    '\t' ∉ gap ∧ '\t' ∉ (before ++ after).takeWhile isLead := by
  obtain ⟨hbefore, hgap⟩ := hsplit.lead_chars
  rw [hsplit.line_eq, List.takeWhile_append_of_pos hbefore, List.takeWhile_append_of_pos hgap]
    at hlead
  rw [List.takeWhile_append_of_pos hbefore]
  simp only [List.mem_append, not_or] at hlead ⊢
  exact ⟨hlead.2.1, hlead.1, hlead.2.2⟩

theorem TabsInside.narrowGap {line : Line} (h : TabsInside line) : TabsInside (narrowGap line) := by
  rcases narrowGap_cases line with heq | ⟨h', before, gap, after, hsplit, htab, heq⟩
  · rwa [heq]
  · rw [heq]
    obtain ⟨hlead, htrail⟩ := h
    refine ⟨(hsplit.tab_not_mem hlead).2, ?_⟩
    rw [hsplit.line_eq] at htrail
    obtain ⟨c, hc, hblank⟩ := hsplit.text
    have hstop : ∃ c ∈ after.reverse, isTrail c = false :=
      ⟨c, List.mem_reverse.mpr hc, isTrail_of_isBlank hblank⟩
    rw [List.reverse_append, takeWhile_append_of_exists hstop]
    rwa [List.reverse_append, List.reverse_append, List.append_assoc,
      takeWhile_append_of_exists hstop] at htrail

/-! ### Headings -/

/-- A character that is no blank does not come from the blanks at the end. -/
theorem exists_of_append_blanks {line blanks before text : List Char} {c : Char}
    (hblanks : ∀ c ∈ blanks, c = ' ') (hc : c ≠ ' ') (h : line ++ blanks = before ++ c :: text) :
    ∃ text', line = before ++ c :: text' := by
  rcases List.append_eq_append_iff.mp h with ⟨more, -, hblank⟩ | ⟨more, hline, htext⟩
  · exact absurd (hblanks c (by simp [hblank])) hc
  · cases more with
    | nil =>
        have hmem : c ∈ blanks := by
          rw [← List.nil_append blanks, ← htext]
          exact List.mem_cons_self
        exact absurd (hblanks c hmem) hc
    | cons d more =>
        obtain ⟨rfl, -⟩ := List.cons.inj htext
        exact ⟨more, hline⟩

theorem Heading.ofLine?_append_blanks (line : Line) {blanks : List Char}
    (hblanks : ∀ c ∈ blanks, c = ' ') :
    Heading.ofLine? (line ++ blanks) = Heading.ofLine? line := by
  refine Option.ext fun h => ?_
  constructor
  · intro hh
    obtain ⟨gap, c, text, hline, hbounds, hgap, hgapChars, hc, hhash⟩ :=
      Heading.ofLine?_eq_some_iff.mp hh
    -- the text of the heading begins in the line, not in the blanks
    have hne : c ≠ ' ' := by
      rintro rfl
      cases hc
    rw [← List.append_assoc, ← List.append_assoc] at hline
    obtain ⟨text', hline'⟩ := exists_of_append_blanks hblanks hne hline
    rw [List.append_assoc, List.append_assoc] at hline'
    exact Heading.ofLine?_eq_some_iff.mpr
      ⟨gap, c, text', hline', hbounds, hgap, hgapChars, hc, hhash⟩
  · intro hh
    obtain ⟨gap, c, text, rfl, hbounds, hgap, hgapChars, hc, hhash⟩ :=
      Heading.ofLine?_eq_some_iff.mp hh
    exact Heading.ofLine?_eq_some_iff.mpr
      ⟨gap, c, text ++ blanks, by simp, hbounds, hgap, hgapChars, hc, hhash⟩

/-- Whether a line is a heading does not depend on what follows the first character of its text. -/
theorem Heading.ofLine?_congr {lead rest rest' : List Char} (hhead : rest.head? = rest'.head?)
    (hstop : ∀ c ∈ rest.head?, isLead c = false) :
    Heading.ofLine? (lead ++ rest) = Heading.ofLine? (lead ++ rest') := by
  have hpart : ∀ {p : Char → Bool}, (∀ c, isLead c = false → p c = false) →
      ∀ l, ((l ++ rest).takeWhile p = l.takeWhile p ∧
        (l ++ rest).dropWhile p = l.dropWhile p ++ rest) ∧
        (l ++ rest').takeWhile p = l.takeWhile p ∧
        (l ++ rest').dropWhile p = l.dropWhile p ++ rest' := by
    intro p hp l
    exact ⟨takeWhile_append_of_stop fun c hc => hp c (hstop c hc),
      takeWhile_append_of_stop fun c hc => hp c (hstop c (hhead ▸ hc))⟩
  have hblank := @hpart (· == ' ') (by simp +contextual [isLead])
  have hhash := @hpart (· == '#') (by simp +contextual [isLead])
  have hgap := @hpart (fun c => c == ' ' || c == '\t') (by simp +contextual [isLead])
  simp only [Heading.ofLine?, hblank, hhash, hgap, List.head?_append, hhead]

/-! ### Tabs become blanks -/

/-- A line without tabs before its text is cut there: what follows begins with a character that
tidying keeps. -/
theorem exists_lead {line : Line} (h : '\t' ∉ line.takeWhile isLead) :
    ∃ lead rest, line = lead ++ rest ∧ untab line = lead ++ untab rest ∧
      (untab rest).head? = rest.head? ∧ ∀ c ∈ rest.head?, isLead c = false := by
  have hstop : ∀ c ∈ (line.dropWhile isLead).head?, isLead c = false := by
    intro c hc
    have hnot := List.head?_dropWhile_not isLead line
    rw [hc] at hnot
    simpa using hnot
  refine ⟨line.takeWhile isLead, line.dropWhile isLead,
    List.takeWhile_append_dropWhile.symm, ?_, ?_, hstop⟩
  · conv_lhs => rw [← List.takeWhile_append_dropWhile (p := isLead) (l := line)]
    rw [untab_append, untab_of_not_mem h]
  · cases hrest : line.dropWhile isLead with
    | nil => rfl
    | cons c rest =>
        have hc : c ≠ '\t' := by
          rintro rfl
          exact Bool.noConfusion (hstop '\t' (by simp [hrest]))
        simp [hc]

theorem heading_untab {line : Line} (h : '\t' ∉ line.takeWhile isLead) :
    Heading.ofLine? (untab line) = Heading.ofLine? line := by
  obtain ⟨lead, rest, rfl, huntab, hhead, hstop⟩ := exists_lead h
  rw [huntab]
  exact Heading.ofLine?_congr hhead (hhead ▸ hstop)

/-- A run of a character that is neither a blank nor a tab is as long with blanks for tabs. -/
theorem takeWhile_untab {c : Char} (hblank : c ≠ ' ') (htab : c ≠ '\t') (line : Line) :
    (untab line).takeWhile (· == c) = line.takeWhile (· == c) := by
  induction line with
  | nil => rfl
  | cons d line ih =>
      by_cases hd : d = '\t'
      · subst hd
        simp [hblank.symm, htab.symm]
      · simp [hd, List.takeWhile_cons, ih]

theorem fence_untab {line : Line} (h : '\t' ∉ line.takeWhile isLead) :
    Fence.ofLine? (untab line) = Fence.ofLine? line := by
  rcases blanks_or_first line with hall | ⟨blanks, c, rest, rfl, hblanks, hc⟩
  · rw [untab_of_not_mem fun hmem => by simpa using hall '\t' hmem]
  · have hlead : ∀ d ∈ blanks, isLead d = true := fun d hd => by
      rw [hblanks d hd]
      rfl
    have htab : c ≠ '\t' := by
      rintro rfl
      rw [List.takeWhile_append_of_pos hlead] at h
      simp [isLead] at h
    have hnone : '\t' ∉ blanks := fun hmem => by simpa using hblanks '\t' hmem
    have hrun := takeWhile_untab hc htab (c :: rest)
    rw [untab_append, untab_of_not_mem hnone, untab_cons, if_neg htab,
      Fence.ofLine?_append hblanks hc, Fence.ofLine?_append hblanks hc]
    rw [untab_cons, if_neg htab] at hrun
    rw [hrun]

theorem trimEndWhere_untab {line : Line} (h : '\t' ∉ line.reverse.takeWhile isTrail) :
    trimEndWhere (· == ' ') (untab line) = untab (trimEndWhere (· == ' ') line) := by
  have hreverse : ∀ s : Line, '\t' ∉ s.takeWhile isTrail →
      (untab s).dropWhile (· == ' ') = untab (s.dropWhile (· == ' ')) := by
    intro s hs
    induction s with
    | nil => rfl
    | cons c s ih =>
        by_cases hblank : c = ' '
        · subst hblank
          have hs' : '\t' ∉ s.takeWhile isTrail := by simpa [isTrail] using hs
          simpa using ih hs'
        · have htab : c ≠ '\t' := by
            rintro rfl
            simp [isTrail] at hs
          simp [hblank, htab]
  have hmap : ∀ s : Line, (untab s).reverse = untab s.reverse := fun s => by simp [untab]
  rw [trimEndWhere, trimEndWhere, hmap, hreverse _ h, hmap]

/-! ### Nothing is left to fix -/

theorem fence_tidyLine {l : FencedLine} (h : TabsInside l.text) :
    Fence.ofLine? (tidyLine l) = Fence.ofLine? l.text := by
  unfold tidyLine
  split
  · rw [fence_untab h.dropTrailing.1, fence_dropTrailing]
  · rw [fence_untab h.narrowGap.dropTrailing.1, fence_dropTrailing, fence_narrowGap]

theorem checkTrailingSpaces_dropTrailing {line : Line} (h : TabsInside line) (number : Nat) :
    checkTrailingSpaces 2 number (untab (dropTrailing line)) = [] := by
  have htrim := trimEndWhere_untab h.dropTrailing.2
  have hlength : ∀ s : Line, (untab s).length = s.length := fun s => List.length_map _
  unfold checkTrailingSpaces
  dsimp only
  rw [htrim, hlength, hlength]
  unfold Rule.dropTrailing
  dsimp only
  split
  · next hbreak =>
      have hblank : isBlankLine (untab (trimEndWhere (· == ' ') line)) = false := by
        rw [← hbreak.2, Bool.eq_iff_iff, ← visibleChars_eq_nil, ← visibleChars_eq_nil,
          visibleChars_untab]
      rw [hbreak.1, hblank]
      rfl
  · have hagain : trimEndWhere (· == ' ') (trimEndWhere (· == ' ') line) =
        trimEndWhere (· == ' ') line := by
      rw [trimEndWhere, trimEndWhere, List.reverse_reverse, List.dropWhile_idempotent]
    rw [hagain, Nat.sub_self]
    rfl

theorem checkTrailingSpaces_tidyLine {l : FencedLine} (h : TabsInside l.text) (number : Nat) :
    checkTrailingSpaces 2 number (tidyLine l) = [] := by
  unfold tidyLine
  split
  · exact checkTrailingSpaces_dropTrailing h number
  · exact checkTrailingSpaces_dropTrailing h.narrowGap number

theorem tabRuns_append {a : List Char} (h : '\t' ∉ a) (column : Nat) (s : List Char) :
    tabRuns column (a ++ s) = tabRuns (column + units a) s := by
  induction a generalizing column with
  | nil => rfl
  | cons c a ih =>
      obtain ⟨hc, ha⟩ : '\t' ≠ c ∧ '\t' ∉ a := by simpa using h
      rw [List.cons_append, tabRuns, ih ha, units_cons, Nat.add_assoc]
      simp [hc.symm]

theorem tabRuns_of_not_mem {s : List Char} (h : '\t' ∉ s) (column : Nat) :
    tabRuns column s = [] := by
  rw [← List.append_nil s, tabRuns_append h]
  rfl

theorem checkHardTabs_of_not_mem {line : Line} (h : '\t' ∉ line) (width number : Nat) :
    checkHardTabs width number line = [] := by
  rw [checkHardTabs, tabRuns_of_not_mem h, List.map_nil]

theorem checkHeadingSpace_tidyLine {l : FencedLine} (hfence : l.inFence = false)
    (h : TabsInside l.text) (number : Nat) : checkHeadingSpace number (tidyLine l) = [] := by
  have hsame : Heading.ofLine? (tidyLine l) = Heading.ofLine? (narrowGap l.text) := by
    unfold tidyLine
    rw [hfence, if_neg Bool.false_ne_true, heading_untab h.narrowGap.dropTrailing.1]
    obtain ⟨blanks, hline, hblanks⟩ := dropTrailing_append (narrowGap l.text)
    conv_rhs => rw [hline, Heading.ofLine?_append_blanks _ hblanks]
  unfold checkHeadingSpace
  rw [hsame]
  cases hh : Heading.ofLine? l.text with
  | none => simp [narrowGap, hh]
  | some h' =>
      obtain ⟨before, gap, after, hsplit, hnarrow⟩ := exists_gapSplit hh
      rw [hnarrow, if_neg (hsplit.tab_not_mem h.1).1, hsplit.narrowed]
      have hgap : ¬min h'.gap 1 ≥ 2 := by omega
      simp [hgap]

end Rule

end LintDesk
