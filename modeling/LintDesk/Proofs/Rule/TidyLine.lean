import LintDesk.Proofs.Rule.BlankFix
import Mathlib.Algebra.Group.Nat.Defs

/-! # Tidying one line

`tidyLine` says in one piece what all default fixes together make of a line: a heading keeps one
character of its gap, blanks at the end go, and tabs become blanks. Tidying changes white space
only.
-/

namespace LintDesk

/-! ### Runs at the ends of a list -/

section Runs

variable {α : Type} {p : α → Bool}

theorem takeWhile_append_of_stop {l r : List α} (h : ∀ a ∈ r.head?, p a = false) :
    (l ++ r).takeWhile p = l.takeWhile p ∧ (l ++ r).dropWhile p = l.dropWhile p ++ r := by
  induction l with
  | nil =>
      cases r with
      | nil => simp
      | cons a r => simp [h a (by simp)]
  | cons a l ih =>
      cases hp : p a with
      | true => simp [hp, ih]
      | false => simp [hp]

theorem takeWhile_append_of_forall {l : List α} (hl : ∀ a ∈ l, p a = true) {r : List α}
    (h : ∀ a ∈ r.head?, p a = false) :
    (l ++ r).takeWhile p = l ∧ (l ++ r).dropWhile p = r := by
  obtain ⟨htake, hdrop⟩ := takeWhile_append_of_stop (l := l) h
  rw [htake, hdrop, List.takeWhile_eq_self_iff.mpr hl, List.dropWhile_eq_nil_iff.mpr hl]
  exact ⟨rfl, rfl⟩

end Runs

theorem takeWhile_eq_replicate (c : Char) (s : List Char) :
    s.takeWhile (· == c) = List.replicate (s.takeWhile (· == c)).length c := by
  refine List.eq_replicate_of_mem fun d hd => ?_
  simpa using List.mem_takeWhile_imp hd

namespace Rule

/-- What a heading looks like: blanks, hashes, a gap, and text that does not begin with a blank. -/
theorem Heading.ofLine?_eq_some_iff {line : Line} {h : Heading} :
    Heading.ofLine? line = some h ↔ ∃ gap c text,
      line = List.replicate h.indent ' ' ++ (List.replicate h.hashes '#' ++ (gap ++ c :: text)) ∧
      (h.indent ≤ 3 ∧ 1 ≤ h.hashes ∧ h.hashes ≤ 6) ∧ gap.length = h.gap ∧
      (∀ d ∈ gap, d = ' ' ∨ d = '\t') ∧ isBlank c = false ∧ (gap = [] → c ≠ '#') := by
  constructor
  · intro hh
    unfold Heading.ofLine? at hh
    dsimp only at hh
    split at hh
    · rename_i hparts
      obtain rfl := Option.some.inj hh
      let rest := line.dropWhile (· == ' ')
      let after := rest.dropWhile (· == '#')
      let gap := after.takeWhile fun c => c == ' ' || c == '\t'
      simp only [Bool.and_eq_true, decide_eq_true_eq, and_assoc] at hparts
      obtain ⟨hindent, hone, hsix, htext⟩ := hparts
      obtain ⟨c, hhead, hc⟩ := (Option.any_eq_true _ _).mp htext
      obtain ⟨text, hdrop⟩ := List.head?_eq_some_iff.mp hhead
      have hsplit : gap ++ c :: text = after := by
        rw [← hdrop]
        exact List.takeWhile_append_dropWhile
      refine ⟨gap, c, text, ?_, ⟨hindent, hone, hsix⟩, rfl, ?_, by simpa using hc, ?_⟩
      · rw [hsplit, ← takeWhile_eq_replicate, ← takeWhile_eq_replicate,
          List.takeWhile_append_dropWhile, List.takeWhile_append_dropWhile]
      · intro d hd
        simpa using List.mem_takeWhile_imp hd
      · rintro hnil rfl
        have hnot := List.head?_dropWhile_not (· == '#') rest
        have hafter : rest.dropWhile (· == '#') = '#' :: text := by
          simpa [hnil] using hsplit.symm
        rw [hafter] at hnot
        simp at hnot
    · cases hh
  · rintro ⟨gap, c, text, rfl, ⟨hindent, hone, hsix⟩, hgap, hblanks, hc, hhash⟩
    have hhashes : List.replicate h.hashes '#' = '#' :: List.replicate (h.hashes - 1) '#' := by
      rw [← List.replicate_succ, Nat.sub_add_cancel hone]
    obtain ⟨htake₁, hdrop₁⟩ := takeWhile_append_of_forall (p := (· == ' '))
      (l := List.replicate h.indent ' ') (by simp +contextual)
      (r := List.replicate h.hashes '#' ++ (gap ++ c :: text)) (by simp [hhashes])
    have hnext : ∀ d ∈ (gap ++ c :: text).head?, (d == '#') = false := by
      cases gap with
      | nil => simpa using hhash rfl
      | cons d gap =>
          rcases hblanks d (by simp) with rfl | rfl <;> simp
    obtain ⟨htake₂, hdrop₂⟩ := takeWhile_append_of_forall (p := (· == '#'))
      (l := List.replicate h.hashes '#') (by simp +contextual) hnext
    have hstop : (c == ' ' || c == '\t') = false := by
      rw [Bool.or_eq_false_iff, beq_eq_false_iff_ne, beq_eq_false_iff_ne]
      constructor <;> rintro rfl <;> revert hc <;> decide
    obtain ⟨htake₃, hdrop₃⟩ := takeWhile_append_of_forall
      (p := fun c => c == ' ' || c == '\t') (l := gap) (by simpa using hblanks)
      (r := c :: text) (by simpa using hstop)
    unfold Heading.ofLine?
    simp only [htake₁, hdrop₁, htake₂, hdrop₂, htake₃, hdrop₃, List.length_replicate]
    simp [hindent, hone, hsix, hc, hgap]

/-! ### Tidying one line -/

/-- A line with a blank for every tab. -/
def untab (line : Line) : Line :=
  line.map fun c => if c = '\t' then ' ' else c

/-- A line with `width` blanks for every tab. -/
def expandTabs (width : Nat) (line : Line) : Line :=
  line.flatMap fun c => if c = '\t' then List.replicate width ' ' else [c]

/-- A line with blanks for every run of tabs, `count` tabs before the line included. -/
def fillTabsAfter (width : Nat) : (count : Nat) → Line → Line
  | count, [] => List.replicate (blanksFor width count) ' '
  | count, c :: rest =>
    if c = '\t' then fillTabsAfter width (count + 1) rest
    else List.replicate (blanksFor width count) ' ' ++ c :: fillTabsAfter width 0 rest

/-- A line with blanks for every run of tabs. -/
def fillTabs (width : Nat) (line : Line) : Line :=
  fillTabsAfter width 0 line

/-- A machine word can count the blanks for every run of tabs of a line. -/
def TabsFit (width : Nat) (line : Line) : Prop :=
  ∀ n, List.replicate n '\t' <:+: line → n * width < UInt64.size

/-- A line without the blanks at its end, unless they make a line break. -/
def dropTrailing (line : Line) : Line :=
  let kept := trimEndWhere (· == ' ') line
  if line.length - kept.length = 2 ∧ isBlankLine kept = false then line else kept

/-- A heading with the last character of its gap only, unless a tab is among the others. -/
def narrowGap (line : Line) : Line :=
  match Heading.ofLine? line with
  | none => line
  | some h =>
    let start := h.indent + h.hashes
    if '\t' ∈ (line.drop start).take (h.gap - 1) then line
    else line.take start ++ line.drop (start + (h.gap - 1))

/-- A line as a batch of all default fixes leaves it. -/
def tidyLine (l : FencedLine) : Line :=
  untab (dropTrailing (if l.inFence then l.text else narrowGap l.text))

@[simp] theorem untab_nil : untab [] = [] := rfl

@[simp] theorem untab_append (a b : Line) : untab (a ++ b) = untab a ++ untab b := by
  simp [untab]

@[simp] theorem untab_cons (c : Char) (line : Line) :
    untab (c :: line) = (if c = '\t' then ' ' else c) :: untab line := rfl

theorem tab_not_mem_untab (line : Line) : '\t' ∉ untab line := by
  intro h
  obtain ⟨c, -, hc⟩ := List.mem_map.mp h
  split at hc
  · cases hc
  · exact absurd hc ‹_›

theorem untab_of_not_mem {line : Line} (h : '\t' ∉ line) : untab line = line := by
  have hsame : ∀ c ∈ line, (if c = '\t' then ' ' else c) = c := by
    intro c hc
    exact if_neg (by rintro rfl; exact h hc)
  rw [untab, List.map_congr_left hsame, List.map_id']

theorem tab_not_mem_takeWhile (line : Line) : '\t' ∉ line.takeWhile (· != '\t') := by
  intro hmem
  simpa using List.mem_takeWhile_imp hmem

/-- Up to the first tab nothing changes. -/
theorem untab_eq_append (line : Line) : untab line =
    line.takeWhile (· != '\t') ++ untab (line.dropWhile (· != '\t')) := by
  conv_lhs => rw [← List.takeWhile_append_dropWhile (p := (· != '\t')) (l := line)]
  rw [untab_append, untab_of_not_mem (tab_not_mem_takeWhile line)]

@[simp] theorem units_untab (line : Line) : units (untab line) = units line := by
  induction line with
  | nil => rfl
  | cons c line ih =>
      rw [untab_cons, units_cons, units_cons, ih]
      split
      · next htab => rw [htab]; rfl
      · rfl

@[simp] theorem visibleChars_untab (line : Line) :
    visibleChars (untab line) = visibleChars line := by
  induction line with
  | nil => rfl
  | cons c line ih =>
      rw [untab_cons, visibleChars_cons, visibleChars_cons c line, ih]
      split
      · next htab => rw [htab]; rfl
      · rfl

theorem expandTabs_one (line : Line) : expandTabs 1 line = untab line := by
  induction line with
  | nil => rfl
  | cons c line ih =>
      rw [expandTabs, List.flatMap_cons, ← expandTabs, ih, untab_cons]
      split <;> rfl

/-! ### Runs of tabs -/

section Tabs

variable (width count : Nat) {line : Line}

@[simp] theorem blanksFor_zero : blanksFor width 0 = 0 := by
  simp [blanksFor]

@[simp] theorem fillTabs_nil : fillTabs width [] = [] := by
  simp [fillTabs, fillTabsAfter]

theorem visibleChars_replicate_blank (n : Nat) : visibleChars (List.replicate n ' ') = [] := by
  simp [visibleChars, isBlank]

theorem fillTabsAfter_of_head (h : line.head? ≠ some '\t') : fillTabsAfter width count line =
    List.replicate (blanksFor width count) ' ' ++ fillTabs width line := by
  cases line with
  | nil => simp [fillTabs, fillTabsAfter]
  | cons c rest =>
      have hc : c ≠ '\t' := by simpa using h
      simp [fillTabs, fillTabsAfter, hc]

theorem fillTabsAfter_replicate (n : Nat) (line : Line) :
    fillTabsAfter width count (List.replicate n '\t' ++ line) =
      fillTabsAfter width (count + n) line := by
  induction n generalizing count with
  | zero => rfl
  | succ n ih =>
      rw [List.replicate_succ, List.cons_append, fillTabsAfter, if_pos rfl, ih, Nat.add_assoc,
        Nat.add_comm 1]

/-- A run of tabs becomes the blanks that are proposed for it. -/
theorem fillTabs_run (n : Nat) (h : line.head? ≠ some '\t') :
    fillTabs width (List.replicate n '\t' ++ line) =
      List.replicate (blanksFor width n) ' ' ++ fillTabs width line := by
  rw [fillTabs, fillTabsAfter_replicate, Nat.zero_add, fillTabsAfter_of_head width n h]

-- a product of two machine words can be none at all
example : fillTabs (UInt64.size / 2) "\t\t```".toList = "```".toList := by decide

theorem fillTabs_append_left {a : Line} (h : '\t' ∉ a) (b : Line) :
    fillTabs width (a ++ b) = a ++ fillTabs width b := by
  induction a with
  | nil => rfl
  | cons c a ih =>
      obtain ⟨hc, ha⟩ : '\t' ≠ c ∧ '\t' ∉ a := by simpa using h
      rw [List.cons_append, fillTabs, fillTabsAfter, if_neg hc.symm, ← fillTabs, ih ha]
      simp

/-- Up to the first tab nothing changes. -/
theorem fillTabs_eq_append (line : Line) : fillTabs width line =
    line.takeWhile (· != '\t') ++ fillTabs width (line.dropWhile (· != '\t')) := by
  conv_lhs => rw [← List.takeWhile_append_dropWhile (p := (· != '\t')) (l := line)]
  exact fillTabs_append_left width (tab_not_mem_takeWhile line) _

theorem fillTabsAfter_append_right (a : Line) {b : Line} (h : '\t' ∉ b) :
    fillTabsAfter width count (a ++ b) = fillTabsAfter width count a ++ b := by
  induction a generalizing count with
  | nil =>
      have hb : b.head? ≠ some '\t' := fun hhead => h (List.mem_of_head? hhead)
      have hfill := fillTabs_append_left width h []
      rw [List.append_nil, fillTabs_nil, List.append_nil] at hfill
      rw [List.nil_append, fillTabsAfter_of_head width count hb, hfill, fillTabsAfter]
  | cons c a ih =>
      rw [List.cons_append, fillTabsAfter, fillTabsAfter, ih, ih]
      split <;> simp

theorem fillTabs_append_right (a : Line) {b : Line} (h : '\t' ∉ b) :
    fillTabs width (a ++ b) = fillTabs width a ++ b :=
  fillTabsAfter_append_right width 0 a h

theorem visibleChars_fillTabsAfter (line : Line) :
    visibleChars (fillTabsAfter width count line) = visibleChars line := by
  induction line generalizing count with
  | nil => exact visibleChars_replicate_blank _
  | cons c line ih =>
      rw [fillTabsAfter, visibleChars_cons c line]
      split
      · next htab => rw [ih, htab]; rfl
      · rw [visibleChars_append, visibleChars_replicate_blank, visibleChars_cons, ih]
        rfl

theorem mem_of_mem_fillTabsAfter {c : Char} (h : c ∈ fillTabsAfter width count line) :
    c ∈ line ∨ c = ' ' := by
  induction line generalizing count with
  | nil => exact .inr (List.eq_of_mem_replicate h)
  | cons d line ih =>
      rw [fillTabsAfter] at h
      split at h
      · exact (ih _ h).imp_left (List.mem_cons_of_mem d)
      · simp only [List.mem_append, List.mem_cons] at h
        rcases h with h | rfl | h
        · exact .inr (List.eq_of_mem_replicate h)
        · exact .inl List.mem_cons_self
        · exact (ih _ h).imp_left (List.mem_cons_of_mem d)

/-- Where no product wraps, every tab becomes `width` blanks. -/
theorem fillTabsAfter_eq_expandTabs (h : TabsFit width (List.replicate count '\t' ++ line)) :
    fillTabsAfter width count line =
      List.replicate (count * width) ' ' ++ expandTabs width line := by
  have hcount : blanksFor width count = count * width :=
    Nat.mod_eq_of_lt (h count (List.prefix_append _ _).isInfix)
  induction line generalizing count with
  | nil => simp [fillTabsAfter, expandTabs, hcount]
  | cons c line ih =>
      by_cases hc : c = '\t'
      · subst hc
        have hshift : List.replicate count '\t' ++ '\t' :: line =
            List.replicate (count + 1) '\t' ++ line := by
          rw [List.replicate_succ', List.append_assoc, List.singleton_append]
        rw [hshift] at h
        have hnext := ih (count + 1) h (Nat.mod_eq_of_lt (h _ (List.prefix_append _ _).isInfix))
        rw [fillTabsAfter, if_pos rfl, hnext, expandTabs, expandTabs, List.flatMap_cons, if_pos rfl,
          Nat.add_mul, Nat.one_mul, List.replicate_add, List.append_assoc]
      · have hrest := ih 0 (fun n hn => h n (hn.trans ?_)) (by simp)
        · rw [fillTabsAfter, if_neg hc, hcount, hrest, expandTabs, expandTabs, List.flatMap_cons,
            if_neg hc]
          simp
        · exact ⟨List.replicate count '\t' ++ [c], [], by simp⟩

theorem fillTabs_eq_expandTabs (h : TabsFit width line) :
    fillTabs width line = expandTabs width line := by
  rw [fillTabs, fillTabsAfter_eq_expandTabs width 0 (by simpa using h)]
  simp

theorem tabsFit_one (h : line.length < UInt64.size) : TabsFit 1 line := by
  intro n hn
  have hlength := hn.length_le
  rw [List.length_replicate] at hlength
  omega

theorem fillTabs_one (h : units line < 2 ^ 63) : fillTabs 1 line = untab line := by
  have hlength := (length_le_units line).trans_lt (h.trans (by decide : 2 ^ 63 < UInt64.size))
  rw [fillTabs_eq_expandTabs 1 (tabsFit_one hlength), expandTabs_one]

end Tabs

/-! ### Blanks at the end -/

/-- A line is what is left of it followed by blanks. -/
theorem dropTrailing_append (line : Line) :
    ∃ blanks, line = dropTrailing line ++ blanks ∧ ∀ c ∈ blanks, c = ' ' := by
  unfold dropTrailing
  dsimp only
  split
  · exact ⟨[], by simp⟩
  · refine ⟨(line.reverse.takeWhile (· == ' ')).reverse, ?_, fun c hc => ?_⟩
    · rw [trimEndWhere, ← List.reverse_append, List.takeWhile_append_dropWhile,
        List.reverse_reverse]
    · simpa using List.mem_takeWhile_imp (List.mem_reverse.mp hc)

/-- A heading cut at its gap: `gap` is all of the gap but its last character. -/
structure GapSplit (line : Line) (h : Heading) (before gap after : List Char) : Prop where
  heading : Heading.ofLine? line = some h
  line_eq : line = before ++ (gap ++ after)
  units_before : units before = h.indent + h.hashes
  units_gap : units gap = h.gap - 1
  before_chars : ∀ c ∈ before, c = ' ' ∨ c = '#'
  gap_chars : ∀ c ∈ gap, c = ' ' ∨ c = '\t'
  text : ∃ c ∈ after, isBlank c = false
  narrowed : Heading.ofLine? (before ++ after) = some ⟨h.indent, h.hashes, min h.gap 1⟩

theorem exists_gapSplit {line : Line} {h : Heading} (hh : Heading.ofLine? line = some h) :
    ∃ before gap after, GapSplit line h before gap after ∧
      narrowGap line = if '\t' ∈ gap then line else before ++ after := by
  obtain ⟨gap, c, text, hline, hbounds, hgap, hblanks, hc, hhash⟩ :=
    Heading.ofLine?_eq_some_iff.mp hh
  let before := List.replicate h.indent ' ' ++ List.replicate h.hashes '#'
  have hchars : ∀ c ∈ before, c = ' ' ∨ c = '#' := by
    intro c hc
    rcases List.mem_append.mp hc with hc | hc
    · exact .inl (List.eq_of_mem_replicate hc)
    · exact .inr (List.eq_of_mem_replicate hc)
  have hlength : before.length = h.indent + h.hashes := by simp [before]
  have hcut : line = before ++ (gap ++ c :: text) := by rw [hline, List.append_assoc]
  refine ⟨before, gap.take (h.gap - 1), gap.drop (h.gap - 1) ++ c :: text,
    ⟨hh, ?_, ?_, ?_, hchars, fun d hd => hblanks d (List.mem_of_mem_take hd),
      ⟨c, by simp, hc⟩, ?_⟩, ?_⟩
  · rw [hcut, ← List.append_assoc (gap.take _), List.take_append_drop]
  · rw [units_of_forall (p := fun c => c == ' ' || c == '#')
      (by simp +contextual [charUnits, or_imp]) (by simpa using hchars), hlength]
  · rw [units_of_forall (p := fun c => c == ' ' || c == '\t')
      (by simp +contextual [charUnits, or_imp])
      (fun d hd => by simpa using hblanks d (List.mem_of_mem_take hd)), List.length_take]
    omega
  · refine Heading.ofLine?_eq_some_iff.mpr ⟨gap.drop (h.gap - 1), c, text,
      List.append_assoc .., hbounds, ?_, fun d hd => hblanks d (List.mem_of_mem_drop hd), hc,
      fun hnil => hhash ?_⟩
    · rw [List.length_drop, hgap]
      dsimp only
      omega
    · have hempty : gap.length - (h.gap - 1) = 0 := by
        rw [← List.length_drop, hnil, List.length_nil]
      exact List.length_eq_zero_iff.mp (by omega)
  · have hdrop : line.drop (before.length + (h.gap - 1)) = gap.drop (h.gap - 1) ++ c :: text := by
      rw [hcut, ← List.drop_drop, List.drop_left, List.drop_append_of_le_length (by omega)]
    unfold narrowGap
    rw [hh]
    dsimp only
    rw [← hlength, hdrop, hcut, List.drop_left, List.take_left,
      List.take_append_of_le_length (by omega)]

/-- Narrowing a gap leaves a line as it is, or takes blanks out of a heading. -/
theorem narrowGap_cases (line : Line) :
    narrowGap line = line ∨ ∃ h before gap after, GapSplit line h before gap after ∧
      '\t' ∉ gap ∧ narrowGap line = before ++ after := by
  cases hh : Heading.ofLine? line with
  | none => exact .inl (by simp [narrowGap, hh])
  | some h =>
      obtain ⟨before, gap, after, hsplit, hnarrow⟩ := exists_gapSplit hh
      by_cases htab : '\t' ∈ gap
      · exact .inl (by rw [hnarrow, if_pos htab])
      · exact .inr ⟨h, before, gap, after, hsplit, htab, by rw [hnarrow, if_neg htab]⟩

theorem visibleChars_of_blanks {s : List Char} (h : ∀ c ∈ s, c = ' ' ∨ c = '\t') :
    visibleChars s = [] := by
  rw [visibleChars_eq_nil, isBlankLine, List.all_eq_true]
  intro c hc
  rcases h c hc with rfl | rfl <;> decide

/-! ### What tidying keeps -/

theorem visibleChars_dropTrailing (line : Line) :
    visibleChars (dropTrailing line) = visibleChars line := by
  obtain ⟨blanks, hline, hblanks⟩ := dropTrailing_append line
  have hnone := visibleChars_of_blanks fun c hc => Or.inl (hblanks c hc)
  conv_rhs => rw [hline, visibleChars_append, hnone, List.append_nil]

theorem visibleChars_narrowGap (line : Line) :
    visibleChars (narrowGap line) = visibleChars line := by
  rcases narrowGap_cases line with heq | ⟨h, before, gap, after, hsplit, -, heq⟩
  · rw [heq]
  · rw [heq, hsplit.line_eq]
    simp [visibleChars_of_blanks hsplit.gap_chars]

/-- Tidying a line changes white space only. -/
theorem visibleChars_tidyLine (l : FencedLine) :
    visibleChars (tidyLine l) = visibleChars l.text := by
  unfold tidyLine
  rw [visibleChars_untab, visibleChars_dropTrailing]
  split
  · rfl
  · exact visibleChars_narrowGap l.text

theorem isBlankLine_tidyLine (l : FencedLine) : isBlankLine (tidyLine l) = isBlankLine l.text := by
  rw [Bool.eq_iff_iff, ← visibleChars_eq_nil, ← visibleChars_eq_nil, visibleChars_tidyLine]

theorem dropTrailing_sublist (line : Line) : (dropTrailing line).Sublist line := by
  obtain ⟨blanks, hline, -⟩ := dropTrailing_append line
  conv_rhs => rw [hline]
  exact List.sublist_append_left _ _

theorem narrowGap_sublist (line : Line) : (narrowGap line).Sublist line := by
  rcases narrowGap_cases line with heq | ⟨h, before, gap, after, hsplit, -, heq⟩
  · rw [heq]
  · rw [heq, hsplit.line_eq]
    exact (List.Sublist.refl before).append (List.sublist_append_right gap after)

/-- The characters of a tidied line come from the line, but for blanks. -/
theorem tidyLine_eq_untab (l : FencedLine) :
    ∃ kept, tidyLine l = untab kept ∧ kept.Sublist l.text := by
  refine ⟨_, rfl, (dropTrailing_sublist _).trans ?_⟩
  split
  · exact List.Sublist.refl _
  · exact narrowGap_sublist l.text

end Rule

end LintDesk
