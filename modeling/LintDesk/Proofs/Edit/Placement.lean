import LintDesk.Edit.Diagnostic
import LintDesk.Proofs.Json.Dict
import Mathlib.Data.List.Forall2

/-! # From violations to diagnostics

A diagnostic is made of each violation that is on a line of the document and not near the cursor, in
the order of the violations, and the documentation links of the diagnostics are kept by rule. Lines
and columns are cut to words that stop at their ends; in a document whose lines and columns a word
can count, this changes nothing (`build_places`).
-/

namespace LintDesk

/-- A violation is near the cursor, as far as the focus mode tells. -/
def FocusMode.Suppresses (mode : FocusMode) (cursor : Option Nat) (v : Violation) : Prop :=
  match mode, cursor with
  | .window n, some c => ((v.line : Int) - 1 - c).natAbs ≤ n
  | _, _ => False

instance (mode : FocusMode) (cursor : Option Nat) (v : Violation) :
    Decidable (mode.Suppresses cursor v) :=
  match mode, cursor with
  | .window _, some _ => inferInstanceAs (Decidable (_ ≤ _))
  | .window _, none => inferInstanceAs (Decidable False)
  | .disabled, _ => inferInstanceAs (Decidable False)

/-- A violation is on a line of a text and not near the cursor. -/
def Violation.IsShown (v : Violation) (lines : List Line) (mode : FocusMode)
    (cursor : Option Nat) : Prop :=
  (1 ≤ v.line ∧ v.line ≤ lines.length) ∧ ¬ mode.Suppresses cursor v

instance (v : Violation) (lines : List Line) (mode : FocusMode) (cursor : Option Nat) :
    Decidable (v.IsShown lines mode cursor) :=
  inferInstanceAs (Decidable (_ ∧ _))

/-- The documentation link of a violation. -/
def Violation.link? (v : Violation) : Option Url :=
  v.information.bind Url.parse?

namespace Diagnostic

/-- The columns from `first` to `last` of a line are those of a span; a span that is not all within
the line is cut at its ends, and no span means the whole line. -/
structure Spans (first last : Nat) (line : Line) (span : Option Span) : Prop where
  first : first = span.elim 0 fun s => min (max s.column 1 - 1) (units line)
  last : last = span.elim (units line) fun s => min (max s.column 1 - 1 + s.length) (units line)

/-- A diagnostic stands for a violation of a text. -/
structure Places (d : Diagnostic) (lines : List Line) (v : Violation) : Prop where
  range : ∃ line, lines[v.line - 1]? = some line ∧ ∃ first last, Spans first last line v.span ∧
    d.range = ⟨⟨v.line - 1, first⟩, ⟨v.line - 1, last⟩⟩ ∧ first ≤ last ∧ last ≤ units line
  message : d.message = v.message
  rule : d.rule = v.rule
  ruleAlias : d.ruleAlias = v.ruleAlias
  fix : d.fix = v.fix
  information : d.information = v.link?

/-! ### One violation -/

theorem spans_columns (line : Line) (span : Option Span) :
    Spans (columns (units line) span).1 (columns (units line) span).2 line span ∧
      (columns (units line) span).1 ≤ (columns (units line) span).2 ∧
      (columns (units line) span).2 ≤ units line := by
  cases span with
  | none => exact ⟨⟨rfl, rfl⟩, Nat.zero_le _, Nat.le_refl _⟩
  | some s =>
      refine ⟨⟨?_, ?_⟩, ?_, ?_⟩ <;> simp only [columns, Option.elim_some] <;> omega

/-- A sum that stops at the greatest word ends where the line does. -/
theorem columns_eq_saturating {length : Nat} (h : length < 2 ^ 64) (s : Span) :
    columns length (some s) =
      (min (s.column - 1) length,
        min (min (min (s.column - 1) length + s.length) (2 ^ 64 - 1)) length) := by
  simp only [columns, Prod.mk.injEq, true_and]
  omega

theorem isFocused_iff {mode : FocusMode} {cursor : Option Nat} {v : Violation} {index : Nat}
    (hnumber : v.line = index + 1) (hindex : index < 2 ^ 32)
    (hcursor : ∀ c, cursor = some c → c < 2 ^ 32) :
    isFocused mode cursor (min index maxWord32) = true ↔ mode.Suppresses cursor v := by
  unfold isFocused FocusMode.Suppresses
  split
  · next n c =>
      have hc := hcursor c rfl
      rw [Bool.and_eq_true, decide_eq_true_iff, decide_eq_true_iff]
      unfold maxWord32
      omega
  · simp

section One

variable {lines : List Line} {mode : FocusMode} {cursor : Option Nat}
  (hheight : lines.length < 2 ^ 32) (hcursor : ∀ c, cursor = some c → c < 2 ^ 32)

include hheight hcursor

/-- A violation that is shown has its diagnostic. -/
theorem exists_ofViolation?_of_shown (hwidth : ∀ line ∈ lines, units line < 2 ^ 32) {v : Violation}
    (h : v.IsShown lines mode cursor) :
    ∃ d, ofViolation? lines mode cursor v = some d ∧ d.Places lines v := by
  obtain ⟨⟨hpos, hle⟩, hfar⟩ := h
  obtain ⟨index, hnumber⟩ : ∃ index, v.line = index + 1 := ⟨v.line - 1, by omega⟩
  obtain ⟨line, hline⟩ : ∃ line, lines[index]? = some line :=
    ⟨_, List.getElem?_eq_getElem (by omega)⟩
  have hfocus : isFocused mode cursor (min index maxWord32) = false := by
    rw [← Bool.not_eq_true, isFocused_iff hnumber (by omega) hcursor]
    exact hfar
  obtain ⟨hspans, hordered, hends⟩ := spans_columns line v.span
  have hshort := hwidth line (List.mem_of_getElem? hline)
  have hplace : ∀ column ≤ units line, Position.place index column = ⟨index, column⟩ := by
    intro column hcolumn
    simp only [Position.place, maxWord32, Position.mk.injEq]
    omega
  simp only [ofViolation?, hnumber, hline, hfocus, Bool.false_eq_true, if_false, Option.some.injEq,
    exists_eq_left']
  refine ⟨⟨line, by rw [hnumber]; exact hline, _, _, hspans, ?_, hordered, hends⟩,
    rfl, rfl, rfl, rfl, rfl⟩
  rw [hplace _ (hordered.trans hends), hplace _ hends, hnumber]
  rfl

/-- A violation that is not shown has none. -/
theorem ofViolation?_of_not_shown {v : Violation} (h : ¬ v.IsShown lines mode cursor) :
    ofViolation? lines mode cursor v = none := by
  unfold ofViolation?
  split
  · rfl
  · next index hnumber =>
      split
      · rfl
      · next line hline =>
          obtain ⟨hlt, -⟩ := List.getElem?_eq_some_iff.mp hline
          have hnear : mode.Suppresses cursor v := by
            by_contra hfar
            exact h ⟨⟨by omega, by omega⟩, hfar⟩
          rw [if_pos ((isFocused_iff hnumber (by omega) hcursor).mpr hnear)]

end One

/-! ### Links -/

/-- The documentation link that the last violation of a rule with such a link has. -/
def lastLink? (rule : String) (violations : List Violation) : Option Url :=
  ((violations.filter (·.rule = rule)).filterMap Violation.link?).getLast?

theorem lastLink?_eq_of_forall₂ {lines : List Line} {rule : String} {shown : List Violation}
    {diagnostics : List Diagnostic}
    (h : List.Forall₂ (fun v d => Places d lines v) shown diagnostics) :
    ((diagnostics.filterMap fun d => d.information.map (d.rule, ·)).filter
      (·.1 = rule)).getLast?.map (·.2) = lastLink? rule shown := by
  have hpairs : ((diagnostics.filterMap fun d => d.information.map (d.rule, ·)).filter
      (·.1 = rule)).map (·.2) = (shown.filter (·.rule = rule)).filterMap Violation.link? := by
    induction h with
    | nil => rfl
    | @cons v d shown diagnostics hplaces _ ih =>
        rw [List.filterMap_cons, hplaces.information, hplaces.rule]
        cases hlink : v.link? <;> by_cases hrule : v.rule = rule <;> simp [hlink, hrule, ih]
  rw [lastLink?, ← hpairs, List.getLast?_map]

/-! ### All violations -/

theorem forall₂_filterMap {α β : Type} {R : α → β → Prop} {f : α → Option β} {p : α → Prop}
    [DecidablePred p] (hsome : ∀ a, p a → ∃ b, f a = some b ∧ R a b)
    (hnone : ∀ a, ¬ p a → f a = none) (l : List α) :
    List.Forall₂ R (l.filter p) (l.filterMap f) := by
  induction l with
  | nil => exact .nil
  | cons a l ih =>
      by_cases ha : p a
      · obtain ⟨b, hb, hab⟩ := hsome a ha
        rw [List.filter_cons_of_pos (by simpa using ha), List.filterMap_cons_some hb]
        exact .cons hab ih
      · rw [List.filter_cons_of_neg (by simpa using ha), List.filterMap_cons_none (hnone a ha)]
        exact ih

/-- The diagnostics of a document are those of the violations that are on one of its lines and not
near the cursor, one for each and in the same order. They leave for each rule the documentation link
of its last violation with such a link among these; where there is none, the link of the diagnostics
built before. -/
theorem build_places (document : Document) (hheight : document.lines.length < 2 ^ 32)
    (hwidth : ∀ line ∈ document.lines, units line < 2 ^ 32) (mode : FocusMode) (cursor : Option Nat)
    (hcursor : ∀ c, cursor = some c → c < 2 ^ 32) (violations : List Violation) :
    List.Forall₂ (fun v d => Places d document.lines v)
        (violations.filter (·.IsShown document.lines mode cursor))
        (build document mode cursor violations) ∧
      ∀ earlier rule, Dict.find? rule (links (earlier ++ build document mode cursor violations)) =
        (lastLink? rule (violations.filter (·.IsShown document.lines mode cursor))).or
          (Dict.find? rule (links earlier)) := by
  have hplaces : List.Forall₂ (fun v d => Places d document.lines v)
      (violations.filter (·.IsShown document.lines mode cursor))
      (build document mode cursor violations) :=
    forall₂_filterMap (fun _ => exists_ofViolation?_of_shown hheight hcursor hwidth)
      (fun _ => ofViolation?_of_not_shown hheight hcursor) violations
  refine ⟨hplaces, fun earlier rule => ?_⟩
  rw [← lastLink?_eq_of_forall₂ hplaces, links, links, Dict.ofPairs, Dict.ofPairs,
    List.filterMap_append, Dict.override, List.foldl_append]
  exact Dict.value_override_entries _ _ rule

/-- Of six violations one has no line, one is behind the last line and one is at the cursor; the
last of the others has no link. -/
theorem build_places_of_window :
    let document : Document :=
      { uri := { scheme := "untitled" }, text := "ab\n#  😀\n\nc", language := "markdown"
        version := 1 }
    let violation (line : Nat) (span : Option Span) (information : Option String) : Violation :=
      { names := ["X"], line, description := "", span, information }
    let violations := [violation 0 none none, violation 1 none (some "urn:a"),
      violation 2 (some ⟨5, 2 ^ 64 - 1⟩) (some "urn:b"), violation 4 (some ⟨0, 0⟩) (some "urn:c"),
      violation 4 none (some "no link"), violation (2 ^ 64 - 1) none (some "urn:d")]
    (build document (.window 0) (some 0) violations).length = 3 ∧
      Dict.find? "X" (links (build document (.window 0) (some 0) violations)) =
        Url.parse? "urn:c" := by
  intro document violation violations
  obtain ⟨hplaces, hlinks⟩ := build_places document (by decide) (by decide) (.window 0)
    (some 0) (by simp) violations
  refine ⟨hplaces.length_eq.symm.trans (by decide), ?_⟩
  have hlast := hlinks [] "X"
  rw [List.nil_append] at hlast
  rw [hlast]
  decide

end Diagnostic

end LintDesk
