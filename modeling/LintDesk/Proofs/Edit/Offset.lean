import LintDesk.Edit.Position
import LintDesk.Proofs.Text.Splitting

/-! # Places in a text

A place is a line and a column. An edit replaces what stands between two places; lines that are
joined by one terminator are cut at a place between two beginnings of lines.
-/

namespace LintDesk

/-- How many characters of a text stand before a place: so many terminators are passed, and then so
many code units, but never the end of the line. -/
def charsBefore : (line character : Nat) → List Char → Nat
  | _, _, [] => 0
  | 0, character, c :: rest =>
    if character = 0 ∨ c = '\n' ∨ c = '\r' then 0
    else charsBefore 0 (character - charUnits c) rest + 1
  | line + 1, character, '\r' :: '\n' :: rest => charsBefore line character rest + 2
  | line + 1, character, '\r' :: rest => charsBefore line character rest + 1
  | line + 1, character, '\n' :: rest => charsBefore line character rest + 1
  | line + 1, character, _ :: rest => charsBefore (line + 1) character rest + 1

/-- Where a place is in a text. -/
def Position.offset (p : Position) (text : List Char) : Nat :=
  charsBefore p.line p.character text

/-- The text in which an edit was made. -/
def TextEdit.applyTo (e : TextEdit) (text : List Char) : List Char :=
  text.take (e.range.start.offset text) ++ e.newText.toList ++
    text.drop (e.range.finish.offset text)

/-- A column inside the first line. -/
theorem charsBefore_line {a : Line} (ha : Unbroken a) (b : List Char) :
    charsBefore 0 (units a) (a ++ b) = a.length := by
  induction a with
  | nil => cases b <;> simp [charsBefore]
  | cons c a ih =>
      obtain ⟨hc, ha⟩ := List.forall_mem_cons.mp ha
      have hpos := charUnits_pos c
      rw [List.cons_append, charsBefore, if_neg (by simp [hc]; omega), units_cons,
        Nat.add_sub_cancel_left, ih ha, List.length_cons]

/-- A terminator takes a place one line on. -/
theorem charsBefore_ending {e : LineEnding} {text : List Char}
    (h : e = .cr → text.head? ≠ some '\n') (line character : Nat) :
    charsBefore (line + 1) character (e.chars ++ text) =
      e.chars.length + charsBefore line character text := by
  cases e with
  | lf => simp [LineEnding.chars, charsBefore, Nat.add_comm]
  | crlf => simp [LineEnding.chars, charsBefore, Nat.add_comm]
  | cr =>
      cases text with
      | nil => simp [LineEnding.chars, charsBefore]
      | cons c text =>
          have hc : c ≠ '\n' := by simpa using h rfl
          change charsBefore (line + 1) character ('\r' :: c :: text) = 1 + _
          rw [charsBefore]
          · omega
          · simpa using hc

/-- The characters of a line are passed on the way to a later one. -/
theorem charsBefore_append {a : Line} (ha : Unbroken a) (line character : Nat) (b : List Char) :
    charsBefore (line + 1) character (a ++ b) =
      a.length + charsBefore (line + 1) character b := by
  induction a with
  | nil => simp
  | cons c a ih =>
      obtain ⟨hc, ha⟩ := List.forall_mem_cons.mp ha
      rw [List.cons_append, charsBefore, ih ha, List.length_cons]
      · omega
      · simp [hc.2]
      · simp [hc.2]
      · simp [hc.1]

/-- Cutting one of the lines cuts the text. -/
theorem joinLines_cut (e : LineEnding) (before : List Line) (a b : Line) (after : List Line) :
    joinLines e (before ++ [a]) ++ joinLines e (b :: after) =
      joinLines e (before ++ (a ++ b) :: after) := by
  induction before with
  | nil => cases after <;> simp [joinLines, List.intercalate]
  | cons line before ih =>
      rw [List.cons_append, List.cons_append, joinLines_cons_of_ne_nil e line (by simp),
        joinLines_cons_of_ne_nil e line (by simp), ← ih]
      simp only [List.append_assoc]

/-- What stands before a place of a text whose lines are joined by one terminator. -/
theorem charsBefore_joinLines (e : LineEnding) {before after : List Line} {a b : Line}
    (h : ∀ line ∈ before ++ (a ++ b) :: after, Unbroken line) :
    charsBefore before.length (units a) (joinLines e (before ++ (a ++ b) :: after)) =
      (joinLines e (before ++ [a])).length := by
  induction before with
  | nil =>
      have ha : Unbroken a := fun c hc => h (a ++ b) (by simp) c (by simp [hc])
      rw [← joinLines_cut]
      simpa [joinLines] using charsBefore_line ha (joinLines e (b :: after))
  | cons line before ih =>
      obtain ⟨hline, hrest⟩ := List.forall_mem_cons.mp h
      have hhead : e = .cr →
          (joinLines e (before ++ (a ++ b) :: after)).head? ≠ some '\n' := by
        rintro rfl
        obtain ⟨next, more, hmore⟩ :=
          List.exists_cons_of_ne_nil (l := before ++ (a ++ b) :: after) (by simp)
        rw [hmore]
        exact head?_joinLines (hrest next (by simp [hmore])) more
      rw [List.cons_append, List.cons_append, joinLines_cons_of_ne_nil e line (by simp),
        joinLines_cons_of_ne_nil e line (by simp), List.length_cons, charsBefore_append hline,
        charsBefore_ending hhead, ih hrest]
      simp

/-- An edit cuts two of the lines of a text; what is between the cuts is replaced. -/
theorem TextEdit.applyTo_joinLines {e : LineEnding} {text : List Char}
    {before before' after after' : List Line} {a b a' b' : Line}
    (htext : joinLines e (splitLines text) = text)
    (hstart : splitLines text = before ++ (a ++ b) :: after)
    (hfinish : splitLines text = before' ++ (a' ++ b') :: after') (new : String) :
    applyTo ⟨⟨⟨before.length, units a⟩, ⟨before'.length, units a'⟩⟩, new⟩ text =
      joinLines e (before ++ [a]) ++ new.toList ++ joinLines e (b' :: after') := by
  have hunbroken : ∀ line ∈ splitLines text, Unbroken line := fun _ => unbroken_of_mem_splitLines
  have hfirst : charsBefore before.length (units a) text =
      (joinLines e (before ++ [a])).length := by
    rw [← htext, hstart]
    exact charsBefore_joinLines e (hstart ▸ hunbroken)
  have hlast : charsBefore before'.length (units a') text =
      (joinLines e (before' ++ [a'])).length := by
    rw [← htext, hfinish]
    exact charsBefore_joinLines e (hfinish ▸ hunbroken)
  have hcut : text = joinLines e (before ++ [a]) ++ joinLines e (b :: after) := by
    rw [joinLines_cut, ← hstart, htext]
  have hcut' : text = joinLines e (before' ++ [a']) ++ joinLines e (b' :: after') := by
    rw [joinLines_cut, ← hfinish, htext]
  have htake : text.take (joinLines e (before ++ [a])).length = joinLines e (before ++ [a]) := by
    conv_lhs => rw [hcut]
    exact List.take_left
  have hdrop : text.drop (joinLines e (before' ++ [a'])).length = joinLines e (b' :: after') := by
    conv_lhs => rw [hcut']
    exact List.drop_left
  simp only [applyTo, Position.offset]
  rw [hfirst, hlast, htake, hdrop]

end LintDesk
