import LintDesk.Text.Blank
import LintDesk.Text.Lines
import LintDesk.Proofs.Text.Units

/-! # The characters of a text that can be seen

What is left of a text without its white space. Splitting a text into lines and joining lines
change white space only.
-/

namespace LintDesk

/-- The characters that are not white space, in order. -/
def visibleChars (s : List Char) : List Char :=
  s.filter (!isBlank ·)

@[simp] theorem visibleChars_nil : visibleChars [] = [] := rfl

@[simp] theorem visibleChars_append (a b : List Char) :
    visibleChars (a ++ b) = visibleChars a ++ visibleChars b := by
  simp [visibleChars]

theorem visibleChars_cons (c : Char) (s : List Char) :
    visibleChars (c :: s) = visibleChars [c] ++ visibleChars s :=
  visibleChars_append [c] s

theorem visibleChars_eq_nil {s : List Char} : visibleChars s = [] ↔ isBlankLine s = true := by
  simp [visibleChars, isBlankLine]

@[simp] theorem visibleChars_ending (e : LineEnding) : visibleChars e.chars = [] := by
  cases e <;> decide

/-! ### Lines -/

theorem flatten_consToFirst (c : Char) (lines : List Line) :
    (consToFirst c lines).flatten = c :: lines.flatten := by
  cases lines <;> rfl

theorem splitLines_ne_nil (text : List Char) : splitLines text ≠ [] := by
  fun_induction splitLines text with
  | case1 => simp
  | case2 => simp
  | case3 => simp
  | case4 => simp
  | case5 c rest _ _ _ ih =>
      cases h : splitLines rest <;> simp [consToFirst]

theorem visibleChars_splitLines (text : List Char) :
    visibleChars (splitLines text).flatten = visibleChars text := by
  fun_induction splitLines text with
  | case1 => rfl
  | case2 rest ih =>
      rw [List.flatten_cons, List.nil_append, ih]
      exact (visibleChars_append ['\r', '\n'] rest).symm
  | case3 rest _ ih =>
      rw [List.flatten_cons, List.nil_append, ih]
      exact (visibleChars_append ['\r'] rest).symm
  | case4 rest ih =>
      rw [List.flatten_cons, List.nil_append, ih]
      exact (visibleChars_append ['\n'] rest).symm
  | case5 c rest _ _ _ ih =>
      rw [flatten_consToFirst, visibleChars_cons, ih, ← visibleChars_cons]

theorem visibleChars_joinLines (e : LineEnding) (lines : List Line) :
    visibleChars (joinLines e lines) = visibleChars lines.flatten := by
  induction lines with
  | nil => rfl
  | cons line rest ih =>
      cases rest with
      | nil => simp [joinLines]
      | cons next more =>
          have hsplit : joinLines e (line :: next :: more) =
              line ++ e.chars ++ joinLines e (next :: more) := by
            simp [joinLines, List.intercalate]
          rw [hsplit, List.flatten_cons]
          simp [ih]

/-! ### Size -/

/-- A line is not longer than the text it is a line of. -/
theorem byteLength_le_of_mem_splitLines {text : List Char} {line : Line}
    (h : line ∈ splitLines text) : byteLength line ≤ byteLength text := by
  fun_induction splitLines text generalizing line with
  | case1 => simp_all
  | case2 rest ih =>
      rcases List.mem_cons.mp h with rfl | h
      · simp [byteLength]
      · have := ih h
        simp only [byteLength_cons]
        omega
  | case3 rest _ ih =>
      rcases List.mem_cons.mp h with rfl | h
      · simp [byteLength]
      · have := ih h
        simp only [byteLength_cons]
        omega
  | case4 rest ih =>
      rcases List.mem_cons.mp h with rfl | h
      · simp [byteLength]
      · have := ih h
        simp only [byteLength_cons]
        omega
  | case5 c rest _ _ _ ih =>
      obtain ⟨first, more, hlines⟩ := List.exists_cons_of_ne_nil (splitLines_ne_nil rest)
      rw [hlines, consToFirst] at h
      rw [byteLength_cons]
      rcases List.mem_cons.mp h with rfl | h
      · have : byteLength first ≤ byteLength rest := ih (by simp [hlines])
        simp only [byteLength_cons]
        omega
      · have : byteLength line ≤ byteLength rest := ih (by simp [hlines, h])
        omega

end LintDesk
