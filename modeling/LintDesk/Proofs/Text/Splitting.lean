import LintDesk.Proofs.Text.Visible

/-! # Splitting and joining lines

The lines of a text have no terminators in them, and lines without terminators come back when they
are joined and split again.
-/

namespace LintDesk

/-- A line has no terminator in it. -/
def Unbroken (line : Line) : Prop :=
  ∀ c ∈ line, c ≠ '\n' ∧ c ≠ '\r'

theorem unbroken_of_mem_splitLines {text : List Char} {line : Line}
    (h : line ∈ splitLines text) : Unbroken line := by
  fun_induction splitLines text generalizing line with
  | case1 => simp_all [Unbroken]
  | case2 rest ih =>
      rcases List.mem_cons.mp h with rfl | h
      · simp [Unbroken]
      · exact ih h
  | case3 rest _ ih =>
      rcases List.mem_cons.mp h with rfl | h
      · simp [Unbroken]
      · exact ih h
  | case4 rest ih =>
      rcases List.mem_cons.mp h with rfl | h
      · simp [Unbroken]
      · exact ih h
  | case5 c rest hcr hcr' hlf ih =>
      obtain ⟨first, more, hlines⟩ := List.exists_cons_of_ne_nil (splitLines_ne_nil rest)
      rw [hlines, consToFirst] at h
      rcases List.mem_cons.mp h with rfl | h
      · have hfirst : Unbroken first := ih (by simp [hlines])
        intro d hd
        rcases List.mem_cons.mp hd with rfl | hd
        · exact ⟨hlf, hcr'⟩
        · exact hfirst d hd
      · exact ih (by simp [hlines, h])

theorem splitLines_cons {c : Char} (h : c ≠ '\n' ∧ c ≠ '\r') (text : List Char) :
    splitLines (c :: text) = consToFirst c (splitLines text) := by
  rw [splitLines]
  · simp [h.2]
  · simp [h.2]
  · simp [h.1]

/-- A line that is followed by a terminator is the first line. -/
theorem splitLines_append {line : Line} (h : Unbroken line) {tail : List Char} {rest : List Line}
    (htail : splitLines tail = [] :: rest) : splitLines (line ++ tail) = line :: rest := by
  induction line with
  | nil => exact htail
  | cons c line ih =>
      obtain ⟨hc, hline⟩ := List.forall_mem_cons.mp h
      rw [List.cons_append, splitLines_cons hc, ih hline, consToFirst]

/-- After a terminator a new line begins; CR is a terminator of its own only if no LF follows. -/
theorem splitLines_ending {e : LineEnding} {text : List Char}
    (h : e = .cr → text.head? ≠ some '\n') :
    splitLines (e.chars ++ text) = [] :: splitLines text := by
  cases e with
  | lf => rfl
  | crlf => rfl
  | cr =>
      cases text with
      | nil => rfl
      | cons c text =>
          have hc : c ≠ '\n' := by simpa using h rfl
          change splitLines ('\r' :: c :: text) = _
          rw [splitLines]
          simpa using hc

theorem joinLines_cons (e : LineEnding) (line next : Line) (rest : List Line) :
    joinLines e (line :: next :: rest) = line ++ (e.chars ++ joinLines e (next :: rest)) := by
  simp [joinLines, List.intercalate]

theorem joinLines_cons_of_ne_nil (e : LineEnding) (line : Line) {rest : List Line}
    (h : rest ≠ []) : joinLines e (line :: rest) = line ++ (e.chars ++ joinLines e rest) := by
  obtain ⟨next, more, rfl⟩ := List.exists_cons_of_ne_nil h
  exact joinLines_cons e line next more

theorem head?_joinLines {line : Line} (h : Unbroken line) (rest : List Line) :
    (joinLines .cr (line :: rest)).head? ≠ some '\n' := by
  cases line with
  | nil =>
      cases rest with
      | nil => simp [joinLines]
      | cons next rest => simp [joinLines_cons, LineEnding.chars]
  | cons c line =>
      have hc : c ≠ '\n' := (h c (by simp)).1
      cases rest with
      | nil => simpa [joinLines] using hc
      | cons next rest => simpa [joinLines_cons] using hc

/-- Lines that were joined come back by splitting. -/
theorem splitLines_joinLines (e : LineEnding) {lines : List Line} (hne : lines ≠ [])
    (h : ∀ line ∈ lines, Unbroken line) : splitLines (joinLines e lines) = lines := by
  induction lines with
  | nil => exact absurd rfl hne
  | cons line rest ih =>
      obtain ⟨hline, hrest⟩ := List.forall_mem_cons.mp h
      cases rest with
      | nil =>
          have hjoin : joinLines e [line] = line ++ [] := by simp [joinLines]
          rw [hjoin, splitLines_append hline rfl]
      | cons next more =>
          have hhead : e = .cr → (joinLines e (next :: more)).head? ≠ some '\n' := by
            rintro rfl
            exact head?_joinLines (hrest next (by simp)) more
          rw [joinLines_cons, splitLines_append hline (splitLines_ending hhead),
            ih (by simp) hrest]

theorem joinLines_consToFirst (e : LineEnding) (c : Char) (lines : List Line) :
    joinLines e (consToFirst c lines) = c :: joinLines e lines := by
  cases lines with
  | nil => rfl
  | cons line rest => cases rest <;> simp [consToFirst, joinLines, List.intercalate]

/-- A text with one kind of terminator comes back by joining its lines. -/
theorem joinLines_splitLines {e : LineEnding} {text : List Char}
    (h : ∀ t ∈ terminators text, t = e) : joinLines e (splitLines text) = text := by
  fun_induction splitLines text with
  | case1 => rfl
  | case2 rest ih =>
      rw [terminators] at h
      obtain ⟨rfl, hrest⟩ := List.forall_mem_cons.mp h
      rw [joinLines_cons_of_ne_nil _ _ (splitLines_ne_nil rest), ih hrest]
      rfl
  | case3 rest hnotlf ih =>
      rw [terminators.eq_3 _ hnotlf] at h
      obtain ⟨rfl, hrest⟩ := List.forall_mem_cons.mp h
      rw [joinLines_cons_of_ne_nil _ _ (splitLines_ne_nil rest), ih hrest]
      rfl
  | case4 rest ih =>
      rw [terminators] at h
      obtain ⟨rfl, hrest⟩ := List.forall_mem_cons.mp h
      rw [joinLines_cons_of_ne_nil _ _ (splitLines_ne_nil rest), ih hrest]
      rfl
  | case5 c rest hcrlf hcr hlf ih =>
      rw [terminators.eq_5 _ _ hcrlf hcr hlf] at h
      rw [joinLines_consToFirst, ih h]

theorem chars_eq_of_joined {e t : LineEnding} {lines : List Line} {rest : List Char}
    (hne : lines ≠ []) (hlines : ∀ line ∈ lines, Unbroken line)
    (ht : t = .cr → rest.head? ≠ some '\n')
    (h : e.chars ++ joinLines e lines = t.chars ++ rest) : t = e ∧ joinLines e lines = rest := by
  have hhead : e = .cr → (joinLines e lines).head? ≠ some '\n' := by
    rintro rfl
    obtain ⟨line, more, rfl⟩ := List.exists_cons_of_ne_nil hne
    exact head?_joinLines (hlines line (by simp)) more
  -- CR and CR LF begin alike, but no LF follows a CR that stands alone
  cases e <;> cases t <;> simp [LineEnding.chars] at h hhead ht ⊢
  · exact h
  · exact h
  · rw [← h] at ht
    simp at ht
  · rw [h] at hhead
    simp at hhead
  · exact h

/-- Only the lines of a text with one kind of terminator make up the text again. -/
theorem joinLines_splitLines_iff {e : LineEnding} {text : List Char} :
    joinLines e (splitLines text) = text ↔ ∀ t ∈ terminators text, t = e := by
  refine ⟨fun h => ?_, joinLines_splitLines⟩
  -- what follows a terminator are the lines of the rest
  have hending : ∀ (t : LineEnding) (rest : List Char), (t = .cr → rest.head? ≠ some '\n') →
      (joinLines e (splitLines rest) = rest → ∀ t ∈ terminators rest, t = e) →
      joinLines e ([] :: splitLines rest) = t.chars ++ rest →
      ∀ t' ∈ t :: terminators rest, t' = e := by
    intro t rest hrest ih hjoin
    rw [joinLines_cons_of_ne_nil _ _ (splitLines_ne_nil rest), List.nil_append] at hjoin
    obtain ⟨rfl, hsame⟩ := chars_eq_of_joined (splitLines_ne_nil rest)
      (fun _ => unbroken_of_mem_splitLines) hrest hjoin
    exact List.forall_mem_cons.mpr ⟨rfl, ih hsame⟩
  fun_induction splitLines text with
  | case1 => simp [terminators]
  | case2 rest ih => exact hending .crlf rest (by simp) ih h
  | case3 rest hnotlf ih =>
      rw [terminators.eq_3 _ hnotlf]
      refine hending .cr rest (fun _ hhead => ?_) ih h
      obtain ⟨more, rfl⟩ := List.head?_eq_some_iff.mp hhead
      exact hnotlf more rfl
  | case4 rest ih => exact hending .lf rest (by simp) ih h
  | case5 c rest hcrlf hcr hlf ih =>
      rw [terminators.eq_5 _ _ hcrlf hcr hlf]
      rw [joinLines_consToFirst] at h
      exact ih (List.cons.inj h).2

end LintDesk
