import LintDesk.Proofs.Text.Splitting

/-! # Lines and their terminators

A text is its lines with a terminator between neighbours, in just one way: no line has a terminator
in it, and CR and LF next to each other are one terminator. The lines are those of `splitLines`, and
the terminators are those that are counted to find the most frequent one
(`splitLines_lossless`).
-/

namespace LintDesk

/-- Lines put back together with a terminator of its own between any two neighbours. -/
def weave : List Line → List LineEnding → List Char
  | [], _ => []
  | line :: _, [] => line
  | line :: lines, e :: endings => line ++ (e.chars ++ weave lines endings)

/-- A text read as lines, each but the last with the terminator after it. A CR that is a terminator
of its own has no LF after it. -/
inductive Reads : List Char → List Line → List LineEnding → Prop
  | last {line : Line} : Unbroken line → Reads line [line] []
  | next {line : Line} {e : LineEnding} {text : List Char} {lines : List Line}
      {endings : List LineEnding} : Unbroken line → (e = .cr → text.head? ≠ some '\n') →
      Reads text lines endings → Reads (line ++ (e.chars ++ text)) (line :: lines) (e :: endings)

namespace Reads

variable {text : List Char} {lines : List Line} {endings : List LineEnding}

theorem length_eq (h : Reads text lines endings) : lines.length = endings.length + 1 := by
  induction h with
  | last => rfl
  | next _ _ _ ih => simp [ih]

theorem weave_eq (h : Reads text lines endings) : weave lines endings = text := by
  induction h with
  | last => rfl
  | next _ _ _ ih => rw [weave, ih]

theorem unbroken (h : Reads text lines endings) : ∀ line ∈ lines, Unbroken line := by
  induction h with
  | last hline => simpa using hline
  | next hline _ _ ih => exact List.forall_mem_cons.mpr ⟨hline, ih⟩

/-- What stands after a CR that is a terminator of its own. -/
theorem exists_after_cr (h : Reads text lines endings) {i : Nat} (hi : endings[i]? = some .cr) :
    ∃ after, text = weave (lines.take (i + 1)) (endings.take i) ++ '\r' :: after ∧
      after.head? ≠ some '\n' := by
  induction h generalizing i with
  | last => simp at hi
  | next hline hcr hrest ih =>
      rename_i line e rest lines endings
      cases i with
      | zero =>
          obtain rfl : e = .cr := by simpa using hi
          exact ⟨rest, by simp [weave, LineEnding.chars], hcr rfl⟩
      | succ i =>
          obtain ⟨after, hafter, hhead⟩ := ih (by simpa using hi)
          refine ⟨after, ?_, hhead⟩
          rw [List.take_succ_cons, List.take_succ_cons, weave, hafter]
          simp

/-- A character that is no terminator joins the first line. -/
theorem cons (h : Reads text lines endings) {c : Char} (hc : c ≠ '\n' ∧ c ≠ '\r') :
    Reads (c :: text) (consToFirst c lines) endings := by
  cases h with
  | last hline => exact .last (List.forall_mem_cons.mpr ⟨hc, hline⟩)
  | next hline hcr hrest => exact .next (List.forall_mem_cons.mpr ⟨hc, hline⟩) hcr hrest

end Reads

theorem reads_splitLines (text : List Char) :
    Reads text (splitLines text) (terminators text) := by
  have hnil : Unbroken [] := by simp [Unbroken]
  fun_induction splitLines text with
  | case1 => exact .last hnil
  | case2 rest ih => exact .next (e := .crlf) hnil (by simp) ih
  | case3 rest hnotlf ih =>
      rw [terminators.eq_3 _ hnotlf]
      refine .next (e := .cr) hnil (fun _ hhead => ?_) ih
      obtain ⟨more, rfl⟩ := List.head?_eq_some_iff.mp hhead
      exact hnotlf more rfl
  | case4 rest ih => exact .next (e := .lf) hnil (by simp) ih
  | case5 c rest hcrlf hcr hlf ih =>
      rw [terminators.eq_5 _ _ hcrlf hcr hlf]
      exact ih.cons ⟨hlf, hcr⟩

/-! ### The only reading -/

theorem terminators_append {line : Line} (h : Unbroken line) (tail : List Char) :
    terminators (line ++ tail) = terminators tail := by
  induction line with
  | nil => rfl
  | cons c line ih =>
      obtain ⟨hc, hline⟩ := List.forall_mem_cons.mp h
      rw [List.cons_append, terminators, ih hline]
      · simp [hc.2]
      · simp [hc.2]
      · simp [hc.1]

theorem terminators_ending {e : LineEnding} {text : List Char}
    (h : e = .cr → text.head? ≠ some '\n') :
    terminators (e.chars ++ text) = e :: terminators text := by
  cases e with
  | lf => rfl
  | crlf => rfl
  | cr =>
      refine terminators.eq_3 text fun rest hrest => ?_
      exact h rfl (by rw [hrest]; rfl)

theorem Reads.eq {text : List Char} {lines : List Line} {endings : List LineEnding}
    (h : Reads text lines endings) : lines = splitLines text ∧ endings = terminators text := by
  induction h with
  | @last line hline =>
      have hsplit : splitLines (line ++ []) = [line] := splitLines_append hline rfl
      have hterminators := terminators_append hline []
      rw [List.append_nil] at hsplit hterminators
      exact ⟨hsplit.symm, hterminators.symm⟩
  | next hline hcr _ ih =>
      rw [splitLines_append hline (splitLines_ending hcr), terminators_append hline,
        terminators_ending hcr, ← ih.1, ← ih.2]
      exact ⟨rfl, rfl⟩

/-! ### Counting -/

theorem EndingCounts.ofText_eq (text : List Char) :
    ofText text = ⟨(terminators text).count .lf, (terminators text).count .crlf,
      (terminators text).count .cr⟩ := by
  fun_induction ofText text with
  | case1 => rfl
  | case2 rest n ih => simp [terminators, n, ih]
  | case3 rest hnotlf n ih => simp [terminators.eq_3 _ hnotlf, n, ih]
  | case4 rest n ih => simp [terminators, n, ih]
  | case5 c rest hcrlf hcr hlf ih => rw [terminators.eq_5 _ _ hcrlf hcr hlf, ih]

/-- The order in which terminators are preferred. -/
def LineEnding.rank : LineEnding → Nat
  | lf => 0
  | crlf => 1
  | cr => 2

/-- No terminator is more frequent than the dominant one, nor as frequent and preferred to it. -/
theorem count_le_dominantEnding (text : List Char) (e : LineEnding) :
    (terminators text).count e ≤ (terminators text).count (dominantEnding text) ∧
      ((terminators text).count e = (terminators text).count (dominantEnding text) →
        (dominantEnding text).rank ≤ e.rank) := by
  unfold dominantEnding
  rw [EndingCounts.ofText_eq]
  dsimp only
  split
  · next h =>
      simp only [Bool.and_eq_true, decide_eq_true_eq] at h
      cases e <;> simp only [LineEnding.rank] <;> omega
  · next h =>
      split
      · next h' =>
          simp only [Bool.and_eq_true, decide_eq_true_eq] at h h'
          cases e <;> simp only [LineEnding.rank] <;> omega
      · next h' =>
          simp only [Bool.and_eq_true, decide_eq_true_eq] at h h'
          cases e <;> simp only [LineEnding.rank] <;> omega

/-- A text is its lines, with a terminator between neighbours, and no other reading of it is
possible. What is counted are these terminators, and the dominant one is the most frequent of them;
of equally frequent ones it is LF before CR LF before CR. Lines without terminators come back when
they are joined with any one terminator and split again. -/
theorem splitLines_lossless (text : List Char) :
    (∃ endings : List LineEnding, (splitLines text).length = endings.length + 1 ∧
      weave (splitLines text) endings = text ∧
      (∀ line ∈ splitLines text, Unbroken line) ∧
      (∀ i, endings[i]? = some .cr → ∃ after,
        text = weave ((splitLines text).take (i + 1)) (endings.take i) ++ '\r' :: after ∧
          after.head? ≠ some '\n') ∧
      (∀ lines endings', Reads text lines endings' →
        lines = splitLines text ∧ endings' = endings) ∧
      EndingCounts.ofText text = ⟨endings.count .lf, endings.count .crlf, endings.count .cr⟩ ∧
      ∀ e, endings.count e ≤ endings.count (dominantEnding text) ∧
        (endings.count e = endings.count (dominantEnding text) →
          (dominantEnding text).rank ≤ e.rank)) ∧
    ∀ lines ≠ [], (∀ line ∈ lines, Unbroken line) →
      ∀ e, splitLines (joinLines e lines) = lines := by
  have hreads := reads_splitLines text
  refine ⟨⟨terminators text, hreads.length_eq, hreads.weave_eq, hreads.unbroken, ?_, ?_,
    EndingCounts.ofText_eq text, count_le_dominantEnding text⟩, ?_⟩
  · exact fun i hi => hreads.exists_after_cr hi
  · exact fun lines endings h => h.eq
  · exact fun lines hne hlines e => splitLines_joinLines e hne hlines

example : splitLines "a\r\r\nb".toList = [['a'], [], ['b']] ∧
    terminators "a\r\r\nb".toList = [.cr, .crlf] := by
  decide

end LintDesk
