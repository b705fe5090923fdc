import LintDesk.Proofs.Rule.TidyText
import Mathlib.Data.List.SplitBy

/-! # Cutting runs of blank lines

The lines outside of code that are blank come in runs. A rule that counts them one by one spares the
first few of each run (`filterMap_spare`), and since it spares one at least, cutting a run joins
nothing and moves no fence, so a second count finds no run too long.
-/

namespace LintDesk.Rule

/-- The lines with every run of loose lines cut to its first `maximum`. -/
def cutRuns (maximum : Nat) (lines : List FencedLine) : List FencedLine :=
  (lines.splitBy fun a b => a.isLoose == b.isLoose).flatMap fun run =>
    if run.all FencedLine.isLoose then run.take maximum else run

/-- Goes through the lines and spares the first `maximum` of each run of loose ones; `count` is how
many the run has before the first line. -/
def spare (maximum : Nat) : (count : Nat) → List FencedLine → List (Option FencedLine)
  | _, [] => []
  | count, l :: rest =>
    if l.isLoose then (if count < maximum then some l else none) :: spare maximum (count + 1) rest
    else some l :: spare maximum 0 rest

variable {maximum : Nat}

theorem length_spare (count : Nat) (lines : List FencedLine) :
    (spare maximum count lines).length = lines.length := by
  fun_induction spare maximum count lines <;> simp [*]

/-- A line is spared as it is. -/
theorem getElem?_spare {count : Nat} {lines : List FencedLine} {i : Nat} {l l' : FencedLine}
    (hl : lines[i]? = some l) (h : (spare maximum count lines)[i]? = some (some l')) : l' = l := by
  fun_induction spare maximum count lines generalizing i with
  | case1 => simp at hl
  | case2 count first rest hloose ih =>
      cases i with
      | zero => split at h <;> simp_all
      | succ i => exact ih (by simpa using hl) (by simpa using h)
  | case3 count first rest hfirm ih =>
      cases i with
      | zero => simp_all
      | succ i => exact ih (by simpa using hl) (by simpa using h)

/-! ### Runs -/

theorem filterMap_spare_loose {run : List FencedLine} (h : ∀ l ∈ run, l.isLoose = true)
    (count : Nat) (rest : List FencedLine) :
    (spare maximum count (run ++ rest)).filterMap id =
      run.take (maximum - count) ++ (spare maximum (count + run.length) rest).filterMap id := by
  induction run generalizing count with
  | nil => simp
  | cons l run ih =>
      obtain ⟨hl, hrun⟩ := List.forall_mem_cons.mp h
      have hlength : count + (l :: run).length = count + 1 + run.length := by
        rw [List.length_cons]
        omega
      rw [List.cons_append, spare, if_pos hl, hlength]
      by_cases hcount : count < maximum
      · have hleft : maximum - count = maximum - (count + 1) + 1 := by omega
        rw [if_pos hcount, List.filterMap_cons_some (show id (some l) = some l from rfl), ih hrun,
          hleft, List.take_succ_cons, List.cons_append]
      · have hnone : maximum - count = 0 := by omega
        have hnone' : maximum - (count + 1) = 0 := by omega
        rw [if_neg hcount, List.filterMap_cons_none (show id none = none from rfl), ih hrun, hnone,
          hnone', List.take_zero, List.take_zero]

theorem filterMap_spare_firm {run : List FencedLine} (h : ∀ l ∈ run, l.isLoose = false)
    (rest : List FencedLine) :
    (spare maximum 0 (run ++ rest)).filterMap id =
      run ++ (spare maximum 0 rest).filterMap id := by
  induction run with
  | nil => rfl
  | cons l run ih =>
      obtain ⟨hl, hrun⟩ := List.forall_mem_cons.mp h
      rw [List.cons_append, spare, if_neg (by simp [hl]),
        List.filterMap_cons_some (show id (some l) = some l from rfl), ih hrun, List.cons_append]

/-- A run ends at a line that is not loose. -/
theorem spare_of_firm {lines : List FencedLine} (h : ∀ l ∈ lines.head?, l.isLoose = false)
    (count : Nat) : spare maximum count lines = spare maximum 0 lines := by
  cases lines with
  | nil => rfl
  | cons l rest =>
      have hl : ¬l.isLoose = true := by simp [h l rfl]
      rw [spare, spare, if_neg hl, if_neg hl]

/-- Cutting begins with the first run. -/
theorem cutRuns_append {run rest : List FencedLine} {flag : Bool} (hne : run ≠ [])
    (h : ∀ l ∈ run, l.isLoose = flag) (hrest : ∀ l ∈ rest.head?, l.isLoose = !flag) :
    cutRuns maximum (run ++ rest) =
      (if flag then run.take maximum else run) ++ cutRuns maximum rest := by
  have hchain : run.IsChain fun a b => (a.isLoose == b.isLoose) = true := by
    refine List.Pairwise.isChain (List.pairwise_of_forall_mem_list fun a ha b hb => ?_)
    rw [h a ha, h b hb, beq_self_eq_true]
  have hall : run.all FencedLine.isLoose = flag := by
    obtain ⟨l, more, rfl⟩ := List.exists_cons_of_ne_nil hne
    cases flag with
    | true => simpa using h
    | false => simp [h l]
  unfold cutRuns
  rw [List.splitBy_append, List.splitBy_of_isChain hne hchain, List.flatMap_append]
  · rw [List.flatMap_singleton, hall]
  · intro a ha b hb
    rw [h a (List.mem_of_mem_getLast? ha), hrest b hb]
    cases flag <;> rfl

/-- The lines that are spared one by one are those of the runs as cut. -/
theorem filterMap_spare (lines : List FencedLine) :
    (spare maximum 0 lines).filterMap id = cutRuns maximum lines := by
  match lines with
  | [] => rfl
  | l :: lines =>
      let run := l :: lines.takeWhile (·.isLoose == l.isLoose)
      let rest := lines.dropWhile (·.isLoose == l.isLoose)
      have hsplit : l :: lines = run ++ rest := by
        simp only [run, rest, List.cons_append, List.takeWhile_append_dropWhile]
      have hrun : ∀ a ∈ run, a.isLoose = l.isLoose := by
        refine List.forall_mem_cons.mpr ⟨rfl, fun a ha => ?_⟩
        simpa using List.mem_takeWhile_imp ha
      have hrest : ∀ a ∈ rest.head?, a.isLoose = !l.isLoose := by
        intro a ha
        have hstop := List.head?_dropWhile_not (·.isLoose == l.isLoose) lines
        rw [show lines.dropWhile (·.isLoose == l.isLoose) = rest from rfl, ha] at hstop
        cases hl : l.isLoose <;> simp_all
      have hshort : rest.length < (l :: lines).length :=
        Nat.lt_succ_of_le (List.dropWhile_sublist _).length_le
      have ih := filterMap_spare rest
      rw [hsplit, cutRuns_append (by simp [run]) hrun hrest, ← ih]
      cases hl : l.isLoose with
      | true =>
          rw [hl] at hrun hrest
          rw [filterMap_spare_loose hrun, spare_of_firm hrest, Nat.sub_zero]
          rfl
      | false =>
          rw [hl] at hrun
          rw [filterMap_spare_firm hrun]
          rfl
termination_by lines.length
decreasing_by exact hshort

/-! ### What is left of the lines -/

theorem filterMap_spare_cons (count : Nat) (l : FencedLine) (rest : List FencedLine) :
    (spare maximum count (l :: rest)).filterMap id =
      if l.isLoose then
        if count < maximum then l :: (spare maximum (count + 1) rest).filterMap id
        else (spare maximum (count + 1) rest).filterMap id
      else l :: (spare maximum 0 rest).filterMap id := by
  rw [spare]
  split
  · split <;> rfl
  · rfl

/-- Of the lines that are spared no run is too long. -/
theorem checkBlankRuns_spare (count number : Nat) (lines : List FencedLine) :
    checkBlankRuns maximum (min count maximum) number
      ((spare maximum count lines).filterMap id) = [] := by
  induction lines generalizing count number with
  | nil => rfl
  | cons l rest ih =>
      rw [filterMap_spare_cons]
      split
      · next hloose =>
          split
          · next hcount =>
              have hnext : min (count + 1) maximum = count + 1 := by omega
              have hrest := ih (count + 1) (number + 1)
              rw [hnext] at hrest
              rw [checkBlankRuns_cons, if_pos hloose, min_eq_left hcount.le, if_pos hcount, hrest]
              rfl
          · next hcount =>
              have hnext : min count maximum = min (count + 1) maximum := by omega
              rw [hnext]
              exact ih (count + 1) number
      · next hfirm =>
          have hrest := ih 0 (number + 1)
          rw [Nat.zero_min] at hrest
          rw [checkBlankRuns_cons, if_neg hfirm, hrest]

theorem keepsFences_spare (count : Nat) (lines : List FencedLine) :
    KeepsFences lines ((spare maximum count lines).filterMap id) := by
  induction lines generalizing count with
  | nil => exact .nil
  | cons l rest ih =>
      rw [filterMap_spare_cons]
      split
      · next hloose =>
          split
          · exact .keep rfl (ih (count + 1))
          · simp only [FencedLine.isLoose, Bool.and_eq_true, Bool.not_eq_true'] at hloose
            exact .drop hloose.1 (ih (count + 1))
      · exact .keep rfl (ih 0)

/-- Taking loose lines out moves no line into code or out of it. -/
theorem analyze_cutRuns (lines : List Line) :
    analyze ((cutRuns maximum (analyze lines)).map (·.text)) = cutRuns maximum (analyze lines) := by
  rw [← filterMap_spare]
  exact (keepsFences_spare 0 (analyze lines)).markFences_eq

/-- After cutting, no run is too long. -/
theorem checkBlankRuns_cutRuns (number : Nat) (lines : List FencedLine) :
    checkBlankRuns maximum 0 number (cutRuns maximum lines) = [] := by
  rw [← filterMap_spare]
  simpa only [Nat.zero_min] using checkBlankRuns_spare 0 number lines

theorem cutRuns_subset (lines : List FencedLine) : cutRuns maximum lines ⊆ lines := by
  intro l hl
  obtain ⟨run, hrun, hl⟩ := List.mem_flatMap.mp hl
  rw [← List.flatten_splitBy (fun a b => a.isLoose == b.isLoose) lines]
  refine List.mem_flatten.mpr ⟨run, hrun, ?_⟩
  split at hl
  · exact List.mem_of_mem_take hl
  · exact hl

/-- If a run keeps a line at least, so does the text. -/
theorem cutRuns_ne_nil (hmaximum : 1 ≤ maximum) {lines : List FencedLine} (hne : lines ≠ []) :
    cutRuns maximum lines ≠ [] := by
  obtain ⟨l, rest, rfl⟩ := List.exists_cons_of_ne_nil hne
  rw [← filterMap_spare, filterMap_spare_cons, if_pos (show 0 < maximum from hmaximum)]
  split <;> simp

end LintDesk.Rule
