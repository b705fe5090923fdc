import LintDesk.Proofs.Edit.Snapshot

/-! # What becomes of inserted text

A batch whose characters carry the number of the fix that inserted them does what the batch does
without the numbers. Text inserted in a line stays as long as the fixes after it end within the
line (`inserted_survives`); text inserted past the end of a line can be deleted again by a fix that
ends past the end as well (`inserted_text_deleted`).
-/

namespace LintDesk

/-- The characters of a line, each with the number of the fix that inserted it, if one did. -/
abbrev MarkedLine := List (Char × Option Nat)

namespace MarkedLine

/-- A line as it was, with nothing inserted. -/
def original (line : Line) : MarkedLine :=
  line.map fun c => (c, none)

/-- The line without marks. -/
def plain (line : MarkedLine) : Line :=
  line.map Prod.fst

/-- What is left of the text that fix number `k` inserted. -/
def insertedBy (k : Nat) (line : MarkedLine) : List Char :=
  (line.filter fun c => c.2 == some k).map Prod.fst

/-- How many characters are in front of a column. -/
def cut (column : Nat) (line : MarkedLine) : Nat :=
  (takeUnits column line.plain).length

/-- The line after fix number `k`. -/
def edit (ending : LineEnding) (k : Nat) (f : PlannedFix) (line : MarkedLine) : MarkedLine :=
  line.take (line.cut f.start) ++ ((f.toFix.insertedChars ending).map (·, some k) ++
    line.drop (line.cut (f.start + f.removal.count)))

end MarkedLine

/-- A batch under way with its lines marked, and the numbers of the fixes it has applied. -/
structure MarkedBatch where
  state : BatchState
  lines : List MarkedLine
  considered : Nat := 0
  applied : List Nat := []

namespace MarkedBatch

/-- Considers one fix inside a line. -/
def step (ending : LineEnding) (m : MarkedBatch) (f : PlannedFix) : MarkedBatch where
  state := m.state.step ending f
  lines := if m.state.takes f then m.lines.modify f.line (·.edit ending m.considered f) else m.lines
  considered := m.considered + 1
  applied := if m.state.takes f then m.applied ++ [m.considered] else m.applied

/-- The batch before its first fix. -/
def start (lines : List Line) : MarkedBatch where
  state := { lines := lines.map some }
  lines := lines.map MarkedLine.original

end MarkedBatch

/-- The batch that fixes a text, with marks; fixes are numbered as they are considered. -/
def markedBatch (text : List Char) (violations : List Violation) (choice : FixChoice) :
    MarkedBatch :=
  (plannedFixes violations choice).foldl (MarkedBatch.step (dominantEnding text))
    (.start (splitLines text))

namespace MarkedLine

/-! ### Marked lines -/

@[simp] theorem plain_append (a b : MarkedLine) : plain (a ++ b) = a.plain ++ b.plain :=
  List.map_append

@[simp] theorem plain_original (line : Line) : (original line).plain = line := by
  simp [plain, original, Function.comp_def]

@[simp] theorem insertedBy_append (k : Nat) (a b : MarkedLine) :
    insertedBy k (a ++ b) = a.insertedBy k ++ b.insertedBy k := by
  simp [insertedBy]

theorem insertedBy_eq_nil {k : Nat} {line : MarkedLine} (h : ∀ c ∈ line, c.2 ≠ some k) :
    line.insertedBy k = [] := by
  simpa [insertedBy] using h

theorem insertedBy_map_self (k : Nat) (s : List Char) :
    insertedBy k (s.map (·, some k)) = s := by
  simp [insertedBy, List.filter_map, Function.comp_def]

theorem insertedBy_map_of_ne {j k : Nat} (h : j ≠ k) (s : List Char) :
    insertedBy j (s.map (·, some k)) = [] :=
  insertedBy_eq_nil (by simp [Ne.symm h])

theorem plain_take_cut (column : Nat) (line : MarkedLine) :
    plain (line.take (line.cut column)) = takeUnits column line.plain := by
  rw [plain, List.map_take]
  exact (List.prefix_iff_eq_take.mp (isPrefix_takeUnits column line.plain)).symm

theorem plain_drop_cut (column : Nat) (line : MarkedLine) :
    plain (line.drop (line.cut column)) = dropUnits column line.plain := by
  rw [plain, List.map_drop]
  change line.plain.drop _ = _
  conv_lhs => rw [← takeUnits_append_dropUnits column line.plain]
  exact List.drop_left

/-- Without the marks, an edit does what the fix does. -/
theorem apply_plain (ending : LineEnding) (k : Nat) {f : PlannedFix}
    (hedit : f.removal.isWholeLine = false) (line : MarkedLine) :
    f.toFix.apply line.plain ending = .replace (line.edit ending k f).plain := by
  cases hremoval : f.removal with
  | wholeLine => simp [hremoval, Removal.isWholeLine] at hedit
  | chars count =>
      have hmarks : plain ((f.toFix.insertedChars ending).map (·, some k)) =
          f.toFix.insertedChars ending := by
        simp [plain, Function.comp_def]
      rw [edit, plain_append, plain_append, plain_take_cut, plain_drop_cut, hmarks]
      simp [Fix.apply, PlannedFix.toFix, hremoval, Removal.count]

variable {line front : Line} {now : MarkedLine} {f : PlannedFix}

theorem take_original (column : Nat) (front : Line) (rest : MarkedLine) :
    (original front ++ rest).take (takeUnits column front).length =
      original (takeUnits column front) := by
  have hlength : (takeUnits column front).length ≤ (original front).length := by
    simpa [original] using (isPrefix_takeUnits column front).length_le
  rw [List.take_append_of_le_length hlength, original, original, ← List.map_take,
    ← List.prefix_iff_eq_take.mp (isPrefix_takeUnits column front)]

/-- A column cuts off a line at least what it cuts off the characters that are as they were. -/
theorem isPrefix_original_takeUnits (h : original front <+: now) (column : Nat) :
    original (takeUnits column front) <+: now.take (now.cut column) := by
  obtain ⟨rest, rfl⟩ := h
  rw [← take_original column front rest]
  apply List.take_prefix_take_left
  rw [cut, plain_append, plain_original]
  exact (takeUnits_prefix_takeUnits_append column front (plain rest)).length_le

/-- A column in the characters that are as they were cuts off just some of these. -/
theorem take_cut_of_le (h : original front <+: now) {column : Nat} (hle : column ≤ units front) :
    now.take (now.cut column) = original (takeUnits column front) := by
  obtain ⟨rest, rfl⟩ := h
  rw [cut, plain_append, plain_original, (takeUnits_append_of_le hle _).1, take_original]

theorem cut_le_cut {m n : Nat} (h : m ≤ n) (now : MarkedLine) : now.cut m ≤ now.cut n := by
  unfold cut
  rw [← takeUnits_takeUnits h now.plain]
  exact (isPrefix_takeUnits m (takeUnits n now.plain)).length_le

/-- What an edit removes. -/
def removed (f : PlannedFix) (now : MarkedLine) : MarkedLine :=
  (now.take (now.cut (f.start + f.removal.count))).drop (now.cut f.start)

/-- A line is what an edit leaves of it and what it removes. -/
theorem eq_append_removed (f : PlannedFix) (now : MarkedLine) :
    now = now.take (now.cut f.start) ++ (removed f now ++
      now.drop (now.cut (f.start + f.removal.count))) := by
  have hle := cut_le_cut (Nat.le_add_right f.start f.removal.count) now
  have hfront : now.take (now.cut f.start) =
      (now.take (now.cut (f.start + f.removal.count))).take (now.cut f.start) := by
    rw [List.take_take, min_eq_left hle]
  rw [hfront, removed, ← List.append_assoc, List.take_append_drop, List.take_append_drop]

/-- An edit that removes nothing inserted leaves all the text that other fixes inserted. -/
theorem insertedBy_edit (ending : LineEnding) {j k : Nat} (hne : j ≠ k)
    (h : ∀ c ∈ removed f now, c.2 = none) :
    (now.edit ending k f).insertedBy j = now.insertedBy j := by
  have hremoved : (removed f now).insertedBy j = [] :=
    insertedBy_eq_nil fun c hc => by simp [h c hc]
  conv_rhs => rw [eq_append_removed f now]
  simp [edit, insertedBy_map_of_ne hne, hremoved]

/-- An edit inserts its text, under its own number. -/
theorem insertedBy_edit_self (ending : LineEnding) {k : Nat} (hfresh : ∀ c ∈ now, c.2 ≠ some k) :
    (now.edit ending k f).insertedBy k = f.toFix.insertedChars ending := by
  have hbefore : insertedBy k (now.take (now.cut f.start)) = [] :=
    insertedBy_eq_nil fun c hc => hfresh c (List.mem_of_mem_take hc)
  have hafter : insertedBy k (now.drop (now.cut (f.start + f.removal.count))) = [] :=
    insertedBy_eq_nil fun c hc => hfresh c (List.mem_of_mem_drop hc)
  simp [edit, hbefore, hafter, insertedBy_map_self]

/-- An edit that ends where the line is as it was, or removes nothing, removes nothing inserted. -/
theorem removed_unmarked (h : original front <+: now)
    (hsafe : f.removal.count = 0 ∨ f.start + f.removal.count ≤ units front) :
    ∀ c ∈ removed f now, c.2 = none := by
  intro c hc
  rcases hsafe with hzero | hle
  · simp [removed, hzero] at hc
  · have hmem := List.mem_of_mem_drop hc
    rw [take_cut_of_le h hle] at hmem
    obtain ⟨d, -, rfl⟩ := List.mem_map.mp hmem
    rfl

end MarkedLine

/-! ### Batches -/

namespace BatchState

variable {s : BatchState} {f : PlannedFix} {now text : Line} {ending : LineEnding}

theorem lines_step_of_not_takes (h : s.takes f = false) : (s.step ending f).lines = s.lines := by
  unfold takes at h
  unfold BatchState.step
  dsimp only
  split
  · next hfits =>
      split
      · next hslot => simp [hfits, hslot] at h
      · rfl
  · rfl

theorem lines_step_of_takes (ending : LineEnding) (h : s.takes f = true)
    (hslot : s.lines[f.line]? = some (some now))
    (happly : f.toFix.apply now ending = .replace text) :
    (s.step ending f).lines = s.lines.set f.line (some text) := by
  have hfits : s.fits f = true := (Bool.and_eq_true_iff.mp h).1
  simp only [BatchState.step, hfits, if_true, hslot, happly]

/-- A fix that fits ends at the place of the last one on its line, or further left. -/
theorem end_le_of_fits (hlast : s.lastLine = some f.line) (hsmall : s.lastStart < maxInt64)
    (hedit : f.removal.isWholeLine = false) (hfits : s.fits f = true) :
    ((f.start + f.removal.count : Nat) : Int) ≤ s.lastStart := by
  cases hremoval : f.removal with
  | wholeLine => simp [hremoval, Removal.isWholeLine] at hedit
  | chars count =>
      simp only [fits, hlast, hremoval, Removal.isWholeLine, bne_self_eq_false, Bool.false_or,
        Removal.toInt, Removal.maxCount, decide_eq_true_eq] at hfits
      simp only [maxInt64, Removal.count] at hfits hsmall ⊢
      split at hfits <;> omega

end BatchState

namespace MarkedBatch

open MarkedLine

variable {lines : List Line} {f : PlannedFix} {ahead : List PlannedFix} {m : MarkedBatch}
  {ending : LineEnding}

/-- A marked batch under way: it is the batch with marks, no mark is of a fix ahead, and a line that
fixes are ahead for begins as it was, up to the fix considered last on it. -/
structure Sound (lines : List Line) (ahead : List PlannedFix) (m : MarkedBatch) : Prop where
  erased : m.state.lines = m.lines.map fun line => some line.plain
  fresh : ∀ line ∈ m.lines, ∀ c ∈ line, ∀ j, c.2 = some j → j < m.considered
  begun : ∀ f ∈ ahead, ∀ line, lines[f.line]? = some line → ∃ now place,
    m.lines[f.line]? = some now ∧ original (takeUnits place line) <+: now ∧ f.start ≤ place ∧
      (m.state.lastLine = some f.line → m.state.lastStart = min (place : Int) BatchState.maxInt64) ∧
      (m.state.lastLine ≠ some f.line → units line ≤ place)
  below : ∀ f ∈ ahead, ∀ n, m.state.lastLine = some n → f.line ≤ n

theorem Sound.start (lines : List Line) (ahead : List PlannedFix) :
    Sound lines ahead (.start lines) where
  erased := by simp [MarkedBatch.start, Function.comp_def]
  fresh := by
    simp only [MarkedBatch.start, List.forall_mem_map]
    intro line _ c hc j hj
    obtain ⟨d, -, rfl⟩ := List.mem_map.mp hc
    cases hj
  begun := by
    intro f _ line hline
    refine ⟨original line, max (units line) f.start, by simp [MarkedBatch.start, hline], ?_,
      le_max_right _ _, nofun, fun _ => le_max_left _ _⟩
    rw [takeUnits_of_le (le_max_left _ _)]
  below := nofun

/-- Edits are for lines that are there. -/
theorem Sound.exists_of_takes (h : Sound lines ahead m) (htakes : m.state.takes f = true) :
    ∃ now, m.lines[f.line]? = some now ∧ m.state.lines[f.line]? = some (some now.plain) := by
  have hslot : m.state.lines[f.line]? = m.lines[f.line]?.map fun line => some line.plain := by
    rw [h.erased, List.getElem?_map]
  cases hnow : m.lines[f.line]? with
  | none => simp [BatchState.takes, hslot, hnow] at htakes
  | some now => exact ⟨now, rfl, by simp [hslot, hnow]⟩

theorem getElem?_step (ending : LineEnding) (m : MarkedBatch) (f : PlannedFix) (i : Nat) :
    (m.step ending f).lines[i]? = if f.line = i ∧ m.state.takes f = true
      then m.lines[i]?.map (·.edit ending m.considered f) else m.lines[i]? := by
  unfold MarkedBatch.step
  dsimp only
  cases m.state.takes f with
  | false => simp
  | true =>
      rw [if_pos rfl, List.getElem?_modify]
      by_cases hline : f.line = i <;> simp [hline]

theorem Sound.erased_step (h : Sound lines ahead m) (hedit : f.removal.isWholeLine = false)
    (ending : LineEnding) :
    (m.step ending f).state.lines = (m.step ending f).lines.map fun line => some line.plain := by
  cases htakes : m.state.takes f with
  | false =>
      simp only [MarkedBatch.step, htakes, BatchState.lines_step_of_not_takes htakes, h.erased,
        Bool.false_eq_true, if_false]
  | true =>
      obtain ⟨now, hnow, hslot⟩ := h.exists_of_takes htakes
      have hstep := BatchState.lines_step_of_takes ending htakes hslot
        (apply_plain ending m.considered hedit now)
      obtain ⟨hbound, -⟩ := List.getElem?_eq_some_iff.mp hslot
      apply List.ext_getElem?
      intro i
      rw [List.getElem?_map, getElem?_step, MarkedBatch.step, hstep, htakes]
      by_cases hline : f.line = i
      · subst hline
        simp [hbound, hnow]
      · simp [hline, h.erased]

theorem Sound.fresh_step (h : Sound lines ahead m) (ending : LineEnding) (f : PlannedFix) :
    ∀ line ∈ (m.step ending f).lines, ∀ c ∈ line, ∀ j, c.2 = some j →
      j < (m.step ending f).considered := by
  intro line hline c hc j hj
  obtain ⟨i, hi⟩ := List.mem_iff_getElem?.mp hline
  have hold : ∀ old, m.lines[i]? = some old → c ∈ old → j < m.considered + 1 :=
    fun old hold hmem => (h.fresh old (List.mem_of_getElem? hold) c hmem j hj).trans
      (Nat.lt_succ_self _)
  rw [getElem?_step] at hi
  split at hi
  · obtain ⟨old, hold', rfl⟩ := Option.map_eq_some_iff.mp hi
    rcases List.mem_append.mp hc with hbefore | hrest
    · exact hold old hold' (List.mem_of_mem_take hbefore)
    · rcases List.mem_append.mp hrest with hinserted | hafter
      · obtain ⟨d, -, rfl⟩ := List.mem_map.mp hinserted
        exact Nat.lt_succ_of_le (Option.some.inj hj).ge
      · exact hold old hold' (List.mem_of_mem_drop hafter)
  · exact hold line hi hc

/-- Whether a fix is taken or not, its line is as it was up to the fix. -/
theorem exists_original_prefix_step (ending : LineEnding) {now : MarkedLine} {line : Line}
    {place : Nat} (hnow : m.lines[f.line]? = some now)
    (hfront : original (takeUnits place line) <+: now) (hle : f.start ≤ place) :
    ∃ now', (m.step ending f).lines[f.line]? = some now' ∧
      original (takeUnits f.start line) <+: now' := by
  rw [getElem?_step, hnow, ← takeUnits_takeUnits hle line]
  split
  · exact ⟨_, rfl, (isPrefix_original_takeUnits hfront f.start).trans ⟨_, rfl⟩⟩
  · exact ⟨now, rfl, ((isPrefix_takeUnits f.start _).map _).trans hfront⟩

/-- One fix keeps the marks sound. -/
theorem Sound.step (h : Sound lines (f :: ahead) m)
    (horder : (f :: ahead).Pairwise PlannedFix.Before)
    (hedits : ∀ g ∈ f :: ahead, g.removal.isWholeLine = false) (ending : LineEnding) :
    Sound lines ahead (m.step ending f) := by
  obtain ⟨hf, hahead⟩ := List.forall_mem_cons.mp hedits
  obtain ⟨hbefore, -⟩ := List.pairwise_cons.mp horder
  obtain ⟨hlast, hplace⟩ := BatchState.step_last ending m.state f
  refine ⟨h.erased_step hf ending, h.fresh_step ending f, ?_, ?_⟩
  · intro g hg line hline
    by_cases hsame : g.line = f.line
    · rw [hsame] at hline ⊢
      obtain ⟨now, place, hnow, hfront, hle, -, -⟩ := h.begun f (by simp) line hline
      obtain ⟨now', hnow', hfront'⟩ := exists_original_prefix_step ending hnow hfront hle
      have hstart : g.start ≤ f.start := by
        rcases hbefore g hg with hlt | ⟨-, hwhole | ⟨-, hstart⟩⟩
        · omega
        · rw [hahead g hg] at hwhole
          cases hwhole
        · exact hstart
      exact ⟨now', f.start, hnow', hfront', hstart, fun _ => hplace, fun hne => absurd hlast hne⟩
    · -- the line of `g` is still to come
      obtain ⟨now, place, hnow, hfront, hle, -, hwhole⟩ := h.begun g (by simp [hg]) line hline
      have hlt : g.line < f.line := by
        rcases hbefore g hg with hlt | ⟨heq, -⟩
        · exact hlt
        · exact absurd heq.symm hsame
      refine ⟨now, place, ?_, hfront, hle, fun heq => ?_, fun _ => hwhole fun heq => ?_⟩
      · rw [getElem?_step, if_neg fun hboth => hsame hboth.1.symm, hnow]
      · exact absurd (Option.some.inj (hlast.symm.trans heq)).symm hsame
      · have hbelow := h.below f (by simp) g.line heq
        omega
  · intro g hg n hn
    have heq : f.line = n := Option.some.inj (hlast.symm.trans hn)
    rcases hbefore g hg with hlt | ⟨hline, -⟩ <;> omega

theorem Sound.foldl {fixes : List PlannedFix} (h : Sound lines (fixes ++ ahead) m)
    (horder : (fixes ++ ahead).Pairwise PlannedFix.Before)
    (hedits : ∀ f ∈ fixes ++ ahead, f.removal.isWholeLine = false) (ending : LineEnding) :
    Sound lines ahead (fixes.foldl (MarkedBatch.step ending) m) := by
  induction fixes generalizing m with
  | nil => exact h
  | cons f rest ih =>
      refine ih (h.step horder hedits ending) (List.pairwise_cons.mp horder).2 fun g hg => ?_
      exact hedits g (List.mem_cons_of_mem f hg)

theorem state_foldl (ending : LineEnding) (fixes : List PlannedFix) (m : MarkedBatch) :
    (fixes.foldl (MarkedBatch.step ending) m).state =
      fixes.foldl (BatchState.step ending) m.state := by
  induction fixes generalizing m with
  | nil => rfl
  | cons f rest ih => exact ih (m.step ending f)

theorem considered_foldl (ending : LineEnding) (fixes : List PlannedFix) (m : MarkedBatch) :
    (fixes.foldl (MarkedBatch.step ending) m).considered = m.considered + fixes.length := by
  induction fixes generalizing m with
  | nil => rfl
  | cons f rest ih =>
      rw [List.foldl_cons, ih, List.length_cons, MarkedBatch.step]
      dsimp only
      omega

/-- The numbers of the applied fixes are the places at which the batch takes a fix. -/
theorem mem_applied_foldl (ending : LineEnding) {fixes : List PlannedFix} {m : MarkedBatch}
    {j : Nat} : j ∈ (fixes.foldl (MarkedBatch.step ending) m).applied ↔ j ∈ m.applied ∨
      ∃ before g after, fixes = before ++ g :: after ∧ j = m.considered + before.length ∧
        (before.foldl (MarkedBatch.step ending) m).state.takes g = true := by
  induction fixes generalizing m with
  | nil => simp
  | cons f rest ih =>
      rw [List.foldl_cons, ih]
      constructor
      · rintro (hstep | ⟨before, g, after, rfl, rfl, htakes⟩)
        · unfold MarkedBatch.step at hstep
          dsimp only at hstep
          split at hstep
          · next htakes =>
              rcases List.mem_append.mp hstep with hmem | hmem
              · exact .inl hmem
              · obtain rfl := List.mem_singleton.mp hmem
                exact .inr ⟨[], f, rest, rfl, rfl, htakes⟩
          · exact .inl hstep
        · refine .inr ⟨f :: before, g, after, rfl, ?_, htakes⟩
          simp only [MarkedBatch.step, List.length_cons]
          omega
      · rintro (hmem | ⟨before, g, after, hfixes, rfl, htakes⟩)
        · refine .inl ?_
          unfold MarkedBatch.step
          dsimp only
          split
          · exact List.mem_append_left _ hmem
          · exact hmem
        · cases before with
          | nil =>
              obtain ⟨rfl, rfl⟩ := List.cons.inj hfixes
              refine .inl ?_
              have hnow : m.state.takes f = true := htakes
              simp [MarkedBatch.step, hnow]
          | cons e before =>
              obtain ⟨rfl, rfl⟩ := List.cons.inj hfixes
              refine .inr ⟨before, g, after, rfl, ?_, htakes⟩
              simp only [MarkedBatch.step, List.length_cons]
              omega

/-- Fix number `k` is applied just if the batch takes it after the `k` fixes before it. -/
theorem mem_applied_foldl_start {before after : List PlannedFix} :
    before.length ∈
        ((before ++ f :: after).foldl (MarkedBatch.step ending) (.start lines)).applied ↔
      (before.foldl (MarkedBatch.step ending) (.start lines)).state.takes f = true := by
  rw [mem_applied_foldl]
  constructor
  · rintro (hmem | ⟨before', g, after', hfixes, hlength, htakes⟩)
    · cases hmem
    · obtain ⟨rfl, hrest⟩ := List.append_inj hfixes (hlength.trans (Nat.zero_add _))
      obtain ⟨rfl, -⟩ := List.cons.inj hrest
      exact htakes
  · exact fun htakes => .inr ⟨before, f, after, rfl, (Nat.zero_add _).symm, htakes⟩

/-! ### Inserted text -/

/-- The text that fix number `k` inserted in line `i` at column `place` is all there, and fixes
ahead for the line are not to the right of the column. -/
structure Holds (i k place : Nat) (inserted : List Char) (ahead : List PlannedFix)
    (m : MarkedBatch) : Prop where
  kept : ∃ now, m.lines[i]? = some now ∧ now.insertedBy k = inserted
  known : k < m.considered
  left : ∀ f ∈ ahead, f.line = i → m.state.lastLine = some i ∧
    m.state.lastStart ≤ min (place : Int) BatchState.maxInt64

/-- A fix that fits ends where the line is as it was, unless it ends past the end of the line and
text was inserted there before. -/
theorem Sound.end_le {i k place : Nat} {inserted : List Char} (h : Sound lines (f :: ahead) m)
    (hholds : Holds i k place inserted (f :: ahead) m) (hi : f.line = i) {line : Line}
    (hline : lines[i]? = some line) (hsmall : units line < 2 ^ 63 - 1)
    (hedit : f.removal.isWholeLine = false) (hfits : m.state.fits f = true)
    (hsafe : place ≤ units line ∨ f.removal.count = 0 ∨
      f.start + f.removal.count ≤ units line) :
    ∃ now front, m.lines[i]? = some now ∧ original front <+: now ∧
      (f.removal.count = 0 ∨ f.start + f.removal.count ≤ units front) := by
  subst hi
  obtain ⟨now, front, hnow, hfront, -, hsame, -⟩ := h.begun f (by simp) line hline
  obtain ⟨hlast, hleft⟩ := hholds.left f (by simp) rfl
  have hstart := hsame hlast
  refine ⟨now, takeUnits front line, hnow, hfront, ?_⟩
  by_cases hlong : units line ≤ front
  · -- the whole line is as it was, so only a place past its end would let the fix out of it
    rw [takeUnits_of_le hlong]
    rcases hsafe with hinside | hsafe
    · refine .inr ?_
      have hend := BatchState.end_le_of_fits hlast (by
        simp only [BatchState.maxInt64] at hleft ⊢
        omega) hedit hfits
      omega
    · exact hsafe
  · refine .inr (le_trans ?_ (le_units_takeUnits (by omega)))
    have hend := BatchState.end_le_of_fits hlast (by
      simp only [BatchState.maxInt64] at hstart ⊢
      omega) hedit hfits
    omega

/-- What an applied fix inserts is there. -/
theorem Holds.of_takes (h : Sound lines (f :: ahead) m) (htakes : m.state.takes f = true)
    (ending : LineEnding) : Holds f.line m.considered f.start (f.toFix.insertedChars ending) ahead
      (m.step ending f) where
  kept := by
    obtain ⟨now, hnow, -⟩ := h.exists_of_takes htakes
    refine ⟨now.edit ending m.considered f, by rw [getElem?_step, if_pos ⟨rfl, htakes⟩, hnow]; rfl,
      insertedBy_edit_self ending fun c hc hmark => ?_⟩
    exact absurd (h.fresh now (List.mem_of_getElem? hnow) c hc _ hmark) (Nat.lt_irrefl _)
  known := Nat.lt_succ_self _
  left := fun _ _ _ =>
    ⟨(BatchState.step_last ending m.state f).1, (BatchState.step_last ending m.state f).2.le⟩

theorem Holds.step {i k place : Nat} {inserted : List Char}
    (hholds : Holds i k place inserted (f :: ahead) m) (h : Sound lines (f :: ahead) m)
    (horder : (f :: ahead).Pairwise PlannedFix.Before)
    (hedit : f.removal.isWholeLine = false) {line : Line} (hline : lines[i]? = some line)
    (hsmall : units line < 2 ^ 63 - 1) (hsafe : f.line = i → m.state.takes f = true →
      place ≤ units line ∨ f.removal.count = 0 ∨ f.start + f.removal.count ≤ units line)
    (ending : LineEnding) : Holds i k place inserted ahead (m.step ending f) where
  known := hholds.known.trans (Nat.lt_succ_self _)
  kept := by
    obtain ⟨now, hnow, hinserted⟩ := hholds.kept
    rw [getElem?_step, hnow]
    split
    · next htakes =>
        obtain ⟨hi, htakes⟩ := htakes
        have hfits : m.state.fits f = true := (Bool.and_eq_true_iff.mp htakes).1
        obtain ⟨now', front, hnow', hfront, hend⟩ := h.end_le hholds hi hline hsmall hedit hfits
          (hsafe hi htakes)
        obtain rfl := Option.some.inj (hnow.symm.trans hnow')
        refine ⟨_, rfl, ?_⟩
        rw [insertedBy_edit ending hholds.known.ne (removed_unmarked hfront hend), hinserted]
    · exact ⟨now, rfl, hinserted⟩
  left := by
    intro g hg hi
    obtain ⟨hlast, hplace⟩ := BatchState.step_last ending m.state f
    obtain ⟨hbefore, -⟩ := List.pairwise_cons.mp horder
    obtain ⟨hsame, -⟩ := hholds.left g (by simp [hg]) hi
    have hbelow := h.below f (by simp) i hsame
    have hf : f.line = i := by
      rcases hbefore g hg with hlt | ⟨heq, -⟩ <;> omega
    obtain ⟨-, hleft⟩ := hholds.left f (by simp) hf
    subst hf
    obtain ⟨-, front, -, -, hle, hstart, -⟩ := h.begun f (by simp) line hline
    have hfront := hstart hsame
    refine ⟨hlast, ?_⟩
    have hnext : (m.step ending f).state.lastStart = min (f.start : Int) BatchState.maxInt64 :=
      hplace
    omega

/-- Inserted text stays as long as the fixes after it are safe for it. -/
theorem Holds.foldl {i k place : Nat} {inserted : List Char} {fixes : List PlannedFix}
    (hholds : Holds i k place inserted fixes m) (h : Sound lines fixes m)
    (horder : fixes.Pairwise PlannedFix.Before)
    (hedits : ∀ f ∈ fixes, f.removal.isWholeLine = false) {line : Line}
    (hline : lines[i]? = some line) (hsmall : units line < 2 ^ 63 - 1) (ending : LineEnding)
    (hsafe : ∀ before f after, fixes = before ++ f :: after → f.line = i →
      (before.foldl (MarkedBatch.step ending) m).state.takes f = true →
      place ≤ units line ∨ f.removal.count = 0 ∨ f.start + f.removal.count ≤ units line) :
    Holds i k place inserted [] (fixes.foldl (MarkedBatch.step ending) m) := by
  induction fixes generalizing m with
  | nil => exact hholds
  | cons f rest ih =>
      have hstep := hholds.step h horder (hedits f (by simp)) hline hsmall
        (hsafe [] f rest rfl) ending
      refine ih hstep (h.step horder hedits ending) (List.pairwise_cons.mp horder).2
        (fun g hg => hedits g (by simp [hg])) ?_
      rintro before g after rfl
      exact hsafe (f :: before) g after rfl

theorem length_applied_foldl (ending : LineEnding) (fixes : List PlannedFix) {m : MarkedBatch}
    (h : m.applied.length = m.state.applied) :
    (fixes.foldl (MarkedBatch.step ending) m).applied.length =
      (fixes.foldl (MarkedBatch.step ending) m).state.applied := by
  induction fixes generalizing m with
  | nil => exact h
  | cons f rest ih =>
      refine ih ?_
      simp only [MarkedBatch.step, BatchState.applied_step]
      cases m.state.takes f <;> simp [h]

end MarkedBatch

section Batch

variable {text : List Char} {violations : List Violation} {choice : FixChoice}

theorem plannedFixes_edits (h : ∀ f ∈ selectedFixes violations choice,
    f.removal.isWholeLine = false) :
    ∀ f ∈ plannedFixes violations choice, f.removal.isWholeLine = false := by
  intro f hf
  obtain ⟨g, hg, -, -, hremoval⟩ := exists_place_of_mem_joinComplements hf
  exact hremoval ▸ h g (List.mem_mergeSort.mp (mem_dropRepeats.mp hg))

/-- Marks restrict nothing: without them, the marked batch is the batch. -/
theorem applyFixes_eq_markedBatch (hedits : ∀ f ∈ selectedFixes violations choice,
    f.removal.isWholeLine = false) :
    (applyFixes text violations choice).applied =
        (markedBatch text violations choice).applied.length ∧
      (selectedFixes violations choice ≠ [] → (applyFixes text violations choice).content =
        joinLines (dominantEnding text)
          ((markedBatch text violations choice).lines.map MarkedLine.plain)) := by
  have horder := plannedFixes_before violations choice
  have hsound : MarkedBatch.Sound (splitLines text) [] (markedBatch text violations choice) :=
    MarkedBatch.Sound.foldl
      (MarkedBatch.Sound.start (splitLines text) (plannedFixes violations choice ++ []))
      (by simpa using horder) (by simpa using plannedFixes_edits hedits) (dominantEnding text)
  have hstate : (markedBatch text violations choice).state =
      (plannedFixes violations choice).foldl (BatchState.step (dominantEnding text))
        { lines := (splitLines text).map some } :=
    MarkedBatch.state_foldl (dominantEnding text) (plannedFixes violations choice) _
  have herased : (markedBatch text violations choice).state.lines =
      (markedBatch text violations choice).lines.map fun line => some line.plain := hsound.erased
  constructor
  · rw [applied_applyFixes, ← hstate]
    exact (MarkedBatch.length_applied_foldl (dominantEnding text) _ rfl).symm
  · intro hselected
    rw [content_of_selected hselected, ← hstate, herased, List.filterMap_map]
    simp

/-- What is left, in the end, of the text that fix number `k` inserted in line `i`. -/
def survivingText (text : List Char) (violations : List Violation) (choice : FixChoice)
    (k i : Nat) : List Char :=
  ((markedBatch text violations choice).lines[i]?.getD []).insertedBy k

/-- The text that an applied fix inserted is all there in the end if the fix is within its line as
it was, or if the fixes applied after it on its line, unless they only insert, end within the line
as it was. -/
theorem inserted_survives (hsize : FitsTwice text)
    (hedits : ∀ f ∈ selectedFixes violations choice, f.removal.isWholeLine = false)
    {k : Nat} {f : PlannedFix} (hplanned : (plannedFixes violations choice)[k]? = some f)
    (happlied : k ∈ (markedBatch text violations choice).applied) {line : Line}
    (hline : (splitLines text)[f.line]? = some line)
    (hsafe : f.start ≤ units line ∨ ∀ j g, k < j → (plannedFixes violations choice)[j]? = some g →
      g.line = f.line → j ∈ (markedBatch text violations choice).applied →
      g.removal.count = 0 ∨ g.start + g.removal.count ≤ units line) :
    survivingText text violations choice k f.line =
      f.toFix.insertedChars (dominantEnding text) := by
  obtain ⟨hbound, hget⟩ := List.getElem?_eq_some_iff.mp hplanned
  obtain ⟨before, after, hplan, rfl⟩ : ∃ before after,
      plannedFixes violations choice = before ++ f :: after ∧ before.length = k := by
    refine ⟨(plannedFixes violations choice).take k, (plannedFixes violations choice).drop (k + 1),
      ?_, List.length_take_of_le hbound.le⟩
    rw [← hget, ← List.drop_eq_getElem_cons hbound, List.take_append_drop]
  have hall := plannedFixes_edits hedits
  have horder := plannedFixes_before violations choice
  unfold survivingText
  unfold markedBatch at happlied hsafe ⊢
  rw [hplan] at happlied hsafe hall horder ⊢
  have hsound := (MarkedBatch.Sound.start (splitLines text) (before ++ f :: after)).foldl horder
    hall (dominantEnding text)
  have htakes := MarkedBatch.mem_applied_foldl_start.mp happlied
  have hnumber := MarkedBatch.considered_foldl (dominantEnding text) before
    (.start (splitLines text))
  rw [show (MarkedBatch.start (splitLines text)).considered = 0 from rfl, Nat.zero_add] at hnumber
  have hholds := MarkedBatch.Holds.of_takes hsound htakes (dominantEnding text)
  have horder' := (List.pairwise_append.mp horder).2.1
  have hend := hholds.foldl
    (hsound.step horder' (fun g hg => hall g (List.mem_append_right _ hg)) _)
    (List.pairwise_cons.mp horder').2 (fun g hg => hall g (by simp [hg])) hline
    (hsize.units_lt (List.mem_of_getElem? hline)) (dominantEnding text) ?_
  · obtain ⟨now, hnow, hinserted⟩ := hend.kept
    rw [hnumber] at hinserted
    rw [List.foldl_append, List.foldl_cons, hnow, Option.getD_some, hinserted]
  · rintro between g rest rfl hg hgtakes
    refine hsafe.imp_right fun hlater => hlater (before ++ f :: between).length g (by simp) ?_ hg ?_
    · simp
    · have hassoc : before ++ f :: (between ++ g :: rest) =
          (before ++ f :: between) ++ g :: rest := by simp
      rw [hassoc, MarkedBatch.mem_applied_foldl_start, List.foldl_append, List.foldl_cons]
      exact hgtakes

/-- Text inserted past the end of a line, and a deletion within it. -/
theorem inserted_survives_of_deletion :
    survivingText "ab\n".toList
      [{ names := ["X"], line := 1, description := "", fix := some (.insertAt 11 "XYZ") },
        { names := ["X"], line := 1, description := "", fix := some (.delete 1 2) }] .all 0 0 =
      "XYZ".toList := by
  have hplanned : plannedFixes
      [{ names := ["X"], line := 1, description := "", fix := some (.insertAt 11 "XYZ") },
        { names := ["X"], line := 1, description := "", fix := some (.delete 1 2) }] .all =
      [⟨0, 10, .chars 0, "XYZ"⟩, ⟨0, 0, .chars 2, ""⟩] := by
    rw [plannedFixes_eq_insertionSort]
    decide +kernel
  have hline : (splitLines "ab\n".toList)[0]? = some "ab".toList := by decide
  refine inserted_survives (f := ⟨0, 10, .chars 0, "XYZ"⟩)
    (by unfold FitsTwice; decide) (by decide) (by rw [hplanned]; rfl)
    (by rw [markedBatch, hplanned]; decide +kernel) hline (.inr fun j g hj hg _ _ => .inr ?_)
  rw [hplanned] at hg
  obtain ⟨hbound, rfl⟩ := List.getElem?_eq_some_iff.mp hg
  obtain rfl : j = 1 := by
    simp only [List.length_cons, List.length_nil] at hbound
    omega
  change 0 + 2 ≤ units "ab".toList
  decide

/-- A deletion that ends past the end of its line removes text that was inserted there: of `ab` and
`XYZ` after it only `a` is left. -/
theorem inserted_text_deleted : ¬∀ text violations choice,
    (∀ f ∈ selectedFixes violations choice, f.removal.isWholeLine = false) → ∀ k f,
      (plannedFixes violations choice)[k]? = some f →
      k ∈ (markedBatch text violations choice).applied →
      survivingText text violations choice k f.line =
        f.toFix.insertedChars (dominantEnding text) := by
  intro hall
  let violations : List Violation :=
    [{ names := ["X"], line := 1, description := "", fix := some (.insertAt 11 "XYZ") },
      { names := ["X"], line := 1, description := "", fix := some (.delete 2 4) }]
  have hplanned : plannedFixes violations .all =
      [⟨0, 10, .chars 0, "XYZ"⟩, ⟨0, 1, .chars 4, ""⟩] := by
    rw [plannedFixes_eq_insertionSort]
    decide +kernel
  have hkept := hall "ab\n".toList violations .all (by decide) 0 ⟨0, 10, .chars 0, "XYZ"⟩
    (by rw [hplanned]; rfl) (by rw [markedBatch, hplanned]; decide +kernel)
  have hgone : survivingText "ab\n".toList violations .all 0 0 = [] := by
    rw [survivingText, markedBatch, hplanned]
    decide +kernel
  rw [hgone] at hkept
  exact absurd hkept (by decide)

end Batch

end LintDesk
