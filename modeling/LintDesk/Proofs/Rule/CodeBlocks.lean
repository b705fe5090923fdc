import LintDesk.Proofs.Rule.TidyText

/-! # Blocks of code

A list of lines splits in just one way into lines outside of code and blocks of code, and the lines
of the blocks are those that `analyze` marks. They stay marked, and the others unmarked, when lines
outside of code are deleted or blanks at the ends of lines are removed (`analyze_marks_blocks`).
-/

namespace LintDesk

open Rule

/-- At most three blanks, and then `n` or more of the character `c`, begin the line. -/
def ShowsFence (c : Char) (n : Nat) (line : Line) : Prop :=
  ∃ indent ≤ 3, List.replicate indent ' ' ++ List.replicate n c <+: line

/-- The line opens a block: after the blanks come `n` backticks or tildes, three at least, and no
more of them. -/
structure OpensBlock (c : Char) (n : Nat) (line : Line) : Prop where
  marker : c = '\x60' ∨ c = '~'
  three_le : 3 ≤ n
  shows : ShowsFence c n line
  no_more : ¬ShowsFence c (n + 1) line

/-- A line outside of code, or a block of code with the line that closes it, if there is one. -/
inductive Piece where
  | plain (line : Line)
  | block (opening : Line) (body : List Line) (closing : Option Line)
  deriving DecidableEq, Repr

namespace Piece

def lines : Piece → List Line
  | plain line => [line]
  | block opening body closing => opening :: (body ++ closing.toList)

def isBlock : Piece → Bool
  | plain _ => false
  | block _ _ _ => true

def isClosed : Piece → Bool
  | plain _ => true
  | block _ _ closing => closing.isSome

/-- A line outside of code opens no block. A block extends through the first line after the one that
opens it that shows as many of the same marker. -/
def IsProper : Piece → Prop
  | plain line => ∀ c n, ¬OpensBlock c n line
  | block opening body closing => ∃ c n, OpensBlock c n opening ∧
      (∀ line ∈ body, ¬ShowsFence c n line) ∧ ∀ line ∈ closing, ShowsFence c n line

/-- The lines of a piece, noted as code if it is a block. -/
def marked (p : Piece) : List FencedLine :=
  p.lines.map (⟨·, p.isBlock⟩)

end Piece

/-- The lines as a row of pieces. Only the last of them may be a block that is not closed: it
extends to the end. -/
structure Splits (lines : List Line) (pieces : List Piece) : Prop where
  lines_eq : pieces.flatMap Piece.lines = lines
  proper : ∀ p ∈ pieces, p.IsProper
  closed : pieces.Pairwise fun p _ => p.isClosed = true

/-! ### Fences -/

theorem replicate_prefix_iff {c : Char} {n : Nat} {line : List Char} :
    List.replicate n c <+: line ↔ n ≤ (line.takeWhile (· == c)).length := by
  induction n generalizing line with
  | zero => simp
  | succ n ih =>
      cases line with
      | nil => simp
      | cons d line =>
          rw [List.replicate_succ, List.cons_prefix_cons, ih]
          by_cases hd : d = c
          · simp [hd]
          · simp [hd, Ne.symm hd]

theorem ShowsFence.mem {c : Char} {n : Nat} {line : Line} (h : ShowsFence c n line) (hn : 0 < n) :
    c ∈ line := by
  obtain ⟨indent, -, hprefix⟩ := h
  refine hprefix.subset (List.mem_append_right _ ?_)
  exact List.mem_replicate.mpr ⟨hn.ne', rfl⟩

/-- What a line shows depends on its first character that is not a blank, and on the run of it. -/
theorem showsFence_append_iff {blanks : List Char} (hblanks : ∀ b ∈ blanks, b = ' ') {c d : Char}
    (hc : c ≠ ' ') (hd : d ≠ ' ') {n : Nat} (hn : 0 < n) {rest : List Char} :
    ShowsFence c n (blanks ++ d :: rest) ↔
      blanks.length ≤ 3 ∧ d = c ∧ n ≤ ((d :: rest).takeWhile (· == d)).length := by
  constructor
  · rintro ⟨indent, hindent, tail, htail⟩
    obtain ⟨k, rfl⟩ := Nat.exists_eq_add_of_le' hn
    rw [List.append_assoc, List.replicate_succ, List.cons_append] at htail
    -- both sides are blanks and then something else, so they agree in both parts
    have hleft := takeWhile_append_of_forall (p := (· == ' ')) (l := List.replicate indent ' ')
      (by simp +contextual) (r := c :: (List.replicate k c ++ tail)) (by simpa using hc)
    have hright := takeWhile_append_of_forall (p := (· == ' ')) (l := blanks)
      (by simpa using hblanks) (r := d :: rest) (by simpa using hd)
    rw [htail, hright.1, hright.2] at hleft
    obtain ⟨rfl, hrest⟩ := List.cons.inj hleft.2
    refine ⟨?_, rfl, ?_⟩
    · rw [hleft.1, List.length_replicate]
      exact hindent
    · rw [← replicate_prefix_iff, hrest, List.replicate_succ]
      exact ⟨tail, rfl⟩
  · rintro ⟨hlength, rfl, hrun⟩
    refine ⟨blanks.length, hlength, ?_⟩
    rw [← List.eq_replicate_of_mem hblanks, List.prefix_append_right_inj]
    exact replicate_prefix_iff.mpr hrun

theorem OpensBlock.isMarker {c : Char} {n : Nat} {line : Line} (h : OpensBlock c n line) :
    Fence.isMarker c = true := by
  simpa [Fence.isMarker] using h.marker

theorem OpensBlock.ne_blank {c : Char} {n : Nat} {line : Line} (h : OpensBlock c n line) :
    c ≠ ' ' := by
  rcases h.marker with rfl | rfl <;> decide

theorem OpensBlock.pos {c : Char} {n : Nat} {line : Line} (h : OpensBlock c n line) : 0 < n :=
  Nat.lt_of_lt_of_le (by decide) h.three_le

/-- The lines that open a block are the fences, with the marker and the length they have. -/
theorem opensBlock_iff {c : Char} {n : Nat} {line : Line} :
    OpensBlock c n line ↔ Fence.ofLine? line = some ⟨c, n⟩ := by
  constructor
  · intro h
    rcases blanks_or_first line with hall | ⟨blanks, d, rest, rfl, hblanks, hd⟩
    · exact absurd (hall c (h.shows.mem h.pos)) h.ne_blank
    · obtain ⟨hindent, rfl, hrun⟩ :=
        (showsFence_append_iff hblanks h.ne_blank hd h.pos).mp h.shows
      have hlength : ((d :: rest).takeWhile (· == d)).length = n := by
        refine le_antisymm (Nat.le_of_not_lt fun hlt => h.no_more ?_) hrun
        exact (showsFence_append_iff hblanks hd hd n.succ_pos).mpr ⟨hindent, rfl, hlt⟩
      rw [Fence.ofLine?_append hblanks hd, hlength, if_pos]
      simp [h.isMarker, hindent, h.three_le]
  · intro h
    rcases blanks_or_first line with hall | ⟨blanks, d, rest, rfl, hblanks, hd⟩
    · rw [Fence.ofLine?_of_blanks hall] at h
      cases h
    · rw [Fence.ofLine?_append hblanks hd, Option.ite_none_right_eq_some] at h
      obtain ⟨hfence, hsame⟩ := h
      obtain ⟨rfl, rfl⟩ := Fence.mk.inj (Option.some.inj hsame)
      simp only [Bool.and_eq_true, decide_eq_true_eq] at hfence
      obtain ⟨⟨hmarker, hindent⟩, hthree⟩ := hfence
      refine ⟨by simpa [Fence.isMarker] using hmarker, hthree, ?_, fun hmore => ?_⟩
      · have hpos := Nat.lt_of_lt_of_le (by decide : 0 < 3) hthree
        exact (showsFence_append_iff hblanks hd hd hpos).mpr ⟨hindent, rfl, le_rfl⟩
      · have hlonger := (showsFence_append_iff hblanks hd hd (Nat.succ_pos _)).mp hmore
        exact Nat.not_succ_le_self _ hlonger.2.2

/-- What closes a block is a fence of the same marker that is at least as long. -/
theorem OpensBlock.showsFence_iff {c : Char} {n : Nat} {opening : Line} (h : OpensBlock c n opening)
    {line : Line} :
    ShowsFence c n line ↔ ∃ other, Fence.ofLine? line = some other ∧
      Fence.closedBy ⟨c, n⟩ other = true := by
  rcases blanks_or_first line with hall | ⟨blanks, d, rest, rfl, hblanks, hd⟩
  · rw [Fence.ofLine?_of_blanks hall]
    exact ⟨fun hshows => absurd (hall c (hshows.mem h.pos)) h.ne_blank, nofun⟩
  · rw [Fence.ofLine?_append hblanks hd, showsFence_append_iff hblanks h.ne_blank hd h.pos]
    simp only [Option.ite_none_right_eq_some, Bool.and_eq_true, decide_eq_true_eq, Fence.closedBy,
      beq_iff_eq]
    constructor
    · rintro ⟨hindent, rfl, hrun⟩
      exact ⟨_, ⟨⟨⟨h.isMarker, hindent⟩, h.three_le.trans hrun⟩, rfl⟩, rfl, hrun⟩
    · rintro ⟨other, ⟨hfence, hother⟩, hmarker, hrun⟩
      obtain rfl := Option.some.inj hother
      exact ⟨hfence.1.2, hmarker, hrun⟩

theorem Piece.isProper_plain_iff {line : Line} :
    (plain line).IsProper ↔ Fence.ofLine? line = none := by
  rw [Option.eq_none_iff_forall_ne_some]
  exact ⟨fun h fence hfence => h fence.marker fence.length (opensBlock_iff.mpr hfence),
    fun h c n hopens => h ⟨c, n⟩ (opensBlock_iff.mp hopens)⟩

theorem Piece.isProper_block_iff {opening : Line} {body : List Line} {closing : Option Line} :
    (block opening body closing).IsProper ↔ ∃ fence ∈ Fence.ofLine? opening,
      (∀ line ∈ body, ¬ShowsFence fence.marker fence.length line) ∧
        ∀ line ∈ closing, ShowsFence fence.marker fence.length line :=
  ⟨fun ⟨c, n, hopens, hblock⟩ => ⟨⟨c, n⟩, opensBlock_iff.mp hopens, hblock⟩,
    fun ⟨fence, hfence, hblock⟩ =>
      ⟨fence.marker, fence.length, opensBlock_iff.mpr hfence, hblock⟩⟩

instance (c : Char) (n : Nat) (line : Line) : Decidable (ShowsFence c n line) :=
  inferInstanceAs (Decidable (∃ indent ≤ 3, _))

instance : (p : Piece) → Decidable p.IsProper
  | .plain _ => decidable_of_iff _ Piece.isProper_plain_iff.symm
  | .block _ _ _ => decidable_of_iff _ Piece.isProper_block_iff.symm

instance (lines : List Line) (pieces : List Piece) : Decidable (Splits lines pieces) :=
  decidable_of_iff (pieces.flatMap Piece.lines = lines ∧ (∀ p ∈ pieces, p.IsProper) ∧
      pieces.Pairwise fun p _ => p.isClosed = true)
    ⟨fun h => ⟨h.1, h.2.1, h.2.2⟩, fun h => ⟨h.1, h.2, h.3⟩⟩

/-! ### What one line does -/

theorem markFences_plain {line : Line} (h : (Piece.plain line).IsProper) (rest : List Line) :
    markFences none (line :: rest) = ⟨line, false⟩ :: markFences none rest := by
  simp [markFences, Piece.isProper_plain_iff.mp h]

section Block

variable {c : Char} {n : Nat} {opening : Line} (h : OpensBlock c n opening)
include h

theorem markFences_opening (rest : List Line) :
    markFences none (opening :: rest) = ⟨opening, true⟩ :: markFences (some ⟨c, n⟩) rest := by
  simp [markFences, opensBlock_iff.mp h]

theorem markFences_closing {line : Line} (hline : ShowsFence c n line) (rest : List Line) :
    markFences (some ⟨c, n⟩) (line :: rest) = ⟨line, true⟩ :: markFences none rest := by
  obtain ⟨other, hother, hcloses⟩ := h.showsFence_iff.mp hline
  simp [markFences, hother, hcloses]

theorem markFences_inside {line : Line} (hline : ¬ShowsFence c n line) (rest : List Line) :
    markFences (some ⟨c, n⟩) (line :: rest) = ⟨line, true⟩ :: markFences (some ⟨c, n⟩) rest := by
  rw [h.showsFence_iff] at hline
  cases hother : Fence.ofLine? line with
  | none => simp [markFences, hother]
  | some other =>
      have hopen : ¬Fence.closedBy ⟨c, n⟩ other = true :=
        fun hcloses => hline ⟨other, hother, hcloses⟩
      simp [markFences, hother, hopen]

theorem markFences_body {body : List Line} (hbody : ∀ line ∈ body, ¬ShowsFence c n line)
    (rest : List Line) : markFences (some ⟨c, n⟩) (body ++ rest) =
      body.map (⟨·, true⟩) ++ markFences (some ⟨c, n⟩) rest := by
  induction body with
  | nil => rfl
  | cons line body ih =>
      obtain ⟨hline, hbody⟩ := List.forall_mem_cons.mp hbody
      rw [List.cons_append, markFences_inside h hline, ih hbody]
      rfl

end Block

/-! ### Pieces -/

/-- A piece is marked by itself, whatever follows it; nothing may follow a block that is not
closed. -/
theorem markFences_lines_append {p : Piece} (h : p.IsProper) {rest : List Line}
    (hrest : p.isClosed = true ∨ rest = []) :
    markFences none (p.lines ++ rest) = p.marked ++ markFences none rest := by
  match p with
  | .plain line => exact markFences_plain h rest
  | .block opening body (some closing) =>
      obtain ⟨c, n, hopening, hbody, hclosing⟩ := h
      simp only [Piece.lines, Piece.marked, Option.toList_some, List.cons_append, List.append_assoc,
        List.nil_append, markFences_opening hopening, markFences_body hopening hbody,
        markFences_closing hopening (hclosing closing rfl)]
      simp [Piece.isBlock]
  | .block opening body none =>
      obtain ⟨c, n, hopening, hbody, -⟩ := h
      obtain rfl : rest = [] := hrest.resolve_left (by simp [Piece.isClosed])
      simp only [Piece.lines, Piece.marked, Option.toList_none, List.append_nil,
        markFences_opening hopening]
      rw [← List.append_nil body, markFences_body hopening hbody]
      simp [Piece.isBlock, markFences]

theorem Piece.lines_ne_nil (p : Piece) : p.lines ≠ [] := by
  cases p <;> simp [lines]

theorem splits_nil_iff {lines : List Line} : Splits lines [] ↔ lines = [] :=
  ⟨fun h => h.lines_eq.symm, fun h => ⟨h.symm, by simp, .nil⟩⟩

theorem splits_cons_iff {p : Piece} {pieces : List Piece} {lines : List Line} :
    Splits lines (p :: pieces) ↔ ∃ rest, lines = p.lines ++ rest ∧ p.IsProper ∧
      (p.isClosed = true ∨ rest = []) ∧ Splits rest pieces := by
  constructor
  · rintro ⟨hlines, hproper, hclosed⟩
    obtain ⟨hp, hproper⟩ := List.forall_mem_cons.mp hproper
    obtain ⟨hhead, hclosed⟩ := List.pairwise_cons.mp hclosed
    refine ⟨_, hlines.symm, hp, ?_, rfl, hproper, hclosed⟩
    cases pieces with
    | nil => exact .inr rfl
    | cons p' pieces => exact .inl (hhead p' (by simp))
  · rintro ⟨rest, rfl, hp, hend, rfl, hproper, hclosed⟩
    refine ⟨rfl, List.forall_mem_cons.mpr ⟨hp, hproper⟩, List.pairwise_cons.mpr ⟨?_, hclosed⟩⟩
    intro p' hp'
    refine hend.resolve_right fun hnil => ?_
    exact p'.lines_ne_nil (List.flatMap_eq_nil_iff.mp hnil p' hp')

theorem Splits.analyze_eq {lines : List Line} {pieces : List Piece} (h : Splits lines pieces) :
    analyze lines = pieces.flatMap Piece.marked := by
  induction pieces generalizing lines with
  | nil =>
      obtain rfl := splits_nil_iff.mp h
      rfl
  | cons p pieces ih =>
      obtain ⟨rest, rfl, hp, hend, hrest⟩ := splits_cons_iff.mp h
      rw [analyze, markFences_lines_append hp hend, List.flatMap_cons, ← ih hrest, analyze]

/-- The lines split, and so they do behind an open block: each line goes to the block, or else is a
piece by itself or opens the next block. -/
theorem exists_splits (lines : List Line) :
    (∃ pieces, Splits lines pieces) ∧ ∀ c n opening body, OpensBlock c n opening →
      (∀ line ∈ body, ¬ShowsFence c n line) →
        ∃ pieces, Splits (opening :: (body ++ lines)) pieces := by
  induction lines with
  | nil =>
      refine ⟨⟨[], splits_nil_iff.mpr rfl⟩, fun c n opening body hopening hbody => ?_⟩
      refine ⟨[.block opening body none], splits_cons_iff.mpr ⟨[], ?_, ?_, .inr rfl, ?_⟩⟩
      · simp [Piece.lines]
      · exact ⟨c, n, hopening, hbody, nofun⟩
      · exact splits_nil_iff.mpr rfl
  | cons line rest ih =>
      obtain ⟨⟨pieces, hpieces⟩, hblock⟩ := ih
      refine ⟨?_, fun c n opening body hopening hbody => ?_⟩
      · by_cases hline : ∃ c n, OpensBlock c n line
        · obtain ⟨c, n, hopening⟩ := hline
          exact hblock c n line [] hopening (by simp)
        · refine ⟨.plain line :: pieces, splits_cons_iff.mpr ⟨rest, rfl, ?_, .inl rfl, hpieces⟩⟩
          exact fun c n hopening => hline ⟨c, n, hopening⟩
      · by_cases hline : ShowsFence c n line
        · refine ⟨.block opening body (some line) :: pieces,
            splits_cons_iff.mpr ⟨rest, ?_, ?_, .inl rfl, hpieces⟩⟩
          · simp [Piece.lines]
          · exact ⟨c, n, hopening, hbody, by simpa using hline⟩
        · have hlonger : ∀ l ∈ body ++ [line], ¬ShowsFence c n l :=
            List.forall_mem_append.mpr ⟨hbody, by simpa using hline⟩
          simpa using hblock c n opening (body ++ [line]) hopening hlonger

/-! ### The only pieces -/

/-- How far a block extends, and what follows it, is read off the lines after the one that opens
it. -/
theorem block_of_lines {c : Char} {n : Nat} {body : List Line} {closing : Option Line}
    {rest lines : List Line} (hlines : body ++ (closing.toList ++ rest) = lines)
    (hbody : ∀ line ∈ body, ¬ShowsFence c n line) (hclosing : ∀ line ∈ closing, ShowsFence c n line)
    (hrest : closing.isSome = true ∨ rest = []) :
    body = lines.takeWhile (¬ShowsFence c n ·) ∧
      closing = (lines.dropWhile (¬ShowsFence c n ·)).head? ∧
      rest = (lines.dropWhile (¬ShowsFence c n ·)).tail := by
  have hstop : ∀ line ∈ (closing.toList ++ rest).head?, decide (¬ShowsFence c n line) = false := by
    cases closing with
    | none => simp [hrest.resolve_left (by simp)]
    | some closing => simpa using hclosing
  obtain ⟨htake, hdrop⟩ := takeWhile_append_of_forall (by simpa using hbody) hstop
  rw [← hlines, htake, hdrop]
  cases closing with
  | none => simp [hrest.resolve_left (by simp)]
  | some closing => simp

theorem Piece.IsProper.eq_of_append {p p' : Piece} (h : p.IsProper) (h' : p'.IsProper)
    {rest rest' : List Line} (hrest : p.isClosed = true ∨ rest = [])
    (hrest' : p'.isClosed = true ∨ rest' = []) (heq : p.lines ++ rest = p'.lines ++ rest') :
    p = p' ∧ rest = rest' := by
  cases p with
  | plain line =>
      cases p' with
      | plain line' =>
          obtain ⟨rfl, rfl⟩ := List.cons.inj heq
          exact ⟨rfl, rfl⟩
      | block opening' body' closing' =>
          obtain ⟨rfl, -⟩ := List.cons.inj heq
          obtain ⟨c, n, hopening, -⟩ := h'
          exact absurd hopening (h c n)
  | block opening body closing =>
      cases p' with
      | plain line' =>
          obtain ⟨rfl, -⟩ := List.cons.inj heq
          obtain ⟨c, n, hopening, -⟩ := h
          exact absurd hopening (h' c n)
      | block opening' body' closing' =>
          simp only [lines, List.cons_append, List.append_assoc] at heq
          obtain ⟨rfl, htail⟩ := List.cons.inj heq
          obtain ⟨c, n, hopening, hbody, hclosing⟩ := h
          obtain ⟨c', n', hopening', hbody', hclosing'⟩ := h'
          obtain ⟨rfl, rfl⟩ : c = c' ∧ n = n' := by
            have hsame := (opensBlock_iff.mp hopening).symm.trans (opensBlock_iff.mp hopening')
            simpa using hsame
          obtain ⟨hbodies, hclosings, hrests⟩ := block_of_lines rfl hbody hclosing hrest
          obtain ⟨hbodies', hclosings', hrests'⟩ :=
            block_of_lines htail.symm hbody' hclosing' hrest'
          rw [hbodies.trans hbodies'.symm, hclosings.trans hclosings'.symm]
          exact ⟨rfl, hrests.trans hrests'.symm⟩

theorem Splits.eq {lines : List Line} {pieces pieces' : List Piece} (h : Splits lines pieces)
    (h' : Splits lines pieces') : pieces' = pieces := by
  induction pieces generalizing lines pieces' with
  | nil =>
      obtain rfl := splits_nil_iff.mp h
      cases pieces' with
      | nil => rfl
      | cons p' pieces' =>
          obtain ⟨rest', hlines', -⟩ := splits_cons_iff.mp h'
          exact absurd (List.append_eq_nil_iff.mp hlines'.symm).1 p'.lines_ne_nil
  | cons p pieces ih =>
      obtain ⟨rest, rfl, hp, hend, hrest⟩ := splits_cons_iff.mp h
      cases pieces' with
      | nil =>
          have hnil := splits_nil_iff.mp h'
          exact absurd (List.append_eq_nil_iff.mp hnil).1 p.lines_ne_nil
      | cons p' pieces' =>
          obtain ⟨rest', hlines', hp', hend', hrest'⟩ := splits_cons_iff.mp h'
          obtain ⟨rfl, rfl⟩ := hp.eq_of_append hp' hend hend' hlines'
          rw [ih hrest hrest']

/-! ### Lines that are deleted or trimmed -/

/-- What is left of the lines when some outside of code, such as blank ones, are deleted and blanks
at the ends of some are removed. -/
inductive Trims : List FencedLine → List FencedLine → Prop
  | nil : Trims [] []
  | delete {l : FencedLine} {lines kept : List FencedLine} : l.inFence = false →
      Trims lines kept → Trims (l :: lines) kept
  | trim {l : FencedLine} {line : Line} {lines kept : List FencedLine} (blanks : Nat) :
      l.text = line ++ List.replicate blanks ' ' → Trims lines kept →
        Trims (l :: lines) (⟨line, l.inFence⟩ :: kept)

theorem Trims.keepsFences {lines kept : List FencedLine} (h : Trims lines kept) :
    KeepsFences lines kept := by
  induction h with
  | nil => exact .nil
  | delete hflag _ ih => exact .drop hflag ih
  | @trim l line _ _ blanks htext _ ih =>
      refine .keep ?_ ih
      rw [htext, Fence.ofLine?_append_blanks line (by simp +contextual)]

/-- Lines split in just one way into lines outside of code and blocks of code. Marking keeps the
lines and marks those of the blocks, and it gives the lines the same marks when some outside of code
are deleted and blanks at the ends of some are removed. -/
theorem analyze_marks_blocks (lines : List Line) :
    (∃ pieces, Splits lines pieces ∧ (∀ pieces', Splits lines pieces' → pieces' = pieces) ∧
      analyze lines = pieces.flatMap Piece.marked) ∧
    (analyze lines).map (·.text) = lines ∧
    ∀ kept, Trims (analyze lines) kept → analyze (kept.map (·.text)) = kept := by
  obtain ⟨pieces, hpieces⟩ := (exists_splits lines).1
  refine ⟨⟨pieces, hpieces, fun _ h => hpieces.eq h, hpieces.analyze_eq⟩, ?_, ?_⟩
  · exact text_markFences none lines
  · exact fun kept h => h.keepsFences.markFences_eq

/-- A block with a shorter fence and one of the other marker in it, and a block that is not
closed. -/
def nestedPieces : List Piece :=
  [.plain "a ".toList, .plain [],
    .block "  ~~~~x".toList ["~~~".toList, "\x60\x60\x60\x60".toList] (some "~~~~~ ".toList),
    .plain " ".toList, .block "~~~".toList [] none]

def nestedLines : List Line :=
  ["a ", "", "  ~~~~x", "~~~", "\x60\x60\x60\x60", "~~~~~ ", " ", "~~~"].map String.toList

/-- The lines without those that are blank, and without blanks at their ends. -/
def nestedKept : List FencedLine :=
  [⟨"a".toList, false⟩, ⟨"  ~~~~x".toList, true⟩, ⟨"~~~".toList, true⟩,
    ⟨"\x60\x60\x60\x60".toList, true⟩, ⟨"~~~~~".toList, true⟩, ⟨"~~~".toList, true⟩]

theorem analyze_marks_blocks_of_nested :
    (∀ pieces, Splits nestedLines pieces ↔ pieces = nestedPieces) ∧
      Trims (analyze nestedLines) nestedKept ∧
      analyze (nestedKept.map (·.text)) = nestedKept := by
  obtain ⟨⟨_, -, hunique, -⟩, -, htrims⟩ := analyze_marks_blocks nestedLines
  have hpieces : Splits nestedLines nestedPieces := by decide
  have htrim : Trims (analyze nestedLines) nestedKept :=
    .trim 1 rfl (.delete rfl (.trim 0 rfl (.trim 0 rfl (.trim 0 rfl (.trim 1 rfl (.delete rfl
      (.trim 0 rfl .nil)))))))
  refine ⟨fun pieces => ⟨fun h => ?_, fun h => h ▸ hpieces⟩, htrim, htrims _ htrim⟩
  exact (hunique pieces h).trans (hunique _ hpieces).symm

end LintDesk
