import LintDesk.Edit.Batch
import LintDesk.Proofs.Edit.Offset
import LintDesk.Proofs.Edit.Wire

/-! # One fix, as an edit and as a batch

The edit that a client is offered for a diagnostic makes of the document what a batch with that one
violation makes of it. The two find the line and its neighbours each in its own way.
-/

namespace LintDesk

/-- What is left of a line. -/
def LineFix.lines : LineFix → List Line
  | replace text => [text]
  | deleteLine => []

variable {text : List Char} {before after : List Line} {line : Line} {f : Fix} {n : Nat}

/-! ### The batch -/

section Batch

variable {v : Violation}

theorem plannedFixes_one (hfix : v.fix = some f) (hn : f.line.getD v.line = n + 1) :
    plannedFixes [v] .all = [⟨n, f.column - 1, f.removal, f.insertion.getD ""⟩] := by
  have hselected : PlannedFix.ofViolation? v =
      some ⟨n, f.column - 1, f.removal, f.insertion.getD ""⟩ := by
    simp only [PlannedFix.ofViolation?, hfix, hn]
  have haccepted : [v].filter (FixChoice.accepts .all) = [v] := rfl
  simp [plannedFixes, haccepted, hselected, dropRepeats, joinComplements]

/-- A planned fix edits its line as the fix it was planned for. -/
theorem apply_toFix (f : Fix) (line : Line) (ending : LineEnding) :
    (PlannedFix.toFix ⟨n, f.column - 1, f.removal, f.insertion.getD ""⟩).apply line ending =
      f.apply line ending := by
  simp [PlannedFix.toFix, Fix.apply, Fix.insertedChars]

theorem applied_applyFixes_of_missing (hfix : v.fix = some f) (hn : f.line.getD v.line = n + 1)
    (hmissing : (splitLines text)[n]? = none) : (applyFixes text [v] .all).applied = 0 := by
  simp [applyFixes, plannedFixes_one hfix hn, BatchState.step, BatchState.fits, hmissing]

/-- A batch with one fix edits one line. -/
theorem applyFixes_one (hfix : v.fix = some f) (hn : f.line.getD v.line = before.length + 1)
    (hlines : splitLines text = before ++ line :: after) :
    (applyFixes text [v] .all).applied = 1 ∧
      (applyFixes text [v] .all).content = joinLines (dominantEnding text)
        (before ++ (f.apply line (dominantEnding text)).lines ++ after) := by
  have hslots : (splitLines text).map some = before.map some ++ some line :: after.map some := by
    rw [hlines, List.map_append, List.map_cons]
  have hset : ∀ slot : Option Line,
      (((splitLines text).map some).set before.length slot).filterMap id =
        before ++ slot.toList ++ after := by
    intro slot
    rw [hslots, List.set_append_right _ _ (by simp)]
    cases slot <;> simp [List.filterMap_map]
  have hslot : ((splitLines text).map some)[before.length]? = some (some line) := by
    simp [hlines]
  simp only [applyFixes, plannedFixes_one hfix hn, List.foldl_cons, List.foldl_nil, BatchState.step,
    BatchState.fits, hslot, apply_toFix]
  cases f.apply line (dominantEnding text) with
  | replace new => exact ⟨rfl, congrArg _ (hset (some new))⟩
  | deleteLine => exact ⟨rfl, congrArg _ (hset none)⟩

end Batch

/-! ### The edit -/

/-- The line that a fix names is the line it is for. -/
theorem Fix.lineEdit?_target (f : Fix) (text : List Char) (index : Nat) :
    f.lineEdit? text index =
      Fix.lineEdit? { f with line := none } text ((f.line.map (· - 1)).getD index) := by
  obtain ⟨line, column, removal, insertion⟩ := f
  cases line <;> rfl

theorem Position.place_eq {i c : Nat} (hi : i < 2 ^ 32) (hc : c < 2 ^ 32) :
    place i c = ⟨i, c⟩ := by
  simp only [place, maxWord32, mk.injEq]
  omega

section Edit

variable (htext : joinLines (dominantEnding text) (splitLines text) = text)

include htext

/-- Deleting the first line up to the beginning of the next. -/
theorem applyTo_first_deletion {next : Line} (hlines : splitLines text = line :: next :: after) :
    TextEdit.applyTo ⟨⟨.place 0 0, .place 1 0⟩, ""⟩ text =
      joinLines (dominantEnding text) (next :: after) := by
  have hstart : splitLines text = [] ++ ([] ++ line) :: next :: after := hlines
  have hfinish : splitLines text = [line] ++ ([] ++ next) :: after := hlines
  have hedit := TextEdit.applyTo_joinLines htext hstart hfinish ""
  rw [Position.place_eq (by omega) (by omega), Position.place_eq (by omega) (by omega)]
  simpa [joinLines] using hedit

variable (hcount : (splitLines text).length < 2 ^ 32)
  (hcolumns : ∀ line ∈ splitLines text, units line < 2 ^ 32)

include hcount hcolumns

/-- Replacing what stands in a line. -/
theorem applyTo_replacement (hlines : splitLines text = before ++ line :: after) (new : String) :
    TextEdit.applyTo ⟨⟨.place before.length 0, .place before.length (units line)⟩, new⟩ text =
      joinLines (dominantEnding text) (before ++ new.toList :: after) := by
  have hheight : before.length < 2 ^ 32 := by
    have := congrArg List.length hlines
    simp only [List.length_append, List.length_cons] at this
    omega
  have hwidth : units line < 2 ^ 32 := hcolumns line (by simp [hlines])
  have hstart : splitLines text = before ++ ([] ++ line) :: after := hlines
  have hfinish : splitLines text = before ++ (line ++ []) :: after := by simpa using hlines
  have htail : new.toList ++ joinLines (dominantEnding text) ([] :: after) =
      joinLines (dominantEnding text) (new.toList :: after) := by
    simpa [joinLines] using joinLines_cut (dominantEnding text) [] new.toList [] after
  rw [Position.place_eq hheight (by omega), Position.place_eq hheight hwidth]
  calc TextEdit.applyTo ⟨⟨⟨before.length, units []⟩, ⟨before.length, units line⟩⟩, new⟩ text
      = joinLines (dominantEnding text) (before ++ [[]]) ++ new.toList ++
          joinLines (dominantEnding text) ([] :: after) :=
        TextEdit.applyTo_joinLines htext hstart hfinish new
    _ = joinLines (dominantEnding text) (before ++ new.toList :: after) := by
        rw [List.append_assoc, htail, joinLines_cut, List.nil_append]

/-- Deleting a line from the end of the line before it. -/
theorem applyTo_deletion {prev : Line}
    (hlines : splitLines text = before ++ prev :: line :: after) :
    TextEdit.applyTo
        ⟨⟨.place before.length (units prev), .place (before.length + 1) (units line)⟩, ""⟩ text =
      joinLines (dominantEnding text) (before ++ prev :: after) := by
  have hheight : before.length + 1 < 2 ^ 32 := by
    have := congrArg List.length hlines
    simp only [List.length_append, List.length_cons] at this
    omega
  have hprev : units prev < 2 ^ 32 := hcolumns prev (by simp [hlines])
  have hwidth : units line < 2 ^ 32 := hcolumns line (by simp [hlines])
  have hstart : splitLines text = before ++ (prev ++ []) :: line :: after := by
    simpa using hlines
  have hfinish : splitLines text = (before ++ [prev]) ++ (line ++ []) :: after := by
    simpa using hlines
  have hedit := TextEdit.applyTo_joinLines htext hstart hfinish ""
  rw [List.length_append, List.length_singleton] at hedit
  rw [Position.place_eq (by omega) hprev, Position.place_eq hheight hwidth, hedit,
    String.toList_empty, List.append_nil, joinLines_cut, List.append_nil]

/-- An edit for a line that exists replaces it by what the fix leaves of it. -/
theorem Fix.exists_lineEdit? {index : Nat} (hlines : splitLines text = before ++ line :: after)
    (hindex : (f.line.map (· - 1)).getD index = before.length) :
    ∃ edit, f.lineEdit? text index = some edit ∧ edit.applyTo text =
      joinLines (dominantEnding text)
        (before ++ (f.apply line (dominantEnding text)).lines ++ after) := by
  have hline : (splitLines text)[before.length]? = some line := by simp [hlines]
  rw [lineEdit?_target, hindex]
  simp only [lineEdit?, hline]
  have hsame : Fix.apply { f with line := none } line (dominantEnding text) =
      f.apply line (dominantEnding text) := rfl
  rw [hsame]
  cases f.apply line (dominantEnding text) with
  | replace new =>
      refine ⟨_, rfl, ?_⟩
      rw [applyTo_replacement htext hcount hcolumns hlines]
      simp [LineFix.lines]
  | deleteLine =>
      refine ⟨_, rfl, ?_⟩
      rcases List.eq_nil_or_concat before with rfl | ⟨front, prev, rfl⟩
      · cases after with
        | nil =>
            have hcleared := applyTo_replacement htext hcount hcolumns hlines ""
            simpa [hlines, LineFix.lines, joinLines] using hcleared
        | cons next after =>
            have hdeleted := applyTo_first_deletion htext hlines
            simpa [hlines, LineFix.lines] using hdeleted
      · have hfront : splitLines text = front ++ prev :: line :: after := by simpa using hlines
        have hdeleted := applyTo_deletion htext hcount hcolumns hfront
        simpa [hfront, LineFix.lines] using hdeleted

end Edit

theorem Fix.lineEdit?_eq_none {index : Nat} (hindex : (f.line.map (· - 1)).getD index = n)
    (hmissing : (splitLines text)[n]? = none) : f.lineEdit? text index = none := by
  rw [lineEdit?_target, hindex]
  simp only [lineEdit?, hmissing]

/-! ### The diagnostic -/

theorem Diagnostic.exists_ofViolation? {v : Violation} {lines : List Line} {index : Nat}
    (hindex : v.line = index + 1) (hline : lines[index]? = some line) :
    ∃ d, ofViolation? lines .disabled none v = some d ∧
      (∃ first last, d.range = ⟨.place index first, .place index last⟩) ∧
      Server.dataOf d = ⟨v.rule, v.ruleAlias, v.fix⟩ := by
  simp only [ofViolation?, hindex, hline, isFocused]
  exact ⟨_, rfl, ⟨_, _, rfl⟩, rfl⟩

namespace Server

theorem get?_range (d : Diagnostic) : (encodeDiagnostic d).get? "range" = some d.range.toJson := by
  simp [encodeDiagnostic, Json.ofFields, Json.get?, Dict.find?]

theorem get?_data (d : Diagnostic) : (encodeDiagnostic d).get? "data" = some (dataOf d).toJson := by
  cases h : d.information <;> simp [encodeDiagnostic, Json.ofFields, Json.get?, Dict.find?, h]

end Server

/-! ### One fix -/

/-- The edit for a fix and the batch with it are for the same line and make the same of it. -/
theorem Fix.lineEdit?_agrees {v : Violation} {index : Nat}
    (htext : joinLines (dominantEnding text) (splitLines text) = text)
    (hcount : (splitLines text).length < 2 ^ 32)
    (hcolumns : ∀ line ∈ splitLines text, units line < 2 ^ 32)
    (hfix : v.fix = some f) (hindex : v.line = index + 1) (hown : ∀ n ∈ f.line, 1 ≤ n) :
    (f.lineEdit? text index = none ↔ (applyFixes text [v] .all).applied = 0) ∧
      ∀ edit, f.lineEdit? text index = some edit →
        edit.applyTo text = (applyFixes text [v] .all).content := by
  obtain ⟨n, htarget, hnumber⟩ : ∃ n, (f.line.map (· - 1)).getD index = n ∧
      f.line.getD v.line = n + 1 := by
    refine ⟨_, rfl, ?_⟩
    cases hf : f.line with
    | none => simpa using hindex
    | some m =>
        have hm := hown m hf
        simp only [Option.getD_some, Option.map_some]
        omega
  cases hn : (splitLines text)[n]? with
  | none =>
      have hnone := lineEdit?_eq_none htarget hn
      exact ⟨⟨fun _ => applied_applyFixes_of_missing hfix hnumber hn, fun _ => hnone⟩, by
        simp [hnone]⟩
  | some line =>
      obtain ⟨hlt, rfl⟩ := List.getElem?_eq_some_iff.mp hn
      have hlines : splitLines text =
          (splitLines text).take n ++ (splitLines text)[n] :: (splitLines text).drop (n + 1) := by
        rw [List.getElem_cons_drop, List.take_append_drop]
      have hlength : ((splitLines text).take n).length = n :=
        List.length_take_of_le (Nat.le_of_lt hlt)
      obtain ⟨edit, hedit, happly⟩ := exists_lineEdit? htext hcount hcolumns hlines
        (htarget.trans hlength.symm)
      obtain ⟨happlied, hcontent⟩ := applyFixes_one hfix (by rw [hlength]; exact hnumber) hlines
      refine ⟨by simp [hedit, happlied], ?_⟩
      rintro other hother
      obtain rfl := Option.some.inj (hedit.symm.trans hother)
      rw [happly, hcontent]

/-- The diagnostic of a violation that was read from the wire carries its fix to the client and
back. The edit that is made of it there exists just if a batch with that violation applies a fix,
and then it makes of the document what the batch makes of it. -/
theorem lineEdit?_agrees_with_batch (doc : Document)
    (hcount : doc.lines.length < 2 ^ 32) (hcolumns : ∀ line ∈ doc.lines, units line < 2 ^ 32)
    (hendings : ∀ t ∈ terminators doc.text.toList, t = dominantEnding doc.text.toList)
    {wire : Json} {v : Violation} (hwire : Violation.ofJson? wire = some v) (hfix : v.fix = some f)
    (hline : 1 ≤ v.line ∧ v.line ≤ doc.lines.length) (hown : ∀ n ∈ f.line, 1 ≤ n) :
    ∃ d, Diagnostic.build doc .disabled none [v] = [d] ∧
      ((Server.encodeDiagnostic d).get? "range").bind Range.ofJson? = some d.range ∧
      ((Server.encodeDiagnostic d).get? "data").bind DiagnosticData.ofJson? =
        some ⟨v.rule, v.ruleAlias, some f⟩ ∧
      (f.lineEdit? doc.text.toList d.range.start.line = none ↔
        (applyFixes doc.text.toList [v] .all).applied = 0) ∧
      ∀ edit, f.lineEdit? doc.text.toList d.range.start.line = some edit →
        edit.applyTo doc.text.toList = (applyFixes doc.text.toList [v] .all).content := by
  obtain ⟨index, hindex⟩ : ∃ index, v.line = index + 1 := ⟨v.line - 1, by omega⟩
  obtain ⟨line, hexists⟩ : ∃ line, doc.lines[index]? = some line :=
    ⟨_, List.getElem?_eq_getElem (by omega : index < doc.lines.length)⟩
  obtain ⟨d, hd, ⟨first, last, hrange⟩, hdata⟩ := Diagnostic.exists_ofViolation? hindex hexists
  have hstart : d.range.start.line = index := by
    rw [hrange]
    simp only [Position.place, maxWord32]
    omega
  refine ⟨d, ?_, ?_, ?_, ?_⟩
  · simp [Diagnostic.build, hd]
  · rw [Server.get?_range, Option.bind_some, hrange]
    exact Range.ofJson?_toJson (Position.ofJson?_place _ _) (Position.ofJson?_place _ _)
  · rw [Server.get?_data, Option.bind_some, hdata, hfix]
    refine DiagnosticData.ofJson?_toJson fun g hg => ?_
    obtain rfl := Option.some.inj hg
    exact Violation.encodable_of_ofJson? hwire hfix
  · rw [hstart]
    exact Fix.lineEdit?_agrees (joinLines_splitLines hendings) hcount hcolumns hfix hindex hown

/-- A surplus blank line in a document with CR LF goes away with the terminator before it. -/
theorem lineEdit?_agrees_with_batch_of_deletion :
    Fix.deleteLine.lineEdit? "a\r\n\r\n\r\nb".toList 2 = some ⟨⟨⟨1, 0⟩, ⟨2, 0⟩⟩, ""⟩ ∧
      TextEdit.applyTo ⟨⟨⟨1, 0⟩, ⟨2, 0⟩⟩, ""⟩ "a\r\n\r\n\r\nb".toList =
        (applyFixes "a\r\n\r\n\r\nb".toList
          [{ names := ["MD012"], line := 3, description := "Blank lines", fix := some .deleteLine }]
          .all).content := by
  obtain ⟨d, hbuild, -, -, -, hagree⟩ := lineEdit?_agrees_with_batch
    { uri := { scheme := "untitled" }, text := "a\r\n\r\n\r\nb", language := "markdown"
      version := 1 }
    (by decide) (by decide) (by decide)
    (show Violation.ofJson? (.obj [("fixInfo", .obj [("deleteCount", .int (-1))]),
      ("lineNumber", .nat 3), ("ruleDescription", .str "Blank lines"),
      ("ruleNames", .arr [.str "MD012"])]) = some _ from rfl)
    rfl (by decide) (by simp)
  have hstart : d.range.start.line = 2 := by
    have hline := congrArg (List.map (·.range.start.line)) hbuild
    exact (List.cons.inj hline).1.symm
  rw [hstart] at hagree
  exact ⟨rfl, hagree _ rfl⟩

end LintDesk
