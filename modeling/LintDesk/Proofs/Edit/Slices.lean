import LintDesk.Edit.LineFix
import LintDesk.Proofs.Text.Units
import Mathlib.Order.Bounds.Basic

/-! # Columns as places to cut

A text is stored as bytes, and it can be cut in two only between characters. The byte offset of a
column is the first such place that leaves at least as many units in front of it. So a fix cuts its
line between characters only, and what it keeps from the end of the line begins where what it keeps
from the start has ended, or later (`byteOffset_cuts`).
-/

namespace LintDesk

/-! ### Cutting at a byte offset -/

/-- The two parts of a text at a byte offset; nothing if the offset is beyond the end or inside a
character. -/
def cutAt? : List Char → Nat → Option (List Char × List Char)
  | s, 0 => some ([], s)
  | [], _ + 1 => none
  | c :: rest, b + 1 =>
    if b + 1 < c.utf8Size then none
    else (cutAt? rest (b + 1 - c.utf8Size)).map fun (front, back) => (c :: front, back)

@[simp] theorem byteLength_nil : byteLength [] = 0 := rfl

@[simp] theorem byteLength_append (a b : List Char) :
    byteLength (a ++ b) = byteLength a + byteLength b := by
  induction a with
  | nil => simp
  | cons c a ih => simp [ih, Nat.add_assoc]

theorem byteLength_le_of_prefix {a b : List Char} (h : a <+: b) : byteLength a ≤ byteLength b := by
  obtain ⟨rest, rfl⟩ := h
  simp

theorem byteLength_eq_utf8ByteSize (s : List Char) :
    byteLength s = (String.ofList s).utf8ByteSize := by
  induction s with
  | nil => rfl
  | cons c s ih =>
      rw [byteLength_cons, ih, String.ofList_cons, String.utf8ByteSize_append]
      simp

theorem cutAt?_append (front back : List Char) :
    cutAt? (front ++ back) (byteLength front) = some (front, back) := by
  induction front with
  | nil => cases back <;> rfl
  | cons c front ih =>
      obtain ⟨n, hn⟩ := Nat.exists_eq_succ_of_ne_zero (Nat.ne_of_gt c.utf8Size_pos)
      have hlength : byteLength (c :: front) = n + byteLength front + 1 := by
        rw [byteLength_cons, hn]
        omega
      rw [hlength, List.cons_append, cutAt?, if_neg (by omega),
        show n + byteLength front + 1 - c.utf8Size = byteLength front by omega, ih]
      rfl

/-- A cut leaves two parts of the text, the first as long as the offset says. -/
theorem cutAt?_eq_some_iff {s front back : List Char} {b : Nat} :
    cutAt? s b = some (front, back) ↔ s = front ++ back ∧ byteLength front = b := by
  constructor
  · intro h
    induction s generalizing front b with
    | nil =>
        cases b with
        | zero => simp_all [cutAt?]
        | succ b => simp [cutAt?] at h
    | cons c s ih =>
        cases b with
        | zero => simp_all [cutAt?]
        | succ b =>
            rw [cutAt?] at h
            split at h
            · cases h
            · next hsize =>
                obtain ⟨⟨front', back'⟩, hcut, heq⟩ := Option.map_eq_some_iff.mp h
                obtain ⟨rfl, rfl⟩ := Prod.mk.inj heq
                obtain ⟨rfl, hlength⟩ := ih hcut
                exact ⟨rfl, by rw [byteLength_cons, hlength]; omega⟩
  · rintro ⟨rfl, rfl⟩
    exact cutAt?_append front back

/-- The offsets at which a text can be cut are the positions of its UTF-8 form. -/
theorem isSome_cutAt?_iff (s : List Char) (b : Nat) :
    (cutAt? s b).isSome ↔ (⟨b⟩ : String.Pos.Raw).IsValid (String.ofList s) := by
  rw [Option.isSome_iff_exists, String.Pos.Raw.isValid_iff_exists_append]
  constructor
  · rintro ⟨⟨front, back⟩, hcut⟩
    obtain ⟨rfl, rfl⟩ := cutAt?_eq_some_iff.mp hcut
    refine ⟨String.ofList front, String.ofList back, String.ofList_append, ?_⟩
    rw [byteLength_eq_utf8ByteSize]
    rfl
  · rintro ⟨front, back, happend, hsize⟩
    have hs : s = front.toList ++ back.toList := by
      rw [← String.toList_append, ← happend, String.toList_ofList]
    have hb : b = byteLength front.toList := by
      rw [byteLength_eq_utf8ByteSize, String.ofList_toList]
      exact congrArg String.Pos.Raw.byteIdx hsize
    exact ⟨_, cutAt?_eq_some_iff.mpr ⟨hs, hb.symm⟩⟩

/-! ### The offset of a column -/

theorem byteOffset_le (s : List Char) (c : Nat) : byteOffset s c ≤ byteLength s :=
  byteLength_le_of_prefix (isPrefix_takeUnits c s)

theorem cutAt?_byteOffset (s : List Char) (c : Nat) :
    cutAt? s (byteOffset s c) = some (takeUnits c s, dropUnits c s) :=
  cutAt?_eq_some_iff.mpr ⟨(takeUnits_append_dropUnits c s).symm, rfl⟩

theorem byteOffset_mono (s : List Char) : Monotone (byteOffset s) := by
  intro m n h
  have hprefix := isPrefix_takeUnits m (takeUnits n s)
  rw [takeUnits_takeUnits h] at hprefix
  exact byteLength_le_of_prefix hprefix

/-- The end of a text is the offset of every column that is not inside it. -/
theorem byteOffset_of_le {s : List Char} {c : Nat} (h : units s ≤ c) :
    byteOffset s c = byteLength s := by
  rw [byteOffset, takeUnits_of_le h]

/-- The offset of a column leaves no more in front of it than any cut with that many units. -/
theorem byteOffset_le_of_cut {s front back : List Char} {b c : Nat}
    (h : cutAt? s b = some (front, back)) (hc : c ≤ units front) : byteOffset s c ≤ b := by
  obtain ⟨rfl, rfl⟩ := cutAt?_eq_some_iff.mp h
  rw [byteOffset, (takeUnits_append_of_le hc back).1]
  exact byteLength_le_of_prefix (isPrefix_takeUnits c front)

/-- The offset of a column is the least cut with at least that many units in front of it, or the end
if there is none. -/
theorem byteOffset_isLeast (s : List Char) (c : Nat) :
    IsLeast {b | ∃ front back, cutAt? s b = some (front, back) ∧ c ≤ units front}
        (byteOffset s c) ∨
      (∀ b front back, cutAt? s b = some (front, back) → units front < c) ∧
        byteOffset s c = byteLength s := by
  by_cases h : c ≤ units s
  · left
    constructor
    · exact ⟨_, _, cutAt?_byteOffset s c, le_units_takeUnits h⟩
    · rintro b ⟨front, back, hcut, hc⟩
      exact byteOffset_le_of_cut hcut hc
  · right
    constructor
    · intro b front back hcut
      obtain ⟨rfl, rfl⟩ := cutAt?_eq_some_iff.mp hcut
      rw [units_append] at h
      omega
    · exact byteOffset_of_le (by omega)

theorem byteOffset_units {s front back : List Char} {b : Nat}
    (h : cutAt? s b = some (front, back)) : byteOffset s (units front) = b := by
  obtain ⟨rfl, rfl⟩ := cutAt?_eq_some_iff.mp h
  rw [byteOffset, takeUnits_append]

/-! ### Fixes -/

/-- Applies a fix by cutting its line at byte offsets, with sums that stop at `limit`; nothing if a
cut is not possible. -/
def Fix.applyByCuts? (f : Fix) (line : Line) (ending : LineEnding) (limit : Nat) :
    Option LineFix := do
  let inserted := f.insertedChars ending
  let start := f.column - 1
  let (front, _) ← cutAt? line (byteOffset line start)
  match f.removal with
  | .wholeLine => return if inserted.isEmpty then .deleteLine else .replace (front ++ inserted)
  | .chars count =>
    let (_, back) ← cutAt? line (byteOffset line (min (start + count) limit))
    return .replace (front ++ inserted ++ back)

theorem dropUnits_of_le {n : Nat} {s : List Char} (h : units s ≤ n) : dropUnits n s = [] := by
  have hcut := takeUnits_append_dropUnits n s
  rw [takeUnits_of_le h] at hcut
  simpa using hcut

/-- A limit that is beyond the end of the line changes nothing. -/
theorem dropUnits_min {limit : Nat} {s : List Char} (h : units s ≤ limit) (n : Nat) :
    dropUnits (min n limit) s = dropUnits n s := by
  by_cases hn : n ≤ limit
  · rw [Nat.min_eq_left hn]
  · rw [Nat.min_eq_right (by omega), dropUnits_of_le h, dropUnits_of_le (by omega)]

theorem Fix.applyByCuts?_eq (f : Fix) {line : Line} (ending : LineEnding) {limit : Nat}
    (h : units line ≤ limit) : f.applyByCuts? line ending limit = some (f.apply line ending) := by
  unfold applyByCuts? apply
  simp only [cutAt?_byteOffset, Option.bind_eq_bind, Option.bind_some]
  cases f.removal with
  | wholeLine => rfl
  | chars count => simp [dropUnits_min h]

/-- What a fix keeps of the end of a line does not begin before the end of what it keeps of the
start. -/
theorem byteOffset_le_byteOffset_min {line : Line} {limit : Nat} (h : units line ≤ limit)
    (start count : Nat) : byteOffset line start ≤ byteOffset line (min (start + count) limit) := by
  by_cases hstart : start ≤ limit
  · exact byteOffset_mono line (by omega)
  · rw [byteOffset_of_le (c := min (start + count) limit) (by omega)]
    exact byteOffset_le line start

/-- Columns are places to cut, the least that leave as many units in front of them, or the end of
the text. A fix that cuts its line at the offsets of its columns never fails: both cuts are between
characters, the second is not in front of the first, and the result is that of the fix. Sums of
columns and counts may stop at any limit that the line does not exceed. -/
theorem byteOffset_cuts (s : List Char) :
    (∀ b, (cutAt? s b).isSome ↔ (⟨b⟩ : String.Pos.Raw).IsValid (String.ofList s)) ∧
    (∀ c, IsLeast {b | ∃ front back, cutAt? s b = some (front, back) ∧ c ≤ units front}
        (byteOffset s c) ∨
      (∀ b front back, cutAt? s b = some (front, back) → units front < c) ∧
        byteOffset s c = byteLength s) ∧
    Monotone (byteOffset s) ∧
    (∀ b front back, cutAt? s b = some (front, back) → byteOffset s (units front) = b) ∧
    ∀ limit, units s ≤ limit → ∀ (f : Fix) (ending : LineEnding),
      f.applyByCuts? s ending limit = some (f.apply s ending) ∧
      ∀ count, byteOffset s (f.column - 1) ≤ byteOffset s (min (f.column - 1 + count) limit) ∧
        byteOffset s (min (f.column - 1 + count) limit) ≤ byteLength s := by
  refine ⟨isSome_cutAt?_iff s, byteOffset_isLeast s, byteOffset_mono s, ?_, ?_⟩
  · exact fun b front back hcut => byteOffset_units hcut
  · intro limit hlimit f ending
    refine ⟨f.applyByCuts?_eq ending hlimit, fun count => ⟨?_, byteOffset_le s _⟩⟩
    exact byteOffset_le_byteOffset_min hlimit (f.column - 1) count

example : byteOffset "a😀b".toList 2 = 5 ∧ cutAt? "a😀b".toList 3 = none := by
  decide

end LintDesk
