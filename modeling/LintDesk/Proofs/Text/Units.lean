import LintDesk.Text.Units
import Mathlib.Data.List.Basic

/-! # Columns and beginnings of a text

A column that is the length of some beginning cuts the text right there. Lengths in code units
never exceed lengths in bytes.
-/

namespace LintDesk

theorem charUnits_pos (c : Char) : 0 < charUnits c := by
  unfold charUnits
  split <;> omega

theorem charUnits_le_utf8Size (c : Char) : charUnits c ≤ c.utf8Size := by
  have hpos := c.utf8Size_pos
  unfold charUnits
  split
  · omega
  · rename_i hlarge
    by_contra hone
    have hval := UInt32.le_iff_toNat_le.mp (Char.utf8Size_eq_one_iff.mp (by omega : c.utf8Size = 1))
    have hsmall : c.toNat ≤ 127 := by simpa using hval
    omega

@[simp] theorem units_nil : units [] = 0 := rfl

@[simp] theorem units_cons (c : Char) (s : List Char) :
    units (c :: s) = charUnits c + units s := rfl

@[simp] theorem units_append (a b : List Char) : units (a ++ b) = units a + units b := by
  induction a with
  | nil => simp
  | cons c a ih => rw [List.cons_append, units_cons, units_cons, ih, Nat.add_assoc]

@[simp] theorem units_reverse (s : List Char) : units s.reverse = units s := by
  induction s with
  | nil => rfl
  | cons c s ih => simp [ih, Nat.add_comm]

@[simp] theorem byteLength_cons (c : Char) (s : List Char) :
    byteLength (c :: s) = c.utf8Size + byteLength s := rfl

theorem units_le_byteLength (s : List Char) : units s ≤ byteLength s := by
  induction s with
  | nil => simp [byteLength]
  | cons c s ih =>
      have hc := charUnits_le_utf8Size c
      simp only [units_cons, byteLength_cons]
      omega

theorem length_le_units (s : List Char) : s.length ≤ units s := by
  induction s with
  | nil => simp
  | cons c s ih =>
      have hc := charUnits_pos c
      simp only [List.length_cons, units_cons]
      omega

@[simp] theorem units_eq_zero (s : List Char) : units s = 0 ↔ s = [] := by
  constructor
  · intro h
    have hl := length_le_units s
    exact List.length_eq_zero_iff.mp (by omega)
  · rintro rfl
    rfl

theorem units_le_of_sublist {a b : List Char} (h : a.Sublist b) : units a ≤ units b := by
  induction h with
  | slnil => exact Nat.le_refl _
  | cons c _ ih => exact Nat.le_trans ih (by simp)
  | cons_cons c _ ih => simpa using ih

/-! ### Cutting at a column -/

@[simp] theorem takeUnits_zero (s : List Char) : takeUnits 0 s = [] := by
  cases s <;> rfl

@[simp] theorem dropUnits_zero (s : List Char) : dropUnits 0 s = s := by
  cases s <;> rfl

theorem takeUnits_cons (n : Nat) (c : Char) (s : List Char) (hn : 0 < n) :
    takeUnits n (c :: s) = c :: takeUnits (n - charUnits c) s := by
  obtain ⟨m, rfl⟩ := Nat.exists_eq_succ_of_ne_zero (Nat.ne_of_gt hn)
  rfl

theorem dropUnits_cons (n : Nat) (c : Char) (s : List Char) (hn : 0 < n) :
    dropUnits n (c :: s) = dropUnits (n - charUnits c) s := by
  obtain ⟨m, rfl⟩ := Nat.exists_eq_succ_of_ne_zero (Nat.ne_of_gt hn)
  rfl

/-- A column at the end of a beginning takes exactly that beginning. -/
theorem takeUnits_append (a b : List Char) : takeUnits (units a) (a ++ b) = a := by
  induction a with
  | nil => simp
  | cons c a ih =>
      have hc := charUnits_pos c
      rw [List.cons_append, units_cons, takeUnits_cons _ _ _ (by omega)]
      simp [ih]

theorem dropUnits_append (a b : List Char) : dropUnits (units a) (a ++ b) = b := by
  induction a with
  | nil => simp
  | cons c a ih =>
      have hc := charUnits_pos c
      rw [List.cons_append, units_cons, dropUnits_cons _ _ _ (by omega)]
      simp [ih]

/-- Of two beginnings of one text, the one with fewer units is a beginning of the other. -/
theorem prefix_of_units_le {a b s : List Char} (ha : a <+: s) (hb : b <+: s)
    (h : units a ≤ units b) : a <+: b := by
  rcases List.prefix_or_prefix_of_prefix ha hb with hab | ⟨rest, rfl⟩
  · exact hab
  · have hrest : units rest = 0 := by
      simp only [units_append] at h
      omega
    simp [(units_eq_zero rest).mp hrest]

/-- A column cuts a text in two. -/
theorem takeUnits_append_dropUnits (n : Nat) (s : List Char) :
    takeUnits n s ++ dropUnits n s = s := by
  fun_induction takeUnits n s with
  | case1 s => simp
  | case2 n => rfl
  | case3 n c s ih => rw [dropUnits, List.cons_append, ih]

theorem isPrefix_takeUnits (n : Nat) (s : List Char) : takeUnits n s <+: s :=
  ⟨_, takeUnits_append_dropUnits n s⟩

/-- What is in front of a column spans that many units, if the text is that long. -/
theorem le_units_takeUnits {n : Nat} {s : List Char} (h : n ≤ units s) :
    n ≤ units (takeUnits n s) := by
  fun_induction takeUnits n s with
  | case1 s => exact Nat.zero_le _
  | case2 n => simp at h
  | case3 n c s ih =>
      rw [units_cons] at h ⊢
      have hrest := ih (by omega)
      omega

theorem takeUnits_of_le {n : Nat} {s : List Char} (h : units s ≤ n) : takeUnits n s = s := by
  fun_induction takeUnits n s with
  | case1 s => exact ((units_eq_zero s).mp (Nat.le_zero.mp h)).symm
  | case2 n => rfl
  | case3 n c s ih =>
      rw [units_cons] at h
      rw [ih (by omega)]

/-- A column in the first of two texts cuts that text only. -/
theorem takeUnits_append_of_le {n : Nat} {s : List Char} (h : n ≤ units s) (t : List Char) :
    takeUnits n (s ++ t) = takeUnits n s ∧ dropUnits n (s ++ t) = dropUnits n s ++ t := by
  induction s generalizing n with
  | nil =>
      obtain rfl := Nat.le_zero.mp h
      simp
  | cons c s ih =>
      rcases Nat.eq_zero_or_pos n with rfl | hpos
      · simp
      · rw [units_cons] at h
        obtain ⟨htake, hdrop⟩ := ih (n := n - charUnits c) (by omega)
        simp only [List.cons_append, takeUnits_cons _ _ _ hpos, dropUnits_cons _ _ _ hpos, htake,
          hdrop, and_self]

/-- A column cuts off a text what it cuts off a beginning of the text, if not more. -/
theorem takeUnits_prefix_takeUnits_append (n : Nat) (s t : List Char) :
    takeUnits n s <+: takeUnits n (s ++ t) := by
  by_cases h : n ≤ units s
  · exact ⟨[], by rw [List.append_nil, (takeUnits_append_of_le h t).1]⟩
  · have hs : takeUnits n s = s := takeUnits_of_le (by omega)
    rw [hs]
    by_cases hlong : n ≤ units (s ++ t)
    · have hle := le_units_takeUnits hlong
      exact prefix_of_units_le ⟨t, rfl⟩ (isPrefix_takeUnits n (s ++ t)) (by omega)
    · rw [takeUnits_of_le (s := s ++ t) (by omega)]
      exact ⟨t, rfl⟩

/-- Of two columns, the lesser cuts what is in front of the greater. -/
theorem takeUnits_takeUnits {m n : Nat} (h : m ≤ n) (s : List Char) :
    takeUnits m (takeUnits n s) = takeUnits m s := by
  by_cases hlong : n ≤ units s
  · have hle := Nat.le_trans h (le_units_takeUnits hlong)
    conv_rhs => rw [← takeUnits_append_dropUnits n s, (takeUnits_append_of_le hle _).1]
  · rw [takeUnits_of_le (n := n) (by omega)]

end LintDesk
