import Mathlib.Data.Bool.Basic

/-! # Lists of pairs and logs

What is found under a key once all pairs with some key were dropped, or replaced, and how two places
of one log lie to each other.
-/

namespace LintDesk

variable {α β : Type} [DecidableEq α]

theorem lookup_filter_ne (l : List (α × β)) (k j : α) :
    (l.filter (·.1 ≠ k)).lookup j = if j = k then none else l.lookup j := by
  induction l with
  | nil => simp
  | cons x l ih =>
      obtain ⟨i, v⟩ := x
      by_cases hi : i = k
      · grind
      · grind

theorem lookup_map_set (l : List (α × β)) (k j : α) (v : β) :
    (l.map fun x => if x.1 = k then (k, v) else x).lookup j =
      if j = k then (l.lookup j).map fun _ => v else l.lookup j := by
  induction l with
  | nil => simp
  | cons x l ih =>
      obtain ⟨i, w⟩ := x
      grind

/-- Two ways to cut a list at an element are the same, or one cut lies before the other. -/
theorem append_cons_cases {α : Type} {a b c d : List α} {x y : α} (h : a ++ x :: b = c ++ y :: d) :
    (a = c ∧ x = y ∧ b = d) ∨ (∃ m, a = c ++ y :: m ∧ d = m ++ x :: b) ∨
      ∃ m, c = a ++ x :: m ∧ b = m ++ y :: d := by
  rcases List.append_eq_append_iff.mp h with ⟨m, hc, hb⟩ | ⟨m, ha, hd⟩
  · cases m with
    | nil =>
        obtain ⟨rfl, rfl⟩ := List.cons.inj hb
        exact .inl ⟨by simpa using hc.symm, rfl, rfl⟩
    | cons z m =>
        obtain ⟨rfl, rfl⟩ := List.cons.inj hb
        exact .inr (.inr ⟨m, hc, rfl⟩)
  · cases m with
    | nil =>
        obtain ⟨rfl, rfl⟩ := List.cons.inj hd
        exact .inl ⟨by simpa using ha, rfl, rfl⟩
    | cons z m =>
        obtain ⟨rfl, rfl⟩ := List.cons.inj hd
        exact .inr (.inl ⟨m, ha, rfl⟩)

/-- An element that is not in the first part of a list is found in the second. -/
theorem append_cut_of_not_mem {α : Type} {a b c d : List α} {x : α} (h : a ++ b = c ++ x :: d)
    (hx : x ∉ a) : ∃ m, c = a ++ m ∧ b = m ++ x :: d := by
  rcases List.append_eq_append_iff.mp h with ⟨m, hc, hb⟩ | ⟨m, rfl, hd⟩
  · exact ⟨m, hc, hb⟩
  · cases m with
    | nil => exact ⟨[], by simp, by simpa using hd.symm⟩
    | cons y m =>
        obtain ⟨rfl, -⟩ := List.cons.inj hd
        exact absurd (by simp) hx

end LintDesk
