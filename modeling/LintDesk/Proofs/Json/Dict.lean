import LintDesk.Json.Basic
import Mathlib.Data.String.Basic

/-! # Maps with increasing keys

What is in a map after an insertion, and in one map on top of another. The first entry that is
found by its key is the one with the least key.
-/

namespace LintDesk.Dict

variable {α : Type}

/-- The keys increase, so that each occurs once. -/
def Sorted (d : Dict α) : Prop :=
  d.Pairwise fun a b => a.1 < b.1

instance (d : Dict α) : Decidable (Sorted d) :=
  inferInstanceAs (Decidable (List.Pairwise _ d))

theorem mem_insert {d : Dict α} (h : Sorted d) {key : String} {value : α} {e : String × α} :
    e ∈ insert key value d ↔ e = (key, value) ∨ e ∈ d ∧ e.1 ≠ key := by
  induction d with
  | nil => simp [insert]
  | cons first rest ih =>
      obtain ⟨k, v⟩ := first
      obtain ⟨hfirst, hrest⟩ := List.pairwise_cons.mp h
      rw [insert]
      split_ifs with hbefore hsame
      · -- all keys are greater than the new one
        have hne : ∀ e' ∈ (k, v) :: rest, e'.1 ≠ key := by
          intro e' he'
          rcases List.mem_cons.mp he' with rfl | he'
          · exact hbefore.ne'
          · exact (hbefore.trans (hfirst e' he')).ne'
        rw [List.mem_cons]
        exact or_congr_right (iff_self_and.mpr (hne e))
      · subst hsame
        have hne : ∀ e' ∈ rest, e'.1 ≠ k := fun e' he' => (hfirst e' he').ne'
        rw [List.mem_cons, List.mem_cons]
        refine or_congr_right ⟨fun he => ⟨.inr he, hne e he⟩, ?_⟩
        rintro ⟨rfl | he, hkey⟩
        · exact absurd rfl hkey
        · exact he
      · rw [List.mem_cons, List.mem_cons, ih hrest]
        have hother : e = (k, v) → e.1 ≠ key := by
          rintro rfl
          exact hsame
        tauto

theorem Sorted.insert {d : Dict α} (h : Sorted d) (key : String) (value : α) :
    Sorted (Dict.insert key value d) := by
  induction d with
  | nil => simp [Dict.insert, Sorted]
  | cons first rest ih =>
      obtain ⟨k, v⟩ := first
      obtain ⟨hfirst, hrest⟩ := List.pairwise_cons.mp h
      rw [Dict.insert]
      split_ifs with hbefore hsame
      · refine List.pairwise_cons.mpr ⟨fun e he => ?_, h⟩
        rcases List.mem_cons.mp he with rfl | he
        · exact hbefore
        · exact hbefore.trans (hfirst e he)
      · subst hsame
        exact List.pairwise_cons.mpr ⟨hfirst, hrest⟩
      · refine List.pairwise_cons.mpr ⟨fun e he => ?_, ih hrest⟩
        rcases (mem_insert hrest).mp he with rfl | ⟨he, -⟩
        · exact lt_of_le_of_ne (not_lt.mp hbefore) hsame
        · exact hfirst e he

theorem Sorted.override {base : Dict α} (h : Sorted base) (overrides : Dict α) :
    Sorted (Dict.override base overrides) := by
  unfold Dict.override
  induction overrides generalizing base with
  | nil => exact h
  | cons e rest ih => exact ih (h.insert e.1 e.2)

/-- An entry of a map on top of another is one of the upper map, or one of the lower map whose key
the upper map lacks. -/
theorem mem_override {base overrides : Dict α} (hbase : Sorted base) (hover : Sorted overrides)
    {e : String × α} : e ∈ override base overrides ↔
      e ∈ overrides ∨ e ∈ base ∧ ∀ e' ∈ overrides, e'.1 ≠ e.1 := by
  unfold override
  induction overrides generalizing base with
  | nil => simp
  | cons first rest ih =>
      obtain ⟨hfirst, hrest⟩ := List.pairwise_cons.mp hover
      -- what was inserted first is not replaced: its key does not come again
      have hkept : e = (first.1, first.2) → ∀ e' ∈ rest, e'.1 ≠ e.1 := by
        rintro rfl e' he'
        exact (hfirst e' he').ne'
      have hne : e.1 ≠ first.1 ↔ first.1 ≠ e.1 := ne_comm
      rw [List.foldl_cons, ih (hbase.insert first.1 first.2) hrest, mem_insert hbase,
        List.mem_cons, List.forall_mem_cons]
      tauto

/-- The first entry of its kind has the least key of its kind. -/
theorem find?_eq_some_iff {d : Dict α} (h : Sorted d) {p : String → Bool} {e : String × α} :
    List.find? (fun entry => p entry.1) d = some e ↔
      e ∈ d ∧ p e.1 = true ∧ ∀ e' ∈ d, p e'.1 = true → e' = e ∨ e.1 < e'.1 := by
  induction d with
  | nil => simp
  | cons first rest ih =>
      obtain ⟨hfirst, hrest⟩ := List.pairwise_cons.mp h
      cases hp : p first.1 with
      | true =>
          rw [List.find?_cons_of_pos (by simpa using hp), Option.some.injEq]
          constructor
          · rintro rfl
            refine ⟨List.mem_cons_self, hp, fun e' he' _ => ?_⟩
            exact (List.mem_cons.mp he').imp id (hfirst e')
          · rintro ⟨he, -, hleast⟩
            rcases List.mem_cons.mp he with rfl | he
            · rfl
            · rcases hleast first List.mem_cons_self hp with heq | hlt
              · exact heq
              · exact absurd (hfirst e he) hlt.not_gt
      | false =>
          rw [List.find?_cons_of_neg (by simp [hp]), ih hrest, List.mem_cons,
            List.forall_mem_cons]
          have hother : e = first → p e.1 ≠ true := by
            rintro rfl
            simp [hp]
          simp only [hp, Bool.false_eq_true, false_implies, true_and]
          tauto

theorem find?_override_of_base_none {base overrides : Dict α} (hbase : Sorted base)
    (hover : Sorted overrides) {p : String → Bool}
    (ha : List.find? (fun entry => p entry.1) base = none) :
    List.find? (fun entry => p entry.1) (override base overrides) =
      List.find? (fun entry => p entry.1) overrides := by
  have hnone := List.find?_eq_none.mp ha
  cases hb : List.find? (fun entry => p entry.1) overrides with
  | none =>
      rw [List.find?_eq_none] at hb ⊢
      intro e he
      rcases (mem_override hbase hover).mp he with he | ⟨he, -⟩
      · exact hb e he
      · exact hnone e he
  | some b =>
      obtain ⟨hmem, hp, hleast⟩ := (find?_eq_some_iff hover).mp hb
      refine (find?_eq_some_iff (hbase.override overrides)).mpr
        ⟨(mem_override hbase hover).mpr (.inl hmem), hp, fun e he hpe => ?_⟩
      rcases (mem_override hbase hover).mp he with he | ⟨he, -⟩
      · exact hleast e he hpe
      · exact absurd hpe (hnone e he)

/-- An entry of the lower map is found where every such key of the upper map comes later. -/
theorem find?_override_of_base_lt {base overrides : Dict α} (hbase : Sorted base)
    (hover : Sorted overrides) {p : String → Bool} {a : String × α}
    (ha : List.find? (fun entry => p entry.1) base = some a)
    (hlater : ∀ e ∈ overrides, p e.1 = true → a.1 < e.1) :
    List.find? (fun entry => p entry.1) (override base overrides) = some a := by
  obtain ⟨hmem, hp, hleast⟩ := (find?_eq_some_iff hbase).mp ha
  refine (find?_eq_some_iff (hbase.override overrides)).mpr
    ⟨(mem_override hbase hover).mpr (.inr ⟨hmem, fun e he hkey => ?_⟩), hp, fun e he hpe => ?_⟩
  · exact (hlater e he (by rwa [hkey])).ne' hkey
  · rcases (mem_override hbase hover).mp he with he | ⟨he, -⟩
    · exact .inr (hlater e he hpe)
    · exact hleast e he hpe

/-- Of a map on top of another the entry is found that has the lesser key in its own map; with equal
keys it is that of the upper map. -/
theorem find?_override {base overrides : Dict α} (hbase : Sorted base) (hover : Sorted overrides)
    (p : String → Bool) :
    List.find? (fun entry => p entry.1) (override base overrides) =
      match List.find? (fun entry => p entry.1) base,
        List.find? (fun entry => p entry.1) overrides with
      | some a, some b => if a.1 < b.1 then some a else some b
      | some a, none => some a
      | none, found => found := by
  cases ha : List.find? (fun entry => p entry.1) base with
  | none => exact find?_override_of_base_none hbase hover ha
  | some a =>
      cases hb : List.find? (fun entry => p entry.1) overrides with
      | none =>
          refine find?_override_of_base_lt hbase hover ha fun e he hpe => ?_
          exact absurd hpe (List.find?_eq_none.mp hb e he)
      | some b =>
          obtain ⟨hmemB, hpB, hleastB⟩ := (find?_eq_some_iff hover).mp hb
          dsimp only
          split_ifs with hlt
          · refine find?_override_of_base_lt hbase hover ha fun e he hpe => ?_
            rcases hleastB e he hpe with rfl | hafter
            · exact hlt
            · exact hlt.trans hafter
          · obtain ⟨-, -, hleastA⟩ := (find?_eq_some_iff hbase).mp ha
            refine (find?_eq_some_iff (hbase.override overrides)).mpr
              ⟨(mem_override hbase hover).mpr (.inl hmemB), hpB, fun e he hpe => ?_⟩
            rcases (mem_override hbase hover).mp he with he | ⟨he, hfresh⟩
            · exact hleastB e he hpe
            · right
              have hle : b.1 ≤ e.1 := by
                rcases hleastA e he hpe with rfl | hafter
                · exact not_lt.mp hlt
                · exact (not_lt.mp hlt).trans hafter.le
              exact lt_of_le_of_ne hle (hfresh b hmemB)

/-- What is in a map on top of another comes from one of the two, whatever the order of the keys. -/
theorem mem_of_mem_override {base : Dict α} (hbase : Sorted base) {overrides : List (String × α)}
    {e : String × α} (h : e ∈ override base overrides) : e ∈ base ∨ e ∈ overrides := by
  unfold override at h
  induction overrides generalizing base with
  | nil => exact .inl h
  | cons first rest ih =>
      rcases ih (hbase.insert first.1 first.2) h with he | he
      · rcases (mem_insert hbase).mp he with rfl | ⟨he, -⟩
        · exact .inr List.mem_cons_self
        · exact .inl he
      · exact .inr (List.mem_cons_of_mem first he)

/-! ### Values by their keys -/

theorem mem_of_find? {d : Dict α} {key : String} {value : α} (h : find? key d = some value) :
    (key, value) ∈ d := by
  induction d with
  | nil => cases h
  | cons first rest ih =>
      obtain ⟨k, v⟩ := first
      rw [find?] at h
      split at h
      · next hkey =>
          obtain rfl := Option.some.inj h
          simp [hkey]
      · exact List.mem_cons_of_mem _ (ih h)

theorem find?_eq_none {d : Dict α} {key : String} (h : key ∉ d.map (·.1)) : find? key d = none := by
  induction d with
  | nil => rfl
  | cons entry rest ih =>
      simp only [List.map_cons, List.mem_cons, not_or] at h
      rw [find?, if_neg (Ne.symm h.1), ih h.2]

theorem value_insert (key other : String) (value : α) (d : Dict α) :
    find? other (insert key value d) = if key = other then some value else find? other d := by
  induction d with
  | nil => rfl
  | cons first rest ih =>
      obtain ⟨k, v⟩ := first
      rw [insert]
      split_ifs with hbefore hsame hkey hkey
      all_goals simp_all [find?]

/-- Of several entries for a key the last one stays. -/
theorem value_override_entries (base : Dict α) (entries : List (String × α)) (key : String) :
    find? key (override base entries) =
      ((entries.filter (·.1 = key)).getLast?.map (·.2)).or (find? key base) := by
  unfold override
  induction entries generalizing base with
  | nil => rfl
  | cons first rest ih =>
      rw [List.foldl_cons, ih, value_insert]
      by_cases hkey : first.1 = key
      · rw [if_pos hkey, List.filter_cons_of_pos (by simpa using hkey), List.getLast?_cons]
        cases (rest.filter (·.1 = key)).getLast? <;> simp
      · rw [if_neg hkey, List.filter_cons_of_neg (by simpa using hkey)]

/-- The value of a key is that of the upper map, if it has one. -/
theorem value_override {overrides : Dict α} (hover : Sorted overrides) (base : Dict α)
    (key : String) :
    find? key (override base overrides) = (find? key overrides).or (find? key base) := by
  unfold override
  induction overrides generalizing base with
  | nil => rfl
  | cons first rest ih =>
      obtain ⟨hfirst, hrest⟩ := List.pairwise_cons.mp hover
      rw [List.foldl_cons, ih hrest, value_insert, find?]
      split_ifs with hkey
      · subst hkey
        have hlater : first.1 ∉ rest.map (·.1) := by
          rintro hmem
          obtain ⟨e, he, heq⟩ := List.mem_map.mp hmem
          exact (hfirst e he).ne' heq
        simp [find?_eq_none hlater]
      · rfl

theorem value_erase (key other : String) (d : Dict α) :
    find? other (erase key d) = if other = key then none else find? other d := by
  induction d with
  | nil => simp [erase, find?]
  | cons first rest ih =>
      obtain ⟨k, v⟩ := first
      unfold erase at ih ⊢
      by_cases hk : k = key
      · rw [List.filter_cons_of_neg (by simp [hk]), ih, find?]
        split_ifs <;> simp_all
      · rw [List.filter_cons_of_pos (by simp [hk]), find?, find?, ih]
        split_ifs <;> simp_all

theorem Sorted.erase {d : Dict α} (h : Sorted d) (key : String) : Sorted (Dict.erase key d) :=
  h.filter _

end LintDesk.Dict
