import LintDesk.Ignore.Set
import Mathlib.Data.List.Nodup

/-! # Epochs of the ignore cache

Calls on an ignore cache come in any order. In an epoch the reading of an ignore file is reserved
once for a key, and the set of a key consists of what its setting compiles to and of what was
appended to it in that epoch.
-/

namespace LintDesk

namespace IgnoreCache

/-! ### Entries -/

theorem find?_get (c : IgnoreCache) (key k : IgnoreKey) :
    (c.get key).2.find? k = (c.find? k).or
      (if k = key then some ⟨key, IgnoreSet.compile key.setting none, false⟩ else none) := by
  unfold get
  split
  · next e he =>
      by_cases hk : k = key
      · simp [hk, he]
      · simp [hk]
  · by_cases hk : k = key
    · simp [find?, List.find?_append, hk]
    · simp [find?, List.find?_append, hk, Ne.symm hk]

theorem find?_modify (c : IgnoreCache) (key k : IgnoreKey) {f : IgnoreEntry → IgnoreEntry}
    (hf : ∀ e, (f e).key = e.key) :
    (c.modify key f).find? k = if k = key then (c.find? k).map f else c.find? k := by
  unfold find? modify
  dsimp only
  induction c.entries with
  | nil => simp
  | cons e entries ih =>
      rw [List.map_cons, List.find?_cons, List.find?_cons, ih]
      by_cases hfound : e.key = k
      · subst hfound
        by_cases he : e.key = key
        · simp [he, hf]
        · simp [he]
      · have hthis : (e.key == k) = false := by simpa using hfound
        have hthat : ((if e.key == key then f e else e).key == k) = false := by
          split <;> simp [hf, hfound]
        simp only [hthis, hthat]

@[simp] theorem find?_invalidate (c : IgnoreCache) (key : IgnoreKey) :
    c.invalidate.find? key = none := rfl

theorem get_fst (c : IgnoreCache) (key : IgnoreKey) :
    (c.get key).1 =
      ((c.find? key).map (·.set)).getD (IgnoreSet.compile key.setting none) := by
  unfold get
  split
  · next e he => simp [he]
  · next hnone => simp [hnone]

@[simp] theorem epoch_get (c : IgnoreCache) (key : IgnoreKey) : (c.get key).2.epoch = c.epoch := by
  unfold get
  split <;> rfl

theorem epoch_reserve (c : IgnoreCache) (key : IgnoreKey) (epoch : Nat) :
    (c.reserve key epoch).2.epoch = c.epoch := by
  unfold reserve
  split <;> rfl

theorem epoch_append (c : IgnoreCache) (key : IgnoreKey) (epoch : Nat) (p : IgnorePredicate) :
    (c.append key epoch p).2.epoch = c.epoch := by
  unfold append
  split <;> rfl

/-! ### Calls that succeed -/

/-- The reading of an ignore file is reserved if its set is kept and it was not asked for. -/
theorem reserve_cases (c : IgnoreCache) (key : IgnoreKey) (epoch : Nat) :
    c.reserve key epoch = (false, c) ∨
    (c.epoch = epoch ∧ (∃ e, c.find? key = some e ∧ e.fileAsked = false) ∧
      c.reserve key epoch = (true, c.modify key fun e => { e with fileAsked := true })) := by
  unfold reserve
  split
  · next hreserve =>
      rw [Bool.and_eq_true, beq_iff_eq, Option.any_eq_true_iff_get] at hreserve
      obtain ⟨hepoch, hsome, hasked⟩ := hreserve
      exact .inr ⟨hepoch, ⟨_, (Option.some_get hsome).symm, by simpa using hasked⟩, rfl⟩
  · exact .inl rfl

/-- A predicate is appended if the epoch is not over and the set is kept. -/
theorem append_cases (c : IgnoreCache) (key : IgnoreKey) (epoch : Nat) (p : IgnorePredicate) :
    c.append key epoch p = (false, c) ∨
    (c.epoch = epoch ∧ (∃ e, c.find? key = some e) ∧
      c.append key epoch p = (true, c.modify key fun e => { e with set := e.set ++ [p] })) := by
  unfold append
  split
  · next happend =>
      rw [Bool.and_eq_true, beq_iff_eq, Option.isSome_iff_exists] at happend
      exact .inr ⟨happend.1, happend.2, rfl⟩
  · exact .inl rfl

theorem append_of_lt (c : IgnoreCache) (key : IgnoreKey) {epoch : Nat} (p : IgnorePredicate)
    (h : epoch < c.epoch) : c.append key epoch p = (false, c) := by
  rcases c.append_cases key epoch p with hfalse | ⟨hepoch, -⟩
  · exact hfalse
  · omega

/-! ### Growth -/

/-- A later cache: in the same epoch sets are kept and only get longer. -/
structure Grows (c c' : IgnoreCache) : Prop where
  epoch : c.epoch ≤ c'.epoch
  sets : c'.epoch = c.epoch → ∀ key e, c.find? key = some e →
    ∃ e', c'.find? key = some e' ∧ e.set <+: e'.set

theorem Grows.refl (c : IgnoreCache) : c.Grows c :=
  ⟨Nat.le_refl _, fun _ _ e he => ⟨e, he, List.prefix_rfl⟩⟩

theorem Grows.trans {c c₁ c' : IgnoreCache} (h : c.Grows c₁) (h' : c₁.Grows c') : c.Grows c' := by
  refine ⟨Nat.le_trans h.epoch h'.epoch, fun hepoch key e he => ?_⟩
  have hle := h.epoch
  have hle' := h'.epoch
  obtain ⟨e₁, he₁, hset⟩ := h.sets (by omega) key e he
  obtain ⟨e', he', hset'⟩ := h'.sets (by omega) key e₁ he₁
  exact ⟨e', he', hset.trans hset'⟩

theorem grows_get (c : IgnoreCache) (key : IgnoreKey) : c.Grows (c.get key).2 := by
  refine ⟨by simp, fun _ k e he => ⟨e, ?_, List.prefix_rfl⟩⟩
  simp [find?_get, he]

theorem grows_modify (c : IgnoreCache) (key : IgnoreKey) {f : IgnoreEntry → IgnoreEntry}
    (hkey : ∀ e, (f e).key = e.key) (hset : ∀ e, e.set <+: (f e).set) :
    c.Grows (c.modify key f) := by
  refine ⟨Nat.le_refl _, fun _ k e he => ?_⟩
  rw [find?_modify c key k hkey]
  by_cases hk : k = key
  · exact ⟨f e, by simp [hk, hk ▸ he], hset e⟩
  · exact ⟨e, by simp [hk, he], List.prefix_rfl⟩

theorem grows_invalidate (c : IgnoreCache) : c.Grows c.invalidate :=
  ⟨Nat.le_succ _, fun hepoch => absurd hepoch (Nat.succ_ne_self _)⟩

theorem grows_reserve (c : IgnoreCache) (key : IgnoreKey) (epoch : Nat) :
    c.Grows (c.reserve key epoch).2 := by
  rcases c.reserve_cases key epoch with hfalse | ⟨-, -, htrue⟩
  · rw [hfalse]
    exact .refl c
  · rw [htrue]
    exact c.grows_modify key (fun _ => rfl) fun _ => List.prefix_rfl

end IgnoreCache

/-! ### Any order of calls -/

/-- A call on an ignore cache. -/
inductive IgnoreCall where
  | get (key : IgnoreKey)
  | reserve (key : IgnoreKey) (epoch : Nat)
  | append (key : IgnoreKey) (epoch : Nat) (p : IgnorePredicate)
  | invalidate

/-- A cache with the calls on it that succeeded, in order. -/
structure IgnoreRecord where
  cache : IgnoreCache := {}
  reserved : List (IgnoreKey × Nat) := []
  appended : List ((IgnoreKey × Nat) × IgnorePredicate) := []

namespace IgnoreRecord

def step (s : IgnoreRecord) : IgnoreCall → IgnoreRecord
  | .get key => { s with cache := (s.cache.get key).2 }
  | .reserve key epoch =>
    let (succeeds, cache) := s.cache.reserve key epoch
    { s with cache, reserved := s.reserved ++ if succeeds then [(key, epoch)] else [] }
  | .append key epoch p =>
    let (succeeds, cache) := s.cache.append key epoch p
    { s with cache, appended := s.appended ++ if succeeds then [((key, epoch), p)] else [] }
  | .invalidate => { s with cache := s.cache.invalidate }

def run (calls : List IgnoreCall) : IgnoreRecord :=
  calls.foldl step {}

/-- The predicates that were appended to the set of a key in an epoch. -/
def appendedTo (s : IgnoreRecord) (key : IgnoreKey) (epoch : Nat) : List IgnorePredicate :=
  (s.appended.filter (·.1 = (key, epoch))).map (·.2)

/-- A reservation shows as long as its epoch lasts, and sets are made of what was appended. -/
structure Sound (s : IgnoreRecord) : Prop where
  reserved_le : ∀ x ∈ s.reserved, x.2 ≤ s.cache.epoch
  appended_le : ∀ x ∈ s.appended, x.1.2 ≤ s.cache.epoch
  once : s.reserved.Nodup
  asked : ∀ key, (key, s.cache.epoch) ∈ s.reserved →
    ∃ e, s.cache.find? key = some e ∧ e.fileAsked = true
  held : ∀ key, (s.cache.get key).1 =
    IgnoreSet.compile key.setting none ++ s.appendedTo key s.cache.epoch

theorem Sound.get {s : IgnoreRecord} (h : s.Sound) (key : IgnoreKey) :
    Sound { s with cache := (s.cache.get key).2 } where
  reserved_le := by simpa using h.reserved_le
  appended_le := by simpa using h.appended_le
  once := h.once
  asked := by
    intro k hk
    rw [IgnoreCache.epoch_get] at hk
    obtain ⟨e, he, hasked⟩ := h.asked k hk
    exact ⟨e, by simp [IgnoreCache.find?_get, he], hasked⟩
  held := by
    intro k
    have hk := h.held k
    rw [IgnoreCache.get_fst] at hk ⊢
    rw [IgnoreCache.epoch_get, IgnoreCache.find?_get]
    refine Eq.trans ?_ hk
    cases s.cache.find? k with
    | some e => rfl
    | none =>
        by_cases heq : k = key
        · simp [heq]
        · simp [heq]

theorem Sound.reserve {s : IgnoreRecord} (h : s.Sound) {key : IgnoreKey} {e : IgnoreEntry}
    (he : s.cache.find? key = some e) (hnew : e.fileAsked = false) :
    Sound { s with
      cache := s.cache.modify key fun e => { e with fileAsked := true }
      reserved := s.reserved ++ [(key, s.cache.epoch)] } := by
  have hfind := fun k => s.cache.find?_modify key k (f := fun e => { e with fileAsked := true })
    fun _ => rfl
  refine ⟨?_, h.appended_le, ?_, ?_, ?_⟩
  · rintro x hx
    rcases List.mem_append.mp hx with hx | hx
    · exact h.reserved_le x hx
    · rw [List.mem_singleton.mp hx]
      exact Nat.le_refl _
  · refine h.once.append (List.nodup_singleton _) (List.disjoint_singleton.mpr fun hmem => ?_)
    obtain ⟨e', he', hasked⟩ := h.asked key hmem
    obtain rfl := Option.some.inj (he.symm.trans he')
    rw [hnew] at hasked
    cases hasked
  · intro k hk
    rw [hfind]
    by_cases heq : k = key
    · exact ⟨{ e with fileAsked := true }, by simp [heq, he], rfl⟩
    · have hold : (k, s.cache.epoch) ∈ s.reserved := by
        simpa [IgnoreCache.modify, heq] using hk
      rw [if_neg heq]
      exact h.asked k hold
  · intro k
    have hk := h.held k
    rw [IgnoreCache.get_fst] at hk ⊢
    refine Eq.trans ?_ hk
    rw [hfind]
    by_cases heq : k = key
    · simp [heq, he]
    · simp [heq]

theorem Sound.append {s : IgnoreRecord} (h : s.Sound) {key : IgnoreKey} {e : IgnoreEntry}
    (he : s.cache.find? key = some e) (p : IgnorePredicate) :
    Sound { s with
      cache := s.cache.modify key fun e => { e with set := e.set ++ [p] }
      appended := s.appended ++ [((key, s.cache.epoch), p)] } := by
  have hfind := fun k => s.cache.find?_modify key k (f := fun e => { e with set := e.set ++ [p] })
    fun _ => rfl
  refine ⟨h.reserved_le, ?_, h.once, ?_, ?_⟩
  · rintro x hx
    rcases List.mem_append.mp hx with hx | hx
    · exact h.appended_le x hx
    · rw [List.mem_singleton.mp hx]
      exact Nat.le_refl _
  · intro k hk
    obtain ⟨e', he', hasked⟩ := h.asked k hk
    rw [hfind]
    by_cases heq : k = key
    · exact ⟨{ e' with set := e'.set ++ [p] }, by simp [heq, heq ▸ he'], hasked⟩
    · exact ⟨e', by simp [heq, he'], hasked⟩
  · intro k
    have hk := h.held k
    rw [IgnoreCache.get_fst] at hk ⊢
    rw [hfind]
    by_cases heq : k = key
    · subst heq
      simp only [he, Option.map_some, Option.getD_some] at hk
      simp [he, hk, appendedTo, IgnoreCache.modify]
    · have hne : ¬key = k := fun h => heq h.symm
      simpa [heq, hne, appendedTo, IgnoreCache.modify] using hk

theorem Sound.invalidate {s : IgnoreRecord} (h : s.Sound) :
    Sound { s with cache := s.cache.invalidate } where
  reserved_le := fun x hx => Nat.le_succ_of_le (h.reserved_le x hx)
  appended_le := fun x hx => Nat.le_succ_of_le (h.appended_le x hx)
  once := h.once
  asked := fun _ hk => absurd (h.reserved_le _ hk) (Nat.not_succ_le_self _)
  held := by
    intro k
    have hnone : s.appended.filter (·.1 = (k, s.cache.epoch + 1)) = [] := by
      refine List.filter_eq_nil_iff.mpr fun x hx heq => ?_
      have hle := h.appended_le x hx
      rw [decide_eq_true_eq] at heq
      rw [heq] at hle
      exact absurd hle (Nat.not_succ_le_self _)
    rw [IgnoreCache.get_fst, IgnoreCache.find?_invalidate, appendedTo]
    change _ = _ ++ List.map _ (s.appended.filter (·.1 = (k, s.cache.epoch + 1)))
    simp [hnone]

theorem Sound.step {s : IgnoreRecord} (h : s.Sound) (call : IgnoreCall) : (s.step call).Sound := by
  cases call with
  | get key => exact h.get key
  | reserve key epoch =>
      unfold IgnoreRecord.step
      rcases s.cache.reserve_cases key epoch with hfalse | ⟨rfl, ⟨e, he, hnew⟩, htrue⟩
      · simpa [hfalse] using h
      · simpa [htrue] using h.reserve he hnew
  | append key epoch p =>
      unfold IgnoreRecord.step
      rcases s.cache.append_cases key epoch p with hfalse | ⟨rfl, ⟨e, he⟩, htrue⟩
      · simpa [hfalse] using h
      · simpa [htrue] using h.append he p
  | invalidate => exact h.invalidate

theorem sound_run (calls : List IgnoreCall) : (run calls).Sound := by
  have hfold : ∀ s : IgnoreRecord, s.Sound → (calls.foldl step s).Sound := by
    induction calls with
    | nil => exact fun s h => h
    | cons call calls ih => exact fun s h => ih _ (h.step call)
  refine hfold {} ⟨nofun, nofun, List.nodup_nil, nofun, fun key => ?_⟩
  simp [IgnoreCache.get, IgnoreCache.find?, appendedTo]

end IgnoreRecord

end LintDesk
