import LintDesk.Proofs.Config.Transparency

/-! # Settings without a configuration

Where the settings have no configuration, what a lookup comes to depends on the directories that
are searched only. A cache that is right for one such assignment of folders and settings is right
for every other, so documents of any folders can share it, and a lookup that is run over it for
long enough returns what it would have found alone.
-/

namespace LintDesk

/-- No folders and no settings. -/
def Assignment.unset : Assignment where
  folder _ := none
  settings _ := {}

section Unset

open Lookup

variable {layer : FileLayer} {home : Option Path} {q q' : Query} {r : Resolver}

namespace Lookup

/-! ### Going alone -/

theorem fallBack_fst_of_unset (hq : q.settings.config = none) :
    (fallBack q { home }).1 = .done ⟨RuleConfig.merge .default [], some .default, 0⟩ := by
  rw [fallBack_fst, hq]
  rfl

/-- The settings need no file. -/
theorem fallBack_of_unset (hq : q.settings.config = none) (r : Resolver) :
    ∃ e r', fallBack q r = (.done e, r') := by
  unfold fallBack
  rw [hq]
  split
  · exact ⟨_, _, rfl⟩
  · exact ⟨_, _, rfl⟩

theorem visit_fst_of_unset (hq : q.settings.config = none) (hq' : q'.settings.config = none)
    (dirs : List Path) : (visit q dirs { home }).1 = (visit q' dirs { home }).1 := by
  cases dirs with
  | nil => exact (fallBack_fst_of_unset hq).trans (fallBack_fst_of_unset hq').symm
  | cons dir above => rfl

theorem alone_of_unset (hq : q.settings.config = none) (hq' : q'.settings.config = none) :
    alone layer home q = alone layer home q' := by
  funext l
  cases hplace : l.place? with
  | none => exact (alone_congr hplace).1
  | some place =>
      obtain ⟨dir, above⟩ := place
      simp only [alone, hplace]
      cases l.probe layer home with
      | goesOn l' => rfl
      | ends found =>
          cases found with
          | none => exact visit_fst_of_unset hq hq' above
          | some f => rfl

end Lookup

/-! ### Sharing a cache -/

theorem Resolver.faithful_of_cache {a : Assignment} (hhome : r.home = home)
    (hcache : r.cache = {}) : r.Faithful layer home a := by
  refine ⟨hhome, fun dir found hfound => ?_, fun q _ e he => ?_⟩
  · rw [hcache] at hfound
    cases hfound
  · rw [hcache] at he
    cases he

theorem Resolver.Faithful.reassign {a a' : Assignment} (h : r.Faithful layer home a)
    (ha : ∀ key, (a.settings key).config = none) (ha' : ∀ key, (a'.settings key).config = none) :
    r.Faithful layer home a' := by
  refine ⟨h.home_eq, h.directories, fun q hq e he => ?_⟩
  -- the document as it is assigned in `a`
  let p : Query := { q with folder := a.folder q.key, settings := a.settings q.key }
  obtain ⟨n, e', hn, hview⟩ := h.documents p ⟨rfl, rfl⟩ e he
  refine ⟨n, e', ?_, hview⟩
  have hunset : q.settings.config = none := hq.2 ▸ ha' q.key
  rw [fallBack_fst_of_unset hunset, iterate_alone_done]
  rwa [fallBack_fst_of_unset (ha q.key), iterate_alone_done] at hn

/-- The folder and the settings of a query, for all documents. -/
def Query.assignment (q : Query) : Assignment where
  folder _ := q.folder
  settings _ := q.settings

theorem Lookup.Comes.unset {cache : ConfigCache} {l : Lookup} {result : Lookup × Resolver}
    (hq : q.settings.config = none) (h : Comes layer home q.assignment q cache l result) :
    Comes layer home .unset q cache l result :=
  ⟨h.faithful.reassign (fun _ => hq) (fun _ => rfl), h.within, h.onTrack, h.leads⟩

theorem Lookup.start_comes_of_unset (hlayer : layer.IgnoresSpelling)
    (hr : r.Faithful layer home .unset) (hq : q.settings.config = none) :
    Comes layer home .unset q r.cache (start q layer { home }).1 (start q layer r) :=
  .unset hq (start_comes hlayer (hr.reassign (fun _ => rfl) fun _ => hq) ⟨rfl, rfl⟩)

theorem Lookup.resume_comes_of_unset (hlayer : layer.IgnoresSpelling)
    (hr : r.Faithful layer home .unset) (hq : q.settings.config = none) {l : Lookup}
    (hl : l.OnTrack layer home q r) (hcall : l.call?.isSome) :
    Comes layer home .unset q r.cache (alone layer home q l) (l.resume q layer r) :=
  .unset hq (resume_comes hlayer (hr.reassign (fun _ => rfl) fun _ => hq) ⟨rfl, rfl⟩ hl hcall)

/-! ### Running over a shared cache -/

/-- A lookup that is run stays on track, and gets on with every call. -/
theorem Lookup.run_of_unset (hlayer : layer.IgnoresSpelling) (hr : r.Faithful layer home .unset)
    (hq : q.settings.config = none) (fuel : Nat) {l l' : Lookup} {r' : Resolver}
    {calls : List FileCall} (hl : l.OnTrack layer home q r)
    (hrun : l.run q layer fuel r = (calls, l', r')) :
    r'.Faithful layer home .unset ∧ l'.OnTrack layer home q r' ∧
      Leads layer home q calls.length l l' ∧ (calls.length = fuel ∨ l'.call? = none) := by
  induction fuel generalizing l r calls with
  | zero =>
      cases hrun
      exact ⟨hr, hl, .of_agrees (.refl _), .inl rfl⟩
  | succ fuel ih =>
      rw [run] at hrun
      cases hcall : l.call? with
      | none =>
          rw [hcall] at hrun
          cases hrun
          exact ⟨hr, hl, .of_agrees (.refl _), .inr hcall⟩
      | some call =>
          have hstep := resume_comes_of_unset hlayer hr hq hl (by simp [hcall])
          rw [hcall] at hrun
          rcases hresume : l.resume q layer r with ⟨l₁, r₁⟩
          rcases hrest : l₁.run q layer fuel r₁ with ⟨rest, l₂, r₂⟩
          simp only [hresume, hrest] at hrun hstep
          obtain ⟨rfl, rfl, rfl⟩ : call :: rest = calls ∧ l₂ = l' ∧ r₂ = r' := by simpa using hrun
          obtain ⟨hfaithful, htrack, hleads, hends⟩ := ih hstep.faithful hstep.onTrack hrest
          have hone : Leads layer home q 1 l (alone layer home q l) := ⟨1, Nat.le_refl 1, .refl _⟩
          refine ⟨hfaithful, htrack, ?_, hends.imp_left fun hlength => by simp [hlength]⟩
          rw [List.length_cons, Nat.add_comm]
          exact hone.trans (Nat.zero_add rest.length ▸ hstep.leads.trans hleads)

/-- A cache stays right, however far a document is looked up. -/
theorem Resolver.Faithful.resolve (hlayer : layer.IgnoresSpelling)
    (hr : r.Faithful layer home .unset) (hq : q.settings.config = none) (fuel : Nat) :
    (r.resolve fuel layer q).2.2.Faithful layer home .unset := by
  have hstart := start_comes_of_unset hlayer hr hq
  exact (run_of_unset hlayer hstart.faithful hq fuel hstart.onTrack rfl).1

/-- Where a lookup alone ends, so does one over a shared cache, and with the same. -/
theorem Resolver.Faithful.exists_resolve (hlayer : layer.IgnoresSpelling)
    (hr : r.Faithful layer home .unset) (hq : q.settings.config = none) {n fuel : Nat}
    {e : ResolvedConfig} (halone : (alone layer home q)^[n] (start q layer { home }).1 = .done e)
    (hfuel : n ≤ fuel) : ∃ e', (r.resolve fuel layer q).2.1 = some e' ∧ e'.view = e.view := by
  have hstart := start_comes_of_unset hlayer hr hq
  rcases hrun : (start q layer r).1.run q layer fuel (start q layer r).2 with ⟨calls, l, r'⟩
  obtain ⟨-, htrack, hleads, hends⟩ :=
    run_of_unset hlayer hstart.faithful hq fuel hstart.onTrack hrun
  obtain ⟨m, hm, hagrees⟩ := hstart.leads.trans hleads
  have hresolve : (r.resolve fuel layer q).2.1 = l.entry? := by simp [Resolver.resolve, hrun]
  obtain ⟨e', rfl⟩ : ∃ e', l = .done e' := by
    by_contra hopen
    have hcall := htrack.call fun e' he' => hopen ⟨e', he'⟩
    have hlong : n ≤ m := by
      rcases hends with hlength | hnone
      · omega
      · simp [hnone] at hcall
    obtain ⟨k, rfl⟩ := Nat.exists_eq_add_of_le' hlong
    rw [Function.iterate_add_apply, halone, iterate_alone_done] at hagrees
    rcases hagrees with rfl | ⟨-, e', -, rfl, -⟩
    · exact hopen ⟨e, rfl⟩
    · exact hopen ⟨e', rfl⟩
  obtain ⟨e₁, he₁, hview⟩ := hagrees.exists_done
  obtain rfl := eq_of_iterate halone he₁
  exact ⟨e', hresolve, hview.symm⟩

end Unset

/-! ### Two names of a folder -/

theorem searchPath_congr {boundary boundary' : Path}
    (h : boundary.components = boundary'.components) (fuel : Nat) (dir : Path) :
    searchPath (some boundary) fuel dir = searchPath (some boundary') fuel dir := by
  induction fuel generalizing dir with
  | zero => rfl
  | succ fuel ih =>
      unfold searchPath
      simp only [Option.any_some, Path.same, Path.startsWith, h, ih]
      rfl

end LintDesk
