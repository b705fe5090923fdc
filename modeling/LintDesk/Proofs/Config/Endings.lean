import LintDesk.Proofs.Config.Chains
import LintDesk.Proofs.Config.Tracking

/-! # Lookups come to their end

Where every chain of configurations ends, so does the search of every directory and every lookup
(`Lookup.exists_iterate_done`). Over finitely many files every chain ends.
-/

namespace LintDesk

/-- What a step in the search of a directory comes to. -/
def ProbeStep.Comes (layer : FileLayer) (home : Option Path) (found : Option (RuleConfig × Path)) :
    ProbeStep → Prop
  | goesOn l => Lookup.Finds layer home l found
  | ends found' => found' = found

namespace Lookup

variable {layer : FileLayer} {home : Option Path}

theorem finds_iff {l : Lookup} {found : Option (RuleConfig × Path)} :
    Finds layer home l found ↔ (l.probe layer home).Comes layer home found := by
  constructor
  · intro h
    cases h with
    | now hends => rw [hends]; rfl
    | later hgoes hrest => rw [hgoes]; exact hrest
  · intro h
    cases hprobe : l.probe layer home with
    | goesOn l' =>
        rw [hprobe] at h
        exact .later hprobe h
    | ends found' =>
        rw [hprobe] at h
        obtain rfl : found' = found := h
        exact .now hprobe

/-! ### Directories -/

/-- A file is loaded with its chain, or else the names after it are tried. -/
theorem exists_finds_loading {load : Loading} {calls : List FileCall}
    {result : Except Fault RuleConfig} (hload : load.Comes layer home calls result) {p : Probe}
    (hnames : ∃ found, (nextName p.dir p.entries p.above p.names).Comes layer home found)
    (path : Path) : ∃ found, Finds layer home (.loading p path load) found := by
  induction hload with
  | @now load result hresult =>
      have hidle := Loading.call?_of_result hresult
      simp only [finds_iff, probe, Loading.resume_of_idle hidle, hresult]
      cases result with
      | ok config => exact ⟨_, rfl⟩
      | error fault => exact hnames
  | @later load call calls result hcall hrest ih =>
      simp only [finds_iff, probe]
      split
      · exact ih
      · exact ⟨_, rfl⟩
      · exact hnames

variable (hends : ∀ chain : Chain, ¬chain.IsEndless layer)

include hends

theorem exists_comes_nextName (dir : Path) (entries : List DirEntry) (above : List Path)
    (names : List String) :
    ∃ found, (nextName dir entries above names).Comes layer home found := by
  induction names with
  | nil => exact ⟨none, rfl⟩
  | cons name names ih =>
      obtain ⟨calls, result, hload⟩ := FileLayer.exists_comes_opening hends home (dir.join ⟨name⟩)
      have hfile : ∃ found, Finds layer home (.loading ⟨dir, entries, names, above⟩
          (dir.join ⟨name⟩) (.opening (dir.join ⟨name⟩))) found :=
        exists_finds_loading hload ih _
      rw [nextName]
      split
      · exact hfile
      · have hlink : ∃ found, Finds layer home (.following ⟨dir, entries, names, above⟩
            (dir.join ⟨name⟩)) found := by
          simp only [finds_iff, probe]
          split
          · exact hfile
          · exact ih
        exact hlink
      · exact ih

theorem exists_finds_listing (dir : Path) (above : List Path) :
    ∃ found, Finds layer home (.listing dir above) found := by
  simp only [finds_iff, probe]
  split
  · exact exists_comes_nextName hends dir _ above _
  · exact ⟨none, rfl⟩

/-! ### Lookups -/

variable (q : Query)

theorem exists_iterate_afterChain (origin : Origin) (chain : Chain) : ∃ n e,
    (alone layer home q)^[n] (afterChain q origin (ChainRead.start chain {}).1 { home }).1 =
      .done e := by
  obtain ⟨calls, config, hcomes⟩ := Chain.exists_comes (hends chain) home
  have hwaiting : ∀ (chain : Chain) (path : Path),
      (∃ n e, (alone layer home q)^[n] (afterChain q origin
        (ChainRead.receive chain path (layer.read path) {}).1 { home }).1 = .done e) →
      ∃ n e, (alone layer home q)^[n] (afterChain q origin (.waiting chain path) { home }).1 =
        .done e := by
    rintro chain path ⟨n, e, hn⟩
    refine ⟨n + 1, e, ?_⟩
    rw [Function.iterate_succ_apply]
    exact (congrArg _ (alone_settings origin chain path)).trans hn
  obtain ⟨-, -, hiterate⟩ := Loading.Comes.chain_induction
    (motive := fun read _ _ => ∃ n e,
      (alone layer home q)^[n] (afterChain q origin read { home }).1 = .done e)
    (fun _ => ⟨0, _, rfl⟩) (fun chain path _ _ => hwaiting chain path) hcomes
  exact hiterate

theorem exists_iterate_visit (dirs : List Path) : ∃ n e,
    (alone layer home q)^[n] (visit q dirs { home }).1 = .done e := by
  induction dirs with
  | nil =>
      change ∃ n e, _^[n] (fallBack q { home }).1 = _
      rw [fallBack_fst]
      cases q.settings.config with
      | none => exact ⟨0, _, rfl⟩
      | some config => exact exists_iterate_afterChain hends q _ _
  | cons dir above ih =>
      obtain ⟨found, hfinds⟩ : ∃ found, Finds layer home (.listing dir above) found :=
        exists_finds_listing hends dir above
      obtain ⟨n, hn⟩ := hfinds.exists_iterate (q := q) rfl
      cases found with
      | some f => exact ⟨n, _, hn⟩
      | none =>
          obtain ⟨m, e, hm⟩ := ih
          refine ⟨m + n, e, ?_⟩
          rw [Function.iterate_add_apply]
          exact (congrArg _ hn).trans hm

/-- Every lookup is done after finitely many calls. -/
theorem exists_iterate_done : ∃ n e,
    (alone layer home q)^[n] (start q layer { home }).1 = .done e :=
  exists_iterate_visit hends q _

end Lookup

/-- Every lookup on a disk is done after finitely many calls. -/
theorem Disk.exists_iterate_done (d : Disk) (home : Option Path) (q : Query) : ∃ n e,
    (Lookup.alone d.layer home q)^[n] (Lookup.start q d.layer { home }).1 = .done e :=
  Lookup.exists_iterate_done d.isFinite.not_isEndless q

end LintDesk
