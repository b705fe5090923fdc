import LintDesk.Proofs.Config.Tracking

/-! # Lookups with an empty cache

A resolver that knows nothing yet searches each directory of a document once, so its lookup makes
exactly the calls of a lookup that goes alone.
-/

namespace LintDesk

/-- Directories nearer to the root have fewer components. -/
theorem searchPath_descends (boundary : Option Path) (fuel : Nat) (dir : Path) :
    (∀ d ∈ searchPath boundary fuel dir, d.components.length ≤ dir.components.length) ∧
      (searchPath boundary fuel dir).Pairwise fun d d' =>
        d'.components.length < d.components.length := by
  induction fuel generalizing dir with
  | zero => simp [searchPath]
  | succ fuel ih =>
      unfold searchPath
      split
      · simp
      · split
        · simp
        · next parent hparent =>
            split
            · simp
            · have hshorter : parent.components.length < dir.components.length := by
                rcases dir.parent?_cases with ⟨hnone, -⟩ | ⟨parent', hparent', hne, hcomponents⟩
                · rw [hnone] at hparent
                  cases hparent
                · obtain rfl := Option.some.inj (hparent.symm.trans hparent')
                  have hpos := List.length_pos_iff.mpr hne
                  rw [hcomponents, List.length_dropLast]
                  omega
              obtain ⟨hbelow, hdescends⟩ := ih parent
              refine ⟨List.forall_mem_cons.mpr ⟨Nat.le_refl _, fun d hd => ?_⟩,
                List.pairwise_cons.mpr ⟨fun d hd => ?_, hdescends⟩⟩
              · exact (hbelow d hd).trans hshorter.le
              · exact (hbelow d hd).trans_lt hshorter

/-- Paths of different directories. -/
def Distinct (dirs : List Path) : Prop :=
  dirs.Pairwise fun d d' => d.components ≠ d'.components

theorem Query.searched_distinct (q : Query) (layer : FileLayer) : Distinct (q.searched layer) := by
  unfold searched directories Distinct
  split
  · split
    · exact .nil
    · refine (searchPath_descends _ _ _).2.imp fun hlt heq => ?_
      rw [heq] at hlt
      exact absurd hlt (Nat.lt_irrefl _)
  · exact .nil

namespace Lookup

/-- The cache has nothing of what lies ahead of a lookup. -/
inductive Ahead (r : Resolver) : Lookup → Prop
  | searching {l : Lookup} {dir : Path} {above : List Path}
      (hplace : l.place? = some (dir, above)) (hcall : l.call?.isSome)
      (hdistinct : Distinct (dir :: above))
      (hdirs : ∀ d ∈ dir :: above, r.cache.directory? d = none)
      (hdocuments : r.cache.documents = []) : Ahead r l
  | settled {l : Lookup} (hplace : l.place? = none) (hcall : l.call?.isSome)
      (hdocuments : r.cache.documents = []) : Ahead r l
  | done (e : ResolvedConfig) : Ahead r (done e)

/-- What a lookup came to is what it would have come to alone, and nothing of what lies ahead is
cached. -/
structure Matches (home : Option Path) (l : Lookup) (result : Lookup × Resolver) : Prop where
  home_eq : result.2.home = home
  agrees : l.Agrees result.1
  ahead : result.1.Ahead result.2

variable {layer : FileLayer} {q : Query} {r : Resolver}

theorem finish_eq (hdocuments : r.cache.documents = []) (config : RuleConfig) (origin : Origin) :
    ∃ r', finish q config origin r = (.done (entry config origin r).1, r') ∧ r'.home = r.home := by
  simp [finish, entry, ConfigCache.putDocument, ConfigCache.document?, hdocuments]

theorem visit_cons_eq {dir : Path} (hdir : r.cache.directory? dir = none) (above : List Path) :
    visit q (dir :: above) r = (listing dir above, r) := by
  simp [visit, hdir]

theorem concludeWith_some {dir : Path} (hdir : r.cache.directory? dir = none) (above : List Path)
    (f : RuleConfig × Path) : ∃ r', concludeWith q dir above (some f) r =
      (.done (.ofFile r.serial f), r') ∧ r'.home = r.home := by
  simp [concludeWith, conclude, ConfigCache.putDirectory, hdir]

/-- Once nothing was found in a directory, the directories after it are still ahead. -/
theorem concludeWith_none {dir : Path} {above : List Path} (hdistinct : Distinct (dir :: above))
    (hdirs : ∀ d ∈ dir :: above, r.cache.directory? d = none)
    (hdocuments : r.cache.documents = []) :
    ∃ r', concludeWith q dir above none r = visit q above r' ∧ r'.home = r.home ∧
      (∀ d ∈ above, r'.cache.directory? d = none) ∧ r'.cache.documents = [] := by
  obtain ⟨hfirst, -⟩ := List.pairwise_cons.mp hdistinct
  have hdir : r.cache.directory? dir = none := hdirs dir (by simp)
  let r' : Resolver := { r with
    cache := { r.cache with directories := (dir.components, none) :: r.cache.directories } }
  refine ⟨r', ?_, rfl, fun d hd => ?_, hdocuments⟩
  · simp [concludeWith, conclude, ConfigCache.putDirectory, hdir, r']
  · have hne : d.components ≠ dir.components := (hfirst d hd).symm
    exact (ConfigCache.directory?_cons r.cache dir.components d none).trans
      ((if_neg hne).trans (hdirs d (by simp [hd])))

theorem finish_matches (hdocuments : r.cache.documents = []) (config : RuleConfig)
    (origin : Origin) :
    Matches r.home (finish q config origin { home := r.home }).1 (finish q config origin r) := by
  obtain ⟨r', hresult, hhome⟩ := finish_eq (q := q) hdocuments config origin
  rw [hresult]
  exact ⟨hhome, .inr ⟨_, _, rfl, rfl, rfl⟩, .done _⟩

theorem afterChain_matches (hdocuments : r.cache.documents = []) (origin : Origin)
    (read : ChainRead) :
    Matches r.home (afterChain q origin read { home := r.home }).1
      (afterChain q origin read r) := by
  cases read with
  | done config => exact finish_matches hdocuments config origin
  | waiting chain path => exact ⟨rfl, .refl _, .settled rfl rfl hdocuments⟩

theorem fallBack_matches (hdocuments : r.cache.documents = []) :
    Matches r.home (fallBack q { home := r.home }).1 (fallBack q r) := by
  have hnone : r.cache.document? q.key = none := by simp [ConfigCache.document?, hdocuments]
  rw [fallBack_fst]
  unfold fallBack
  rw [hnone]
  cases q.settings.config with
  | none => exact finish_matches hdocuments [] .default
  | some config =>
      let read := ChainRead.start (q.settingsChain r.home config) r.log
      have hnext := afterChain_matches (q := q) (r := { r with log := read.2 }) hdocuments
        (Query.originOf config.scope) read.1
      dsimp only
      rw [ChainRead.start_fst _ {} r.log]
      exact hnext

theorem visit_matches {dirs : List Path} (hdistinct : Distinct dirs)
    (hdirs : ∀ d ∈ dirs, r.cache.directory? d = none) (hdocuments : r.cache.documents = []) :
    Matches r.home (visit q dirs { home := r.home }).1 (visit q dirs r) := by
  cases dirs with
  | nil => exact fallBack_matches hdocuments
  | cons dir above =>
      rw [visit_cons_eq (hdirs dir (by simp)) above]
      exact ⟨rfl, .refl _, .searching rfl rfl hdistinct hdirs hdocuments⟩

theorem concludeWith_matches {dir : Path} {above : List Path} (hdistinct : Distinct (dir :: above))
    (hdirs : ∀ d ∈ dir :: above, r.cache.directory? d = none)
    (hdocuments : r.cache.documents = []) (found : Option (RuleConfig × Path)) :
    Matches r.home (afterSearch r.home q above found) (concludeWith q dir above found r) := by
  cases found with
  | some f =>
      obtain ⟨r', hresult, hhome⟩ := concludeWith_some (q := q) (hdirs dir (by simp)) above f
      rw [hresult]
      exact ⟨hhome, .inr ⟨_, _, rfl, rfl, rfl⟩, .done _⟩
  | none =>
      obtain ⟨r', hresult, hhome, hahead, hdocuments'⟩ :=
        concludeWith_none (q := q) hdistinct hdirs hdocuments
      rw [hresult, ← hhome]
      exact visit_matches (List.pairwise_cons.mp hdistinct).2 hahead hdocuments'

theorem resume_matches {l : Lookup} (h : l.Ahead r) (hcall : l.call?.isSome) :
    Matches r.home (alone layer r.home q l) (l.resume q layer r) := by
  cases h with
  | @searching _ dir above hplace _ hdistinct hdirs hdocuments =>
      obtain ⟨log, hresume⟩ : ∃ log, l.resume q layer r =
        (l.probe layer r.home).outcome q dir above { r with log } := resume_eq hplace
      cases hprobe : l.probe layer r.home with
      | goesOn l' =>
          obtain ⟨hplace', hcall'⟩ := probe_goesOn hplace hprobe
          have halone : alone layer r.home q l = l' := by simp [alone, hplace, hprobe]
          rw [hresume, hprobe, halone]
          exact ⟨rfl, .refl _, .searching hplace' hcall' hdistinct hdirs hdocuments⟩
      | ends found =>
          have halone : alone layer r.home q l = afterSearch r.home q above found := by
            simp [alone, hplace, hprobe]
          rw [hresume, hprobe, halone]
          exact concludeWith_matches (r := { r with log }) hdistinct hdirs hdocuments found
  | settled hplace _ hdocuments =>
      obtain ⟨origin, chain, path, rfl⟩ := exists_settings hplace hcall
      let read := ChainRead.receive chain path (layer.read path) r.log
      rw [alone_settings, ChainRead.receive_fst _ _ _ {} r.log]
      exact afterChain_matches (r := { r with log := read.2 }) hdocuments origin read.1
  | done => cases hcall

/-- A lookup that is run ahead of the cache makes the calls of a lookup alone. -/
theorem run_matches (fuel : Nat) {l l' : Lookup} {r' : Resolver} {calls : List FileCall}
    (h : l.Ahead r) (hrun : l.run q layer fuel r = (calls, l', r')) :
    ((alone layer r.home q)^[calls.length] l).Agrees l' ∧ l'.Ahead r' ∧
      (calls.length = fuel ∨ l'.call? = none) := by
  induction fuel generalizing l r calls with
  | zero =>
      cases hrun
      exact ⟨.refl _, h, .inl rfl⟩
  | succ fuel ih =>
      rw [run] at hrun
      cases hcall : l.call? with
      | none =>
          rw [hcall] at hrun
          cases hrun
          exact ⟨.refl _, h, .inr hcall⟩
      | some call =>
          have hstep : Matches r.home (alone layer r.home q l) (l.resume q layer r) :=
            resume_matches h (by simp [hcall])
          rw [hcall] at hrun
          rcases hresume : l.resume q layer r with ⟨l₁, r₁⟩
          rcases hrest : l₁.run q layer fuel r₁ with ⟨rest, l₂, r₂⟩
          simp only [hresume, hrest] at hrun hstep
          obtain ⟨rfl, rfl, rfl⟩ : call :: rest = calls ∧ l₂ = l' ∧ r₂ = r' := by simpa using hrun
          obtain ⟨hagrees, hahead, hends⟩ := ih hstep.ahead hrest
          rw [show r₁.home = r.home from hstep.home_eq] at hagrees
          refine ⟨?_, hahead, hends.imp_left fun hlength => by simp [hlength]⟩
          rw [List.length_cons, Function.iterate_succ_apply]
          exact (hstep.agrees.iterate rest.length).trans hagrees

theorem start_matches (hcache : r.cache = {}) (q : Query) (layer : FileLayer) :
    Matches r.home (start q layer { home := r.home }).1 (start q layer r) :=
  visit_matches (q.searched_distinct layer) (by simp [hcache, ConfigCache.directory?])
    (by rw [hcache])

/-- A resolver with an empty cache runs a lookup as if it were alone. -/
theorem exists_run_start (hcache : r.cache = {}) (q : Query) (layer : FileLayer) (fuel : Nat) :
    ∃ calls l r', Resolver.resolve r fuel layer q = (calls, l.entry?, r') ∧
      ((alone layer r.home q)^[calls.length] (start q layer { home := r.home }).1).Agrees l ∧
      (calls.length = fuel ∨ ∃ e, l = .done e) := by
  have hstart := start_matches hcache q layer
  rcases hrun : (start q layer r).1.run q layer fuel (start q layer r).2 with ⟨calls, l, r'⟩
  obtain ⟨hagrees, hahead, hends⟩ := run_matches fuel hstart.ahead hrun
  rw [hstart.home_eq] at hagrees
  refine ⟨calls, l, r', by simp [Resolver.resolve, hrun],
    (hstart.agrees.iterate calls.length).trans hagrees, hends.imp_right fun hnone => ?_⟩
  cases hahead with
  | searching _ hcall => simp [hnone] at hcall
  | settled _ hcall => simp [hnone] at hcall
  | done e => exact ⟨e, rfl⟩

theorem eq_done_of_entry? {l : Lookup} {e : ResolvedConfig} (h : l.entry? = some e) :
    l = .done e := by
  cases l <;> cases h
  rfl

/-- What a resolver with an empty cache returns, and after how many calls. -/
theorem iterate_of_resolve {home : Option Path} {fuel : Nat} {calls : List FileCall}
    {e : ResolvedConfig} {r' : Resolver}
    (h : Resolver.resolve { home } fuel layer q = (calls, some e, r')) :
    ∃ e', (alone layer home q)^[calls.length] (start q layer { home }).1 = .done e' ∧
      e'.view = e.view := by
  obtain ⟨calls', l, r'', hresolve, hagrees, -⟩ := exists_run_start (r := { home }) rfl q layer fuel
  obtain ⟨rfl, he, -⟩ : calls = calls' ∧ some e = l.entry? ∧ r' = r'' := by
    simpa using h.symm.trans hresolve
  obtain rfl := eq_done_of_entry? he.symm
  exact hagrees.exists_done

/-- Where a lookup alone ends, so does a resolver with an empty cache. -/
theorem exists_resolve (hcache : r.cache = {}) {n fuel : Nat} (hfuel : n ≤ fuel)
    {e : ResolvedConfig}
    (h : (alone layer r.home q)^[n] (start q layer { home := r.home }).1 = .done e) :
    ∃ calls e' r', Resolver.resolve r fuel layer q = (calls, some e', r') ∧
      e'.view = e.view := by
  obtain ⟨calls, l, r', hresolve, hagrees, hends⟩ := exists_run_start hcache q layer fuel
  obtain ⟨e', rfl⟩ : ∃ e', l = .done e' := by
    rcases hends with hlength | hdone
    · obtain ⟨more, rfl⟩ := Nat.exists_eq_add_of_le' hfuel
      rw [hlength, Function.iterate_add_apply, h, iterate_alone_done] at hagrees
      rcases hagrees with rfl | ⟨_, e', -, rfl, -⟩
      · exact ⟨e, rfl⟩
      · exact ⟨e', rfl⟩
    · exact hdone
  obtain ⟨e'', he'', hview⟩ := hagrees.exists_done
  obtain rfl := eq_of_iterate h he''
  exact ⟨calls, e', r', hresolve, hview.symm⟩

end Lookup

end LintDesk
