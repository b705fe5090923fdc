import LintDesk.Config.Lookup
import LintDesk.Proofs.Path

/-! # What a directory has

The search of one directory reads neither the cache nor the query: it only depends on the file
layer. Over a layer for which the spelling of a directory does not matter, two searches of one
directory find the same.
-/

namespace LintDesk

/-! ### Entries compared -/

/-- What an origin is compared by: a file by the components of its path. -/
def Origin.identity : Origin → Origin ⊕ List Component
  | file path => .inr path.components
  | origin => .inl origin

/-- What an entry is compared by: its rules and where they came from. -/
def ResolvedConfig.view (e : ResolvedConfig) : RuleConfig × Option (Origin ⊕ List Component) :=
  (e.config, e.source.map Origin.identity)

/-- A configuration in a file, as an entry. -/
def ResolvedConfig.ofFile (serial : Nat) (found : RuleConfig × Path) : ResolvedConfig :=
  ⟨RuleConfig.merge .default found.1, some (.file found.2), serial⟩

/-- Two results of searching a directory are the same. -/
def SameFound (found found' : Option (RuleConfig × Path)) : Prop :=
  found.map (fun f => (f.1, f.2.components)) = found'.map fun f => (f.1, f.2.components)

/-! ### Searching a directory -/

/-- A step in the search of a directory: the search goes on, or it ends. -/
inductive ProbeStep where
  | goesOn (l : Lookup)
  | ends (found : Option (RuleConfig × Path))

namespace Lookup

/-- The directory that is searched, and those that come after it. -/
def place? : Lookup → Option (Path × List Path)
  | listing dir above => some (dir, above)
  | following p _ => some (p.dir, p.above)
  | loading p _ _ => some (p.dir, p.above)
  | _ => none

/-- The first of some names that is a file or may lead to one. -/
def nextName (dir : Path) (entries : List DirEntry) (above : List Path) : List String → ProbeStep
  | [] => .ends none
  | name :: names =>
    let path := dir.join ⟨name⟩
    match entries.find? (·.name == name) with
    | some ⟨_, .file⟩ => .goesOn (loading ⟨dir, entries, names, above⟩ path (.opening path))
    | some ⟨_, .link⟩ => .goesOn (following ⟨dir, entries, names, above⟩ path)
    | _ => nextName dir entries above names

/-- Takes the answer to the awaited call, as far as the directory is concerned. -/
def probe (layer : FileLayer) (home : Option Path) : Lookup → ProbeStep
  | listing dir above =>
    match layer.list dir with
    | .ok entries => nextName dir entries above configFileNames
    | .error _ => .ends none
  | following p path =>
    match layer.stat path with
    | .ok .file => .goesOn (loading p path (.opening path))
    | _ => nextName p.dir p.entries p.above p.names
  | loading p path load =>
    let load := (load.resume home layer {}).1
    match load.result? with
    | none => .goesOn (loading p path load)
    | some (.ok config) => .ends (some (config, path))
    | some (.error _) => nextName p.dir p.entries p.above p.names
  | l => .goesOn l

end Lookup

/-- Ends the search of a directory with what was found in it. -/
def Lookup.concludeWith (q : Query) (dir : Path) (above : List Path)
    (found : Option (RuleConfig × Path)) (r : Resolver) : Lookup × Resolver :=
  match found with
  | none => conclude q dir above none r
  | some f => conclude q dir above (some (.ofFile r.serial f)) { r with serial := r.serial + 1 }

/-- What a lookup makes of a step. -/
def ProbeStep.outcome (q : Query) (dir : Path) (above : List Path) (r : Resolver) :
    ProbeStep → Lookup × Resolver
  | goesOn l => (l, r)
  | ends found => Lookup.concludeWith q dir above found r

/-! ### The search is what lookups do -/

theorem ChainRead.start_fst (chain : Chain) (log log' : Journal) :
    (start chain log).1 = (start chain log').1 := by
  unfold start
  split <;> rfl

theorem ChainRead.receive_fst (chain : Chain) (path : Path) (text : Except Fault String)
    (log log' : Journal) :
    (receive chain path text log).1 = (receive chain path text log').1 := by
  unfold receive
  split
  · exact start_fst _ log log'
  · rfl

theorem Loading.resume_fst (home : Option Path) (layer : FileLayer) (load : Loading)
    (log log' : Journal) : (load.resume home layer log).1 = (load.resume home layer log').1 := by
  unfold resume
  split
  · split
    · exact congrArg extending (ChainRead.start_fst _ log log')
    · rfl
  · exact congrArg extending (ChainRead.receive_fst _ _ _ log log')
  · rfl

namespace Lookup

variable {layer : FileLayer} {q : Query} {r : Resolver} {dir : Path} {above : List Path}

theorem tryNames_eq (entries : List DirEntry) (names : List String) :
    tryNames q dir entries above names r =
      (nextName dir entries above names).outcome q dir above r := by
  induction names with
  | nil => rfl
  | cons name names ih =>
      rw [tryNames, nextName]
      cases hfind : entries.find? (·.name == name) with
      | none => exact ih
      | some entry =>
          obtain ⟨_, kind⟩ := entry
          cases kind with
          | file => rfl
          | link => rfl
          | directory => exact ih
          | other => exact ih

/-- A lookup in a directory takes the steps of the search, whatever it is for. -/
theorem resume_eq {l : Lookup} (h : l.place? = some (dir, above)) :
    ∃ log, l.resume q layer r = (l.probe layer r.home).outcome q dir above { r with log } := by
  cases l with
  | listing dir' above' =>
      obtain ⟨rfl, rfl⟩ : dir' = dir ∧ above' = above := by simpa [place?] using h
      refine ⟨r.log, ?_⟩
      rw [resume, probe]
      cases layer.list dir' with
      | ok entries => exact tryNames_eq entries configFileNames
      | error _ => rfl
  | following p path =>
      obtain ⟨rfl, rfl⟩ : p.dir = dir ∧ p.above = above := by simpa [place?] using h
      refine ⟨r.log, ?_⟩
      rw [resume, probe]
      cases layer.stat path with
      | ok kind =>
          cases kind with
          | file => rfl
          | directory => exact tryNames_eq p.entries p.names
          | link => exact tryNames_eq p.entries p.names
          | other => exact tryNames_eq p.entries p.names
      | error _ => exact tryNames_eq p.entries p.names
  | loading p path load =>
      obtain ⟨rfl, rfl⟩ : p.dir = dir ∧ p.above = above := by simpa [place?] using h
      rw [resume, probe, Loading.resume_fst r.home layer load {} r.log]
      dsimp only
      unfold afterLoading
      cases (load.resume r.home layer r.log).1.result? with
      | none => exact ⟨_, rfl⟩
      | some result =>
          cases result with
          | ok config => exact ⟨_, rfl⟩
          | error fault => exact ⟨_, tryNames_eq p.entries p.names⟩
  | settings => cases h
  | done => cases h

/-! ### The search stays where it is -/

theorem nextName_goesOn {entries : List DirEntry} {names : List String} {l : Lookup}
    (h : nextName dir entries above names = .goesOn l) :
    l.place? = some (dir, above) ∧ l.call?.isSome := by
  induction names with
  | nil => cases h
  | cons name names ih =>
      rw [nextName] at h
      split at h
      · cases h
        exact ⟨rfl, rfl⟩
      · cases h
        exact ⟨rfl, rfl⟩
      · exact ih h

theorem probe_goesOn {home : Option Path} {l l' : Lookup} (hplace : l.place? = some (dir, above))
    (h : l.probe layer home = .goesOn l') : l'.place? = some (dir, above) ∧ l'.call?.isSome := by
  cases l with
  | listing dir' above' =>
      obtain ⟨rfl, rfl⟩ : dir' = dir ∧ above' = above := by simpa [place?] using hplace
      rw [probe] at h
      split at h
      · exact nextName_goesOn h
      · cases h
  | following p path =>
      obtain ⟨rfl, rfl⟩ : p.dir = dir ∧ p.above = above := by simpa [place?] using hplace
      rw [probe] at h
      split at h
      · cases h
        exact ⟨rfl, rfl⟩
      · exact nextName_goesOn h
  | loading p path load =>
      obtain ⟨rfl, rfl⟩ : p.dir = dir ∧ p.above = above := by simpa [place?] using hplace
      rw [probe] at h
      split at h
      · next hresult =>
          cases h
          refine ⟨rfl, ?_⟩
          cases hload : (load.resume home layer {}).1 with
          | opening => rfl
          | extending read =>
              cases read with
              | waiting => rfl
              | done => simp [hload, Loading.result?] at hresult
          | failed => simp [hload, Loading.result?] at hresult
      · cases h
      · exact nextName_goesOn h
  | settings => cases hplace
  | done => cases hplace

/-! ### What the search comes to -/

/-- The search of a directory comes to an end with what it has. -/
inductive Finds (layer : FileLayer) (home : Option Path) : Lookup →
    Option (RuleConfig × Path) → Prop
  | now {l : Lookup} {found} (h : l.probe layer home = .ends found) : Finds layer home l found
  | later {l l' : Lookup} {found} (h : l.probe layer home = .goesOn l')
      (hrest : Finds layer home l' found) : Finds layer home l found

theorem Finds.unique {home : Option Path} {l : Lookup} {found found' : Option (RuleConfig × Path)}
    (h : Finds layer home l found) (h' : Finds layer home l found') : found = found' := by
  induction h with
  | now hends =>
      cases h' with
      | now hends' => exact ProbeStep.ends.inj (hends.symm.trans hends')
      | later hgoes _ =>
          rw [hends] at hgoes
          cases hgoes
  | later hgoes _ ih =>
      cases h' with
      | now hends =>
          rw [hgoes] at hends
          cases hends
      | later hgoes' hrest =>
          obtain rfl := ProbeStep.goesOn.inj (hgoes.symm.trans hgoes')
          exact ih hrest

end Lookup

/-! ### Two spellings of a directory -/

theorem ok_or_error_of_toOption {α : Type} {a b : Except Fault α} (h : a.toOption = b.toOption) :
    (∃ x, a = .ok x ∧ b = .ok x) ∨ ∃ fault fault', a = .error fault ∧ b = .error fault' := by
  cases a with
  | ok x =>
      cases b with
      | ok y =>
          obtain rfl : x = y := Option.some.inj h
          exact .inl ⟨x, rfl, rfl⟩
      | error _ => cases h
  | error fault =>
      cases b with
      | ok _ => cases h
      | error fault' => exact .inr ⟨fault, fault', rfl, rfl⟩

/-- For a directory and the configuration files in it, it does not matter how the path of the
directory is spelled. -/
structure FileLayer.IgnoresSpelling (layer : FileLayer) : Prop where
  list : ∀ dir dir' : Path, dir.same dir' → (layer.list dir).toOption = (layer.list dir').toOption
  stat : ∀ dir dir' : Path, dir.same dir' → ∀ name ∈ configFileNames,
    (layer.stat (dir.join ⟨name⟩)).toOption = (layer.stat (dir'.join ⟨name⟩)).toOption
  read : ∀ dir dir' : Path, dir.same dir' → ∀ name ∈ configFileNames,
    (layer.read (dir.join ⟨name⟩)).toOption = (layer.read (dir'.join ⟨name⟩)).toOption

/-- Two spellings of the path of a file. -/
structure FileLayer.Alike (layer : FileLayer) (path path' : Path) : Prop where
  components : path.components = path'.components
  stat : (layer.stat path).toOption = (layer.stat path').toOption
  read : (layer.read path).toOption = (layer.read path').toOption

/-- Two chains that differ in the spelling of the directory they go on from. -/
structure Chain.Alike (chain chain' : Chain) : Prop where
  places : chain.places = chain'.places
  base : chain.base.components = chain'.base.components
  visited : chain.visited = chain'.visited
  layers : chain.layers = chain'.layers

/-- Two loads of a file whose path is spelled in two ways. -/
inductive Loading.Alike (layer : FileLayer) : Loading → Loading → Prop
  | opening {path path' : Path} (h : layer.Alike path path') :
      Alike layer (opening path) (opening path')
  | waiting {chain chain' : Chain} (h : chain.Alike chain') (path : Path) :
      Alike layer (extending (.waiting chain path)) (extending (.waiting chain' path))
  | done (config : RuleConfig) : Alike layer (extending (.done config)) (extending (.done config))
  | failed (fault fault' : Fault) : Alike layer (failed fault) (failed fault')

/-- Two searches of a directory whose path is spelled in two ways. -/
inductive Lookup.Alike (layer : FileLayer) : Lookup → Lookup → Prop
  | listing {dir dir' : Path} (h : dir.components = dir'.components) (above above' : List Path) :
      Alike layer (listing dir above) (listing dir' above')
  | following {dir dir' path path' : Path} (hdir : dir.components = dir'.components)
      {names : List String} (hnames : names ⊆ configFileNames) (hpath : layer.Alike path path')
      (entries : List DirEntry) (above above' : List Path) :
      Alike layer (following ⟨dir, entries, names, above⟩ path)
        (following ⟨dir', entries, names, above'⟩ path')
  | loading {dir dir' path path' : Path} (hdir : dir.components = dir'.components)
      {names : List String} (hnames : names ⊆ configFileNames)
      (hpath : path.components = path'.components) {load load' : Loading}
      (hload : load.Alike layer load') (entries : List DirEntry) (above above' : List Path) :
      Alike layer (loading ⟨dir, entries, names, above⟩ path load)
        (loading ⟨dir', entries, names, above'⟩ path' load')

/-- Steps of two such searches. -/
inductive ProbeStep.Alike (layer : FileLayer) : ProbeStep → ProbeStep → Prop
  | goesOn {l l' : Lookup} (h : l.Alike layer l') : Alike layer (goesOn l) (goesOn l')
  | ends {found found' : Option (RuleConfig × Path)} (h : SameFound found found') :
      Alike layer (ends found) (ends found')

variable {layer : FileLayer}

theorem FileLayer.IgnoresSpelling.alike (h : layer.IgnoresSpelling) {dir dir' : Path}
    (hdir : dir.components = dir'.components) {name : String} (hname : name ∈ configFileNames) :
    layer.Alike (dir.join ⟨name⟩) (dir'.join ⟨name⟩) := by
  have hsame : dir.same dir' = true := by simp [Path.same, hdir]
  exact ⟨Path.components_join_congr hdir ⟨name⟩, h.stat dir dir' hsame name hname,
    h.read dir dir' hsame name hname⟩

theorem RuleConfig.parse_congr {path path' : Path} (h : path.components = path'.components)
    (text : String) : (parse path text).toOption = (parse path' text).toOption := by
  have hnested : isNested path = isNested path' := by
    unfold isNested
    rw [Path.fileName?_congr h]
  have hpart : ∀ value, rulesPart path value = rulesPart path' value := by
    intro value
    unfold rulesPart
    rw [hnested]
  unfold parse
  split
  · rfl
  · rw [hpart]
    split <;> rfl

/-- Two spellings of a file hold the same configuration, or both none. -/
theorem FileLayer.Alike.readConfig {path path' : Path} (h : layer.Alike path path') :
    ((layer.read path).bind (RuleConfig.parse path)).toOption =
      ((layer.read path').bind (RuleConfig.parse path')).toOption := by
  rcases ok_or_error_of_toOption h.read with ⟨text, htext, htext'⟩ | ⟨fault, fault', htext, htext'⟩
  · rw [htext, htext']
    exact RuleConfig.parse_congr h.components text
  · rw [htext, htext']
    rfl

theorem Chain.Alike.config_eq {chain chain' : Chain} (h : chain.Alike chain') :
    chain.config = chain'.config := by
  unfold config
  rw [h.layers]

theorem Chain.Alike.start {chain chain' : Chain} (h : chain.Alike chain') (log : Journal) :
    (Loading.extending (ChainRead.start chain log).1).Alike layer
      (.extending (ChainRead.start chain' log).1) := by
  have htarget : chain.target? = chain'.target? := by
    unfold target?
    rw [h.layers, h.places]
    split
    · next target _ =>
        exact congrArg some (Path.normalize_congr (Path.components_join_congr h.base _))
    · rfl
  have hnext : chain.next = chain'.next := by
    unfold next
    rw [htarget, h.visited]
  unfold ChainRead.start
  rw [hnext, h.config_eq]
  split
  · exact .done _
  · exact .done _
  · next path _ => exact .waiting h path

theorem Chain.Alike.receive {chain chain' : Chain} (h : chain.Alike chain') (path : Path)
    (text : Except Fault String) (log : Journal) :
    (Loading.extending (ChainRead.receive chain path text log).1).Alike layer
      (.extending (ChainRead.receive chain' path text log).1) := by
  unfold ChainRead.receive
  split
  · next config _ =>
      have hnext : (chain.extend path config).Alike (chain'.extend path config) :=
        ⟨h.places, rfl, congrArg (path :: ·) h.visited, congrArg (config :: ·) h.layers⟩
      exact hnext.start log
  · rw [h.config_eq]
    exact .done _

theorem Loading.resume_opening_ok {path : Path} {config : RuleConfig}
    (h : (layer.read path).bind (RuleConfig.parse path) = .ok config) (home : Option Path)
    (log : Journal) :
    ((opening path).resume home layer log).1 = extending (ChainRead.start
      ⟨{ home }, path.parent?.getD ⟨""⟩, [path.normalize], [config]⟩ log).1 := by
  simp only [resume, h]

theorem Loading.resume_opening_error {path : Path} {fault : Fault}
    (h : (layer.read path).bind (RuleConfig.parse path) = .error fault) (home : Option Path)
    (log : Journal) : ((opening path).resume home layer log).1 = failed fault := by
  simp only [resume, h]

theorem Loading.Alike.resume (home : Option Path) {load load' : Loading}
    (h : load.Alike layer load') (log : Journal) :
    (load.resume home layer log).1.Alike layer (load'.resume home layer log).1 := by
  cases h with
  | @opening path path' hpath =>
      rcases ok_or_error_of_toOption hpath.readConfig with
        ⟨config, hread, hread'⟩ | ⟨fault, fault', hread, hread'⟩
      · rw [resume_opening_ok hread, resume_opening_ok hread']
        apply Chain.Alike.start
        refine ⟨rfl, ?_, ?_, rfl⟩
        · rw [Path.components_parent, Path.components_parent, hpath.components]
        · rw [Path.normalize_congr hpath.components]
      · rw [resume_opening_error hread, resume_opening_error hread']
        exact .failed fault fault'
  | waiting hchain path => exact hchain.receive path (layer.read path) log
  | done config => exact .done config
  | failed fault fault' => exact .failed fault fault'

theorem Lookup.nextName_alike (hlayer : layer.IgnoresSpelling) {dir dir' : Path}
    (hdir : dir.components = dir'.components) (entries : List DirEntry) (above above' : List Path)
    {names : List String} (hnames : names ⊆ configFileNames) :
    (nextName dir entries above names).Alike layer (nextName dir' entries above' names) := by
  induction names with
  | nil => exact .ends rfl
  | cons name names ih =>
      have hrest : names ⊆ configFileNames := fun n hn => hnames (by simp [hn])
      have hpath := hlayer.alike hdir (hnames List.mem_cons_self)
      rw [nextName, nextName]
      split
      · exact .goesOn (.loading hdir hrest hpath.components (.opening hpath) entries above above')
      · exact .goesOn (.following hdir hrest hpath entries above above')
      · exact ih hrest

theorem Lookup.probe_of_file {home : Option Path} {p : Probe} {path : Path}
    (h : (layer.stat path).toOption = some .file) :
    (following p path).probe layer home = .goesOn (loading p path (.opening path)) := by
  cases hstat : layer.stat path with
  | ok kind =>
      obtain rfl : kind = .file := by simpa [hstat, Except.toOption] using h
      simp only [probe, hstat]
  | error _ => simp [hstat, Except.toOption] at h

theorem Lookup.probe_of_other {home : Option Path} {p : Probe} {path : Path}
    (h : (layer.stat path).toOption ≠ some .file) :
    (following p path).probe layer home = nextName p.dir p.entries p.above p.names := by
  rw [probe]
  split
  · next hstat => simp [hstat, Except.toOption] at h
  · rfl

theorem Lookup.Alike.probe (hlayer : layer.IgnoresSpelling) (home : Option Path) {l l' : Lookup}
    (h : l.Alike layer l') : (l.probe layer home).Alike layer (l'.probe layer home) := by
  cases h with
  | @listing dir dir' hdir above above' =>
      have hlist := hlayer.list dir dir' (by simp [Path.same, hdir])
      rcases ok_or_error_of_toOption hlist with ⟨entries, h, h'⟩ | ⟨fault, fault', h, h'⟩
      · simp only [Lookup.probe, h, h']
        exact nextName_alike hlayer hdir entries above above' (List.Subset.refl _)
      · simp only [Lookup.probe, h, h']
        exact .ends rfl
  | @following dir dir' path path' hdir names hnames hpath entries above above' =>
      have hstat := hpath.stat
      have hnext := nextName_alike hlayer hdir entries above above' hnames
      have hload : (Lookup.loading ⟨dir, entries, names, above⟩ path (.opening path)).Alike layer
          (.loading ⟨dir', entries, names, above'⟩ path' (.opening path')) :=
        .loading hdir hnames hpath.components (.opening hpath) entries above above'
      by_cases hfile : (layer.stat path).toOption = some .file
      · rw [Lookup.probe_of_file hfile, Lookup.probe_of_file (hstat ▸ hfile)]
        exact .goesOn hload
      · rw [Lookup.probe_of_other hfile, Lookup.probe_of_other (hstat ▸ hfile)]
        exact hnext
  | @loading dir dir' path path' hdir names hnames hpath load load' hload entries above above' =>
      have hnext := nextName_alike hlayer hdir entries above above' hnames
      have hresume := hload.resume home {}
      simp only [Lookup.probe]
      generalize (load.resume home layer {}).1 = next at hresume ⊢
      generalize (load'.resume home layer {}).1 = next' at hresume ⊢
      cases hresume with
      | opening hpath' =>
          exact .goesOn (.loading hdir hnames hpath (.opening hpath') entries above above')
      | waiting hchain file =>
          exact .goesOn (.loading hdir hnames hpath (.waiting hchain file) entries above above')
      | done config =>
          refine .ends ?_
          simp [SameFound, hpath]
      | failed => exact hnext

/-- Two searches of a directory find the same. -/
theorem Lookup.Finds.alike (hlayer : layer.IgnoresSpelling) {home : Option Path} {l l' : Lookup}
    {found : Option (RuleConfig × Path)} (h : Finds layer home l found) (hl : l.Alike layer l') :
    ∃ found', Finds layer home l' found' ∧ SameFound found found' := by
  induction h generalizing l' with
  | now hends =>
      have hstep := hl.probe hlayer home
      rw [hends] at hstep
      cases hends' : l'.probe layer home with
      | goesOn => rw [hends'] at hstep; cases hstep
      | ends found' =>
          rw [hends'] at hstep
          cases hstep with
          | ends hsame => exact ⟨found', .now hends', hsame⟩
  | later hgoes _ ih =>
      have hstep := hl.probe hlayer home
      rw [hgoes] at hstep
      cases hgoes' : l'.probe layer home with
      | ends => rw [hgoes'] at hstep; cases hstep
      | goesOn next =>
          rw [hgoes'] at hstep
          cases hstep with
          | goesOn hnext =>
              obtain ⟨found', hfinds, hsame⟩ := ih hnext
              exact ⟨found', .later hgoes' hfinds, hsame⟩

end LintDesk
