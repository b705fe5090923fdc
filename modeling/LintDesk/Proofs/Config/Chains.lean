import LintDesk.Config.Resolve
import LintDesk.Proofs.Config.Formats
import LintDesk.Proofs.Config.Probing
import LintDesk.Proofs.Files.Reach
import Mathlib.Data.Set.Card

/-! # Chains of configurations

A configuration builds on a file, which may build on another one, and so on. Over finitely many
files every such chain ends, however the files refer to each other: no path is read twice. The
result has for each key what the configuration says that is nearest to the start of the chain
(`FileLayer.IsFinite.chains_expand`).
-/

namespace LintDesk

/-- The configuration in a file by itself. -/
def FileLayer.config (layer : FileLayer) (path : Path) : Except Fault RuleConfig :=
  (layer.read path).bind (RuleConfig.parse path)

/-- The path that a configuration in the directory `dir` builds on. -/
def RuleConfig.basePath? (places : Places) (dir : Path) (config : RuleConfig) : Option Path :=
  match Dict.find? extendsKey config with
  | some (.str target) => some (dir.join (places.expand target)).normalize
  | _ => none

/-- How a configuration builds on the files of a layer, where the paths in `seen` do not count
again: `links` are the files it is extended by, one after the other, with what they hold, and `last`
is the file that ends the chain because it cannot be used. -/
inductive Linked (layer : FileLayer) (places : Places) : Path → RuleConfig → (seen : List Path) →
    (links : List (Path × RuleConfig)) → (last : Option Path) → Prop
  /-- Nothing more is named. -/
  | finished {dir : Path} {config : RuleConfig} {seen : List Path}
      (hbase : config.basePath? places dir = none) : Linked layer places dir config seen [] none
  /-- What is named was visited already. -/
  | circular {dir path : Path} {config : RuleConfig} {seen : List Path}
      (hbase : config.basePath? places dir = some path) (hseen : ∃ p ∈ seen, p.same path) :
      Linked layer places dir config seen [] none
  /-- What is named cannot be read, or is no configuration. -/
  | broken {dir path : Path} {config : RuleConfig} {seen : List Path} {fault : Fault}
      (hbase : config.basePath? places dir = some path) (hfresh : ∀ p ∈ seen, p.same path = false)
      (hconfig : layer.config path = .error fault) :
      Linked layer places dir config seen [] (some path)
  | link {dir path : Path} {config next : RuleConfig} {seen : List Path}
      {links : List (Path × RuleConfig)} {last : Option Path}
      (hbase : config.basePath? places dir = some path) (hfresh : ∀ p ∈ seen, p.same path = false)
      (hconfig : layer.config path = .ok next)
      (hrest : Linked layer places (path.parent?.getD ⟨""⟩) next (path :: seen) links last) :
      Linked layer places dir config seen ((path, next) :: links) last

/-- Reads a chain to its end, if `fuel` calls are enough. -/
def Chain.run (layer : FileLayer) (fuel : Nat) (chain : Chain) (log : Journal) :
    List FileCall × Option (Except Fault RuleConfig) :=
  let (read, log) := ChainRead.start chain log
  let (calls, load, _) := (Loading.extending read).run none layer fuel log
  (calls, load.result?)

/-- However many calls are made, the chain is not read to its end. -/
def Chain.IsEndless (layer : FileLayer) (chain : Chain) : Prop :=
  ∀ fuel, (chain.run layer fuel {}).2 = none

/-- The paths that a chain reads. -/
def readsOf (links : List (Path × RuleConfig)) (last : Option Path) : List Path :=
  links.map (·.1) ++ last.toList

/-- Normal paths that are read once, and not those that were seen before. -/
structure ReadOnce (seen reads : List Path) : Prop where
  normal : ∀ p ∈ reads, p.normalize = p
  fresh : ∀ p ∈ reads, ∀ s ∈ seen, s.same p = false
  distinct : reads.Pairwise fun p p' => p.same p' = false

/-- A map without the key for its base, in which every other key has its value in the first of some
configurations that has the key. -/
structure RuleConfig.TakesNearest (configs : List RuleConfig) (result : RuleConfig) : Prop where
  sorted : Dict.Sorted result
  extends_eq : Dict.find? extendsKey result = none
  nearest : ∀ key ≠ extendsKey, Dict.find? key result = configs.findSome? (Dict.find? key)

/-! ### Loads that come to their end -/

namespace Loading

/-- A load makes some calls and comes to a result. -/
inductive Comes (layer : FileLayer) (home : Option Path) : Loading → List FileCall →
    Except Fault RuleConfig → Prop
  | now {load : Loading} {result} (h : load.result? = some result) : Comes layer home load [] result
  | later {load : Loading} {call : FileCall} {calls : List FileCall} {result}
      (hcall : load.call? = some call)
      (hrest : Comes layer home (load.resume home layer {}).1 calls result) :
      Comes layer home load (call :: calls) result

variable {layer : FileLayer} {home : Option Path} {load : Loading} {calls : List FileCall}
  {result : Except Fault RuleConfig}

theorem call?_of_result (h : load.result? = some result) : load.call? = none := by
  cases load with
  | opening => cases h
  | extending read =>
      cases read with
      | waiting => cases h
      | done => rfl
  | failed => rfl

theorem resume_of_idle (h : load.call? = none) (home : Option Path) (layer : FileLayer)
    (log : Journal) : load.resume home layer log = (load, log) := by
  cases load with
  | opening => cases h
  | extending read =>
      cases read with
      | waiting => cases h
      | done => rfl
  | failed => rfl

theorem Comes.run (h : load.Comes layer home calls result) {fuel : Nat}
    (hfuel : calls.length ≤ fuel) (log : Journal) : ∃ load' log',
      load.run home layer fuel log = (calls, load', log') ∧ load'.result? = some result := by
  induction h generalizing fuel log with
  | @now load _ hresult =>
      refine ⟨load, log, ?_, hresult⟩
      cases fuel with
      | zero => rfl
      | succ fuel => simp only [Loading.run, call?_of_result hresult]
  | @later load call calls _ hcall _ ih =>
      obtain ⟨fuel, rfl⟩ : ∃ n, fuel = n + 1 := ⟨fuel - 1, by simp at hfuel; omega⟩
      rw [resume_fst home layer load {} log] at ih
      obtain ⟨load', log', hrun, hresult⟩ :=
        ih (by simpa using hfuel) (load.resume home layer log).2
      exact ⟨load', log', by simp only [Loading.run, hcall, hrun], hresult⟩

theorem comes_of_run {fuel : Nat} {log log' : Journal} {load' : Loading}
    (h : load.run home layer fuel log = (calls, load', log'))
    (hresult : load'.result? = some result) : load.Comes layer home calls result := by
  induction fuel generalizing load log calls with
  | zero =>
      cases h
      exact .now hresult
  | succ fuel ih =>
      rw [Loading.run] at h
      cases hcall : load.call? with
      | none =>
          rw [hcall] at h
          cases h
          exact .now hresult
      | some call =>
          rw [hcall] at h
          rcases hrest : (load.resume home layer log).1.run home layer fuel
            (load.resume home layer log).2 with ⟨calls', load₁, log₁⟩
          simp only [hrest] at h
          obtain ⟨rfl, rfl, rfl⟩ : call :: calls' = calls ∧ load₁ = load' ∧ log₁ = log' := by
            simpa using h
          rw [resume_fst home layer load log {}] at hrest
          exact .later hcall (ih hrest)

/-- Induction along a chain that comes to its end. -/
theorem Comes.chain_induction {motive : ChainRead → List FileCall → RuleConfig → Prop}
    (done : ∀ config, motive (.done config) [] config)
    (waiting : ∀ chain path calls config,
      motive (ChainRead.receive chain path (layer.read path) {}).1 calls config →
        motive (.waiting chain path) (.read path :: calls) config)
    {read : ChainRead} (h : (extending read).Comes layer home calls result) :
    ∃ config, result = .ok config ∧ motive read calls config := by
  generalize hload : extending read = load at h
  induction h generalizing read with
  | now hresult =>
      subst hload
      cases read with
      | waiting => cases hresult
      | done config => exact ⟨config, (Option.some.inj hresult).symm, done config⟩
  | later hcall _ ih =>
      subst hload
      cases read with
      | waiting chain path =>
          obtain rfl := Option.some.inj hcall
          obtain ⟨config, hconfig, hrest⟩ := ih rfl
          exact ⟨config, hconfig, waiting chain path _ config hrest⟩
      | done => cases hcall

/-- What a chain comes to is a configuration and does not depend on the home directory: short forms
get their meaning from the chain. -/
theorem Comes.exists_ok {read : ChainRead} (h : (extending read).Comes layer home calls result)
    (home' : Option Path) :
    ∃ config, result = .ok config ∧ (extending read).Comes layer home' calls (.ok config) :=
  chain_induction
    (motive := fun read calls config => (extending read).Comes layer home' calls (.ok config))
    (fun _ => .now rfl) (fun _ _ _ _ hrest => .later rfl hrest) h

/-- A file that can be used is loaded with its chain. -/
theorem comes_opening {path : Path} {config : RuleConfig} (hconfig : layer.config path = .ok config)
    (hchain : (extending (ChainRead.start
      ⟨{ home }, path.parent?.getD ⟨""⟩, [path.normalize], [config]⟩ {}).1).Comes
        layer home calls result) :
    (opening path).Comes layer home (.read path :: calls) result := by
  refine .later rfl ?_
  rw [resume_opening_ok hconfig]
  exact hchain

end Loading

theorem Chain.run_of_comes {layer : FileLayer} {chain : Chain} {calls : List FileCall}
    {result : Except Fault RuleConfig}
    (h : (Loading.extending (ChainRead.start chain {}).1).Comes layer none calls result)
    {fuel : Nat} (hfuel : calls.length ≤ fuel) (log : Journal) :
    chain.run layer fuel log = (calls, some result) := by
  rw [ChainRead.start_fst chain {} log] at h
  obtain ⟨load, log', hrun, hresult⟩ := h.run hfuel (ChainRead.start chain log).2
  simp only [run, hrun, hresult]

/-- A chain that is not endless comes to a configuration. -/
theorem Chain.exists_comes {layer : FileLayer} {chain : Chain} (h : ¬chain.IsEndless layer)
    (home : Option Path) : ∃ calls result,
      (Loading.extending (ChainRead.start chain {}).1).Comes layer home calls (.ok result) := by
  obtain ⟨fuel, hfuel⟩ := not_forall.mp h
  obtain ⟨result, hresult⟩ := Option.ne_none_iff_exists'.mp hfuel
  rcases hrun : (Loading.extending (ChainRead.start chain {}).1).run none layer fuel
    (ChainRead.start chain {}).2 with ⟨calls, load, log⟩
  simp only [run, hrun] at hresult
  obtain ⟨config, -, hcomes⟩ := (Loading.comes_of_run hrun hresult).exists_ok home
  exact ⟨calls, config, hcomes⟩

theorem Resolver.loadFile_of_comes {layer : FileLayer} {r : Resolver} {path : Path}
    {calls : List FileCall} {result : Except Fault RuleConfig}
    (h : (Loading.opening path).Comes layer r.home calls result) {fuel : Nat}
    (hfuel : calls.length ≤ fuel) :
    ∃ r', r.loadFile fuel layer path = (calls, some result, r') := by
  obtain ⟨load, log, hrun, hresult⟩ := h.run hfuel r.log
  exact ⟨{ r with log }, by simp only [loadFile, hrun, hresult]⟩

/-! ### Chains as they are read -/

variable {layer : FileLayer} {places : Places} {dir path : Path} {config : RuleConfig}
  {seen : List Path} {links : List (Path × RuleConfig)} {last : Option Path}

theorem Chain.target?_eq (below : List RuleConfig) :
    target? ⟨places, dir, seen, config :: below⟩ = config.basePath? places dir := rfl

theorem Chain.next_eq_read (hbase : config.basePath? places dir = some path)
    (hfresh : ∀ p ∈ seen, p.same path = false) (below : List RuleConfig) :
    next ⟨places, dir, seen, config :: below⟩ = .read path := by
  have hany : seen.any (·.same path) = false := by simpa using hfresh
  simp only [next, target?_eq, hbase, hany]
  rfl

/-- A chain is read as the files are linked. -/
theorem Linked.comes (h : Linked layer places dir config seen links last) (home : Option Path)
    (below : List RuleConfig) :
    (Loading.extending (ChainRead.start ⟨places, dir, seen, config :: below⟩ {}).1).Comes layer home
      ((readsOf links last).map .read)
      (.ok (Chain.config ⟨places, dir, seen, (links.map (·.2)).reverse ++ config :: below⟩)) := by
  induction h generalizing below with
  | finished hbase =>
      apply Loading.Comes.now
      simp [ChainRead.start, Chain.next, Chain.target?_eq, hbase, Loading.result?, Chain.config]
  | circular hbase hseen =>
      have hany := List.any_eq_true.mpr hseen
      apply Loading.Comes.now
      simp [ChainRead.start, Chain.next, Chain.target?_eq, hbase, hany, Loading.result?,
        Chain.config]
  | @broken dir path config seen fault hbase hfresh hconfig =>
      change (layer.read path).bind (RuleConfig.parse path) = _ at hconfig
      simp only [ChainRead.start, Chain.next_eq_read hbase hfresh]
      refine .later rfl (.now ?_)
      simp [Loading.resume, ChainRead.receive, hconfig, Loading.result?, Chain.config]
  | @link dir path config next seen links last hbase hfresh hconfig _ ih =>
      change (layer.read path).bind (RuleConfig.parse path) = _ at hconfig
      simp only [ChainRead.start, Chain.next_eq_read hbase hfresh]
      refine .later rfl ?_
      simp only [Loading.resume, ChainRead.receive, hconfig, Chain.extend]
      simpa [Chain.config, readsOf] using ih (config :: below)

/-- What a chain is extended by is determined by the files. -/
theorem Linked.unique {links' : List (Path × RuleConfig)} {last' : Option Path}
    (h : Linked layer places dir config seen links last)
    (h' : Linked layer places dir config seen links' last') : links = links' ∧ last = last' := by
  induction h generalizing links' last' with
  | finished hbase => cases h' <;> simp_all
  | circular hbase hseen => cases h' <;> grind
  | broken hbase hfresh hconfig => cases h' <;> grind
  | link hbase hfresh hconfig _ ih => cases h' <;> grind

/-! ### Every chain ends -/

theorem RuleConfig.normalize_of_basePath (h : config.basePath? places dir = some path) :
    path.normalize = path := by
  unfold basePath? at h
  split at h
  · cases h
    exact Path.normalize_normalize _
  · cases h

theorem FileLayer.exists_read_of_config (h : layer.config path = .ok config) :
    ∃ text, layer.read path = .ok text ∧ RuleConfig.parse path text = .ok config := by
  unfold FileLayer.config at h
  cases hread : layer.read path with
  | ok text =>
      rw [hread] at h
      exact ⟨text, rfl, h⟩
  | error fault =>
      rw [hread] at h
      cases h

/-- The files that normal paths lead to, but for some paths. -/
def FileLayer.unread (layer : FileLayer) (seen : List Path) : Set (List Component) :=
  layer.normalFiles \ {cs | ∃ path ∈ seen, path.components = cs}

/-- With every file that is read there are fewer files to read. -/
theorem FileLayer.IsFinite.unread_cons_lt (hfinite : layer.IsFinite) {text : String}
    (hnormal : path.normalize = path) (hfresh : ∀ p ∈ seen, p.same path = false)
    (hread : layer.read path = .ok text) :
    (layer.unread (path :: seen)).ncard < (layer.unread seen).ncard := by
  refine Set.ncard_lt_ncard ?_ (hfinite.subset Set.sdiff_subset)
  rw [Set.ssubset_iff_of_subset]
  · refine ⟨path.components, ⟨⟨path, by rw [hnormal], text, by rw [hnormal, hread]⟩, ?_⟩, ?_⟩
    · rintro ⟨p, hp, heq⟩
      simpa [Path.same, heq] using hfresh p hp
    · rintro ⟨-, hunread⟩
      exact hunread ⟨path, List.mem_cons_self, rfl⟩
  · rintro cs ⟨hfile, hunread⟩
    refine ⟨hfile, ?_⟩
    rintro ⟨p, hp, heq⟩
    exact hunread ⟨p, List.mem_cons_of_mem path hp, heq⟩

theorem FileLayer.IsFinite.exists_linked (hfinite : layer.IsFinite) (places : Places) (dir : Path)
    (config : RuleConfig) (seen : List Path) :
    ∃ links last, Linked layer places dir config seen links last := by
  induction hunread : (layer.unread seen).ncard using Nat.strong_induction_on
    generalizing dir config seen with
  | _ n ih =>
    cases hbase : config.basePath? places dir with
    | none => exact ⟨[], _, .finished hbase⟩
    | some path =>
        by_cases hseen : ∃ p ∈ seen, p.same path
        · exact ⟨[], _, .circular hbase hseen⟩
        · have hfresh : ∀ p ∈ seen, p.same path = false := by simpa using hseen
          cases hconfig : layer.config path with
          | error fault => exact ⟨[], _, .broken hbase hfresh hconfig⟩
          | ok next =>
              obtain ⟨text, hread, -⟩ := exists_read_of_config hconfig
              have hless : (layer.unread (path :: seen)).ncard < n := by
                rw [← hunread]
                exact hfinite.unread_cons_lt (RuleConfig.normalize_of_basePath hbase) hfresh hread
              obtain ⟨links, last, hlinked⟩ := ih _ hless _ next (path :: seen) rfl
              exact ⟨_, last, .link hbase hfresh hconfig hlinked⟩

/-- Over finitely many files every chain ends. -/
theorem FileLayer.IsFinite.not_isEndless (hfinite : layer.IsFinite) (chain : Chain) :
    ¬chain.IsEndless layer := by
  obtain ⟨places, dir, seen, layers⟩ := chain
  cases layers with
  | nil => exact not_forall.mpr ⟨0, nofun⟩
  | cons config below =>
      obtain ⟨links, last, hlinked⟩ := hfinite.exists_linked places dir config seen
      have hrun := Chain.run_of_comes (hlinked.comes _ below) (Nat.le_refl _) {}
      exact not_forall.mpr ⟨_, by rw [hrun]; nofun⟩

/-- If chains end, a file is loaded with its chain, or it cannot be. -/
theorem FileLayer.exists_comes_opening (hends : ∀ chain : Chain, ¬chain.IsEndless layer)
    (home : Option Path) (path : Path) :
    ∃ calls result, (Loading.opening path).Comes layer home calls result := by
  cases hconfig : layer.config path with
  | ok config =>
      obtain ⟨calls, result, hcomes⟩ := Chain.exists_comes
        (hends ⟨{ home }, path.parent?.getD ⟨""⟩, [path.normalize], [config]⟩) home
      exact ⟨_, _, Loading.comes_opening hconfig hcomes⟩
  | error fault =>
      refine ⟨_, .error fault, .later rfl (.now ?_)⟩
      rw [Loading.resume_opening_error hconfig]
      rfl

/-! ### What is read -/

theorem Linked.readOnce (h : Linked layer places dir config seen links last) :
    ReadOnce seen (readsOf links last) := by
  induction h with
  | finished => exact ⟨by simp [readsOf], by simp [readsOf], by simp [readsOf]⟩
  | circular => exact ⟨by simp [readsOf], by simp [readsOf], by simp [readsOf]⟩
  | broken hbase hfresh =>
      have hnormal := RuleConfig.normalize_of_basePath hbase
      exact ⟨by simpa [readsOf] using hnormal, by simpa [readsOf] using hfresh, by simp [readsOf]⟩
  | @link dir path config next seen links last hbase hfresh hconfig _ ih =>
      have hreads : readsOf ((path, next) :: links) last = path :: readsOf links last := rfl
      rw [hreads]
      refine ⟨List.forall_mem_cons.mpr ⟨RuleConfig.normalize_of_basePath hbase, ih.normal⟩,
        List.forall_mem_cons.mpr ⟨hfresh, fun p hp s hs => ?_⟩,
        List.pairwise_cons.mpr ⟨fun p hp => ?_, ih.distinct⟩⟩
      · exact ih.fresh p hp s (List.mem_cons_of_mem path hs)
      · exact ih.fresh p hp path List.mem_cons_self

theorem Linked.sorted (h : Linked layer places dir config seen links last) :
    ∀ link ∈ links, Dict.Sorted link.2 := by
  induction h with
  | finished => simp
  | circular => simp
  | broken => simp
  | link _ _ hconfig _ ih =>
      obtain ⟨text, -, hparse⟩ := FileLayer.exists_read_of_config hconfig
      exact List.forall_mem_cons.mpr ⟨RuleConfig.parse_sorted hparse, ih⟩

/-! ### What comes of it -/

theorem RuleConfig.value_foldl_merge {configs : List RuleConfig}
    (hconfigs : ∀ config ∈ configs, Dict.Sorted config) (base : RuleConfig) (key : String) :
    Dict.find? key (configs.foldl merge base) =
      (configs.reverse.findSome? (Dict.find? key)).or (Dict.find? key base) := by
  induction configs generalizing base with
  | nil => rfl
  | cons config configs ih =>
      obtain ⟨hconfig, hrest⟩ := List.forall_mem_cons.mp hconfigs
      rw [List.foldl_cons, ih hrest, merge, Dict.value_override hconfig, List.reverse_cons,
        List.findSome?_append, Option.or_assoc]
      congr 1
      simp

theorem RuleConfig.sorted_foldl_merge {base : RuleConfig} (hbase : Dict.Sorted base)
    (configs : List RuleConfig) : Dict.Sorted (configs.foldl merge base) := by
  induction configs generalizing base with
  | nil => exact hbase
  | cons config configs ih => exact ih (hbase.override config)

/-- The layers of a chain are stacked with the nearest on top. -/
theorem Chain.takesNearest (chain : Chain) (h : ∀ config ∈ chain.layers, Dict.Sorted config) :
    chain.config.TakesNearest chain.layers.reverse := by
  refine ⟨(RuleConfig.sorted_foldl_merge .nil chain.layers).erase _, ?_, fun key hkey => ?_⟩
  · rw [config, Dict.value_erase, if_pos rfl]
  · rw [config, Dict.value_erase, if_neg hkey, RuleConfig.value_foldl_merge h]
    exact Option.or_none

theorem Linked.takesNearest (h : Linked layer places dir config seen links last)
    (hconfig : Dict.Sorted config) :
    (Chain.config ⟨places, dir, seen, (links.map (·.2)).reverse ++ [config]⟩).TakesNearest
      (config :: links.map (·.2)) := by
  have hlayers : ∀ other ∈ (links.map (·.2)).reverse ++ [config], Dict.Sorted other := by
    intro other hother
    rcases List.mem_append.mp hother with hother | hother
    · obtain ⟨link, hlink, rfl⟩ := List.mem_map.mp (List.mem_reverse.mp hother)
      exact h.sorted link hlink
    · rwa [List.mem_singleton.mp hother]
  simpa using Chain.takesNearest ⟨places, dir, seen, (links.map (·.2)).reverse ++ [config]⟩ hlayers

/-- Over finitely many files a configuration is read with its whole chain, however the files refer
to each other. The chain ends where nothing is named, and at the first file that was visited or
cannot be used; what it was extended by is read once, the file that the load starts from never
again; and the result takes each value from where it is nearest. -/
theorem FileLayer.IsFinite.chains_expand (hfinite : layer.IsFinite) :
    (∀ (places : Places) (dir : Path) (seen : List Path) (config : RuleConfig),
      Dict.Sorted config → ∃ links last result,
        Linked layer places dir config seen links last ∧
        ReadOnce seen (readsOf links last) ∧
        result.TakesNearest (config :: links.map (·.2)) ∧
        ∀ log fuel, (readsOf links last).length ≤ fuel →
          Chain.run layer fuel ⟨places, dir, seen, [config]⟩ log =
            ((readsOf links last).map .read, some (.ok result))) ∧
    ∀ (r : Resolver) (path : Path) (config : RuleConfig), layer.config path = .ok config →
      ∃ links last result,
        Linked layer { home := r.home } (path.parent?.getD ⟨""⟩) config [path.normalize]
          links last ∧
        ReadOnce [path.normalize] (readsOf links last) ∧
        (∀ p ∈ readsOf links last, p.same path = false) ∧
        result.TakesNearest (config :: links.map (·.2)) ∧
        ∀ fuel, (readsOf links last).length < fuel → ∃ r', r.loadFile fuel layer path =
          (.read path :: (readsOf links last).map .read, some (.ok result), r') := by
  constructor
  · intro places dir seen config hconfig
    obtain ⟨links, last, hlinked⟩ := hfinite.exists_linked places dir config seen
    exact ⟨links, last, _, hlinked, hlinked.readOnce, hlinked.takesNearest hconfig,
      fun log fuel hfuel => Chain.run_of_comes (hlinked.comes _ []) (by simpa using hfuel) log⟩
  · intro r path config hconfig
    obtain ⟨text, -, hparse⟩ := exists_read_of_config hconfig
    obtain ⟨links, last, hlinked⟩ := hfinite.exists_linked { home := r.home }
      (path.parent?.getD ⟨""⟩) config [path.normalize]
    refine ⟨links, last, _, hlinked, hlinked.readOnce, fun p hp => ?_,
      hlinked.takesNearest (RuleConfig.parse_sorted hparse), fun fuel hfuel => ?_⟩
    · -- a normal path that is the same as the start is the normal form of the start
      have hfresh := hlinked.readOnce.fresh p hp path.normalize List.mem_cons_self
      by_contra hsame
      have hcomponents : p.components = path.components := by simpa [Path.same] using hsame
      rw [← Path.normalize_congr hcomponents, hlinked.readOnce.normal p hp] at hfresh
      simp [Path.same] at hfresh
    · exact Resolver.loadFile_of_comes
        (Loading.comes_opening hconfig (hlinked.comes r.home [])) (by simpa using hfuel)

/-! ### Two files that build on each other -/

/-- Two files in one directory. -/
def mutualFiles (text text' : String) : MemoryFiles where
  nodes := [([.root, .name "a"], .file text 0), ([.root, .name "b"], .file text' 0)]

theorem config_mutualFiles {text text' : String} {fields fields' : RuleConfig}
    (htext : Json.Lenient.parse? text = some (.obj fields))
    (htext' : Json.Lenient.parse? text' = some (.obj fields')) :
    (mutualFiles text text').layer.config ⟨"/a"⟩ = .ok fields ∧
      (mutualFiles text text').layer.config ⟨"/b"⟩ = .ok fields' := by
  have hread : (mutualFiles text text').layer.read ⟨"/a"⟩ = .ok text := rfl
  have hread' : (mutualFiles text text').layer.read ⟨"/b"⟩ = .ok text' := rfl
  rw [FileLayer.config, FileLayer.config, hread, hread']
  exact ⟨RuleConfig.parse_of_lenient rfl htext, RuleConfig.parse_of_lenient rfl htext'⟩

/-- Of two files that build on each other each is read once, and the one that is loaded wins. -/
theorem chains_expand_of_mutual : ∃ (m : MemoryFiles) (result : RuleConfig) (r : Resolver),
    m.layer.IsFinite ∧
    Resolver.loadFile {} 2 m.layer ⟨"/a"⟩ =
      ([.read ⟨"/a"⟩, .read ⟨"/b"⟩], some (.ok result), r) ∧
    Dict.find? "A" result = some (.bool false) ∧ Dict.find? "extends" result = none := by
  obtain ⟨text, htext⟩ : ∃ text, Json.Lenient.parse? text =
      some (.obj [("A", .bool false), ("extends", .str "b")]) :=
    ⟨"\x7b\"extends\":\"b\",\"A\":false\x7d",
      RuleConfig.lenient_parse_pair (by decide +kernel) (by decide +kernel)⟩
  obtain ⟨text', htext'⟩ : ∃ text, Json.Lenient.parse? text =
      some (.obj [("A", .bool true), ("extends", .str "a")]) :=
    ⟨"\x7b\"extends\":\"a\",\"A\":true\x7d",
      RuleConfig.lenient_parse_pair (by decide +kernel) (by decide +kernel)⟩
  let m := mutualFiles text text'
  obtain ⟨hconfig, hconfig'⟩ := config_mutualFiles htext htext'
  obtain ⟨links, last, result, hlinked, -, -, hresult, hload⟩ :=
    m.isFinite.chains_expand.2 {} ⟨"/a"⟩ _ hconfig
  have hbase : RuleConfig.basePath? {} ⟨"/"⟩ [("A", .bool false), ("extends", .str "b")] =
    some ⟨"/b"⟩ := rfl
  have hbase' : RuleConfig.basePath? {} ⟨"/"⟩ [("A", .bool true), ("extends", .str "a")] =
    some ⟨"/a"⟩ := rfl
  obtain ⟨rfl, rfl⟩ := hlinked.unique
    (.link hbase (by decide) hconfig' (.circular hbase' ⟨⟨"/a"⟩, by decide⟩))
  obtain ⟨r, hr⟩ := hload 2 (by decide)
  exact ⟨m, result, r, m.isFinite, hr, hresult.nearest "A" (by decide), hresult.extends_eq⟩

end LintDesk
