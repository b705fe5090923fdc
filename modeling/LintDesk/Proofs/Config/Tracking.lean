import LintDesk.Config.Resolve
import LintDesk.Proofs.Config.Probing
import Mathlib.Logic.Function.Iterate

/-! # Lookups over a shared cache

A lookup that finds nothing in the cache searches directory after directory. A lookup over a cache
whose entries are what such searches find goes the same way, with some searches left out, and what
it puts into the cache is again what searches find.
-/

namespace LintDesk

/-- Which folder and settings each document has, by the key of the document. -/
structure Assignment where
  folder : String → Option Folder
  settings : String → Settings

/-- A query for a document with the folder and the settings assigned to it. -/
def Query.Follows (q : Query) (a : Assignment) : Prop :=
  q.folder = a.folder q.key ∧ q.settings = a.settings q.key

/-- The directories that a lookup goes through. -/
def Query.searched (q : Query) (layer : FileLayer) : List Path :=
  if layer.isAvailable then q.directories else []

/-- What is known stays known. -/
structure ConfigCache.Within (c c' : ConfigCache) : Prop where
  directories : ∀ dir found, c.directory? dir = some found → c'.directory? dir = some found
  documents : ∀ key e, c.document? key = some e → c'.document? key = some e

theorem ConfigCache.document?_cons (c : ConfigCache) (k key : String) (e : ResolvedConfig) :
    document? { c with documents := (k, e) :: c.documents } key =
      if key = k then some e else c.document? key := by
  by_cases h : key = k
  · simp [document?, h]
  · simp [document?, List.lookup_cons, h, beq_eq_false_iff_ne.mpr h]

theorem ConfigCache.directory?_cons (c : ConfigCache) (d : List Component) (dir : Path)
    (found : Option ResolvedConfig) :
    directory? { c with directories := (d, found) :: c.directories } dir =
      if dir.components = d then some found else c.directory? dir := by
  by_cases h : dir.components = d
  · simp [directory?, h]
  · simp [directory?, List.lookup_cons, h, beq_eq_false_iff_ne.mpr h]

theorem ConfigCache.Within.refl (c : ConfigCache) : c.Within c :=
  ⟨fun _ _ h => h, fun _ _ h => h⟩

theorem ConfigCache.Within.trans {c c' c'' : ConfigCache} (h : c.Within c') (h' : c'.Within c'') :
    c.Within c'' :=
  ⟨fun dir found hdir => h'.directories dir found (h.directories dir found hdir),
    fun key e hkey => h'.documents key e (h.documents key e hkey)⟩

namespace Lookup

/-! ### Going alone -/

/-- Two lookups are equal, or both are done with the same. -/
def Agrees (l l' : Lookup) : Prop :=
  l = l' ∨ ∃ e e', l = done e ∧ l' = done e' ∧ e.view = e'.view

section Alone

variable (layer : FileLayer) (home : Option Path) (q : Query)

/-- What a lookup comes to after the search of a directory, if nothing is cached. -/
def afterSearch (above : List Path) : Option (RuleConfig × Path) → Lookup
  | some f => done (.ofFile 0 f)
  | none => (visit q above { home }).1

/-- What a lookup comes to with the next call, if nothing is cached. -/
def alone (l : Lookup) : Lookup :=
  match l.place? with
  | none => (l.resume q layer { home }).1
  | some (_, above) =>
    match l.probe layer home with
    | .goesOn l' => l'
    | .ends found => afterSearch home q above found

/-- Alone, a lookup comes to another one, in at least `n` calls. -/
def Leads (n : Nat) (l l' : Lookup) : Prop :=
  ∃ m, n ≤ m ∧ ((alone layer home q)^[m] l).Agrees l'

end Alone

variable {layer : FileLayer} {home : Option Path} {q : Query} {r : Resolver}

theorem Agrees.refl (l : Lookup) : l.Agrees l := .inl rfl

theorem Agrees.trans {a b c : Lookup} (h : a.Agrees b) (h' : b.Agrees c) : a.Agrees c := by
  rcases h with rfl | ⟨e, e', rfl, rfl, hview⟩
  · exact h'
  · rcases h' with rfl | ⟨e₁, e'', he, rfl, hview'⟩
    · exact .inr ⟨e, e', rfl, rfl, hview⟩
    · obtain rfl := done.inj he
      exact .inr ⟨e, e'', rfl, rfl, hview.trans hview'⟩

theorem Agrees.exists_done {l : Lookup} {e : ResolvedConfig} (h : l.Agrees (done e)) :
    ∃ e', l = done e' ∧ e'.view = e.view := by
  rcases h with rfl | ⟨e', e'', rfl, he, hview⟩
  · exact ⟨e, rfl, rfl⟩
  · obtain rfl := done.inj he
    exact ⟨e', rfl, hview⟩

theorem iterate_alone_done (e : ResolvedConfig) (n : Nat) :
    (alone layer home q)^[n] (done e) = done e :=
  Function.iterate_fixed rfl n

theorem Agrees.iterate {l l' : Lookup} (h : l.Agrees l') (n : Nat) :
    ((alone layer home q)^[n] l).Agrees ((alone layer home q)^[n] l') := by
  rcases h with rfl | ⟨e, e', rfl, rfl, hview⟩
  · exact .refl _
  · rw [iterate_alone_done, iterate_alone_done]
    exact .inr ⟨e, e', rfl, rfl, hview⟩

theorem Leads.trans {n m : Nat} {a b c : Lookup} (h : Leads layer home q n a b)
    (h' : Leads layer home q m b c) : Leads layer home q (n + m) a c := by
  obtain ⟨i, hi, hab⟩ := h
  obtain ⟨j, hj, hbc⟩ := h'
  refine ⟨j + i, by omega, ?_⟩
  rw [Function.iterate_add_apply]
  exact (hab.iterate j).trans hbc

theorem Leads.of_agrees {l l' : Lookup} (h : l.Agrees l') : Leads layer home q 0 l l' :=
  ⟨0, Nat.le_refl 0, h⟩

theorem eq_of_iterate {l : Lookup} {n m : Nat} {e e' : ResolvedConfig}
    (h : (alone layer home q)^[n] l = done e) (h' : (alone layer home q)^[m] l = done e') :
    e = e' := by
  have hsum : (alone layer home q)^[m + n] l = done e := by
    rw [Function.iterate_add_apply, h, iterate_alone_done]
  have hsum' : (alone layer home q)^[n + m] l = done e' := by
    rw [Function.iterate_add_apply, h', iterate_alone_done]
  rw [Nat.add_comm, hsum] at hsum'
  exact done.inj hsum'

/-- A search that comes to its end. -/
theorem Finds.exists_iterate {l : Lookup} {found : Option (RuleConfig × Path)}
    (h : Finds layer home l found) {dir : Path} {above : List Path}
    (hplace : l.place? = some (dir, above)) :
    ∃ n, (alone layer home q)^[n] l = afterSearch home q above found := by
  induction h with
  | now hends => exact ⟨1, by simp [alone, hplace, hends]⟩
  | later hgoes _ ih =>
      obtain ⟨n, hn⟩ := ih (probe_goesOn hplace hgoes).1
      refine ⟨n + 1, ?_⟩
      rw [Function.iterate_succ_apply]
      simpa [alone, hplace, hgoes] using hn

/-! ### The settings -/

theorem afterChain_fst (q' : Query) (origin : Origin) (read : ChainRead) (log : Journal) :
    (afterChain q origin read { home, log }).1 = (afterChain q' origin read { home }).1 := by
  cases read <;> rfl

theorem place?_afterChain (origin : Origin) (read : ChainRead) :
    (afterChain q origin read r).1.place? = none := by
  cases read <;> rfl

theorem alone_settings (origin : Origin) (chain : Chain) (path : Path) :
    alone layer home q (settings origin (.waiting chain path)) = (afterChain q origin
      (ChainRead.receive chain path (layer.read path) {}).1 { home }).1 :=
  afterChain_fst q origin _ _

theorem exists_settings {l : Lookup} (hplace : l.place? = none) (hcall : l.call?.isSome) :
    ∃ origin chain path, l = settings origin (.waiting chain path) := by
  cases l with
  | listing => cases hplace
  | following => cases hplace
  | loading => cases hplace
  | settings origin read =>
      cases read with
      | waiting chain path => exact ⟨origin, chain, path, rfl⟩
      | done => cases hcall
  | done => cases hcall

theorem alone_congr {q' : Query} {l : Lookup} (hplace : l.place? = none) :
    alone layer home q l = alone layer home q' l ∧ (alone layer home q l).place? = none := by
  cases l with
  | listing => cases hplace
  | following => cases hplace
  | loading => cases hplace
  | settings origin read =>
      cases read with
      | waiting chain path =>
          rw [alone_settings, alone_settings]
          exact ⟨afterChain_fst q' origin _ _, place?_afterChain origin _⟩
      | done config => exact ⟨rfl, rfl⟩
  | done e => exact ⟨rfl, rfl⟩

/-- With nothing cached, the settings are read from the start. -/
theorem fallBack_fst (home : Option Path) (q : Query) :
    (fallBack q { home }).1 = match q.settings.config with
      | none => (finish q [] .default { home }).1
      | some config => (afterChain q (Query.originOf config.scope)
          (ChainRead.start (q.settingsChain home config) {}).1 { home }).1 := by
  unfold fallBack
  cases q.settings.config with
  | none => rfl
  | some config => exact afterChain_fst q _ _ _

theorem fallBack_congr {q' : Query} (hfolder : q.folder = q'.folder)
    (hsettings : q.settings = q'.settings) :
    (fallBack q { home }).1 = (fallBack q' { home }).1 ∧ (fallBack q { home }).1.place? = none := by
  have hchain : q.settingsChain home = q'.settingsChain home := by
    funext config
    simp only [Query.settingsChain, hfolder]
  rw [fallBack_fst, fallBack_fst, hsettings, hchain]
  cases q'.settings.config with
  | none => exact ⟨rfl, rfl⟩
  | some config => exact ⟨afterChain_fst q' _ _ _, place?_afterChain _ _⟩

/-- Once the directories are searched, folder and settings decide. -/
theorem iterate_fallBack_congr {q' : Query} (hfolder : q.folder = q'.folder)
    (hsettings : q.settings = q'.settings) (n : Nat) :
    (alone layer home q)^[n] (fallBack q { home }).1 =
        (alone layer home q')^[n] (fallBack q' { home }).1 ∧
      ((alone layer home q)^[n] (fallBack q { home }).1).place? = none := by
  induction n with
  | zero => exact fallBack_congr hfolder hsettings
  | succ n ih =>
      rw [Function.iterate_succ_apply', Function.iterate_succ_apply', ← ih.1]
      exact alone_congr ih.2

end Lookup

/-! ### Caches that hold what lookups find -/

open Lookup

/-- What is cached is what a search of the directory, or the settings of the document, come to. -/
structure Resolver.Faithful (layer : FileLayer) (home : Option Path) (a : Assignment)
    (r : Resolver) : Prop where
  home_eq : r.home = home
  directories : ∀ dir found, r.cache.directory? dir = some found →
    ∃ f, Finds layer home (.listing dir []) f ∧
      found.map ResolvedConfig.view = f.map fun x => (ResolvedConfig.ofFile 0 x).view
  documents : ∀ q : Query, q.Follows a → ∀ e, r.cache.document? q.key = some e →
    ∃ n e', (alone layer home q)^[n] (fallBack q { home }).1 = .done e' ∧ e'.view = e.view

/-- The cache has what a lookup would end with. -/
def Resolver.Recalls (layer : FileLayer) (q : Query) (r : Resolver) (e : ResolvedConfig) : Prop :=
  ∃ passed rest, q.searched layer = passed ++ rest ∧
    (∀ dir ∈ passed, r.cache.directory? dir = some none) ∧
    match rest with
    | dir :: _ => r.cache.directory? dir = some (some e)
    | [] => r.cache.document? q.key = some e

/-- A lookup has got so far: the directories before the one it searches have no configuration, and
it goes on to find what this one has; or it reads the settings; or it is done. -/
inductive Lookup.OnTrack (layer : FileLayer) (home : Option Path) (q : Query) (r : Resolver) :
    Lookup → Prop
  | searching {l : Lookup} {dir : Path} {above passed : List Path}
      (hplace : l.place? = some (dir, above)) (hcall : l.call?.isSome)
      (hsearched : q.searched layer = passed ++ dir :: above)
      (hpassed : ∀ d ∈ passed, r.cache.directory? d = some none)
      (hfinds : ∀ f, Finds layer home l f →
        ∃ f', Finds layer home (.listing dir []) f' ∧ SameFound f f') : OnTrack layer home q r l
  | settled {l : Lookup} (hplace : l.place? = none) (hcall : l.call?.isSome)
      (hpassed : ∀ d ∈ q.searched layer, r.cache.directory? d = some none) {n : Nat}
      (hfrom : (alone layer home q)^[n] (fallBack q { home }).1 = l) : OnTrack layer home q r l
  | done {e : ResolvedConfig} (h : r.Recalls layer q e) : OnTrack layer home q r (.done e)

/-- A lookup that went on from a cache, and what it would have come to alone. -/
structure Lookup.Comes (layer : FileLayer) (home : Option Path) (a : Assignment) (q : Query)
    (cache : ConfigCache) (l : Lookup) (result : Lookup × Resolver) : Prop where
  faithful : result.2.Faithful layer home a
  within : cache.Within result.2.cache
  onTrack : result.1.OnTrack layer home q result.2
  leads : Leads layer home q 0 l result.1

variable {layer : FileLayer} {home : Option Path} {a : Assignment} {q : Query} {r r' : Resolver}

theorem Resolver.Recalls.mono {e : ResolvedConfig} (h : r.Recalls layer q e)
    (hwithin : r.cache.Within r'.cache) : r'.Recalls layer q e := by
  obtain ⟨passed, rest, hsearched, hpassed, hrest⟩ := h
  refine ⟨passed, rest, hsearched, fun d hd => hwithin.directories d _ (hpassed d hd), ?_⟩
  cases rest with
  | nil => exact hwithin.documents _ _ hrest
  | cons d above => exact hwithin.directories _ _ hrest

theorem Lookup.OnTrack.mono {l : Lookup} (h : l.OnTrack layer home q r)
    (hwithin : r.cache.Within r'.cache) : l.OnTrack layer home q r' := by
  cases h with
  | searching hplace hcall hsearched hpassed hfinds =>
      exact .searching hplace hcall hsearched
        (fun d hd => hwithin.directories d _ (hpassed d hd)) hfinds
  | settled hplace hcall hpassed hfrom =>
      exact .settled hplace hcall (fun d hd => hwithin.directories d _ (hpassed d hd)) hfrom
  | done hrecalls => exact .done (hrecalls.mono hwithin)

theorem Lookup.visit_append {passed : List Path}
    (h : ∀ dir ∈ passed, r.cache.directory? dir = some none) (rest : List Path) :
    visit q (passed ++ rest) r = visit q rest r := by
  induction passed with
  | nil => rfl
  | cons dir passed ih =>
      rw [List.cons_append, visit, h dir (by simp)]
      exact ih fun d hd => h d (by simp [hd])

/-- What the cache recalls is returned without a call. -/
theorem Resolver.Recalls.start {e : ResolvedConfig} (h : r.Recalls layer q e) :
    Lookup.start q layer r = (.done e, r) := by
  obtain ⟨passed, rest, hsearched, hpassed, hrest⟩ := h
  change visit q (q.searched layer) r = _
  rw [hsearched, visit_append hpassed]
  cases rest with
  | nil => simp [visit, fallBack, hrest]
  | cons dir above => simp [visit, hrest]

/-- Writing to the journal changes nothing else. -/
theorem Resolver.Faithful.journal (h : r.Faithful layer home a) (log : Journal) :
    Resolver.Faithful layer home a { r with log } :=
  ⟨h.home_eq, h.directories, h.documents⟩

theorem SameFound.view {found found' : Option (RuleConfig × Path)} (h : SameFound found found') :
    (found.map fun x => (ResolvedConfig.ofFile 0 x).view) =
      found'.map fun x => (ResolvedConfig.ofFile 0 x).view := by
  have hview := congrArg (Option.map fun x : RuleConfig × List Component =>
    (RuleConfig.merge .default x.1, some (Sum.inr (α := Origin) x.2))) h
  rw [Option.map_map, Option.map_map] at hview
  exact hview

/-- What is known of a directory is what its search comes to, however it is spelled. -/
theorem Resolver.Faithful.exists_finds (hlayer : layer.IgnoresSpelling)
    (h : r.Faithful layer home a) {dir dir' : Path} {found : Option ResolvedConfig}
    (hcached : r.cache.directory? dir = some found) (hdir : dir.components = dir'.components)
    (above : List Path) :
    ∃ f, Finds layer home (.listing dir' above) f ∧
      found.map ResolvedConfig.view = f.map fun x => (ResolvedConfig.ofFile 0 x).view := by
  obtain ⟨f, hf, hview⟩ := h.directories dir found hcached
  obtain ⟨f', hf', hsame⟩ := hf.alike hlayer (.listing hdir [] above)
  exact ⟨f', hf', hview.trans hsame.view⟩

/-- The resolver once it has stored what the search of a directory came to. -/
def Resolver.storeDirectory (r : Resolver) (dir : Path) (found : Option ResolvedConfig) :
    Resolver :=
  { r with
    cache := { r.cache with directories := (dir.components, found) :: r.cache.directories } }

theorem Resolver.directory?_storeDirectory (r : Resolver) (dir d : Path)
    (found : Option ResolvedConfig) : (r.storeDirectory dir found).cache.directory? d =
      if d.components = dir.components then some found else r.cache.directory? d :=
  ConfigCache.directory?_cons r.cache dir.components d found

theorem Resolver.within_storeDirectory {dir : Path} (hcached : r.cache.directory? dir = none)
    (found : Option ResolvedConfig) : r.cache.Within (r.storeDirectory dir found).cache := by
  refine ⟨fun d stored hd => ?_, fun _ _ h => h⟩
  rw [directory?_storeDirectory]
  split
  · next heq =>
      rw [ConfigCache.directory?, heq] at hd
      exact absurd (hd.symm.trans hcached) nofun
  · exact hd

theorem Resolver.Faithful.storeDirectory (hlayer : layer.IgnoresSpelling)
    (hr : r.Faithful layer home a) {dir : Path} {found : Option ResolvedConfig}
    {f : Option (RuleConfig × Path)} (hfinds : Finds layer home (.listing dir []) f)
    (hview : found.map ResolvedConfig.view = f.map fun x => (ResolvedConfig.ofFile 0 x).view) :
    (r.storeDirectory dir found).Faithful layer home a := by
  refine ⟨hr.home_eq, fun d stored hd => ?_, hr.documents⟩
  rw [directory?_storeDirectory] at hd
  split at hd
  · next heq =>
      obtain rfl := Option.some.inj hd
      obtain ⟨f', hf', hsame⟩ := hfinds.alike hlayer (.listing heq.symm [] [])
      exact ⟨f', hf', hview.trans hsame.view⟩
  · exact hr.directories d stored hd

namespace Lookup

/-- An entry for the document is stored, or the one that is stored already is the same. -/
theorem finish_comes (hr : r.Faithful layer home a) (hq : q.Follows a)
    (hpassed : ∀ d ∈ q.searched layer, r.cache.directory? d = some none) {config : RuleConfig}
    {origin : Origin} {n : Nat}
    (hown : (alone layer home q)^[n] (fallBack q { home }).1 =
      (finish q config origin { home }).1) :
    Comes layer home a q r.cache (finish q config origin { home }).1
      (finish q config origin r) := by
  have hsearched : q.searched layer = q.searched layer ++ [] := (List.append_nil _).symm
  cases hstored : r.cache.document? q.key with
  | some e =>
      have hresult : finish q config origin r = (done e, { r with serial := r.serial + 1 }) := by
        simp [finish, entry, ConfigCache.putDocument, hstored]
      obtain ⟨m, e', hm, hview⟩ := hr.documents q hq e hstored
      rw [hresult]
      refine ⟨⟨hr.home_eq, hr.directories, hr.documents⟩, .refl _,
        .done ⟨_, [], hsearched, hpassed, hstored⟩, .of_agrees (.inr ⟨_, e, rfl, rfl, ?_⟩)⟩
      rw [eq_of_iterate hown hm, hview]
  | none =>
      have hresult : finish q config origin r =
          (done (entry config origin r).1, { r with
            serial := r.serial + 1
            cache := { r.cache with
              documents := (q.key, (entry config origin r).1) :: r.cache.documents } }) := by
        simp [finish, entry, ConfigCache.putDocument, hstored]
      rw [hresult]
      have hdocument := ConfigCache.document?_cons r.cache q.key
      refine ⟨⟨hr.home_eq, hr.directories, ?_⟩, ⟨fun _ _ h => h, ?_⟩,
        .done ⟨_, [], hsearched, hpassed, by simp [hdocument]⟩,
        .of_agrees (.inr ⟨_, _, rfl, rfl, rfl⟩)⟩
      · intro q' hq' e he
        rw [hdocument] at he
        split at he
        · next hkey =>
            obtain rfl := Option.some.inj he
            have hfolder : q.folder = q'.folder := by rw [hq.1, hq'.1, hkey]
            have hsettings : q.settings = q'.settings := by rw [hq.2, hq'.2, hkey]
            exact ⟨n, _, (iterate_fallBack_congr hfolder hsettings n).1.symm.trans hown, rfl⟩
        · exact hr.documents q' hq' e he
      · intro key e he
        rw [hdocument]
        split
        · next hkey => simp [hkey, hstored] at he
        · exact he

theorem afterChain_comes (hr : r.Faithful layer home a) (hq : q.Follows a)
    (hpassed : ∀ d ∈ q.searched layer, r.cache.directory? d = some none) {origin : Origin}
    {read : ChainRead} {n : Nat}
    (hown : (alone layer home q)^[n] (fallBack q { home }).1 =
      (afterChain q origin read { home }).1) :
    Comes layer home a q r.cache (afterChain q origin read { home }).1
      (afterChain q origin read r) := by
  cases read with
  | done config => exact finish_comes hr hq hpassed hown
  | waiting chain path => exact ⟨hr, .refl _, .settled rfl rfl hpassed hown, .of_agrees (.refl _)⟩

theorem fallBack_comes (hr : r.Faithful layer home a) (hq : q.Follows a)
    (hpassed : ∀ d ∈ q.searched layer, r.cache.directory? d = some none) :
    Comes layer home a q r.cache (fallBack q { home }).1 (fallBack q r) := by
  cases hstored : r.cache.document? q.key with
  | some e =>
      obtain ⟨n, e', hn, hview⟩ := hr.documents q hq e hstored
      have hresult : fallBack q r = (done e, r) := by simp [fallBack, hstored]
      rw [hresult]
      exact ⟨hr, .refl _, .done ⟨_, [], (List.append_nil _).symm, hpassed, hstored⟩,
        ⟨n, Nat.zero_le n, .inr ⟨e', e, hn, rfl, hview⟩⟩⟩
  | none =>
      obtain rfl := hr.home_eq
      have hfrom := fallBack_fst r.home q
      cases hconfig : q.settings.config with
      | none =>
          have hresult : fallBack q r = finish q [] .default r := by
            simp [fallBack, hstored, hconfig]
          rw [hconfig] at hfrom
          rw [hresult, hfrom]
          exact finish_comes (n := 0) hr hq hpassed hfrom
      | some config =>
          have hresult : fallBack q r = afterChain q (Query.originOf config.scope)
              (ChainRead.start (q.settingsChain r.home config) r.log).1
              { r with log := (ChainRead.start (q.settingsChain r.home config) r.log).2 } := by
            simp [fallBack, hstored, hconfig]
          simp only [hconfig, ChainRead.start_fst _ {} r.log] at hfrom
          rw [hresult, hfrom]
          exact afterChain_comes (n := 0)
            (hr.journal (ChainRead.start (q.settingsChain r.home config) r.log).2) hq hpassed hfrom

theorem visit_comes (hlayer : layer.IgnoresSpelling) (hr : r.Faithful layer home a)
    (hq : q.Follows a) {passed : List Path} (rest : List Path)
    (hsearched : q.searched layer = passed ++ rest)
    (hpassed : ∀ d ∈ passed, r.cache.directory? d = some none) :
    Comes layer home a q r.cache (visit q rest { home }).1 (visit q rest r) := by
  induction rest generalizing passed with
  | nil =>
      rw [List.append_nil] at hsearched
      exact fallBack_comes hr hq (hsearched ▸ hpassed)
  | cons dir above ih =>
      cases hcached : r.cache.directory? dir with
      | none =>
          have hresult : visit q (dir :: above) r = (listing dir above, r) := by
            simp [visit, hcached]
          rw [hresult]
          refine ⟨hr, .refl _, .searching rfl rfl hsearched hpassed fun f hf => ?_,
            .of_agrees (.refl _)⟩
          exact hf.alike hlayer (.listing rfl above [])
      | some found =>
          obtain ⟨f, hf, hview⟩ := hr.exists_finds hlayer hcached rfl above
          obtain ⟨n, hn⟩ := hf.exists_iterate (q := q) rfl
          cases found with
          | none =>
              obtain rfl : f = none := by simpa using hview.symm
              have hresult : visit q (dir :: above) r = visit q above r := by
                simp [visit, hcached]
              have hsplit : q.searched layer = (passed ++ [dir]) ++ above := by simp [hsearched]
              have hnext := ih hsplit
                (List.forall_mem_append.mpr ⟨hpassed, by simpa using hcached⟩)
              rw [hresult]
              exact ⟨hnext.faithful, hnext.within, hnext.onTrack,
                Leads.trans ⟨n, Nat.zero_le n, .inl hn⟩ hnext.leads⟩
          | some e =>
              obtain ⟨x, rfl, hx⟩ : ∃ x, f = some x ∧
                  (ResolvedConfig.ofFile 0 x).view = e.view := by
                simpa using hview.symm
              have hresult : visit q (dir :: above) r = (done e, r) := by simp [visit, hcached]
              rw [hresult]
              exact ⟨hr, .refl _, .done ⟨passed, dir :: above, hsearched, hpassed, hcached⟩,
                ⟨n, Nat.zero_le n, .inr ⟨_, e, hn, rfl, hx⟩⟩⟩

/-- A directory is searched to its end that has been searched before: the same is stored. -/
theorem conclude_comes_of_stored (hlayer : layer.IgnoresSpelling) (hr : r.Faithful layer home a)
    (hq : q.Follows a) {passed above : List Path} {dir : Path}
    (hsearched : q.searched layer = passed ++ dir :: above)
    (hpassed : ∀ d ∈ passed, r.cache.directory? d = some none)
    {stored found : Option ResolvedConfig} (hcached : r.cache.directory? dir = some stored)
    (hsame : stored.map ResolvedConfig.view = found.map ResolvedConfig.view) :
    Comes layer home a q r.cache (found.elim (visit q above { home }).1 done)
      (conclude q dir above found r) := by
  cases stored with
  | none =>
      obtain rfl : found = none := by simpa using hsame.symm
      have hresult : conclude q dir above none r = visit q above r := by
        simp [conclude, ConfigCache.putDirectory, hcached]
      have hsplit : q.searched layer = (passed ++ [dir]) ++ above := by simp [hsearched]
      rw [hresult]
      exact visit_comes hlayer hr hq above hsplit
        (List.forall_mem_append.mpr ⟨hpassed, by simpa using hcached⟩)
  | some e =>
      obtain ⟨e', rfl, he'⟩ : ∃ e', found = some e' ∧ e'.view = e.view := by
        simpa using hsame.symm
      have hresult : conclude q dir above (some e') r = (done e, r) := by
        simp [conclude, ConfigCache.putDirectory, hcached]
      rw [hresult]
      exact ⟨hr, .refl _, .done ⟨passed, dir :: above, hsearched, hpassed, hcached⟩,
        .of_agrees (.inr ⟨e', e, rfl, rfl, he'⟩)⟩

/-- A directory is searched to its end; what was found is stored, or what is stored already is the
same. -/
theorem conclude_comes (hlayer : layer.IgnoresSpelling) (hr : r.Faithful layer home a)
    (hq : q.Follows a) {passed above : List Path} {dir : Path}
    (hsearched : q.searched layer = passed ++ dir :: above)
    (hpassed : ∀ d ∈ passed, r.cache.directory? d = some none) {found : Option ResolvedConfig}
    {f : Option (RuleConfig × Path)} (hfinds : Finds layer home (.listing dir []) f)
    (hview : found.map ResolvedConfig.view = f.map fun x => (ResolvedConfig.ofFile 0 x).view) :
    Comes layer home a q r.cache (found.elim (visit q above { home }).1 done)
      (conclude q dir above found r) := by
  cases hcached : r.cache.directory? dir with
  | some stored =>
      obtain ⟨f', hf', hview'⟩ := hr.directories dir stored hcached
      obtain rfl := hfinds.unique hf'
      exact conclude_comes_of_stored hlayer hr hq hsearched hpassed hcached
        (hview'.trans hview.symm)
  | none =>
      have hfaithful := hr.storeDirectory hlayer hfinds hview
      have hwithin := Resolver.within_storeDirectory hcached found
      have hstored : (r.storeDirectory dir found).cache.directory? dir = some found := by
        simp [Resolver.directory?_storeDirectory]
      have hpassed' : ∀ d ∈ passed, (r.storeDirectory dir found).cache.directory? d = some none :=
        fun d hd => hwithin.directories d none (hpassed d hd)
      cases found with
      | none =>
          have hresult : conclude q dir above none r =
              visit q above (r.storeDirectory dir none) := by
            simp [conclude, ConfigCache.putDirectory, hcached, Resolver.storeDirectory]
          have hsplit : q.searched layer = (passed ++ [dir]) ++ above := by simp [hsearched]
          have hnext := visit_comes hlayer hfaithful hq above hsplit
            (List.forall_mem_append.mpr ⟨hpassed', by simpa using hstored⟩)
          rw [hresult]
          exact ⟨hnext.faithful, hwithin.trans hnext.within, hnext.onTrack, hnext.leads⟩
      | some e =>
          have hresult : conclude q dir above (some e) r =
              (done e, r.storeDirectory dir (some e)) := by
            simp [conclude, ConfigCache.putDirectory, hcached, Resolver.storeDirectory]
          rw [hresult]
          exact ⟨hfaithful, hwithin, .done ⟨passed, dir :: above, hsearched, hpassed', hstored⟩,
            .of_agrees (.refl _)⟩

theorem concludeWith_comes (hlayer : layer.IgnoresSpelling) (hr : r.Faithful layer home a)
    (hq : q.Follows a) {passed above : List Path} {dir : Path}
    (hsearched : q.searched layer = passed ++ dir :: above)
    (hpassed : ∀ d ∈ passed, r.cache.directory? d = some none)
    {found f : Option (RuleConfig × Path)} (hfinds : Finds layer home (.listing dir []) f)
    (hsame : SameFound found f) :
    Comes layer home a q r.cache (afterSearch home q above found)
      (concludeWith q dir above found r) := by
  cases found with
  | none =>
      have hview : (none : Option ResolvedConfig).map ResolvedConfig.view =
        f.map fun x => (ResolvedConfig.ofFile 0 x).view := hsame.view
      exact conclude_comes hlayer hr hq hsearched hpassed hfinds hview
  | some x =>
      have hserial : Resolver.Faithful layer home a { r with serial := r.serial + 1 } :=
        ⟨hr.home_eq, hr.directories, hr.documents⟩
      have hview : (some (ResolvedConfig.ofFile r.serial x)).map ResolvedConfig.view =
        f.map fun x => (ResolvedConfig.ofFile 0 x).view := hsame.view
      have hnext := conclude_comes hlayer hserial hq hsearched hpassed hfinds hview
      have hfirst : Leads layer home q 0 (done (.ofFile 0 x)) (done (.ofFile r.serial x)) :=
        .of_agrees (.inr ⟨_, _, rfl, rfl, rfl⟩)
      exact ⟨hnext.faithful, hnext.within, hnext.onTrack, hfirst.trans hnext.leads⟩

/-- A lookup on track stays so with the next call, and has got on by at least one. -/
theorem resume_comes (hlayer : layer.IgnoresSpelling) (hr : r.Faithful layer home a)
    (hq : q.Follows a) {l : Lookup} (hl : l.OnTrack layer home q r) (hcall : l.call?.isSome) :
    Comes layer home a q r.cache (alone layer home q l) (l.resume q layer r) := by
  obtain rfl := hr.home_eq
  cases hl with
  | @searching _ dir above passed hplace _ hsearched hpassed hfinds =>
      obtain ⟨log, hresume⟩ : ∃ log, l.resume q layer r =
        (l.probe layer r.home).outcome q dir above { r with log } := resume_eq hplace
      cases hprobe : l.probe layer r.home with
      | goesOn l' =>
          obtain ⟨hplace', hcall'⟩ := probe_goesOn hplace hprobe
          have halone : alone layer r.home q l = l' := by simp [alone, hplace, hprobe]
          rw [hresume, hprobe, halone]
          exact ⟨hr.journal log, .refl _, .searching hplace' hcall' hsearched hpassed
            fun f hf => hfinds f (.later hprobe hf), .of_agrees (.refl _)⟩
      | ends found =>
          have halone : alone layer r.home q l = afterSearch r.home q above found := by
            simp [alone, hplace, hprobe]
          obtain ⟨f, hf, hsame⟩ := hfinds found (.now hprobe)
          rw [hresume, hprobe, halone]
          exact concludeWith_comes hlayer (hr.journal log) hq hsearched hpassed hf hsame
  | @settled _ hplace _ hpassed n hfrom =>
      obtain ⟨origin, chain, path, rfl⟩ := exists_settings hplace hcall
      let read := ChainRead.receive chain path (layer.read path) r.log
      have hown : (alone layer r.home q)^[n + 1] (fallBack q { home := r.home }).1 =
          (afterChain q origin read.1 { home := r.home }).1 := by
        rw [Function.iterate_succ_apply', hfrom, alone_settings,
          ChainRead.receive_fst _ _ _ {} r.log]
      rw [alone_settings, ChainRead.receive_fst _ _ _ {} r.log]
      exact afterChain_comes (hr.journal read.2) hq hpassed hown
  | done hrecalls => cases hcall

theorem start_comes (hlayer : layer.IgnoresSpelling) (hr : r.Faithful layer home a)
    (hq : q.Follows a) :
    Comes layer home a q r.cache (start q layer { home }).1 (start q layer r) := by
  have hsplit : q.searched layer = [] ++ q.searched layer := rfl
  exact visit_comes hlayer hr hq (q.searched layer) hsplit (by simp)

end Lookup

end LintDesk
