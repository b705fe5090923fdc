import LintDesk.Proofs.Config.Unset
import LintDesk.Proofs.Desk.LintInputs
import LintDesk.Proofs.Trust.GateTrace

/-! # Desks that only lint

A desk that works on a disk, with settings that name neither a configuration nor custom rules, goes
on as it began: whatever it lints, its cache holds what searches of the disk find, the gate hands
out no rules, and every lookup under way is on its track.
-/

namespace LintDesk

/-! ### Settings and the gate -/

/-- Settings that name neither a configuration nor custom rules. -/
structure Settings.IsBare (s : Settings) : Prop where
  config : s.config = none
  customRules : s.customRules.value = []

namespace Gate

/-- No rules were loaded. -/
def IsClear (g : Gate) : Prop :=
  ∀ key rules, g.state key = .loaded rules → rules = []

/-- A request for no rules gets none, at once. -/
theorem IsClear.enter {g : Gate} (h : g.IsClear) (who : Nat) (isTrusted : String → Bool)
    {r : RuleRequest} (hr : r.locations.value = []) :
    ∃ g' : Gate, g'.IsClear ∧ g.enter who isTrusted r = (.done [], g') := by
  unfold Gate.enter
  split
  · next rules hrules =>
      obtain rfl : rules = [] := (state_of_settled? hrules).elim (h _ rules) id
      exact ⟨g, h, rfl⟩
  · rw [if_pos (by simp [hr])]
    refine ⟨g.put r.key (.loaded []), fun key rules hstate => ?_, by simp [settle, finish]⟩
    rw [state_put] at hstate
    split at hstate
    · exact (RuleStatus.loaded.inj hstate).symm
    · exact h key rules hstate

end Gate

section Linting

variable (tree : Disk) (home : Option Path) (w : Workspace) (s : Settings)

/-- A lookup that waits for the disk and is on its track. -/
structure Collection.Awaits (r : Resolver) (c : Collection) (l : Lookup) : Prop where
  settings : c.settings = s
  served : c.document.uri.hasFileSystem = true
  call : l.call?.isSome
  onTrack : l.OnTrack tree.layer home c.query r

/-- An action goes on with such a lookup, or it is plain. -/
inductive Action.Fits (r : Resolver) : Action → Prop
  | plain {a : Action} (h : a.isPlain = true) : Fits r a
  | asks {c : Collection} {l : Lookup} (h : c.Awaits tree home s r l) :
      Fits r (.ask (.lookup c l))
  | takes {c : Collection} {l : Lookup} (h : c.Awaits tree home s r l) :
      Fits r (.take (.lookup c l))

namespace Desk

/-- A desk that lints by the files of a disk and by given settings. -/
structure Lints (d : Desk) : Prop where
  files : d.files = .disk tree
  workspace : d.workspace = w
  settings : ∀ uri, d.settingsFor uri = s
  engine : d.engine = .builtin
  faithful : d.resolver.Faithful tree.layer home .unset
  gate : d.gate.IsClear
  held : ∀ {task a}, d.Holds task a → a.Fits tree home s d.resolver

/-- An effect after which a desk still lints so. -/
structure StillLints (task : Nat) (d : Desk) (e : Effect) : Prop where
  desk : e.desk.Lints tree home w s
  next : ∀ b ∈ e.next, b.Fits tree home s e.desk.resolver
  within : d.resolver.cache.Within e.desk.resolver.cache
  outcomes : ∀ other ≠ task, e.desk.outcome? other = d.outcome? other
  epoch : e.desk.ignores.epoch = d.ignores.epoch

end Desk

variable {tree home w s} {r r' : Resolver} {a : Action} {c : Collection} {l : Lookup}

theorem Collection.Awaits.mono (h : c.Awaits tree home s r l) (hwithin : r.cache.Within r'.cache) :
    c.Awaits tree home s r' l :=
  ⟨h.settings, h.served, h.call, h.onTrack.mono hwithin⟩

theorem Action.Fits.mono (h : a.Fits tree home s r) (hwithin : r.cache.Within r'.cache) :
    a.Fits tree home s r' := by
  cases h with
  | plain hplain => exact .plain hplain
  | asks hl => exact .asks (hl.mono hwithin)
  | takes hl => exact .takes (hl.mono hwithin)

namespace Desk

variable {d d₁ d' : Desk} {task : Nat} {e : Effect}

/-! ### What leaves the inputs alone -/

theorem Lints.sameInputs (h : d.Lints tree home w s) (hs : SameInputs task d d') :
    d'.Lints tree home w s := by
  have hresolver : d'.resolver = d.resolver := congrArg LintInputs.resolver hs.lintInputs
  have hgate : d'.gate = d.gate := congrArg LintInputs.gate hs.lintInputs
  have hsettings : d'.settings = d.settings := congrArg LintInputs.settings hs.lintInputs
  refine ⟨(congrArg LintInputs.files hs.lintInputs).trans h.files,
    (congrArg LintInputs.workspace hs.lintInputs).trans h.workspace, fun uri => ?_,
    (congrArg LintInputs.engine hs.lintInputs).trans h.engine, hresolver ▸ h.faithful,
    hgate ▸ h.gate, fun hholds => ?_⟩
  · unfold settingsFor
    rw [hsettings]
    exact h.settings uri
  · rw [hresolver]
    rcases hs.held hholds with hold | hplain
    · exact h.held hold
    · exact .plain hplain

theorem Lints.stillLints (h : d.Lints tree home w s) (he : PlainEffect task d e) :
    StillLints tree home w s task d e := by
  have hresolver : e.desk.resolver = d.resolver := congrArg LintInputs.resolver he.desk.lintInputs
  exact ⟨h.sameInputs he.desk, fun b hb => .plain (he.next b hb), hresolver ▸ .refl _,
    he.desk.outcomes, congrArg LintInputs.epoch he.desk.lintInputs⟩

theorem StillLints.after_sameInputs (h : StillLints tree home w s task d₁ e)
    (hs : SameInputs task d d₁) : StillLints tree home w s task d e := by
  have hresolver : d₁.resolver = d.resolver := congrArg LintInputs.resolver hs.lintInputs
  exact ⟨h.desk, h.next, hresolver ▸ h.within,
    fun other hother => (h.outcomes other hother).trans (hs.outcomes other hother),
    h.epoch.trans (congrArg LintInputs.epoch hs.lintInputs)⟩

/-! ### Rules -/

theorem Lints.putGate (h : d.Lints tree home w s) {g : Gate} (hg : g.IsClear) (task : Nat) :
    (d.putGate task g).Lints tree home w s := by
  have hgate : Lints tree home w s { d with gate := g } :=
    ⟨h.files, h.workspace, h.settings, h.engine, h.faithful, hg, h.held⟩
  have hwake : ∀ next, SameInputs task { d with gate := g } (wake { d with gate := g } next) :=
    sameInputs_wake _
  unfold Desk.putGate
  dsimp only
  split
  · split
    · exact hgate.sameInputs (hwake _)
    · exact hgate
  · exact hgate

/-- Nothing else is changed with the gate. -/
theorem putGate_eq (d : Desk) (task : Nat) (g : Gate) :
    ∃ ready hostReady, d.putGate task g = { d with gate := g, ready, hostReady } := by
  unfold putGate wake
  dsimp only
  split
  · split
    · split
      · exact ⟨_, _, rfl⟩
      · split
        · exact ⟨_, _, rfl⟩
        · exact ⟨_, _, rfl⟩
    · exact ⟨_, _, rfl⟩
  · exact ⟨_, _, rfl⟩

/-- A lookup that is done goes on with the ignore set, and without rules. -/
theorem Lints.followLookup_done (hs : s.IsBare) (h : d.Lints tree home w s) (task : Nat)
    (hc : c.settings = s) (entry : ResolvedConfig) : ∃ g : Gate, g.IsClear ∧
      d.followLookup task c (.done entry) =
        ((d.ignoreSet c).2.putGate task g).invoke task c entry.config (d.ignoreSet c).1 [] := by
  have hsameInputs : SameInputs task d (d.ignoreSet c).2 := sameInputs_ignoreSet d c
  have hgate : (d.ignoreSet c).2.gate.IsClear := (h.sameInputs hsameInputs).gate
  have hnone : c.ruleRequest.locations.value = [] := by
    rw [Collection.ruleRequest, hc]
    exact hs.customRules
  obtain ⟨g, hg, henter⟩ := hgate.enter task
    ((d.ignoreSet c).2.trust.isTrusted (d.ignoreSet c).2.files) hnone
  refine ⟨g, hg, ?_⟩
  simp only [followLookup, requestRules, henter, followPassage, useRules]

/-! ### Lookups -/

theorem Lints.followLookup (hs : s.IsBare) (h : d.Lints tree home w s) (task : Nat)
    (hc : c.settings = s) (hl : l.OnTrack tree.layer home c.query d.resolver)
    (hserved : c.document.uri.hasFileSystem = true ∨ ∃ entry, l = .done entry) :
    StillLints tree home w s task d (d.followLookup task c l) := by
  by_cases hdone : ∃ entry, l = .done entry
  · obtain ⟨entry, rfl⟩ := hdone
    obtain ⟨g, hg, heq⟩ := h.followLookup_done hs task hc entry
    have hignores : SameInputs task d (d.ignoreSet c).2 := sameInputs_ignoreSet d c
    have hlints := (h.sameInputs hignores).putGate hg task
    have hinvoke :=
      hlints.stillLints (plainEffect_invoke _ task c entry.config (d.ignoreSet c).1 [])
    obtain ⟨ready, hostReady, hput⟩ := putGate_eq (d.ignoreSet c).2 task g
    rw [heq]
    have hgates : StillLints tree home w s task (d.ignoreSet c).2
        (((d.ignoreSet c).2.putGate task g).invoke task c entry.config (d.ignoreSet c).1 []) := by
      rw [hput] at hinvoke ⊢
      exact ⟨hinvoke.desk, hinvoke.next, hinvoke.within, hinvoke.outcomes, hinvoke.epoch⟩
    exact hgates.after_sameInputs hignores
  · have hopen : ∀ entry, l ≠ .done entry := fun entry heq => hdone ⟨entry, heq⟩
    have hwaits : d.followLookup task c l = { desk := d, next := [.ask (.lookup c l)] } := by
      unfold Desk.followLookup
      split
      · exact absurd rfl (hopen _)
      · rfl
    rw [hwaits]
    refine ⟨h, fun b hb => ?_, .refl _, fun _ _ => rfl, rfl⟩
    obtain rfl := List.mem_singleton.mp hb
    exact .asks ⟨hc, hserved.resolve_right hdone, hl.call hopen, hl⟩

/-- The desk with the resolver that a lookup leaves behind. -/
def afterLookup (d : Desk) (result : Lookup × Resolver) : Desk :=
  { d with resolver := result.2, log := result.2.log }

theorem Lints.afterLookup (h : d.Lints tree home w s) {q : Query} {result : Lookup × Resolver}
    (hcomes : Lookup.Comes tree.layer home .unset q d.resolver.cache l result) :
    (d.afterLookup result).Lints tree home w s :=
  ⟨h.files, h.workspace, h.settings, h.engine, hcomes.faithful, h.gate,
    fun hh => (h.held hh).mono hcomes.within⟩

theorem Lints.follow (hs : s.IsBare) (h : d.Lints tree home w s) (task : Nat) (hc : c.settings = s)
    {result : Lookup × Resolver}
    (hcomes : Lookup.Comes tree.layer home .unset c.query d.resolver.cache l result)
    (hserved : c.document.uri.hasFileSystem = true ∨ ∃ entry, result.1 = .done entry) :
    StillLints tree home w s task d ((d.afterLookup result).followLookup task c result.1) := by
  have hnext := (h.afterLookup hcomes).followLookup hs task hc hcomes.onTrack hserved
  exact ⟨hnext.desk, hnext.next, hcomes.within.trans hnext.within, hnext.outcomes, hnext.epoch⟩

/-- For a document without files the disk makes no difference. -/
theorem Lints.start_layerFor (h : d.Lints tree home w s) (q : Query) (r : Resolver) :
    Lookup.start q (d.layerFor q.document) r = Lookup.start q tree.layer r := by
  unfold layerFor
  split
  · rw [h.files]
    rfl
  · next hnone =>
      have hpath : q.document.path? = none := by
        have hfile : (q.document.uri.scheme == "file") = false := by
          by_contra hfile
          rw [Bool.not_eq_false, beq_iff_eq] at hfile
          exact hnone (by simp [Url.hasFileSystem, hfile, schemesWithFiles])
        simp [Document.path?, hfile, hnone]
      have hdirs : q.directories = [] := by simp [Query.directories, hpath]
      simp [Lookup.start, hdirs]

theorem Lints.startCollection_eq (h : d.Lints tree home w s) (task : Nat) (c : Collection) :
    d.startCollection task c =
      let result := Lookup.start c.query tree.layer { d.resolver with log := d.log }
      (d.afterLookup result).followLookup task c result.1 := by
  rw [← h.start_layerFor c.query]
  rfl

theorem Lints.start_comes (hs : s.IsBare) (h : d.Lints tree home w s) (hc : c.settings = s) :
    Lookup.Comes tree.layer home .unset c.query d.resolver.cache
      (Lookup.start c.query tree.layer { home }).1
      (Lookup.start c.query tree.layer { d.resolver with log := d.log }) :=
  Lookup.start_comes_of_unset tree.ignoresSpelling (h.faithful.journal d.log)
    ((congrArg Settings.config hc).trans hs.config)

theorem Lints.startCollection (hs : s.IsBare) (h : d.Lints tree home w s) (task : Nat)
    (hc : c.settings = s) : StillLints tree home w s task d (d.startCollection task c) := by
  rw [h.startCollection_eq]
  refine h.follow hs task hc (h.start_comes hs hc) ?_
  by_cases hserved : c.document.uri.hasFileSystem = true
  · exact .inl hserved
  · have hunset : c.query.settings.config = none := (congrArg Settings.config hc).trans hs.config
    have hnone : d.layerFor c.query.document = .none := if_neg hserved
    rw [← h.start_layerFor c.query, hnone]
    obtain ⟨entry, r', heq⟩ := Lookup.fallBack_of_unset hunset { d.resolver with log := d.log }
    exact .inr ⟨entry, congrArg Prod.fst heq⟩

theorem Lints.takeLookup_eq (h : d.Lints tree home w s) (task : Nat)
    (hserved : c.document.uri.hasFileSystem = true) (l : Lookup) :
    d.takeCall task (.lookup c l) =
      let result := l.resume c.query tree.layer { d.resolver with log := d.log }
      (d.afterLookup result).followLookup task c result.1 := by
  have hlayer : d.layerFor c.document = tree.layer := by
    rw [layerFor, if_pos hserved, h.files]
    rfl
  rw [← hlayer]
  rfl

theorem Lints.resume_comes (hs : s.IsBare) (h : d.Lints tree home w s)
    (hl : c.Awaits tree home s d.resolver l) :
    Lookup.Comes tree.layer home .unset c.query d.resolver.cache
      (Lookup.alone tree.layer home c.query l)
      (l.resume c.query tree.layer { d.resolver with log := d.log }) :=
  Lookup.resume_comes_of_unset tree.ignoresSpelling (h.faithful.journal d.log)
    ((congrArg Settings.config hl.settings).trans hs.config) (hl.onTrack.mono (.refl _)) hl.call

theorem Lints.takeLookup (hs : s.IsBare) (h : d.Lints tree home w s) (task : Nat)
    (hl : c.Awaits tree home s d.resolver l) :
    StillLints tree home w s task d (d.takeCall task (.lookup c l)) := by
  rw [h.takeLookup_eq task hl.served]
  exact h.follow hs task hl.settings (h.resume_comes hs hl) (.inl hl.served)

/-! ### Actions -/

theorem Lints.collect (hs : s.IsBare) (h : d.Lints tree home w s) (task : Nat) (document : Document)
    (purpose : Purpose) : StillLints tree home w s task d (d.collect task document purpose) := by
  unfold Desk.collect
  dsimp only
  split
  · exact h.startCollection hs task (h.settings document.uri)
  · exact h.stillLints (.of_sameInputs (sameInputs_useViolations d task _ []) rfl)

theorem Lints.startPass (hs : s.IsBare) (h : d.Lints tree home w s) (task : Nat)
    (document : Document) : StillLints tree home w s task d (d.startPass task document) := by
  have hopen : SameInputs task d (d.openPass document).2 := sameInputs_openPass d document
  have hlints := h.sameInputs hopen
  unfold Desk.startPass
  dsimp only
  split
  · exact (hlints.startCollection hs task (hlints.settings document.uri)).after_sameInputs hopen
  · exact h.stillLints (.of_sameInputs hopen rfl)

theorem Lints.lintNow (hs : s.IsBare) (h : d.Lints tree home w s) (task : Nat)
    (document : Document) : StillLints tree home w s task d (d.lintNow task document) := by
  have hdrop : SameInputs task d (d.dropPending document.uri) :=
    sameInputs_dropPending d document.uri
  exact ((h.sameInputs hdrop).startPass hs task document).after_sameInputs hdrop

theorem plainEffect_makeCall (d : Desk) (task : Nat) {w : FileWork}
    (h : (Action.take w).isPlain = true) : PlainEffect task d (d.makeCall task w) := by
  unfold makeCall
  split
  · have hcalls : ∀ calls, SameInputs task d { d with calls } := fun _ => .of_same rfl rfl rfl
    exact (plainEffect_after _ _ (by simpa using h)).after_sameInputs (hcalls _)
  · exact ⟨.refl d, by simpa using h⟩

/-- A disk lets nobody wait. -/
theorem Lints.makeLookup_eq (h : d.Lints tree home w s) (task : Nat)
    (hl : c.Awaits tree home s d.resolver l) : ∃ calls, d.makeCall task (.lookup c l) =
      { desk := { d with calls }, next := [.take (.lookup c l)] } := by
  obtain ⟨call, hcall⟩ := Option.isSome_iff_exists.mp hl.call
  refine ⟨d.calls ++ [call], ?_⟩
  simp [makeCall, callOf, hcall, hl.served, h.files, Files.delay, after]

theorem Lints.makeLookup (h : d.Lints tree home w s) (task : Nat)
    (hl : c.Awaits tree home s d.resolver l) :
    StillLints tree home w s task d (d.makeCall task (.lookup c l)) := by
  obtain ⟨calls, heq⟩ := h.makeLookup_eq task hl
  have hcalls : SameInputs task d { d with calls } := .of_same rfl rfl rfl
  rw [heq]
  refine ⟨h.sameInputs hcalls, fun b hb => ?_, .refl _, fun _ _ => rfl, rfl⟩
  obtain rfl := List.mem_singleton.mp hb
  exact .takes hl

theorem Lints.save (hs : s.IsBare) (h : d.Lints tree home w s) (task : Nat)
    (document : Document) :
    StillLints tree home w s task d (d.act task (.save document)) := by
  have hmode : SameInputs task d _ := sameInputs_runMode d document.uri
  unfold Desk.act
  dsimp only
  split
  · next heq =>
      rw [heq] at hmode
      exact ((h.sameInputs hmode).lintNow hs task document).after_sameInputs hmode
  · next heq =>
      rw [heq] at hmode
      exact h.stillLints (.of_sameInputs hmode rfl)

theorem plainEffect_await (d : Desk) (task other : Nat) :
    PlainEffect task d (d.act task (.await other)) := by
  unfold Desk.act
  dsimp only
  split
  · exact ⟨.of_same rfl rfl rfl, by simp [Action.isPlain]⟩
  · exact .of_sameInputs (.refl d) rfl

/-- Whatever an action does that fits, the desk goes on linting by the same files. -/
theorem Lints.act (hs : s.IsBare) (h : d.Lints tree home w s) (task : Nat)
    (ha : a.Fits tree home s d.resolver) : StillLints tree home w s task d (d.act task a) := by
  cases ha with
  | asks hl => exact h.makeLookup task hl
  | takes hl => exact h.takeLookup hs task hl
  | plain hplain =>
    cases a with
    | lint document => exact h.lintNow hs task document
    | pass document => exact h.startPass hs task document
    | collect document purpose => exact h.collect hs task document purpose
    | ask work =>
        refine h.stillLints (plainEffect_makeCall d task ?_)
        cases work with
        | lookup => cases hplain
        | rules => cases hplain
        | ignoreFile => rfl
    | take work =>
        cases work with
        | lookup => cases hplain
        | rules => cases hplain
        | ignoreFile key epoch path =>
            exact h.stillLints (plainEffect_takeIgnoreFile d task key epoch path)
    | request => cases hplain
    | takeTurn => cases hplain
    | answer => cases hplain
    | evaluate request =>
        have hrequests : ∀ requests, SameInputs task d { d with requests } :=
          fun _ => .of_same rfl rfl rfl
        exact h.stillLints ((plainEffect_after _ _ (by simp [Action.isPlain])).after_sameInputs
          (hrequests _))
    | conclude request engine => exact h.stillLints (.of_sameInputs (sameInputs_leave d task _) rfl)
    | collectResult c name engineTask =>
        exact h.stillLints (plainEffect_takeResult d task c name engineTask)
    | holdBack document => exact h.stillLints (plainEffect_after d _ (by simp [Action.isPlain]))
    | fire document =>
        exact h.stillLints (.of_sameInputs (sameInputs_spawn d (by simp [Action.isPlain])) rfl)
    | save document => exact h.save hs task document
    | refresh => exact h.stillLints (plainEffect_startRefresh d)
    | lintVisible => exact h.stillLints ⟨.refl d, by simp [Desk.act, Action.isPlain]⟩
    | startOver => cases hplain
    | setEnabled enabled => exact h.stillLints (plainEffect_startEnabling d enabled)
    | toggle =>
        exact h.stillLints ((plainEffect_startEnabling _ _).after_sameInputs
          (sameInputs_leave d task _))
    | close uri => exact h.stillLints (.of_sameInputs (sameInputs_closeDocument d uri) rfl)
    | sleep milliseconds => exact h.stillLints (plainEffect_after d milliseconds (by simp))
    | await other => exact h.stillLints (plainEffect_await d task other)

/-! ### Moves -/

/-- What is left of a task goes on to fit. -/
theorem StillLints.setAgenda (h : StillLints tree home w s task d e) {rest : List Action}
    (hrest : ∀ b ∈ rest, b.Fits tree home s d.resolver) :
    (e.desk.setAgenda task (e.next ++ rest)).Lints tree home w s := by
  have hlints := h.desk
  refine ⟨hlints.files, hlints.workspace, hlints.settings, hlints.engine, hlints.faithful,
    hlints.gate, fun {other b} hholds => ?_⟩
  rcases holds_setAgenda hholds with hold | ⟨-, hb, -⟩
  · exact hlints.held hold
  · rcases List.mem_append.mp hb with hb | hb
    · exact h.next b hb
    · exact (hrest b hb).mono h.within

/-- One move of a run in which documents are linted and nothing is forgotten, with the task that
makes it. -/
inductive LintMove : Option Nat → Desk → Desk → Prop where
  /-- A task does its next action. -/
  | works {d : Desk} (task : Nat) : LintMove (some task) d (d.advance task)
  | hosts {d : Desk} (event : HostEvent) (h : event.IsPlain) : LintMove none d (event.apply d)
  /-- Something else changes: time, the order of tasks, answers of the user. -/
  | drifts {d d' : Desk} (hpassState : d'.passState = d.passState)
      (hinputs : d'.lintInputs = d.lintInputs)
      (hignores : d'.ignores = d.ignores)
      (houtcomes : ∀ task ≠ host, d'.outcome? task = d.outcome? task) : LintMove none d d'

/-- A run of such moves, in any order of tasks. -/
abbrev LintRun : Desk → Desk → Prop :=
  Relation.ReflTransGen fun d d' => ∃ worker, LintMove worker d d'

theorem Lints.advance (hs : s.IsBare) (h : d.Lints tree home w s) (task : Nat) :
    (d.advance task).Lints tree home w s ∧
      (∀ other ≠ task, (d.advance task).outcome? other = d.outcome? other) ∧
      (d.advance task).ignores.epoch = d.ignores.epoch := by
  have hsameInputs : ∀ {d' : Desk}, SameInputs task d d' → d'.Lints tree home w s ∧
      (∀ other ≠ task, d'.outcome? other = d.outcome? other) ∧
      d'.ignores.epoch = d.ignores.epoch :=
    fun hst => ⟨h.sameInputs hst, hst.outcomes, congrArg LintInputs.epoch hst.lintInputs⟩
  match hagenda : d.agenda? task with
  | none =>
      apply hsameInputs
      rw [advance_of_gone hagenda]
      exact .of_same rfl rfl rfl
  | some [] =>
      apply hsameInputs
      rw [advance_of_done hagenda]
      exact sameInputs_finishTask d task
  | some (a :: rest) =>
      have hact := h.act hs task (h.held ⟨_, hagenda, List.mem_cons_self⟩)
      have hset := hact.setAgenda fun b hb => h.held ⟨_, hagenda, List.mem_cons_of_mem a hb⟩
      have hrunning : ∀ d' : Desk, ∀ running, SameInputs task d' { d' with running } :=
        fun _ _ => .of_same rfl rfl rfl
      obtain ⟨running, heq⟩ := advance_eq hagenda
      rw [heq]
      exact ⟨hset.sameInputs (hrunning _ running), hact.outcomes, hact.epoch⟩

theorem Lints.move (hs : s.IsBare) (h : d.Lints tree home w s) {worker : Option Nat}
    (hm : LintMove worker d d') :
    d'.Lints tree home w s ∧ d'.ignores.epoch = d.ignores.epoch := by
  cases hm with
  | works task => exact ⟨(h.advance hs task).1, (h.advance hs task).2.2⟩
  | hosts event hplain =>
      have hsameInputs : SameInputs host d _ := sameInputs_event d hplain
      exact ⟨h.sameInputs hsameInputs, congrArg LintInputs.epoch hsameInputs.lintInputs⟩
  | drifts hpassState hinputs _ houtcomes =>
      have hsameInputs : SameInputs host d d' := ⟨hinputs, houtcomes, fun ⟨agenda, hsome, ha⟩ =>
        .inl ⟨agenda, (agenda?_congr hpassState _).symm.trans hsome, ha⟩⟩
      exact ⟨h.sameInputs hsameInputs, congrArg LintInputs.epoch hsameInputs.lintInputs⟩

end Desk

end Linting

end LintDesk
