import LintDesk.Cli.Command
import LintDesk.Proofs.Config.Endings
import LintDesk.Proofs.Desk.Collecting
import LintDesk.Proofs.Url.FilePaths

/-! # Commands and desks agree

A command lints one document after the other, with the ignore file read before the first of them.
A desk lints many at a time, and reads the ignore file while it does. On the same tree, and after
whatever either has linted before, both find the same violations of a document below the root
(`lintDocument_eq_violations`).
-/

namespace LintDesk

/-! ### Two folders at one place -/

/-- The folder lies at a directory, however either is written. -/
def Folder.LiesAt (f : Folder) (root : Path) : Prop :=
  ∃ p, f.path? = some p ∧ p.components = root.components

theorem Workspace.folderFor?_single {f : Folder} {uri : Url} (h : f.contains uri = true) :
    folderFor? [f] uri = some f := by
  simp [folderFor?, h, lastMaxBy?]

section Folders

variable {f f' : Folder} {root : Path} {document : Document}

theorem Folder.LiesAt.relativePath_eq (h : f.LiesAt root) (h' : f'.LiesAt root)
    (hin : f.contains document.uri = true) (hin' : f'.contains document.uri = true) :
    Workspace.relativePath [f] document = Workspace.relativePath [f'] document := by
  obtain ⟨p, hp, hcomponents⟩ := h
  obtain ⟨p', hp', hcomponents'⟩ := h'
  have hsame : ∀ path : Path, path.relativeTo? p = path.relativeTo? p' := fun path => by
    rw [Path.relativeTo?, Path.relativeTo?, Path.startsWith, Path.startsWith, hcomponents,
      hcomponents']
  unfold Workspace.relativePath
  rw [Workspace.folderFor?_single hin, Workspace.folderFor?_single hin']
  simp [hp, hp', hsame]

theorem Folder.LiesAt.directories_eq {q q' : Query} (h : f.LiesAt root) (h' : f'.LiesAt root)
    (hq : q.folder = some f) (hq' : q'.folder = some f') (hdocument : q.document = q'.document) :
    q.directories = q'.directories := by
  obtain ⟨p, hp, hcomponents⟩ := h
  obtain ⟨p', hp', hcomponents'⟩ := h'
  unfold Query.directories
  rw [hq, hq', Option.bind_some, Option.bind_some, hp, hp', hdocument]
  split
  · rfl
  · exact searchPath_congr (hcomponents.trans hcomponents'.symm) _ _

end Folders

/-! ### The command -/

namespace Cli

namespace Linter

/-- The linter after documents were linted, each with a number of calls that it may take. -/
def after (l : Linter) (tree : Disk) (earlier : List (Nat × Document)) : Linter :=
  earlier.foldl (fun l e => (l.lintDocument e.1 tree e.2).2) l

/-- What is looked up for a document. -/
def query (l : Linter) (document : Document) : Query where
  document := document
  folder := Workspace.folderFor? [l.folder] document.uri
  settings := { ignoring := .file ignoreFileName }

/-- What stays of a linter that looks for configurations. -/
structure Continues (tree : Disk) (home : Option Path) (l₀ l : Linter) : Prop where
  folder : l.folder = l₀.folder
  ignores : l.ignores = l₀.ignores
  explicit : l.explicit = none
  faithful : l.resolver.Faithful tree.layer home .unset

variable {tree : Disk} {home : Option Path} {l₀ l : Linter}

theorem Continues.configOf_eq (h : Continues tree home l₀ l) (fuel : Nat) (document : Document) :
    l.configOf fuel tree document =
      let result := l.resolver.resolve fuel tree.layer (l₀.query document)
      ((result.2.1.map (·.config)).getD .default, { l with resolver := result.2.2 }) := by
  simp only [configOf, h.explicit, h.folder, query]

theorem Continues.lintDocument (h : Continues tree home l₀ l) (fuel : Nat) (document : Document) :
    Continues tree home l₀ (l.lintDocument fuel tree document).2 := by
  have hfaithful := h.faithful.resolve tree.ignoresSpelling (q := l₀.query document) rfl fuel
  simp only [Linter.lintDocument, h.configOf_eq]
  exact ⟨h.folder, h.ignores, h.explicit, hfaithful⟩

theorem Continues.after (h : Continues tree home l₀ l) (earlier : List (Nat × Document)) :
    Continues tree home l₀ (l.after tree earlier) := by
  induction earlier generalizing l with
  | nil => exact h
  | cons e earlier ih => exact ih (h.lintDocument e.1 e.2)

/-- With as many calls as a lookup needs alone, a document has the violations of its own
configuration. -/
theorem Continues.lintDocument_eq (h : Continues tree home l₀ l) {document : Document}
    {calls fuel : Nat} {e : ResolvedConfig}
    (halone : (Lookup.alone tree.layer home (l₀.query document))^[calls]
      (Lookup.start (l₀.query document) tree.layer { home }).1 = .done e) (hfuel : calls ≤ fuel) :
    (l.lintDocument fuel tree document).1 = document.violationsWith e.config l₀.ignores
      (Workspace.relativePath [l₀.folder] document) := by
  obtain ⟨e', he', hview⟩ :=
    h.faithful.exists_resolve tree.ignoresSpelling (q := l₀.query document) rfl halone hfuel
  have hconfig : e'.config = e.config := congrArg Prod.fst hview
  simp only [Linter.lintDocument, h.configOf_eq, he', h.folder, h.ignores, Option.map_some,
    Option.getD_some, hconfig]
  exact Engine.lint_fst _ _ _ _

/-- A command starts in every absolute directory whose ignore file is absent or can be read. -/
theorem exists_start {root : Path} (habsolute : root.isAbsolute = true)
    (hreadable : ∀ fault, tree.read (root.join ⟨ignoreFileName⟩) = .error fault →
      fault.isNotFound = true) (budget : Nat) (home : Option Path) :
    ∃ l, Linter.start budget tree root home none = .ok l ∧ Folder.ofPath? root = some l.folder ∧
      l.ignores = .compile (.file ignoreFileName)
        (tree.read (root.join ⟨ignoreFileName⟩)).toOption ∧ Continues tree home l l := by
  obtain ⟨folder, hfolder⟩ : ∃ folder, Folder.ofPath? root = some folder := by
    simp [Folder.ofPath?, Url.ofDirectory?, Url.ofFilePath?, habsolute]
  let l : Linter :=
    { folder
      explicit := none
      ignores := .compile (.file ignoreFileName) (tree.read (root.join ⟨ignoreFileName⟩)).toOption
      resolver := { home, log := { hasSink := false } } }
  have hstart : Linter.start budget tree root home none = .ok l := by
    cases hread : tree.read (root.join ⟨ignoreFileName⟩) with
    | ok text => simp [Linter.start, l, hread, hfolder, bind, Except.bind, Except.toOption]
    | error fault =>
        simp [Linter.start, l, hread, hfolder, hreadable fault hread, bind, Except.bind,
          Except.toOption]
  exact ⟨l, hstart, hfolder, rfl, rfl, rfl, rfl, Resolver.faithful_of_cache rfl rfl⟩

end Linter

end Cli

/-! ### The desk -/

namespace Desk

/-- A desk that opens a folder of a tree: nothing is cached, and the settings name the ignore file
of the commands and nothing else. -/
structure OpensOn (tree : Disk) (home : Option Path) (f : Folder) (d : Desk) : Prop where
  fresh : d.IsFresh
  files : d.files = .disk tree
  workspace : d.workspace = [f]
  settings : ∀ uri, d.settingsFor uri = { ignoring := .file Cli.ignoreFileName }
  engine : d.engine = .builtin
  home : d.resolver.home = home
  cache : d.resolver.cache = {}
  gate : d.gate.states = []
  ignores : d.ignores.entries = []
  outcomes : d.outcomes = []

variable {tree : Disk} {home : Option Path} {f : Folder} {d d' : Desk}

theorem ignoreKey_reportOf {document : Document} (h : f.contains document.uri = true)
    (s : Settings) : (reportOf [f] s document).ignoreKey = ⟨some f.uri, s.ignoring⟩ := by
  rw [Collection.ignoreKey, Collection.folder?, reportOf, Workspace.folderFor?_single h]
  rfl

theorem OpensOn.inOrder (h : d.OpensOn tree home f) :
    d.InOrder tree home [f] { ignoring := .file Cli.ignoreFileName } := by
  have hfaithful : d.resolver.Faithful tree.layer home .unset :=
    Resolver.faithful_of_cache h.home h.cache
  refine ⟨⟨h.files, h.workspace, h.settings, h.engine, hfaithful, ?_, ?_⟩,
    h.fresh.sound, h.fresh.schedulesDistinct, h.fresh.reservedReads h.ignores, ?_⟩
  · intro key rules hstate
    simp [Gate.state, h.gate] at hstate
  · rintro task a ⟨agenda, hagenda, -⟩
    rw [agenda?, h.fresh.tasks] at hagenda
    cases hagenda
  · intro task o ho
    rw [outcome?, h.outcomes] at ho
    cases ho

end Desk

/-! ### Agreement -/

theorem IgnoreKey.HasFile.path_eq {f : Folder} {p path : Path} {name : String}
    (h : HasFile ⟨some f.uri, .file name⟩ path) (hp : f.path? = some p) :
    path = p.join ⟨name⟩ := by
  obtain ⟨c, name', hname, hkey, rfl⟩ := h
  obtain ⟨hfolder, hsetting⟩ := IgnoreKey.mk.inj hkey
  rw [hname] at hsetting
  obtain rfl := IgnoreSetting.file.inj hsetting
  obtain ⟨g, hg, hurl⟩ := Option.map_eq_some_iff.mp hfolder.symm
  have hpath : g.path? = some p := by
    rw [← hp, Folder.path?, Folder.path?, hurl]
  simp [Collection.ignorePath, hg, hpath]

/-- Two lookups of a document come to the same, if their folders lie at one place. -/
theorem Folder.LiesAt.lookup_eq {f f' : Folder} {root : Path} (h : f.LiesAt root)
    (h' : f'.LiesAt root) {q q' : Query} (hdocument : q.document = q'.document)
    (hq : q.folder = some f) (hq' : q'.folder = some f') (hunset : q.settings.config = none)
    (hunset' : q'.settings.config = none) (layer : FileLayer) (home : Option Path) :
    Lookup.alone layer home q = Lookup.alone layer home q' ∧
      (Lookup.start q layer { home }).1 = (Lookup.start q' layer { home }).1 := by
  refine ⟨Lookup.alone_of_unset hunset hunset', ?_⟩
  rw [Lookup.start, Lookup.start, h.directories_eq h' hq hq' hdocument]
  exact Lookup.visit_fst_of_unset hunset hunset' _

/-- When a desk has read the ignore file of its folder, it has the set of the commands. -/
theorem Desk.InOrder.hasRead_ignoreFile {tree : Disk} {home : Option Path} {w : Workspace}
    {s : Settings} {d : Desk} (h : d.InOrder tree home w s) {f : Folder} {root : Path}
    (hroot : f.LiesAt root) {reader : Nat} {path : Path} {rest : List Action}
    (hreads : d.agenda? reader = some (.take (.ignoreFile
      ⟨some f.uri, .file Cli.ignoreFileName⟩ d.ignores.epoch path) :: rest)) :
    (d.advance reader).HasRead ⟨some f.uri, .file Cli.ignoreFileName⟩
      (.compile (.file Cli.ignoreFileName)
        (tree.read (root.join ⟨Cli.ignoreFileName⟩)).toOption) := by
  obtain ⟨p, hp, hcomponents⟩ := hroot
  have hfile := (h.reservedReads.reading ⟨_, hreads, List.mem_cons_self⟩ rfl).2.2.1
  have hname : Disk.IsName Cli.ignoreFileName := by decide
  have hread := h.reservedReads.hasRead hreads
  rw [h.lints.files, hfile.path_eq hp] at hread
  change (d.advance reader).HasRead _
    ((tree.read (p.join ⟨Cli.ignoreFileName⟩)).toOption.toList.map IgnorePredicate.ofFile) at hread
  rwa [tree.read_join_congr hcomponents hname] at hread

/-- The command and the desk find the same violations, on a tree that does not change and below a
root whose ignore file is absent or can be read: of every document with a file URL that lies in the
folder of the command, as files below the root do (`Folder.contains_of_startsWith`), and in that of
the desk. The command may have linted any documents before. The desk may have linted others, and
goes on with them meanwhile, but its ignore file has been read; it comes to no other violations, and
always can come to these. -/
theorem lintDocument_eq_violations (tree : Disk) (root : Path) (home : Option Path)
    (habsolute : root.isAbsolute = true)
    (hreadable : ∀ fault, tree.read (root.join ⟨Cli.ignoreFileName⟩) = .error fault →
      fault.isNotFound = true) (budget : Nat) {f : Folder} (hroot : f.LiesAt root)
    {d₀ d₁ d : Desk} (hopens : d₀.OpensOn tree home f) (hbefore : Desk.LintRun d₀ d₁)
    {reader : Nat} {path : Path} {rest : List Action}
    (hreads : d₁.agenda? reader = some (.take (.ignoreFile
      ⟨some f.uri, .file Cli.ignoreFileName⟩ d₁.ignores.epoch path) :: rest))
    (hsince : Desk.LintRun (d₁.advance reader) d) :
    ∃ linter, Cli.Linter.start budget tree root home none = .ok linter ∧
      Folder.ofPath? root = some linter.folder ∧
      ∀ document : Document, document.uri.scheme = "file" → document.language = "markdown" →
        linter.folder.contains document.uri = true → f.contains document.uri = true →
        ∃ violations,
          (∃ calls, ∀ earlier fuel, calls ≤ fuel →
            ((linter.after tree earlier).lintDocument fuel tree document).1 = violations) ∧
          ∀ d', Desk.LintRun ((HostEvent.starts (.violations document)).apply d) d' →
            (∀ o, d'.outcome? d.nextTask = some o → o = .violations violations) ∧
            ∃ tasks, (d'.works tasks).outcome? d.nextTask = some (.violations violations) := by
  let s : Settings := { ignoring := .file Cli.ignoreFileName }
  have hs : s.IsBare := ⟨rfl, rfl⟩
  obtain ⟨linter, hstart, hfolder, hignores, hcontinues⟩ :=
    Cli.Linter.exists_start habsolute hreadable budget home
  have hlinter : linter.folder.LiesAt root := Folder.exists_path?_of_ofPath? hfolder
  -- the desk since its ignore file was read
  have horder₁ : d₁.InOrder tree home [f] s := hopens.inOrder.run hs hbefore
  have horder₂ := horder₁.advance hs reader
  have hread := horder₂.run_hasRead hs (horder₁.hasRead_ignoreFile hroot hreads) hsince
  have horder : d.InOrder tree home [f] s := horder₂.run hs hsince
  refine ⟨linter, hstart, hfolder, fun document hscheme hlanguage hin hin' => ?_⟩
  -- what a lookup alone comes to, for the desk and for the command
  have hfor : Workspace.folderFor? [f] document.uri = some f := Workspace.folderFor?_single hin'
  obtain ⟨calls, e, halone⟩ := tree.exists_iterate_done home (Desk.reportOf [f] s document).query
  have hprospect : Desk.CollectPlan tree home [f] s document e.config calls := by
    refine ⟨hs, ?_, e, halone, rfl⟩
    simp [Collection.isLintable, Document.isLintable, Desk.reportOf, hscheme, hlanguage, s,
      lintedSchemes, defaultLanguages]
  have hdocument :
      (Desk.reportOf [f] s document).query.document = (linter.query document).document := rfl
  obtain ⟨hstep, hfirst⟩ := hroot.lookup_eq hlinter hdocument hfor
    (Workspace.folderFor?_single hin) rfl rfl tree.layer home
  rw [hstep, hfirst] at halone
  rw [← hignores] at hread
  have hkey : (Desk.reportOf [f] s document).ignoreKey = ⟨some f.uri, .file Cli.ignoreFileName⟩ :=
    Desk.ignoreKey_reportOf hin' s
  rw [← hkey] at hread
  refine ⟨_, ⟨calls, fun earlier fuel hfuel =>
    (hcontinues.after earlier).lintDocument_eq halone hfuel⟩, fun d' hrun => ?_⟩
  rw [hlinter.relativePath_eq hroot hin hin']
  obtain ⟨actions, hcollects⟩ := (horder.collects hs hread e.config).run hprospect hrun
  exact ⟨fun o ho => hcollects.eq_violations ho, hcollects.finish hprospect⟩

/-! ### A note in a folder -/

/-- A directory with an ignore file. -/
def noteTree : Disk where
  nodes := [(["w"], .directory), (["w", ".markdownlintignore"], .file (some "drafts\n"))]

def noteFolder : Folder where
  uri := { scheme := "file", authority := some "", path := "/w" }
  name := "w"

def noteDocument : Document where
  uri := { scheme := "file", authority := some "", path := "/w/a.md" }
  text := "a \n"
  language := "markdown"
  version := 1

def noteDesk : Desk where
  files := .disk noteTree
  workspace := [noteFolder]
  settings := { user := [("ignore", .str ".markdownlintignore")] }

theorem noteTree_place :
    noteTree.place true ⟨"/w"⟩ = .ok ["w"] ∧
      noteTree.place true ⟨"/w/.markdownlintignore"⟩ = .ok ["w", ".markdownlintignore"] := by
  have hroot : noteTree.node? [] = some .directory := rfl
  have hdirectory : noteTree.node? ["w"] = some .directory := rfl
  have hfile : noteTree.node? ["w", ".markdownlintignore"] = some (.file (some "drafts\n")) := rfl
  have hparts : Disk.partsOf ⟨"/w"⟩ = ["w"] := by decide +kernel
  have hparts' : Disk.partsOf ⟨"/w/.markdownlintignore"⟩ = ["w", ".markdownlintignore"] := by
    decide +kernel
  have horigin : ∀ path, Disk.origin path noteTree.workingDirectory = [] := fun path => by
    simp [Disk.origin, noteTree]
  constructor
  · simp [Disk.place, hparts, horigin, Disk.walk, Disk.hasDirectory, hroot, hdirectory]
  · simp [Disk.place, hparts', horigin, Disk.walk, Disk.hasDirectory, hroot, hdirectory, hfile]

theorem noteTree_read :
    noteTree.read ((⟨"/w"⟩ : Path).join ⟨Cli.ignoreFileName⟩) = .ok "drafts\n" := by
  have hjoin : (⟨"/w"⟩ : Path).join ⟨Cli.ignoreFileName⟩ = ⟨"/w/.markdownlintignore"⟩ := by
    decide +kernel
  rw [hjoin, Disk.read, Disk.find, noteTree_place.2]
  rfl

theorem noteTree_list : noteTree.list ⟨"/w"⟩ = .ok [⟨".markdownlintignore", .file⟩] := by
  have hnames : noteTree.namesBelow ["w"] = [".markdownlintignore"] :=
    List.mergeSort_singleton ..
  rw [Disk.list, noteTree_place.1]
  change Except.ok ((noteTree.namesBelow ["w"]).map _) = _
  rw [hnames]
  rfl

theorem noteDesk_opensOn : noteDesk.OpensOn noteTree none noteFolder :=
  ⟨⟨rfl, rfl, rfl, rfl, rfl, rfl, Nat.one_pos⟩, rfl, rfl, fun _ => rfl, rfl, rfl, rfl, rfl, rfl,
    rfl⟩

/-- The desk when it has asked for the names in the directory of the note. -/
def noteListing : Desk :=
  ((HostEvent.starts (.violations noteDocument)).apply noteDesk).works [1, 1]

/-- The desk when the text of the ignore file is there. -/
def noteReading : Desk :=
  (noteListing.advance 1).advance 2

theorem noteListing_lintRun : Desk.LintRun noteDesk noteListing :=
  .head ⟨none, .hosts (.starts (.violations noteDocument)) rfl⟩ (Desk.works_lintRun [1, 1] _)

/-- The desk asks for the ignore file when it has looked for a configuration of the note. -/
theorem noteListing_asks : ∃ path, (noteListing.advance 1).agenda? 2 = some [.ask (.ignoreFile
    ⟨some noteFolder.uri, .file Cli.ignoreFileName⟩ noteListing.ignores.epoch path)] := by
  let s : Settings := { ignoring := .file Cli.ignoreFileName }
  let c := Desk.reportOf [noteFolder] s noteDocument
  let result := Lookup.tryNames c.query ⟨"/w"⟩ [⟨".markdownlintignore", .file⟩] [] configFileNames
    { noteListing.resolver with log := noteListing.log }
  have hs : s.IsBare := ⟨rfl, rfl⟩
  have horder : noteListing.InOrder noteTree none [noteFolder] s :=
    noteDesk_opensOn.inOrder.run hs noteListing_lintRun
  have hagenda : noteListing.agenda? 1 = some [.take (.lookup c (.listing ⟨"/w"⟩ []))] := by
    with_unfolding_all rfl
  have hawaits : c.Awaits noteTree none s noteListing.resolver (.listing ⟨"/w"⟩ []) :=
    horder.lints.awaits (.inr rfl) ⟨_, hagenda, List.mem_singleton_self _⟩
  -- the directory holds no configuration
  have hresume : (Lookup.listing ⟨"/w"⟩ []).resume c.query noteTree.layer
      { noteListing.resolver with log := noteListing.log } = result := by
    have hlist : noteTree.layer.list ⟨"/w"⟩ = .ok [⟨".markdownlintignore", .file⟩] :=
      noteTree_list
    rw [Lookup.resume, hlist]
  have hdone : result.1 = .done ⟨[("MD013", .bool false)], some .default, 0⟩ := by
    with_unfolding_all rfl
  have hcomes := horder.lints.resume_comes hs hawaits
  have hact := horder.lints.takeLookup_eq 1 hawaits.served (.listing ⟨"/w"⟩ [])
  rw [hresume] at hcomes hact
  have hempty : noteListing.ignores = {} := by
    with_unfolding_all rfl
  have hnext : noteListing.nextTask = 2 := by
    with_unfolding_all rfl
  have hasks := horder.asks_ignoreFile hs hagenda hcomes hact hdone rfl hawaits.served
    (by rw [hempty]; rfl)
  rw [Desk.ignoreKey_reportOf (by decide +kernel) s, hnext] at hasks
  exact ⟨_, hasks⟩

theorem noteReading_takes : ∃ path, noteReading.agenda? 2 = some [.take (.ignoreFile
    ⟨some noteFolder.uri, .file Cli.ignoreFileName⟩ noteReading.ignores.epoch path)] := by
  obtain ⟨path, hasks⟩ := noteListing_asks
  have horder := noteDesk_opensOn.inOrder.run ⟨rfl, rfl⟩ noteListing_lintRun
  have hepoch := (horder.lints.advance ⟨rfl, rfl⟩ 1).2.2
  rw [← hepoch] at hasks
  exact ⟨path, (horder.advance ⟨rfl, rfl⟩ 1).takes_ignoreFile ⟨rfl, rfl⟩ hasks⟩

/-- The note is linted a second time, when the ignore file has been read. -/
theorem lintDocument_eq_violations_of_note :
    let d := noteReading.advance 2
    noteDesk.OpensOn noteTree none noteFolder ∧ noteFolder.LiesAt ⟨"/w"⟩ ∧
    Desk.LintRun noteDesk noteReading ∧
    ∃ linter, Cli.Linter.start 0 noteTree ⟨"/w"⟩ none none = .ok linter ∧ ∃ violations,
      (∃ calls, ∀ earlier fuel, calls ≤ fuel →
        ((linter.after noteTree earlier).lintDocument fuel noteTree noteDocument).1 = violations) ∧
      ∀ d', Desk.LintRun ((HostEvent.starts (.violations noteDocument)).apply d) d' →
        (∀ o, d'.outcome? d.nextTask = some o → o = .violations violations) ∧
        ∃ tasks, (d'.works tasks).outcome? d.nextTask = some (.violations violations) := by
  intro d
  have hlies : noteFolder.LiesAt ⟨"/w"⟩ := ⟨⟨"/w"⟩, by decide +kernel, rfl⟩
  have hrun : Desk.LintRun noteDesk noteReading :=
    noteListing_lintRun.trans (Desk.works_lintRun [1, 2] noteListing)
  obtain ⟨path, htakes⟩ := noteReading_takes
  have hreadable : ∀ fault, noteTree.read ((⟨"/w"⟩ : Path).join ⟨Cli.ignoreFileName⟩) =
      .error fault → fault.isNotFound = true := by
    intro fault hfault
    rw [noteTree_read] at hfault
    cases hfault
  obtain ⟨linter, hstart, hfolder, hagree⟩ := lintDocument_eq_violations noteTree ⟨"/w"⟩ none
    (by decide) hreadable 0 hlies noteDesk_opensOn hrun htakes .refl
  have hurl : Url.ofFilePath? ⟨"/w/a.md"⟩ = some noteDocument.uri := by
    decide +kernel
  have hin := Folder.contains_of_startsWith hfolder hurl (by decide +kernel)
  exact ⟨noteDesk_opensOn, hlies, hrun, linter, hstart,
    hagree noteDocument rfl rfl hin (by decide +kernel)⟩

end LintDesk
