import LintDesk.Proofs.Config.Freshness
import LintDesk.Proofs.Config.Uncached
import LintDesk.Proofs.Files.Spelling

/-! # The cache does not show

Over files that do not change, each of several lookups that go on at once over one resolver returns
what a resolver with an empty cache returns, after no more calls; and what was returned once is
returned again without a call.
-/

namespace LintDesk

/-- How many calls were answered in the present lookup of a caller. -/
def LookupMark.callsSince (who : Nat) : List LookupMark → Nat
  | [] => 0
  | .started other :: earlier => if other = who then 0 else callsSince who earlier
  | .read other _ :: earlier => callsSince who earlier + if other = who then 1 else 0
  | _ :: earlier => callsSince who earlier

section Recall

variable {layer : FileLayer} {home : Option Path} {a : Assignment} {q q' : Query} {r : Resolver}
  {e : ResolvedConfig}

theorem Lookup.OnTrack.recalls (h : (Lookup.done e).OnTrack layer home q r) :
    r.Recalls layer q e := by
  cases h with
  | searching hplace => cases hplace
  | settled _ hcall => cases hcall
  | done hrecalls => exact hrecalls

theorem Lookup.OnTrack.call {l : Lookup} (h : l.OnTrack layer home q r)
    (hopen : ∀ e, l ≠ .done e) : l.call?.isSome := by
  cases h with
  | searching _ hcall => exact hcall
  | settled _ hcall => exact hcall
  | done => exact absurd rfl (hopen _)

/-- For a document it does not matter which of its versions is asked for. -/
theorem Resolver.Recalls.congr (h : r.Recalls layer q e) (hq : q.Follows a) (hq' : q'.Follows a)
    (huri : q'.document.uri = q.document.uri) : r.Recalls layer q' e := by
  have hkey : q'.key = q.key := by simp only [Query.key, huri]
  have hfolder : q'.folder = q.folder := by rw [hq.1, hq'.1, hkey]
  have hpath : q'.document.path? = q.document.path? := by simp only [Document.path?, huri]
  have hsearched : q'.searched layer = q.searched layer := by
    simp only [Query.searched, Query.directories, hpath, hfolder]
  unfold Recalls at h ⊢
  rw [hsearched, hkey]
  exact h

theorem Resolver.Recalls.resolve (h : r.Recalls layer q e) (fuel : Nat) (journal : Journal) :
    Resolver.resolve { r with log := journal } fuel layer q =
      ([], some e, { r with log := journal }) := by
  have hstart : Lookup.start q layer { r with log := journal } =
    (.done e, { r with log := journal }) := Recalls.start h
  unfold Resolver.resolve
  rw [hstart]
  cases fuel <;> rfl

end Recall

namespace LookupTrace

/-- One step over files that do not change, without a clearing of the cache. Each document has the
folder and the settings assigned to it; others may write to the journal. -/
inductive UnclearedStep (layer : FileLayer) (a : Assignment) (s : LookupTrace) : LookupTrace → Prop
  | start (who : Nat) {q : Query} (hq : q.Follows a) (journal : Journal)
      (hfree : ∀ q' l, s.lookups who = some (q', l) → ∃ e, l = .done e) :
      UnclearedStep layer a s ((s.note (.started who)).move who q
        (Lookup.start q layer { s.resolver with log := journal }))
  | resume {who : Nat} {q : Query} {l : Lookup} {call : FileCall}
      (h : s.lookups who = some (q, l)) (hcall : l.call? = some call) (journal : Journal) :
      UnclearedStep layer a s ((s.note (.read who call)).move who q
        (l.resume q layer { s.resolver with log := journal }))

/-- The cache is faithful, and every lookup is on its way to what it would come to alone, after no
more calls. -/
structure Uncleared (layer : FileLayer) (home : Option Path) (a : Assignment) (s : LookupTrace) :
    Prop where
  faithful : s.resolver.Faithful layer home a
  lookups : ∀ who q l, s.lookups who = some (q, l) → q.Follows a ∧
    l.OnTrack layer home q s.resolver ∧ Lookup.Leads layer home q
      (LookupMark.callsSince who s.log) (Lookup.start q layer { home }).1 l

variable {layer : FileLayer} {home : Option Path} {a : Assignment} {s s' : LookupTrace} {who : Nat}

theorem callsSince_append {marks : List LookupMark}
    (h : ∀ m ∈ marks, (∃ maker serial, m = .made maker serial) ∨ ∃ other e, m = .returned other e)
    (log : List LookupMark) :
    LookupMark.callsSince who (marks ++ log) = LookupMark.callsSince who log := by
  induction marks with
  | nil => rfl
  | cons m marks ih =>
      have hrest := ih fun k hk => h k (by simp [hk])
      rcases h m (by simp) with ⟨maker, serial, rfl⟩ | ⟨other, e, rfl⟩
      · exact hrest
      · exact hrest

theorem callsSince_move (s : LookupTrace) (q : Query) (result : Lookup × Resolver) (other : Nat) :
    LookupMark.callsSince other (s.move who q result).log = LookupMark.callsSince other s.log := by
  dsimp only [move]
  rw [← List.append_assoc]
  refine callsSince_append (fun m hm => ?_) s.log
  rcases List.mem_append.mp hm with hm | hm
  · obtain ⟨e, rfl, -⟩ := mem_marks hm
    exact .inr ⟨who, e, rfl⟩
  · obtain ⟨serial, rfl, -⟩ := mem_entries hm
    exact .inl ⟨who, serial, rfl⟩

/-- A lookup goes on, and the others stay on track. -/
theorem Uncleared.move (h : Uncleared layer home a s) {mark : LookupMark}
    (hothers : ∀ other ≠ who, LookupMark.callsSince other (mark :: s.log) =
      LookupMark.callsSince other s.log)
    {q : Query} (hq : q.Follows a) {l : Lookup} {result : Lookup × Resolver}
    (hcomes : Lookup.Comes layer home a q s.resolver.cache l result)
    (hleads : Lookup.Leads layer home q (LookupMark.callsSince who (mark :: s.log))
      (Lookup.start q layer { home }).1 l) :
    Uncleared layer home a ((s.note mark).move who q result) := by
  refine ⟨hcomes.faithful, fun other q' l' hlookup => ?_⟩
  rw [callsSince_move]
  by_cases hother : other = who
  · subst hother
    obtain ⟨rfl, rfl⟩ : q = q' ∧ result.1 = l' := by simpa [LookupTrace.move] using hlookup
    exact ⟨hq, hcomes.onTrack, hleads.trans hcomes.leads⟩
  · have hsame : s.lookups other = some (q', l') := by
      simpa [LookupTrace.move, note, hother] using hlookup
    obtain ⟨hq', htrack, hleads'⟩ := h.lookups other q' l' hsame
    refine ⟨hq', htrack.mono hcomes.within, ?_⟩
    dsimp only [note]
    rw [hothers other hother]
    exact hleads'

theorem Uncleared.step (hlayer : layer.IgnoresSpelling) (h : Uncleared layer home a s)
    (hstep : UnclearedStep layer a s s') :
    Uncleared layer home a s' ∧ s.resolver.cache.Within s'.resolver.cache := by
  cases hstep with
  | start who hq journal hfree =>
      have hcomes := Lookup.start_comes hlayer (h.faithful.journal journal) hq
      refine ⟨h.move (fun other hother => ?_) hq hcomes ?_, hcomes.within⟩
      · simp [LookupMark.callsSince, Ne.symm hother]
      · simpa [LookupMark.callsSince] using Lookup.Leads.of_agrees (.refl _)
  | @resume who q l call hlookup hcall journal =>
      obtain ⟨hq, htrack, hleads⟩ := h.lookups who q l hlookup
      have hcomes := Lookup.resume_comes hlayer (h.faithful.journal journal) hq
        (htrack.mono (.refl _)) (by simp [hcall])
      refine ⟨h.move (fun other hother => ?_) hq hcomes ?_, hcomes.within⟩
      · simp [LookupMark.callsSince, Ne.symm hother]
      · have hone : Lookup.Leads layer home q 1 l (Lookup.alone layer home q l) :=
          ⟨1, Nat.le_refl 1, .refl _⟩
        simpa [LookupMark.callsSince] using hleads.trans hone

theorem Uncleared.run (hlayer : layer.IgnoresSpelling) (h : Uncleared layer home a s)
    (hrun : Relation.ReflTransGen (UnclearedStep layer a) s s') :
    Uncleared layer home a s' ∧ s.resolver.cache.Within s'.resolver.cache := by
  induction hrun with
  | refl => exact ⟨h, .refl _⟩
  | tail _ hstep ih =>
      obtain ⟨huncleared, hwithin⟩ := ih.1.step hlayer hstep
      exact ⟨huncleared, ih.2.trans hwithin⟩

theorem IsFresh.uncleared (h : s.IsFresh) : Uncleared layer s.resolver.home a s := by
  obtain ⟨hcache, hlookups, -⟩ := h
  refine ⟨⟨rfl, fun dir found hdir => ?_, fun q _ e he => ?_⟩, fun who q l hlookup => ?_⟩
  · simp [hcache, ConfigCache.directory?] at hdir
  · simp [hcache, ConfigCache.document?] at he
  · simp [hlookups] at hlookup

/-! ### What is returned -/

/-- Over files that do not change, the cache does not show. A lookup that is done has returned the
rules and the source that a resolver with an empty cache returns, and any later lookup of the
document returns the same entry without a call; one that is not done waits for a call, and has made
fewer calls than a resolver with an empty cache makes. -/
theorem lookup_as_uncached (hlayer : layer.IgnoresSpelling) {s₀ : LookupTrace} (hfresh : s₀.IsFresh)
    (hrun : Relation.ReflTransGen (UnclearedStep layer a) s₀ s)
    (hlater : Relation.ReflTransGen (UnclearedStep layer a) s s') {q : Query} {l : Lookup}
    (hlookup : s.lookups who = some (q, l)) :
    (∀ e, l = .done e →
      (∃ n calls e' r, Resolver.resolve { home := s₀.resolver.home } n layer q =
        (calls, some e', r) ∧ e.view = e'.view) ∧
      ∀ q' : Query, q'.document.uri = q.document.uri → q'.Follows a → ∀ n journal,
        Resolver.resolve { s'.resolver with log := journal } n layer q' =
          ([], some e, { s'.resolver with log := journal })) ∧
    ((∀ e, l ≠ .done e) → l.call?.isSome ∧ ∀ n calls e' r,
      Resolver.resolve { home := s₀.resolver.home } n layer q = (calls, some e', r) →
        LookupMark.callsSince who s.log < calls.length) := by
  have huncleared := (hfresh.uncleared.run hlayer hrun).1
  obtain ⟨hq, htrack, k, hk, hagrees⟩ := huncleared.lookups who q l hlookup
  refine ⟨fun e he => ?_, fun hopen => ?_⟩
  · subst he
    constructor
    · obtain ⟨e₀, he₀, hview⟩ := hagrees.exists_done
      obtain ⟨calls, e', r, hresolve, hview'⟩ :=
        Lookup.exists_resolve (r := { home := s₀.resolver.home }) rfl (Nat.le_refl k) he₀
      exact ⟨k, calls, e', r, hresolve, (hview'.trans hview).symm⟩
    · intro q' huri hq' n journal
      have hrecalls := (htrack.recalls.mono (huncleared.run hlayer hlater).2).congr hq hq' huri
      exact hrecalls.resolve n journal
  · refine ⟨htrack.call hopen, fun n calls e' r hresolve => ?_⟩
    obtain ⟨e₀, he₀, -⟩ := Lookup.iterate_of_resolve hresolve
    by_contra hmore
    obtain ⟨j, rfl⟩ : ∃ j, k = j + calls.length := ⟨k - calls.length, by omega⟩
    rw [Function.iterate_add_apply, he₀, Lookup.iterate_alone_done] at hagrees
    rcases hagrees with rfl | ⟨-, e₁, -, rfl, -⟩
    · exact hopen e₀ rfl
    · exact hopen e₁ rfl

/-! ### Two documents in one directory -/

/-- A directory with one configuration file. -/
def sampleFiles (text : String) : MemoryFiles where
  nodes := [(sampleFile.components, .file text 0)]

/-- A document in the same directory, whose path is spelled in another way. -/
def neighbourQuery : Query :=
  { sampleQuery with
    document := ⟨{ scheme := "vscode-vfs", path := "//w/b.md" }, "", "markdown", 1⟩ }

def neighbourFile : Path := ⟨"//w/.markdownlint.json"⟩

def neighbourProbe : Probe :=
  { sampleProbe with dir := ⟨"//w"⟩ }

theorem start_sampleFiles (text : String) :
    Lookup.start sampleQuery (sampleFiles text).layer {} = (.listing ⟨"/w"⟩ [⟨"/"⟩], {}) ∧
      Lookup.start neighbourQuery (sampleFiles text).layer {} = (.listing ⟨"//w"⟩ [⟨"/"⟩], {}) :=
  ⟨rfl, rfl⟩

theorem resume_list_sampleFiles (text : String) :
    (Lookup.listing ⟨"/w"⟩ [⟨"/"⟩]).resume sampleQuery (sampleFiles text).layer {} =
        (.loading sampleProbe sampleFile (.opening sampleFile), {}) ∧
      (Lookup.listing ⟨"//w"⟩ [⟨"/"⟩]).resume neighbourQuery (sampleFiles text).layer {} =
        (.loading neighbourProbe neighbourFile (.opening neighbourFile), {}) := by
  have hlist : (sampleFiles text).layer.list ⟨"/w"⟩ = .ok [⟨".markdownlint.json", .file⟩] := by
    with_unfolding_all rfl
  have hlist' : (sampleFiles text).layer.list ⟨"//w"⟩ = .ok [⟨".markdownlint.json", .file⟩] := by
    with_unfolding_all rfl
  simp only [Lookup.resume, hlist, hlist']
  exact ⟨rfl, rfl⟩

theorem resume_read_sampleFiles {text : String}
    (htext : Json.Lenient.parse? text = some (.obj [("MD010", .bool false)])) :
    (Lookup.loading sampleProbe sampleFile (.opening sampleFile)).resume sampleQuery
        (sampleFiles text).layer {} = (.done sampleEntry, sampleResolver) ∧
      (Lookup.loading neighbourProbe neighbourFile (.opening neighbourFile)).resume neighbourQuery
        (sampleFiles text).layer sampleResolver =
          (.done sampleEntry, { sampleResolver with serial := 2 }) := by
  have hload : ∀ path, path.components = sampleFile.components → RuleConfig.isNested path = false →
      (Loading.opening path).resume none (sampleFiles text).layer {} =
        (.extending (.done [("MD010", .bool false)]), {}) := by
    intro path hpath hnested
    have hread : (sampleFiles text).layer.read path = .ok text := by
      simp [sampleFiles, MemoryFiles.layer, MemoryFiles.read, MemoryFiles.resolve?, hpath,
        MemoryFiles.follow?, MemoryFiles.at?]
    simp only [Loading.resume, hread, Except.bind, RuleConfig.parse_of_lenient hnested htext]
    rfl
  constructor
  · simp only [Lookup.resume, hload sampleFile rfl rfl]
    rfl
  · have hhome : sampleResolver.home = none := rfl
    have hlog : sampleResolver.log = {} := rfl
    simp only [Lookup.resume, hhome, hlog, hload neighbourFile rfl rfl]
    rfl

/-- No folder, and no settings. -/
def sampleAssignment : Assignment where
  folder _ := none
  settings _ := {}

theorem calmStep_start {q : Query} {result : Lookup × Resolver} (hq : q.Follows a)
    (hfree : s.lookups who = none) (hstart : Lookup.start q layer s.resolver = result) :
    UnclearedStep layer a s ((s.note (.started who)).move who q result) := by
  rw [← hstart]
  exact .start who hq s.resolver.log (by simp [hfree])

theorem calmStep_resume {q : Query} {l : Lookup} {call : FileCall} {result : Lookup × Resolver}
    (hlookup : s.lookups who = some (q, l)) (hcall : l.call? = some call)
    (hresume : l.resume q layer s.resolver = result) :
    UnclearedStep layer a s ((s.note (.read who call)).move who q result) := by
  rw [← hresume]
  exact .resume hlookup hcall s.resolver.log

/-- Two lookups search the directory at once; the second is given the entry of the first, which is
what it would have found by itself, and finds it again without a call. -/
theorem lookup_as_uncached_of_neighbours :
    ∃ (layer : FileLayer) (s₀ s : LookupTrace), layer.IgnoresSpelling ∧ s₀.IsFresh ∧
      Relation.ReflTransGen (UnclearedStep layer sampleAssignment) s₀ s ∧
      s.lookups 1 = some (neighbourQuery, .done sampleEntry) ∧
      (∃ n calls e r, Resolver.resolve { home := s₀.resolver.home } n layer neighbourQuery =
        (calls, some e, r) ∧ sampleEntry.view = e.view) ∧
      Resolver.resolve s.resolver 0 layer neighbourQuery = ([], some sampleEntry, s.resolver) := by
  obtain ⟨text, htext⟩ : ∃ text,
      Json.Lenient.parse? text = some (.obj [("MD010", .bool false)]) :=
    ⟨"\x7b\"MD010\":false\x7d", rfl⟩
  let layer := (sampleFiles text).layer
  let s₀ : LookupTrace := ⟨{}, fun _ => none, []⟩
  let s₁ := (s₀.note (.started 0)).move 0 sampleQuery (.listing ⟨"/w"⟩ [⟨"/"⟩], {})
  let s₂ := (s₁.note (.started 1)).move 1 neighbourQuery (.listing ⟨"//w"⟩ [⟨"/"⟩], {})
  let s₃ := (s₂.note (.read 0 (.list ⟨"/w"⟩))).move 0 sampleQuery
    (.loading sampleProbe sampleFile (.opening sampleFile), {})
  let s₄ := (s₃.note (.read 1 (.list ⟨"//w"⟩))).move 1 neighbourQuery
    (.loading neighbourProbe neighbourFile (.opening neighbourFile), {})
  let s₅ := (s₄.note (.read 0 (.read sampleFile))).move 0 sampleQuery
    (.done sampleEntry, sampleResolver)
  let s₆ := (s₅.note (.read 1 (.read neighbourFile))).move 1 neighbourQuery
    (.done sampleEntry, { sampleResolver with serial := 2 })
  have hrun : Relation.ReflTransGen (UnclearedStep layer sampleAssignment) s₀ s₆ := by
    have hstart := start_sampleFiles text
    have hlist := resume_list_sampleFiles text
    have hread := resume_read_sampleFiles htext
    have h₁ : UnclearedStep layer sampleAssignment s₀ s₁ := calmStep_start ⟨rfl, rfl⟩ rfl hstart.1
    have h₂ : UnclearedStep layer sampleAssignment s₁ s₂ := calmStep_start ⟨rfl, rfl⟩ rfl hstart.2
    have h₃ : UnclearedStep layer sampleAssignment s₂ s₃ := calmStep_resume rfl rfl hlist.1
    have h₄ : UnclearedStep layer sampleAssignment s₃ s₄ := calmStep_resume rfl rfl hlist.2
    have h₅ : UnclearedStep layer sampleAssignment s₄ s₅ := calmStep_resume rfl rfl hread.1
    have h₆ : UnclearedStep layer sampleAssignment s₅ s₆ := calmStep_resume rfl rfl hread.2
    exact (((((Relation.ReflTransGen.single h₁).tail h₂).tail h₃).tail h₄).tail h₅).tail h₆
  have hfresh : s₀.IsFresh := ⟨rfl, fun _ => rfl, rfl⟩
  have hlookup : s₆.lookups 1 = some (neighbourQuery, .done sampleEntry) := rfl
  obtain ⟨hreturned, hagain⟩ := (lookup_as_uncached (sampleFiles text).ignoresSpelling hfresh hrun
    .refl hlookup).1 sampleEntry rfl
  exact ⟨layer, s₀, s₆, (sampleFiles text).ignoresSpelling, hfresh, hrun, hlookup, hreturned,
    hagain neighbourQuery rfl ⟨rfl, rfl⟩ 0 s₆.resolver.log⟩

end LookupTrace

end LintDesk
