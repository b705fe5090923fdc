import LintDesk.Proofs.Config.Formats
import LintDesk.Proofs.Config.LookupTrace
import LintDesk.Proofs.Lookup

/-! # What is returned after the cache was cleared

Every entry that a lookup returns was made after the cache was last cleared. Its data was read after
that too, unless the lookup that made it was under way when the cache was cleared: such a lookup
stores what it read before into the new cache.
-/

namespace LintDesk

/-- Whether a caller's lookup starts or ends. -/
def LookupMark.bounds (who : Nat) : LookupMark → Bool
  | started other => other == who
  | returned other _ => other == who
  | _ => false

namespace LookupTrace

/-! ### What the log says -/

/-- A caller's lookup has started and not ended yet. -/
def Active (log : List LookupMark) (who : Nat) : Prop :=
  ∃ since before, log = since ++ .started who :: before ∧ ∀ m ∈ since, m.bounds who = false

/-- An entry was made since the cache was last cleared. -/
def MadeSince (log : List LookupMark) (serial : Nat) : Prop :=
  ∃ recent maker old, log = recent ++ .made maker serial :: old ∧ .invalidated ∉ recent

/-- The answer to a call was taken for an entry: by the lookup that made it. What came before is
`earlier`. -/
def ReadFor (log : List LookupMark) (serial maker : Nat) (call : FileCall)
    (earlier : List LookupMark) : Prop :=
  ∃ later since, log = later ++ .made maker serial :: (since ++ .read maker call :: earlier) ∧
    .started maker ∉ since

/-- A mark is justified by what came before it. -/
def Justified (earlier : List LookupMark) : LookupMark → Prop
  | .made who serial => Active earlier who ∧ ∀ other, .made other serial ∉ earlier
  | .returned _ e => MadeSince earlier e.serial
  | _ => True

def Sound : List LookupMark → Prop
  | [] => True
  | m :: earlier => Justified earlier m ∧ Sound earlier

variable {s : LookupTrace} {log : List LookupMark} {who : Nat}

theorem Sound.of_append {later : List LookupMark} (h : Sound (later ++ log)) : Sound log := by
  induction later with
  | nil => exact h
  | cons _ later ih => exact ih h.2

theorem Active.append (h : Active log who) (marks : List LookupMark)
    (hmarks : ∀ m ∈ marks, m.bounds who = false) : Active (marks ++ log) who := by
  obtain ⟨since, before, rfl, hsince⟩ := h
  exact ⟨marks ++ since, before, by simp, List.forall_mem_append.mpr ⟨hmarks, hsince⟩⟩

theorem MadeSince.append {serial : Nat} (h : MadeSince log serial) (marks : List LookupMark)
    (hmarks : .invalidated ∉ marks) : MadeSince (marks ++ log) serial := by
  obtain ⟨recent, maker, old, rfl, hrecent⟩ := h
  exact ⟨marks ++ recent, maker, old, by simp, by simp [hmarks, hrecent]⟩

theorem Sound.made_unique {a a' b b' : List LookupMark} {maker maker' serial : Nat}
    (h : Sound log) (hlog : log = a ++ .made maker serial :: b)
    (hlog' : log = a' ++ .made maker' serial :: b') : a = a' ∧ maker = maker' ∧ b = b' := by
  have hfirst : Justified b (.made maker serial) := (hlog ▸ h).of_append.1
  have hsecond : Justified b' (.made maker' serial) := (hlog' ▸ h).of_append.1
  rcases append_cons_cases (hlog.symm.trans hlog') with ⟨ha, hm, hb⟩ | ⟨m, -, hb'⟩ | ⟨m, -, hb⟩
  · exact ⟨ha, (LookupMark.made.inj hm).1, hb⟩
  · exact absurd (by simp [hb']) (hsecond.2 maker)
  · exact absurd (by simp [hb]) (hfirst.2 maker')

/-! ### The invariant -/

/-- All marks are justified, lookups under way are active, and the cache holds entries that were
made since it was cleared. -/
structure InOrder (s : LookupTrace) : Prop where
  sound : Sound s.log
  active : ∀ who q l, s.lookups who = some (q, l) → (∀ e, l ≠ .done e) → Active s.log who
  cached : ∀ e, s.resolver.cache.Holds e → MadeSince s.log e.serial
  serials : ∀ who serial, .made who serial ∈ s.log → serial < s.resolver.serial

theorem mem_entries {who start count : Nat} {m : LookupMark}
    (h : m ∈ LookupMark.entries who start count) :
    ∃ serial, m = .made who serial ∧ start ≤ serial ∧ serial < start + count := by
  induction count with
  | zero => cases h
  | succ count ih =>
      rcases List.mem_cons.mp h with rfl | h
      · exact ⟨start + count, rfl, by omega, by omega⟩
      · obtain ⟨serial, rfl, hle, hlt⟩ := ih h
        exact ⟨serial, rfl, hle, by omega⟩

theorem made_mem_entries (who : Nat) {start count serial : Nat} (hle : start ≤ serial)
    (hlt : serial < start + count) :
    .made who serial ∈ LookupMark.entries who start count := by
  induction count with
  | zero => omega
  | succ count ih =>
      rcases Nat.lt_or_ge serial (start + count) with hbelow | habove
      · exact List.mem_cons_of_mem _ (ih hbelow)
      · obtain rfl : serial = start + count := by omega
        exact List.mem_cons_self

theorem bounds_of_mem_entries {start count other : Nat} {m : LookupMark}
    (h : m ∈ LookupMark.entries who start count) : m.bounds other = false := by
  obtain ⟨serial, rfl, -⟩ := mem_entries h
  rfl

theorem invalidated_not_mem_entries {start count : Nat} :
    .invalidated ∉ LookupMark.entries who start count := by
  intro hm
  obtain ⟨serial, heq, -⟩ := mem_entries hm
  cases heq

theorem madeSince_entries {start count serial : Nat} (hle : start ≤ serial)
    (hlt : serial < start + count) :
    MadeSince (LookupMark.entries who start count ++ log) serial := by
  obtain ⟨recent, old, hsplit⟩ := List.append_of_mem (made_mem_entries who hle hlt)
  have hvalid : .invalidated ∉ LookupMark.entries who start count := invalidated_not_mem_entries
  rw [hsplit] at hvalid
  exact ⟨recent, who, old ++ log, by simp [hsplit], fun hm => hvalid (List.mem_append_left _ hm)⟩

theorem Sound.entries (h : Sound log) (hactive : Active log who) {start : Nat}
    (hserials : ∀ other serial, .made other serial ∈ log → serial < start) (count : Nat) :
    Sound (LookupMark.entries who start count ++ log) := by
  induction count with
  | zero => exact h
  | succ count ih =>
      refine ⟨⟨hactive.append _ fun m => bounds_of_mem_entries, fun other hmem => ?_⟩, ih⟩
      rcases List.mem_append.mp hmem with hmem | hmem
      · obtain ⟨serial, heq, -, hlt⟩ := mem_entries hmem
        have hserial := (LookupMark.made.inj heq).2
        omega
      · have hlt := hserials other _ hmem
        omega

theorem mem_marks {l : Lookup} {m : LookupMark} (h : m ∈ l.marks who) :
    ∃ e, m = .returned who e ∧ l = .done e := by
  cases l with
  | done e => exact ⟨e, List.mem_singleton.mp h, rfl⟩
  | listing => cases h
  | following => cases h
  | loading => cases h
  | settings => cases h

theorem Sound.marks (h : Sound log) {l : Lookup}
    (hdone : ∀ e, l = .done e → MadeSince log e.serial) : Sound (l.marks who ++ log) := by
  cases l with
  | done e => exact ⟨hdone e rfl, h⟩
  | listing => exact h
  | following => exact h
  | loading => exact h
  | settings => exact h

/-- A lookup goes on: what was in order but for its own state is in order. -/
theorem inOrder_move {s : LookupTrace} {q : Query} {l : Lookup} {r : Resolver}
    (hsound : Sound s.log) (hown : Active s.log who)
    (hactive : ∀ other q l, other ≠ who → s.lookups other = some (q, l) → (∀ e, l ≠ .done e) →
      Active s.log other)
    (hcached : ∀ e, s.resolver.cache.Holds e → MadeSince s.log e.serial)
    (hserials : ∀ other serial, .made other serial ∈ s.log → serial < s.resolver.serial)
    (hreaches : Lookup.Reaches s.resolver (l, r)) : InOrder (s.move who q (l, r)) := by
  obtain ⟨⟨hle, hgrown⟩, hdone⟩ := hreaches
  dsimp only at hle hgrown hdone
  let entries := LookupMark.entries who s.resolver.serial (r.serial - s.resolver.serial)
  have hmade : ∀ e, r.cache.Holds e → MadeSince (entries ++ s.log) e.serial := by
    intro e he
    -- an entry of the cache was there before, or its serial has just been used up
    rcases hgrown e he with hold | ⟨hfrom, hto⟩
    · exact (hcached e hold).append entries invalidated_not_mem_entries
    · exact madeSince_entries hfrom (by omega)
  refine ⟨?_, ?_, ?_, ?_⟩
  · exact (hsound.entries hown hserials _).marks fun e he => hmade e (hdone e he)
  · intro other q' l' hlookup hopen
    by_cases hother : other = who
    · subst hother
      obtain ⟨rfl, rfl⟩ : q = q' ∧ l = l' := by simpa [LookupTrace.move] using hlookup
      refine (hown.append entries fun m => bounds_of_mem_entries).append _ fun m hm => ?_
      obtain ⟨e, -, he⟩ := mem_marks hm
      exact absurd he (hopen e)
    · have hsame : s.lookups other = some (q', l') := by
        simpa [LookupTrace.move, hother] using hlookup
      refine ((hactive other q' l' hother hsame hopen).append entries fun m =>
        bounds_of_mem_entries).append _ fun m hm => ?_
      obtain ⟨e, rfl, -⟩ := mem_marks hm
      simpa [LookupMark.bounds] using Ne.symm hother
  · intro e he
    refine (hmade e he).append _ fun hm => ?_
    obtain ⟨e', heq, -⟩ := mem_marks hm
    cases heq
  · intro other serial hm
    rcases List.mem_append.mp hm with hm | hm
    · obtain ⟨e, heq, -⟩ := mem_marks hm
      cases heq
    · rcases List.mem_append.mp hm with hm | hm
      · obtain ⟨serial', heq, -, hlt⟩ := mem_entries hm
        have hserial := (LookupMark.made.inj heq).2
        dsimp only [LookupTrace.move] at hlt ⊢
        omega
      · exact Nat.lt_of_lt_of_le (hserials other serial hm) hle

theorem InOrder.step {s s' : LookupTrace} (h : InOrder s) (hstep : Step s s') : InOrder s' := by
  have hgrows : ∀ journal, s.resolver.Grows { s.resolver with log := journal } :=
    fun journal => (Resolver.Grows.refl s.resolver).journal journal
  cases hstep with
  | start who q layer journal hfree =>
      refine inOrder_move (s := s.note (.started who)) ⟨trivial, h.sound⟩ ⟨[], s.log, rfl, nofun⟩
        ?_ ?_ ?_ (Lookup.start_reaches (hgrows journal) layer)
      · intro other q' l hother hlookup hopen
        refine (h.active other q' l hlookup hopen).append [.started who] ?_
        simpa [LookupMark.bounds] using Ne.symm hother
      · exact fun e he => (h.cached e he).append [.started who] (by simp)
      · exact fun other serial hm => h.serials other serial (by simpa [LookupTrace.note] using hm)
  | @resume who q l call hlookup hcall layer journal =>
      have hopen : ∀ e, l ≠ .done e := by
        rintro e rfl
        cases hcall
      have hread : ∀ other, ∀ m ∈ [LookupMark.read who call], m.bounds other = false := by
        simp [LookupMark.bounds]
      refine inOrder_move (s := s.note (.read who call)) ⟨trivial, h.sound⟩
        ((h.active who q l hlookup hopen).append [.read who call] (hread who)) ?_ ?_ ?_
        (Lookup.resume_reaches (hgrows journal) layer (by simp [hcall]))
      · intro other q' l' _ hlookup' hopen'
        exact (h.active other q' l' hlookup' hopen').append [.read who call] (hread other)
      · exact fun e he => (h.cached e he).append [.read who call] (by simp)
      · exact fun other serial hm => h.serials other serial (by simpa [LookupTrace.note] using hm)
  | invalidate =>
      refine ⟨⟨trivial, h.sound⟩, ?_, ?_, ?_⟩
      · intro who q l hlookup hopen
        exact (h.active who q l hlookup hopen).append [.invalidated] (by simp [LookupMark.bounds])
      · rintro e (⟨dir, hdir⟩ | ⟨key, hkey⟩)
        · cases hdir
        · cases hkey
      · exact fun who serial hm => h.serials who serial (by simpa [LookupTrace.note] using hm)

theorem inOrder_of_reachable (h : Reachable s) : InOrder s := by
  obtain ⟨s₀, ⟨hcache, hlookups, hlog⟩, hrun⟩ := h
  induction hrun with
  | refl =>
      refine ⟨by rw [hlog]; trivial, ?_, ?_, by simp [hlog]⟩
      · intro who q l hlookup
        rw [hlookups] at hlookup
        cases hlookup
      · intro e he
        rw [hcache] at he
        rcases he with ⟨dir, hdir⟩ | ⟨key, hkey⟩
        · cases hdir
        · cases hkey
  | tail _ hstep ih => exact ih.step hstep

/-! ### After the cache was cleared -/

/-- An entry that is returned was made after the cache was last cleared, and its data was read after
that, unless the lookup that made it was already under way then. -/
theorem returned_read_since (h : Reachable s) {later after before : List LookupMark}
    {e : ResolvedConfig}
    (hlog : s.log = later ++ .returned who e :: (after ++ .invalidated :: before)) :
    (∃ maker, .made maker e.serial ∈ after) ∧
      ∀ maker call earlier,
        ReadFor (after ++ .invalidated :: before) e.serial maker call earlier →
          (∃ old, earlier = old ++ .invalidated :: before) ∨ Active before maker := by
  have hsound := (inOrder_of_reachable h).sound
  rw [hlog] at hsound
  obtain ⟨hreturned, hsound⟩ := hsound.of_append
  obtain ⟨recent, maker, old, hmade, hrecent⟩ := hreturned
  -- the entry was made to the right of the clearing
  obtain ⟨since, rfl, rfl⟩ : ∃ since, after = recent ++ .made maker e.serial :: since ∧
      old = since ++ .invalidated :: before := by
    rcases append_cons_cases hmade with ⟨-, heq, -⟩ | ⟨m, hafter, hold⟩ | ⟨m, hmore, -⟩
    · cases heq
    · exact ⟨m, hafter, hold⟩
    · exact absurd (by simp [hmore]) hrecent
  refine ⟨⟨maker, by simp⟩, ?_⟩
  rintro maker' call earlier ⟨recent', since', hread, hstart⟩
  obtain ⟨-, rfl, hsame⟩ := hsound.made_unique hmade hread
  rcases append_cons_cases hsame with ⟨-, heq, -⟩ | ⟨m, -, hearlier⟩ | ⟨m, hsince', hbefore⟩
  · cases heq
  · exact .inl ⟨m, hearlier⟩
  · -- the call was answered before the clearing, so the lookup had started by then
    right
    rw [hmade] at hsound
    obtain ⟨⟨⟨marks, first, hactive, hmarks⟩, -⟩, -⟩ := hsound.of_append
    rcases append_cons_cases hactive with ⟨-, heq, -⟩ | ⟨m', hsince, -⟩ | ⟨m', hmarks', hfirst⟩
    · cases heq
    · exact absurd (by simp [hsince', hsince]) hstart
    · exact ⟨m', first, hfirst, fun k hk => hmarks k (by simp [hmarks', hk])⟩

/-! ### A lookup that was under way -/

/-- A document next to a configuration file. -/
def sampleQuery : Query where
  document := ⟨{ scheme := "vscode-vfs", path := "/w/a.md" }, "", "markdown", 1⟩
  folder := none
  settings := {}

/-- A file layer with a configuration file in every directory and one text in every file. -/
def sampleLayer (text : String) : FileLayer where
  stat _ := .error .unavailable
  read _ := .ok text
  list _ := .ok [⟨".markdownlint.json", .file⟩]
  isAvailable := true

def sampleFile : Path := ⟨"/w/.markdownlint.json"⟩

def sampleTarget : Path := ⟨"/w/b.json"⟩

def sampleProbe : Probe where
  dir := ⟨"/w"⟩
  entries := [⟨".markdownlint.json", .file⟩]
  names := [".markdownlint.yaml", ".markdownlint.yml"]
  above := [⟨"/"⟩]

/-- A configuration that switches a rule off and builds on another file. -/
def sampleConfig : RuleConfig := [("MD010", .bool false), ("extends", .str "b.json")]

/-- The configuration file has been read. -/
def sampleChain : Chain where
  places := {}
  base := ⟨"/w"⟩
  visited := [sampleFile]
  layers := [sampleConfig]

def sampleEntry : ResolvedConfig :=
  ⟨[("MD010", .bool false), ("MD013", .bool false)], some (.file sampleFile), 0⟩

def sampleResolver : Resolver where
  cache := { directories := [(Path.components ⟨"/w"⟩, some sampleEntry)] }
  serial := 1

theorem start_sample (text : String) :
    Lookup.start sampleQuery (sampleLayer text) {} = (.listing ⟨"/w"⟩ [⟨"/"⟩], {}) := by
  rfl

theorem start_sample_cached (text : String) :
    Lookup.start sampleQuery (sampleLayer text) sampleResolver =
      (.done sampleEntry, sampleResolver) := by
  rfl

theorem resume_listing (text : String) :
    (Lookup.listing ⟨"/w"⟩ [⟨"/"⟩]).resume sampleQuery (sampleLayer text) {} =
      (.loading sampleProbe sampleFile (.opening sampleFile), {}) := by
  rfl

theorem resume_opening {text : String}
    (hparse : RuleConfig.parse sampleFile text = .ok sampleConfig) :
    (Lookup.loading sampleProbe sampleFile (.opening sampleFile)).resume sampleQuery
      (sampleLayer text) {} =
    (.loading sampleProbe sampleFile (.extending (.waiting sampleChain sampleTarget)), {}) := by
  have hstart : ChainRead.start sampleChain {} = (.waiting sampleChain sampleTarget, {}) := by rfl
  have hload : (Loading.opening sampleFile).resume none (sampleLayer text) {} =
      (.extending (.waiting sampleChain sampleTarget), {}) := by
    simp only [Loading.resume, sampleLayer, Except.bind, hparse]
    exact congrArg (fun x : ChainRead × Journal => (Loading.extending x.1, x.2)) hstart
  simp only [Lookup.resume, hload]
  rfl

theorem resume_extending {text : String} (hparse : RuleConfig.parse sampleTarget text = .ok []) :
    (Lookup.loading sampleProbe sampleFile (.extending (.waiting sampleChain sampleTarget))).resume
      sampleQuery (sampleLayer text) {} =
    (.done sampleEntry, sampleResolver) := by
  have hload : (Loading.extending (.waiting sampleChain sampleTarget)).resume none
      (sampleLayer text) {} = (.extending (.done [("MD010", .bool false)]), {}) := by
    simp only [Loading.resume, sampleLayer, ChainRead.receive, Except.bind, hparse]
    rfl
  simp only [Lookup.resume, hload]
  rfl

/-- Before the cache is cleared, a lookup has read the configuration file. -/
def sampleBefore : List LookupMark :=
  [.read 0 (.read sampleFile), .read 0 (.list ⟨"/w"⟩), .started 0]

/-- After that it ends, and another one starts. -/
def sampleAfter : List LookupMark :=
  [.started 1, .returned 0 sampleEntry, .made 0 0, .read 0 (.read sampleTarget)]

/-- The data of the entry was read before the cache was cleared. -/
theorem sample_readFor :
    ReadFor (sampleAfter ++ .invalidated :: sampleBefore) sampleEntry.serial 0 (.read sampleFile)
      [.read 0 (.list ⟨"/w"⟩), .started 0] :=
  ⟨[.started 1, .returned 0 sampleEntry], [.read 0 (.read sampleTarget), .invalidated], rfl,
    by simp⟩

theorem sample_read_early :
    ¬∃ old, [.read 0 (.list ⟨"/w"⟩), .started 0] = old ++ .invalidated :: sampleBefore := by
  rintro ⟨old, hold⟩
  have hlength := congrArg List.length hold
  simp only [sampleBefore, List.length_append, List.length_cons, List.length_nil] at hlength
  omega

/-- All files become empty objects while the first lookup is under way; the second one is given what
the first one made. -/
theorem exists_lookup_across_clearing :
    ∃ s : LookupTrace, s.Reachable ∧
      s.log = [] ++ .returned 1 sampleEntry :: (sampleAfter ++ .invalidated :: sampleBefore) := by
  -- the texts are kept abstract, so that no later step parses them again
  obtain ⟨old, hold⟩ : ∃ text, Json.Lenient.parse? text = some (.obj sampleConfig) :=
    ⟨"\x7b\"extends\":\"b.json\",\"MD010\":false\x7d",
      RuleConfig.lenient_parse_pair (by decide +kernel) (by decide +kernel)⟩
  obtain ⟨new, hnew⟩ : ∃ text, Json.Lenient.parse? text = some (.obj []) :=
    ⟨"\x7b\x7d", rfl⟩
  -- one state for each file call, and one for the clearing between two of them
  let s₀ : LookupTrace := ⟨{}, fun _ => none, []⟩
  let s₁ := (s₀.note (.started 0)).move 0 sampleQuery (.listing ⟨"/w"⟩ [⟨"/"⟩], {})
  let s₂ := (s₁.note (.read 0 (.list ⟨"/w"⟩))).move 0 sampleQuery
    (.loading sampleProbe sampleFile (.opening sampleFile), {})
  let s₃ := (s₂.note (.read 0 (.read sampleFile))).move 0 sampleQuery
    (.loading sampleProbe sampleFile (.extending (.waiting sampleChain sampleTarget)), {})
  let s₄ := s₃.note .invalidated
  let s₅ := (s₄.note (.read 0 (.read sampleTarget))).move 0 sampleQuery
    (.done sampleEntry, sampleResolver)
  let s₆ := (s₅.note (.started 1)).move 1 sampleQuery (.done sampleEntry, sampleResolver)
  have h₁ : s₀.Step s₁ := by
    have hfree : s₀.lookups 0 = none := rfl
    have hstep := Step.start (s := s₀) 0 sampleQuery (sampleLayer old) {} (by simp [hfree])
    rwa [show Lookup.start sampleQuery (sampleLayer old) { s₀.resolver with log := {} } = _ from
      start_sample old] at hstep
  have h₂ : s₁.Step s₂ := by
    have hlookup : s₁.lookups 0 = some (sampleQuery, .listing ⟨"/w"⟩ [⟨"/"⟩]) := rfl
    have hstep := Step.resume hlookup rfl (sampleLayer old) {}
    rwa [show Lookup.resume sampleQuery _ { s₁.resolver with log := {} } _ = _ from
      resume_listing old] at hstep
  have h₃ : s₂.Step s₃ := by
    have hlookup : s₂.lookups 0 = some (sampleQuery,
      .loading sampleProbe sampleFile (.opening sampleFile)) := rfl
    have hstep := Step.resume hlookup rfl (sampleLayer old) {}
    rwa [show Lookup.resume sampleQuery _ { s₂.resolver with log := {} } _ = _ from
      resume_opening (RuleConfig.parse_of_lenient rfl hold)] at hstep
  have h₄ : s₃.Step s₄ := .invalidate
  have h₅ : s₄.Step s₅ := by
    have hlookup : s₄.lookups 0 = some (sampleQuery,
      .loading sampleProbe sampleFile (.extending (.waiting sampleChain sampleTarget))) := rfl
    have hstep := Step.resume hlookup rfl (sampleLayer new) {}
    rwa [show Lookup.resume sampleQuery _ { s₄.resolver with log := {} } _ = _ from
      resume_extending (RuleConfig.parse_of_lenient rfl hnew)] at hstep
  have h₆ : s₅.Step s₆ := by
    have hfree : s₅.lookups 1 = none := rfl
    have hstep := Step.start (s := s₅) 1 sampleQuery (sampleLayer new) {} (by simp [hfree])
    rwa [show Lookup.start sampleQuery (sampleLayer new) { s₅.resolver with log := {} } = _ from
      start_sample_cached new] at hstep
  refine ⟨s₆, ⟨s₀, ⟨rfl, fun _ => rfl, rfl⟩, ?_⟩, rfl⟩
  exact (((((Relation.ReflTransGen.single h₁).tail h₂).tail h₃).tail h₄).tail h₅).tail h₆

/-- So an entry can be returned by a lookup that started after the cache was cleared, although its
data was read before. -/
theorem stale_entry_returned :
    ¬∀ s : LookupTrace, s.Reachable → ∀ later who e after before,
      s.log = later ++ .returned who e :: (after ++ .invalidated :: before) →
      .started who ∈ after → ∀ maker call earlier,
        ReadFor (after ++ .invalidated :: before) e.serial maker call earlier →
          ∃ old, earlier = old ++ .invalidated :: before := by
  intro hall
  obtain ⟨s, hrun, hlog⟩ := exists_lookup_across_clearing
  have hstarted : .started 1 ∈ sampleAfter := .head _
  exact sample_read_early (hall s hrun _ _ _ _ _ hlog hstarted _ _ _ sample_readFor)

/-- In that run the entry was made after the clearing, by the lookup that was under way then. -/
theorem returned_read_since_of_overlap :
    ∃ s : LookupTrace, s.Reachable ∧
      s.log = [] ++ .returned 1 sampleEntry :: (sampleAfter ++ .invalidated :: sampleBefore) ∧
      (∃ maker, .made maker sampleEntry.serial ∈ sampleAfter) ∧ Active sampleBefore 0 := by
  obtain ⟨s, hrun, hlog⟩ := exists_lookup_across_clearing
  obtain ⟨hmade, hread⟩ := returned_read_since hrun hlog
  refine ⟨s, hrun, hlog, hmade, ?_⟩
  exact (hread _ _ _ sample_readFor).resolve_left sample_read_early

end LookupTrace

end LintDesk
