import LintDesk.Config.Lookup
import Mathlib.Logic.Function.Basic
import Mathlib.Logic.Relation

/-! # Lookups under way

Several lookups go on at once over one resolver, each from one file call to the next, while files
change and the cache is cleared. The log of a trace records who read what and when, and who made and
who was given which entry.
-/

namespace LintDesk

/-- What happens to a resolver. Callers are numbered; each has one lookup at a time. -/
inductive LookupMark where
  | started (who : Nat)
  /-- The answer to a call was taken. -/
  | read (who : Nat) (call : FileCall)
  /-- The entry with this serial was made. -/
  | made (who : Nat) (serial : Nat)
  /-- A lookup ended with an entry. -/
  | returned (who : Nat) (e : ResolvedConfig)
  /-- The cache was cleared. -/
  | invalidated

/-- A resolver with the lookups under way and the log of what happened, latest first. -/
structure LookupTrace where
  resolver : Resolver
  lookups : Nat → Option (Query × Lookup)
  log : List LookupMark

/-- The entries that were made while `count` serials were used up from `start` on. -/
def LookupMark.entries (who start : Nat) : (count : Nat) → List LookupMark
  | 0 => []
  | count + 1 => .made who (start + count) :: entries who start count

/-- Whether a lookup has ended, and with what. -/
def Lookup.marks (who : Nat) : Lookup → List LookupMark
  | done e => [.returned who e]
  | _ => []

namespace LookupTrace

def note (s : LookupTrace) (m : LookupMark) : LookupTrace :=
  { s with log := m :: s.log }

/-- A caller's lookup goes on to what it comes to next. -/
def move (s : LookupTrace) (who : Nat) (q : Query) (result : Lookup × Resolver) : LookupTrace where
  resolver := result.2
  lookups := Function.update s.lookups who (some (q, result.1))
  log := result.1.marks who ++
    (LookupMark.entries who s.resolver.serial (result.2.serial - s.resolver.serial) ++ s.log)

/-- One step. The file layer may answer differently at every step, and others may write to the
journal. -/
inductive Step (s : LookupTrace) : LookupTrace → Prop
  | start (who : Nat) (q : Query) (layer : FileLayer) (journal : Journal)
      (hfree : ∀ q' l, s.lookups who = some (q', l) → ∃ e, l = .done e) :
      Step s ((s.note (.started who)).move who q
        (Lookup.start q layer { s.resolver with log := journal }))
  | resume {who : Nat} {q : Query} {l : Lookup} {call : FileCall}
      (h : s.lookups who = some (q, l)) (hcall : l.call? = some call) (layer : FileLayer)
      (journal : Journal) :
      Step s ((s.note (.read who call)).move who q
        (l.resume q layer { s.resolver with log := journal }))
  | invalidate :
      Step s ({ s with
        resolver := { s.resolver with cache := s.resolver.cache.invalidate } }.note .invalidated)

/-- No lookup has been made yet. -/
def IsFresh (s : LookupTrace) : Prop :=
  s.resolver.cache = {} ∧ (∀ who, s.lookups who = none) ∧ s.log = []

def Reachable (s : LookupTrace) : Prop :=
  ∃ s₀ : LookupTrace, s₀.IsFresh ∧ Relation.ReflTransGen Step s₀ s

end LookupTrace

/-! ### What a lookup does to the cache -/

/-- An entry is in the cache. -/
def ConfigCache.Holds (c : ConfigCache) (e : ResolvedConfig) : Prop :=
  (∃ dir, (dir, some e) ∈ c.directories) ∨ ∃ key, (key, e) ∈ c.documents

theorem ConfigCache.holds_of_directory? {c : ConfigCache} {dir : Path} {e : ResolvedConfig}
    (h : c.directory? dir = some (some e)) : c.Holds e := by
  obtain ⟨before, after, hsplit, -⟩ := List.lookup_eq_some_iff.mp h
  exact .inl ⟨dir.components, by simp [hsplit]⟩

theorem ConfigCache.holds_of_document? {c : ConfigCache} {key : String} {e : ResolvedConfig}
    (h : c.document? key = some e) : c.Holds e := by
  obtain ⟨before, after, hsplit, -⟩ := List.lookup_eq_some_iff.mp h
  exact .inr ⟨key, by simp [hsplit]⟩

/-- Storing a result of a directory adds at most that, and what is stored then is in the cache. -/
theorem ConfigCache.putDirectory_holds (c : ConfigCache) (dir : Path)
    (found : Option ResolvedConfig) :
    (∀ e, (c.putDirectory dir found).2.Holds e → c.Holds e ∨ found = some e) ∧
      ∀ e, (c.putDirectory dir found).1 = some e → (c.putDirectory dir found).2.Holds e := by
  unfold putDirectory
  split
  · next stored hstored =>
      refine ⟨fun e he => .inl he, fun e he => ?_⟩
      exact holds_of_directory? (hstored.trans (congrArg some he))
  · refine ⟨fun e he => ?_, fun e he => .inl ⟨dir.components, by simp [← he]⟩⟩
    rcases he with ⟨d, hd⟩ | hdocument
    · rcases List.mem_cons.mp hd with heq | hd
      · exact .inr (Prod.mk.inj heq).2.symm
      · exact .inl (.inl ⟨d, hd⟩)
    · exact .inl (.inr hdocument)

theorem ConfigCache.putDocument_holds (c : ConfigCache) (key : String) (entry : ResolvedConfig) :
    (∀ e, (c.putDocument key entry).2.Holds e → c.Holds e ∨ entry = e) ∧
      (c.putDocument key entry).2.Holds (c.putDocument key entry).1 := by
  unfold putDocument
  split
  · next stored hstored => exact ⟨fun e he => .inl he, holds_of_document? hstored⟩
  · refine ⟨fun e he => ?_, .inr ⟨key, by simp⟩⟩
    rcases he with hdirectory | ⟨k, hk⟩
    · exact .inl (.inl hdirectory)
    · rcases List.mem_cons.mp hk with heq | hk
      · exact .inr (Prod.mk.inj heq).2.symm
      · exact .inl (.inr ⟨k, hk⟩)

/-- Serials are used up, and what comes into the cache was made with one of them. -/
structure Resolver.Grows (r r' : Resolver) : Prop where
  serial : r.serial ≤ r'.serial
  cached : ∀ e, r'.cache.Holds e → r.cache.Holds e ∨ r.serial ≤ e.serial ∧ e.serial < r'.serial

theorem Resolver.Grows.refl (r : Resolver) : r.Grows r :=
  ⟨Nat.le_refl _, fun _ he => .inl he⟩

/-- What is written to the journal does not matter. -/
theorem Resolver.Grows.journal {r r' : Resolver} (h : r.Grows r') (log : Journal) :
    r.Grows { r' with log } :=
  ⟨h.serial, h.cached⟩

/-- An entry uses up a serial. -/
theorem Resolver.Grows.entry {r r' : Resolver} (h : r.Grows r') (config : RuleConfig)
    (source : Origin) : r.Grows (Lookup.entry config source r').2 :=
  ⟨Nat.le_succ_of_le h.serial, fun e he =>
    (h.cached e he).imp id fun hnew => ⟨hnew.1, Nat.lt_succ_of_lt hnew.2⟩⟩

namespace Lookup

variable {r₀ r : Resolver} {q : Query}

/-- A lookup that has come so far from a resolver: it has grown, and the lookup ends with an entry
that is in the cache. -/
def Reaches (r₀ : Resolver) (result : Lookup × Resolver) : Prop :=
  r₀.Grows result.2 ∧ ∀ e, result.1 = done e → result.2.cache.Holds e

theorem reaches_of_grows (h : r₀.Grows r) {l : Lookup} (hl : ∀ e, l ≠ done e) :
    Reaches r₀ (l, r) :=
  ⟨h, fun e he => absurd he (hl e)⟩

theorem finish_reaches (h : r₀.Grows r) (config : RuleConfig) (source : Origin) :
    Reaches r₀ (finish q config source r) := by
  obtain ⟨hadded, hholds⟩ := r.cache.putDocument_holds q.key (entry config source r).1
  refine ⟨⟨(h.entry config source).serial, fun e he => ?_⟩, fun e he => ?_⟩
  · rcases hadded e he with hold | rfl
    · exact (h.entry config source).cached e hold
    · exact .inr ⟨h.serial, Nat.lt_succ_self _⟩
  · obtain rfl := done.inj he
    exact hholds

theorem afterChain_reaches (h : r₀.Grows r) (origin : Origin) (read : ChainRead) :
    Reaches r₀ (afterChain q origin read r) := by
  unfold afterChain
  split
  · exact finish_reaches h _ origin
  · exact reaches_of_grows h nofun

theorem fallBack_reaches (h : r₀.Grows r) : Reaches r₀ (fallBack q r) := by
  unfold fallBack
  split
  · next e he =>
      refine ⟨h, fun e' he' => ?_⟩
      obtain rfl := done.inj he'
      exact ConfigCache.holds_of_document? he
  · split
    · exact finish_reaches h [] .default
    · next config _ =>
        exact afterChain_reaches
          (h.journal (ChainRead.start (q.settingsChain r.home config) r.log).2) _ _

theorem visit_reaches (h : r₀.Grows r) (dirs : List Path) : Reaches r₀ (visit q dirs r) := by
  induction dirs with
  | nil => exact fallBack_reaches h
  | cons dir above ih =>
      unfold visit
      split
      · next e he =>
          refine ⟨h, fun e' he' => ?_⟩
          obtain rfl := done.inj he'
          exact ConfigCache.holds_of_directory? he
      · exact ih
      · exact reaches_of_grows h nofun

theorem conclude_reaches (h : r₀.Grows r) (dir : Path) (above : List Path)
    {found : Option ResolvedConfig}
    (hfound : ∀ e, found = some e → r₀.serial ≤ e.serial ∧ e.serial < r.serial) :
    Reaches r₀ (conclude q dir above found r) := by
  obtain ⟨hadded, hholds⟩ := r.cache.putDirectory_holds dir found
  have hgrows : r₀.Grows { r with cache := (r.cache.putDirectory dir found).2 } := by
    refine ⟨h.serial, fun e he => ?_⟩
    rcases hadded e he with hold | hnew
    · exact h.cached e hold
    · exact .inr (hfound e hnew)
  unfold conclude
  split
  · next e cache hput =>
      rw [hput] at hgrows hholds
      refine ⟨hgrows, fun e' he' => ?_⟩
      obtain rfl := done.inj he'
      exact hholds e rfl
  · next cache hput =>
      rw [hput] at hgrows
      exact visit_reaches hgrows above

theorem tryNames_reaches (h : r₀.Grows r) (dir : Path) (entries : List DirEntry)
    (above : List Path) (names : List String) :
    Reaches r₀ (tryNames q dir entries above names r) := by
  induction names with
  | nil => exact conclude_reaches h dir above nofun
  | cons name names ih =>
      unfold tryNames
      dsimp only
      split
      · exact reaches_of_grows h nofun
      · exact reaches_of_grows h nofun
      · exact ih

theorem afterLoading_reaches (h : r₀.Grows r) (p : Probe) (path : Path) (load : Loading) :
    Reaches r₀ (afterLoading q p path load r) := by
  unfold afterLoading
  split
  · exact reaches_of_grows h nofun
  · next config _ =>
      refine conclude_reaches (h.entry config (.file path)) p.dir p.above ?_
      rintro e ⟨⟩
      exact ⟨h.serial, Nat.lt_succ_self _⟩
  · exact tryNames_reaches (h.journal _) _ _ _ _

theorem start_reaches (h : r₀.Grows r) (layer : FileLayer) : Reaches r₀ (start q layer r) :=
  visit_reaches h _

theorem resume_reaches (h : r₀.Grows r) (layer : FileLayer) {l : Lookup}
    (hcall : l.call? ≠ none) : Reaches r₀ (l.resume q layer r) := by
  cases l with
  | listing dir above =>
      rw [resume]
      split
      · exact tryNames_reaches h _ _ _ _
      · exact conclude_reaches h _ _ nofun
  | following p path =>
      rw [resume]
      split
      · exact reaches_of_grows h nofun
      · exact tryNames_reaches h _ _ _ _
  | loading p path load =>
      exact afterLoading_reaches (h.journal (load.resume r.home layer r.log).2) p path _
  | settings origin read =>
      cases read with
      | waiting chain path =>
          exact afterChain_reaches
            (h.journal (ChainRead.receive chain path (layer.read path) r.log).2) origin _
      | done config => exact absurd rfl hcall
  | done e => exact absurd rfl hcall

end Lookup

end LintDesk
