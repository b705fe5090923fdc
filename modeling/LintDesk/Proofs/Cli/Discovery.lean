import LintDesk.Cli.Discovery
import LintDesk.Proofs.Document.RelativePaths
import LintDesk.Proofs.Files.Reach
import Mathlib.Data.List.Lex
import Mathlib.Data.Prod.Lex
import Mathlib.Data.String.Basic
import Mathlib.Tactic.MkIffOfInductiveProp

/-! # The files that patterns stand for

A pattern that names a file stands for it, whatever is excluded. All others stand for the files
below the base that they match, except those that are excluded themselves or lie in a directory that
is. Each comes once, in the order of paths (`discover_finds`).
-/

namespace LintDesk

/-! ### The order of paths -/

/-- Components are compared by their kind, names among themselves as texts. -/
def Component.orderKey : Component → ℕ ×ₗ String
  | .root => toLex (0, "")
  | .here => toLex (1, "")
  | .up => toLex (2, "")
  | .name s => toLex (3, s)

/-- The components of a path as what they are compared by. -/
def Path.orderKey (p : Path) : List (ℕ ×ₗ String) :=
  p.components.map Component.orderKey

theorem Component.orderKey_injective : Function.Injective Component.orderKey := by
  intro a b h
  cases a <;> cases b <;> simp_all [orderKey]

theorem Path.orderKey_eq_iff {p q : Path} : p.orderKey = q.orderKey ↔ p.components = q.components :=
  (List.map_injective_iff.mpr Component.orderKey_injective).eq_iff

namespace Cli

theorem toLex_componentRank (c : Component) : toLex (componentRank c) = c.orderKey := by
  cases c <;> rfl

theorem componentsLe_iff (as bs : List Component) :
    componentsLe as bs = true ↔ as.map Component.orderKey ≤ bs.map Component.orderKey := by
  rw [← not_lt]
  fun_induction componentsLe as bs with
  | case1 => simp
  | case2 => simp
  | case3 as b bs ih => simp [ih]
  | case4 a as b bs hne x s hx y t hy =>
      have hkey : b.orderKey ≠ a.orderKey := Component.orderKey_injective.ne (Ne.symm hne)
      rw [List.map_cons, List.map_cons, List.cons_lt_cons_iff, or_iff_left fun h => hkey h.1,
        not_lt, hkey.symm.le_iff_lt, ← toLex_componentRank, ← toLex_componentRank,
        Prod.Lex.toLex_lt_toLex, hx, hy]
      simp

theorem pathLe_iff (p q : Path) : pathLe p q = true ↔ p.orderKey ≤ q.orderKey :=
  componentsLe_iff _ _

theorem same_iff (p q : Path) : p.same q = true ↔ p.orderKey = q.orderKey := by
  rw [Path.orderKey_eq_iff, Path.same, beq_iff_eq]

theorem pairwise_mergeSort_pathLe (paths : List Path) :
    (paths.mergeSort pathLe).Pairwise fun p q => p.orderKey ≤ q.orderKey := by
  simp only [← pathLe_iff]
  refine List.pairwise_mergeSort (fun p q r => ?_) (fun p q => ?_) paths
  · simpa only [pathLe_iff] using le_trans
  · simpa only [Bool.or_eq_true, pathLe_iff] using le_total _ _

/-! ### Each path once -/

theorem dropSame_sublist (paths : List Path) : (dropSame paths).Sublist paths := by
  fun_induction dropSame paths with
  | case1 => exact .slnil
  | case2 p => exact .refl _
  | case3 p q rest hsame ih => exact ih.trans ((List.sublist_cons_self q rest).cons_cons p)
  | case4 p q rest hsame ih => exact ih.cons_cons p

theorem exists_mem_dropSame {paths : List Path} {p : Path} (h : p ∈ paths) :
    ∃ q ∈ dropSame paths, q.components = p.components := by
  simp only [← Path.orderKey_eq_iff]
  fun_induction dropSame paths generalizing p with
  | case1 => simp at h
  | case2 q => exact ⟨p, h, rfl⟩
  | case3 q r rest hsame ih =>
      rcases List.mem_cons.mp h with rfl | h
      · exact ih (by simp)
      · rcases List.mem_cons.mp h with rfl | h
        · obtain ⟨kept, hkept, heq⟩ := ih (p := q) (by simp)
          exact ⟨kept, hkept, heq.trans ((same_iff q p).mp hsame)⟩
        · exact ih (by simp [h])
  | case4 q r rest hsame ih =>
      rcases List.mem_cons.mp h with rfl | h
      · exact ⟨p, by simp, rfl⟩
      · obtain ⟨kept, hkept, heq⟩ := ih h
        exact ⟨kept, by simp [hkept], heq⟩

theorem dropSame_strict {paths : List Path}
    (h : paths.Pairwise fun p q => p.orderKey ≤ q.orderKey) :
    (dropSame paths).Pairwise fun p q => p.orderKey < q.orderKey := by
  fun_induction dropSame paths with
  | case1 => exact .nil
  | case2 p => simp
  | case3 p q rest hsame ih => exact ih (h.sublist ((List.sublist_cons_self q rest).cons_cons p))
  | case4 p q rest hsame ih =>
      obtain ⟨hp, hrest⟩ := List.pairwise_cons.mp h
      refine List.pairwise_cons.mpr ⟨fun r hr => ?_, ih hrest⟩
      have hpq : p.orderKey < q.orderKey :=
        (hp q (by simp)).lt_of_ne fun heq => hsame ((same_iff p q).mpr heq)
      rcases List.mem_cons.mp ((dropSame_sublist _).subset hr) with rfl | hr
      · exact hpq
      · exact hpq.trans_le ((List.pairwise_cons.mp hrest).1 r hr)

/-! ### Sets of globs -/

open Pattern

/-- A glob without options matches a text. -/
def GlobMatches (pattern text : String) : Prop :=
  ∃ g, Glob.compile? {} pattern = some g ∧ g.isMember text = true

/-- A pattern is no glob. -/
def isMalformed (pattern : String) : Bool :=
  (Glob.compile? {} pattern).isNone

theorem isMalformed_iff (pattern : String) :
    isMalformed pattern = true ↔ Glob.compile? {} pattern = none :=
  Option.isNone_iff_eq_none

theorem globsOf_eq (patterns : List String) :
    globsOf patterns = match patterns.find? isMalformed with
      | some pattern => .error pattern
      | none => .ok (patterns.filterMap (Glob.compile? {})) := by
  induction patterns with
  | nil => rfl
  | cons pattern rest ih =>
      cases hcompile : Glob.compile? {} pattern with
      | none => simp [globsOf, isMalformed, hcompile]
      | some g =>
          rw [globsOf, hcompile]
          simp only
          rw [ih, List.find?_cons_of_neg (by simp [isMalformed, hcompile]),
            List.filterMap_cons_some hcompile]
          cases rest.find? isMalformed <;> rfl

theorem isMatch_filterMap (patterns : List String) (text : String) :
    Globs.isMatch (patterns.filterMap (Glob.compile? {})) text = true ↔
      ∃ pattern ∈ patterns, GlobMatches pattern text := by
  simp only [Globs.isMatch, List.any_eq_true, List.mem_filterMap, GlobMatches]
  constructor
  · rintro ⟨g, ⟨pattern, hpattern, hcompile⟩, hmember⟩
    exact ⟨pattern, hpattern, g, hcompile, hmember⟩
  · rintro ⟨pattern, hpattern, g, hcompile, hmember⟩
    exact ⟨g, ⟨pattern, hpattern, hcompile⟩, hmember⟩

/-- What is excluded are the workspace globs that start with an exclamation mark, without it. -/
theorem mem_excludedGlobs {g : String} : g ∈ excludedGlobs ↔ "!" ++ g ∈ defaultWorkspaceGlobs := by
  rw [excludedGlobs, List.mem_filterMap]
  constructor
  · rintro ⟨glob, hglob, hstrip⟩
    split at hstrip
    · next rest hrest =>
        obtain rfl := Option.some.inj hstrip
        have : "!" ++ String.ofList rest = glob := String.toList_injective (by simp [hrest])
        rwa [this]
    · contradiction
  · intro h
    exact ⟨_, h, by simp⟩

theorem find?_excludedGlobs : excludedGlobs.find? isMalformed = none := by
  decide +kernel

end Cli

/-! ### The walk -/

namespace Disk

variable {d : Disk} {place names : List String} {name : String}

/-- A file lies below a place, and names lead to it through directories only. -/
@[mk_iff]
structure HasFile (d : Disk) (place names : List String) : Prop where
  directories : ∀ n < names.length, d.hasDirectory (place ++ names.take n) = true
  file : ∃ text, d.node? (place ++ names) = some (.file text)

theorem hasFile_nil : d.HasFile place [] ↔ ∃ text, d.node? place = some (.file text) := by
  simp [hasFile_iff]

theorem hasFile_cons : d.HasFile place (name :: names) ↔
    d.node? place = some .directory ∧ d.HasFile (place ++ [name]) names := by
  rw [hasFile_iff, hasFile_iff, List.length_cons, Nat.forall_lt_succ_left]
  simp [hasDirectory, and_assoc]

theorem HasFile.isSome (h : d.HasFile place names) : (d.node? place).isSome = true := by
  cases names with
  | nil =>
      obtain ⟨text, hfile⟩ := hasFile_nil.mp h
      simp [hfile]
  | cons name names => simp [(hasFile_cons.mp h).1]

theorem mem_namesBelow : name ∈ d.namesBelow place ↔ (d.node? (place ++ [name])).isSome = true := by
  rw [namesBelow, List.mem_mergeSort, List.mem_filterMap, node?, if_neg (by simp),
    List.lookup_isSome_iff]
  refine exists_congr fun x => and_congr_right fun _ => ?_
  obtain ⟨found, node⟩ := x
  rw [beq_iff_eq, Option.ite_none_right_eq_some, Bool.and_eq_true, List.isPrefixOf_iff_prefix,
    decide_eq_true_eq]
  constructor
  · rintro ⟨⟨hstart, hlength⟩, hlast⟩
    obtain ⟨init, rfl⟩ := List.getLast?_eq_some_iff.mp hlast
    have hinit : init.length = place.length := by simpa using hlength
    have hplace : place <+: init :=
      List.prefix_of_prefix_length_le hstart (List.prefix_append init [name]) hinit.ge
    rw [hplace.eq_of_length hinit.symm]
  · rintro rfl
    simp

theorem length_le_depthOf {node : DiskNode} (h : d.node? place = some node) :
    place.length ≤ Cli.depthOf d := by
  rw [Cli.depthOf, List.foldl_max]
  by_cases hempty : place = []
  · simp [hempty]
  · rw [node?, if_neg (by simpa using hempty)] at h
    have hmem : place.length ∈ d.nodes.map (·.1.length) := List.mem_map.mpr ⟨_, mem_nodes h, rfl⟩
    exact (List.le_max?_getD_of_mem hmem).trans (Nat.le_max_right _ _)

theorem HasFile.length_le (h : d.HasFile place names) : names.length ≤ Cli.depthOf d := by
  obtain ⟨text, hfile⟩ := h.file
  have hlength := length_le_depthOf hfile
  rw [List.length_append] at hlength
  exact (Nat.le_add_left _ _).trans hlength

end Disk

namespace Cli

open Pattern

variable {d : Disk} {isExcluded : Path → Bool} {place : List String} {path p : Path}

/-- The path to which names lead from a path on. -/
def descend (path : Path) (names : List String) : Path :=
  names.foldl (fun p name => p.join ⟨name⟩) path

theorem components_descend {base : Path} (hbase : base.text ≠ "") {names : List String}
    (h : Path.AreParts (names.map .name)) :
    (descend base names).components = base.components ++ names.map .name := by
  induction names generalizing base with
  | nil => simp [descend]
  | cons name names ih =>
      have hname : Path.slashed [.name name] = name := by simp [Path.slashed, Path.addSegment]
      have hparts : Path.AreParts [.name name] := fun c hc => h c (by simp_all)
      have hjoin := Path.components_join_slashed hbase hparts
      rw [hname] at hjoin
      have hbase' : (base.join ⟨name⟩).text ≠ "" := by
        rw [ne_eq, ← Path.components_eq_nil_iff, hjoin]
        simp
      rw [descend, List.foldl_cons, ← descend, ih hbase' h.tail, hjoin]
      simp

/-- Relative to where they lead from, names are written with a slash between neighbours. -/
theorem relativeText_descend {base : Path} (hbase : base.text ≠ "") {names : List String}
    (h : Path.AreParts (names.map .name)) :
    (relativeText base (descend base names)).toList =
      ['/'].intercalate (names.map String.toList) := by
  have hrelative : (descend base names).relativeTo? base = some (names.map .name) := by
    simp [Path.relativeTo?, Path.startsWith, components_descend hbase h]
  rw [relativeText, hrelative, Option.getD_some, Path.toList_slashed h, List.map_map]
  rfl

/-- Nothing on the way along names is excluded, nor what they lead to. -/
def Spared (isExcluded : Path → Bool) (path : Path) (names : List String) : Prop :=
  ∀ n < names.length, isExcluded (descend path (names.take (n + 1))) = false

theorem spared_cons {name : String} {names : List String} : Spared isExcluded path (name :: names) ↔
    isExcluded (path.join ⟨name⟩) = false ∧ Spared isExcluded (path.join ⟨name⟩) names := by
  rw [Spared, List.length_cons, Nat.forall_lt_succ_left]
  rfl

/-- A walk finds the files to which names lead, as far as it goes and nothing on the way is
excluded. -/
theorem mem_filesBelow {depth : Nat} : p ∈ filesBelow d isExcluded depth place path ↔
    ∃ names, names.length ≤ depth ∧ d.HasFile place names ∧ Spared isExcluded path names ∧
      p = descend path names := by
  -- the first name is one of this directory, and the others lead on from there
  fun_induction filesBelow d isExcluded depth place path with
  | case1 depth place path text hnode =>
      rw [List.mem_singleton]
      constructor
      · rintro rfl
        exact ⟨[], by simp, Disk.hasFile_nil.mpr ⟨text, hnode⟩, by simp [Spared], rfl⟩
      · rintro ⟨names, -, hfile, -, rfl⟩
        cases names with
        | nil => rfl
        | cons name names => simp [Disk.hasFile_cons, hnode] at hfile
  | case2 place path hnode =>
      simp [Disk.hasFile_nil, hnode]
  | case3 place path hnode depth ih =>
      simp only [List.mem_flatMap, List.mem_ite_nil_left, Bool.not_eq_true, ih]
      constructor
      · rintro ⟨name, -, hspared, names, hlength, hfile, hrest, rfl⟩
        exact ⟨name :: names, by simpa using hlength, Disk.hasFile_cons.mpr ⟨hnode, hfile⟩,
          spared_cons.mpr ⟨hspared, hrest⟩, rfl⟩
      · rintro ⟨names, hlength, hfile, hspared, rfl⟩
        cases names with
        | nil => simp [Disk.hasFile_nil, hnode] at hfile
        | cons name names =>
            obtain ⟨-, hfile⟩ := Disk.hasFile_cons.mp hfile
            obtain ⟨hname, hrest⟩ := spared_cons.mp hspared
            exact ⟨name, Disk.mem_namesBelow.mpr hfile.isSome, hname, names, by simpa using hlength,
              hfile, hrest, rfl⟩
  | case4 depth place path hfile hdirectory =>
      simp only [List.not_mem_nil, false_iff]
      rintro ⟨names, -, hnames, -, -⟩
      cases names with
      | nil => exact (Disk.hasFile_nil.mp hnames).elim hfile
      | cons name names => exact hdirectory (Disk.hasFile_cons.mp hnames).1

example : filesBelow
    ⟨[(["b"], .file none), (["a"], .directory), (["a", "c"], .file none), (["x"], .directory),
      (["x", "d"], .file none), (["l"], .link "/a")], []⟩
    (· == ⟨"/x"⟩) 2 [] ⟨"/"⟩ = [⟨"/a/c"⟩, ⟨"/b"⟩] := by
  cbv

/-- The base of a walk lies at a place. What is there is no link, unless to a directory. -/
@[mk_iff]
structure LiesAt (d : Disk) (base : Path) (place : List String) : Prop where
  leads : d.place true base = .ok place
  direct : d.hasDirectory place = true ∨ d.place false base = .ok place

theorem walkStart?_eq_some_iff {base : Path} :
    walkStart? d base = some place ↔ LiesAt d base place := by
  rw [liesAt_iff, walkStart?]
  cases d.place true base with
  | error f => simp
  | ok start =>
      cases d.place false base <;> simp [Except.toOption, and_comm] <;> grind

example : LiesAt ⟨[(["l"], .link "/d"), (["d"], .directory)], []⟩ ⟨"/l"⟩ ["d"] :=
  ⟨by cbv, .inl (by decide)⟩

/-- A path that lies somewhere is not empty. -/
theorem LiesAt.text_ne_empty {base : Path} (h : LiesAt d base place) : base.text ≠ "" := by
  intro hempty
  have hplace := h.leads
  simp [Disk.place, hempty] at hplace

/-- The walk goes down to every file. -/
theorem mem_matchesBelow {base : Path} {set excluded : Globs} :
    p ∈ matchesBelow d base set excluded ↔
      ∃ place names, LiesAt d base place ∧ d.HasFile place names ∧
        Spared (fun q => excluded.isMatch (relativeText base q)) base names ∧
        p = descend base names ∧ set.isMatch (relativeText base p) = true := by
  simp only [← walkStart?_eq_some_iff]
  unfold matchesBelow
  split
  · next h => simp [h]
  · next start h =>
      simp only [h, Option.some.injEq, List.mem_filter, mem_filesBelow]
      constructor
      · rintro ⟨⟨names, -, hfile, hspared, hp⟩, hmatch⟩
        exact ⟨start, names, rfl, hfile, hspared, hp, hmatch⟩
      · rintro ⟨_, names, rfl, hfile, hspared, hp, hmatch⟩
        exact ⟨⟨names, hfile.length_le, hfile, hspared, hp⟩, hmatch⟩

theorem matchesBelow_nil (d : Disk) (base : Path) (excluded : Globs) :
    matchesBelow d base [] excluded = [] :=
  List.eq_nil_iff_forall_not_mem.mpr fun p hp => by simp [mem_matchesBelow, Globs.isMatch] at hp

/-! ### Patterns -/

/-- The files that patterns stand for. -/
inductive Wanted (d : Disk) (base : Path) (patterns : List String) : Path → Prop
  /-- A pattern names the file. -/
  | named {pattern : String} : pattern ∈ patterns → d.isFile (base.join ⟨pattern⟩) = true →
      Wanted d base patterns (base.join ⟨pattern⟩)
  /-- A pattern that names no file matches the file below the base, and nothing excludes it. -/
  | matched {place names : List String} {pattern : String} : LiesAt d base place →
      d.HasFile place names →
      (∀ n < names.length, ∀ g, "!" ++ g ∈ defaultWorkspaceGlobs →
        ¬GlobMatches g (relativeText base (descend base (names.take (n + 1))))) →
      pattern ∈ patterns → d.isFile (base.join ⟨pattern⟩) = false →
      GlobMatches pattern (relativeText base (descend base names)) →
      Wanted d base patterns (descend base names)

/-- What is found for patterns, before it is put in order. -/
def candidates (d : Disk) (base : Path) (patterns : List String) : List Path :=
  (patterns.filter fun p => d.isFile (base.join ⟨p⟩)).map (fun p => base.join ⟨p⟩) ++
    matchesBelow d base
      ((patterns.filter fun p => !d.isFile (base.join ⟨p⟩)).filterMap (Glob.compile? {}))
      (excludedGlobs.filterMap (Glob.compile? {}))

theorem mem_candidates {base : Path} {patterns : List String} :
    p ∈ candidates d base patterns ↔ Wanted d base patterns p := by
  rw [candidates, List.mem_append, List.mem_map, mem_matchesBelow]
  simp only [Spared, ← Bool.not_eq_true, isMatch_filterMap, not_exists, not_and, List.mem_filter,
    mem_excludedGlobs]
  constructor
  · rintro (⟨pattern, ⟨hpattern, hfile⟩, rfl⟩ | ⟨place, names, hstart, hfile, hspared, rfl, pattern,
      ⟨hpattern, hnofile⟩, hmatches⟩)
    · exact .named hpattern hfile
    · exact .matched hstart hfile hspared hpattern (by simpa using hnofile) hmatches
  · intro h
    cases h with
    | named hpattern hfile => exact .inl ⟨_, ⟨hpattern, hfile⟩, rfl⟩
    | matched hstart hfile hspared hpattern hnofile hmatches =>
        exact .inr ⟨_, _, hstart, hfile, hspared, rfl, _, ⟨hpattern, by simp [hnofile]⟩, hmatches⟩

theorem discover_eq (d : Disk) (base : Path) (patterns : List String) :
    discover d base patterns =
      match patterns.find? fun p => !d.isFile (base.join ⟨p⟩) && isMalformed p with
      | some pattern => .error pattern
      | none => .ok (dropSame ((candidates d base patterns).mergeSort pathLe)) := by
  have hglobs : patterns.filter (not ∘ fun p => d.isFile (base.join ⟨p⟩)) =
      patterns.filter fun p => !d.isFile (base.join ⟨p⟩) := rfl
  have hfind : (patterns.find? fun p => !d.isFile (base.join ⟨p⟩) && isMalformed p) =
      (patterns.filter fun p => !d.isFile (base.join ⟨p⟩)).find? isMalformed := by
    simp [List.find?_filter]
  rw [discover, List.partition_eq_filter_filter, hglobs, hfind, candidates]
  cases patterns.filter fun p => !d.isFile (base.join ⟨p⟩) with
  | nil =>
      -- nothing is walked, and a walk would find nothing
      rw [List.filterMap_nil, matchesBelow_nil]
      rfl
  | cons pattern rest =>
      simp only [globsOf_eq, find?_excludedGlobs]
      cases (pattern :: rest).find? isMalformed <;> rfl

/-- Patterns stand for no files if one of them names none and is no glob. Otherwise the files they
stand for are found, each once and in order. Globs are matched against names with a slash between
neighbours. -/
theorem discover_finds (d : Disk) (base : Path) (patterns : List String) :
    ((∃ pattern, discover d base patterns = .error pattern) ↔ ∃ pattern ∈ patterns,
      d.isFile (base.join ⟨pattern⟩) = false ∧ Glob.compile? {} pattern = none) ∧
    (∀ files, discover d base patterns = .ok files →
      files.Pairwise (fun p q => p.orderKey < q.orderKey) ∧
      (∀ p ∈ files, Wanted d base patterns p) ∧
      ∀ p, Wanted d base patterns p → ∃ q ∈ files, q.components = p.components) ∧
    ∀ place names, LiesAt d base place → Path.AreParts (names.map .name) →
      (relativeText base (descend base names)).toList =
        ['/'].intercalate (names.map String.toList) := by
  rw [← and_assoc]
  refine ⟨?_, fun place names hplace hnames => relativeText_descend hplace.text_ne_empty hnames⟩
  rw [discover_eq]
  split
  · next pattern h =>
      have hbad := List.find?_some h
      simp only [Bool.and_eq_true, Bool.not_eq_true', isMalformed_iff] at hbad
      exact ⟨iff_of_true ⟨pattern, rfl⟩ ⟨pattern, List.mem_of_find?_eq_some h, hbad⟩, nofun⟩
  · next h =>
      refine ⟨iff_of_false nofun ?_, fun files hfiles => ?_⟩
      · rintro ⟨pattern, hpattern, hbad⟩
        exact List.find?_eq_none.mp h pattern hpattern (by simp [isMalformed_iff, hbad])
      · obtain rfl := Except.ok.inj hfiles
        refine ⟨dropSame_strict (pairwise_mergeSort_pathLe _), fun p hp => ?_, fun p hp => ?_⟩
        · exact mem_candidates.mp (List.mem_mergeSort.mp ((dropSame_sublist _).subset hp))
        · exact exists_mem_dropSame (List.mem_mergeSort.mpr (mem_candidates.mpr hp))

end Cli

end LintDesk
