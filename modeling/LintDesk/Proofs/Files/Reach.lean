import LintDesk.Proofs.Files.Spelling
import LintDesk.Proofs.Path.Lexical
import Mathlib.Data.Set.Finite.List
import Mathlib.Tactic.Ring

/-! # How far a path can lead

On a disk only finitely many paths lead to a file, if paths do not go up again and again: a path
gets deeper with every name on it, unless the name is that of a link, and only so many links are
followed. In memory only the paths of stored nodes lead to a file. So both kinds of layers are
finite (`Disk.isFinite`, `MemoryFiles.isFinite`).
-/

namespace LintDesk

namespace Disk

variable {d : Disk}

/-- The names that occur on a disk. -/
def names (d : Disk) : List String :=
  d.nodes.flatMap (·.1)

theorem mem_nodes {place : List String} {node : DiskNode} (h : d.nodes.lookup place = some node) :
    (place, node) ∈ d.nodes := by
  obtain ⟨before, after, heq, -⟩ := List.lookup_eq_some_iff.mp h
  simp [heq]

theorem exists_depth (d : Disk) : ∃ depth, ∀ place node, d.node? place = some node →
    place.length ≤ depth := by
  obtain ⟨depth, hdepth⟩ : ∃ depth, ∀ x ∈ d.nodes, x.1.length ≤ depth := by
    induction d.nodes with
    | nil => exact ⟨0, by simp⟩
    | cons x nodes ih =>
        obtain ⟨depth, hdepth⟩ := ih
        refine ⟨max x.1.length depth, fun y hy => ?_⟩
        rcases List.mem_cons.mp hy with rfl | hy
        · exact Nat.le_max_left _ _
        · exact (hdepth y hy).trans (Nat.le_max_right _ _)
  refine ⟨depth, fun place node hnode => ?_⟩
  unfold node? at hnode
  split at hnode
  · next hempty => simp [List.isEmpty_iff.mp hempty]
  · exact hdepth _ (mem_nodes hnode)

theorem mem_names {place : List String} {name : String} {node : DiskNode}
    (h : d.node? (place ++ [name]) = some node) : name ∈ d.names := by
  rw [node?, if_neg (by simp)] at h
  exact List.mem_flatMap.mpr ⟨_, mem_nodes h, by simp⟩

/-- The first step of a walk that comes to a node. -/
theorem walk_cons {links : Nat} {place parts found : List String} {part : String} {node : DiskNode}
    (hwalk : d.walk true links place (part :: parts) = .ok found)
    (hnode : d.node? found = some node) :
    d.node? place = some .directory ∧
      (isIdle part = true ∧ d.walk true links place parts = .ok found ∨
      part = ".." ∧ d.walk true links place.dropLast parts = .ok found ∨
      isIdle part = false ∧ part ≠ ".." ∧ part ∈ d.names ∧
        (d.walk true links (place ++ [part]) parts = .ok found ∨
        ∃ fewer target, links = fewer + 1 ∧ d.walk true fewer (origin ⟨target⟩ place)
          (partsOf ⟨target⟩ ++ parts) = .ok found)) := by
  cases hdir : d.hasDirectory place with
  | false =>
      rw [walk_of_no_directory hdir (by simp)] at hwalk
      cases hwalk
  | true =>
      refine ⟨by simpa [hasDirectory] using hdir, ?_⟩
      rw [walk] at hwalk
      simp only [hdir, Bool.not_true, Bool.false_eq_true, if_false] at hwalk
      split at hwalk
      · next hidle => exact .inl ⟨by simpa [isIdle] using hidle, hwalk⟩
      · next hidle =>
          split at hwalk
          · next hup => exact .inr (.inl ⟨hup, hwalk⟩)
          · next hup =>
              refine .inr (.inr ⟨by simpa [isIdle] using hidle, hup, ?_⟩)
              cases hpart : d.node? (place ++ [part]) with
              | none =>
                  rw [hpart] at hwalk
                  dsimp only at hwalk
                  split at hwalk
                  · obtain rfl := Except.ok.inj hwalk
                    rw [hpart] at hnode
                    cases hnode
                  · cases hwalk
              | some there =>
                  refine ⟨mem_names hpart, ?_⟩
                  rw [hpart] at hwalk
                  cases there with
                  | link target =>
                      cases links with
                      | zero => simp at hwalk
                      | succ fewer => exact .inr ⟨fewer, target, rfl, by simpa using hwalk⟩
                  | file text => exact .inl hwalk
                  | directory => exact .inl hwalk

/-- A walk that comes to a node has names of the disk on its way, and not many more of them than
steps up. -/
structure Bounded (d : Disk) (depth links taken : Nat) (parts : List String) : Prop where
  length : (parts.filter (!isIdle ·)).length + taken ≤
    2 * parts.count ".." + depth + links * (depth + 1)
  names : ∀ part ∈ parts, isIdle part = false → part ≠ ".." → part ∈ d.names

theorem Bounded.mono {depth links taken links' taken' : Nat} {parts : List String}
    (h : d.Bounded depth links taken parts) (hlinks : links ≤ links') (htaken : taken' ≤ taken) :
    d.Bounded depth links' taken' parts := by
  have hmul : links * (depth + 1) ≤ links' * (depth + 1) := Nat.mul_le_mul_right _ hlinks
  have hlength := h.length
  exact ⟨by omega, h.names⟩

section Walks

variable {depth : Nat} {found : List String} {node : DiskNode}
  (hdepth : ∀ place node, d.node? place = some node → place.length ≤ depth)
  (hnode : d.node? found = some node)

include hdepth hnode

/-- Where the target of a link is put before the rest of the way, a link less is left. -/
theorem bounded_of_place {links : Nat} (hfewer : ∀ fewer < links, ∀ place before parts,
      d.walk true fewer place (before ++ parts) = .ok found → d.Bounded depth fewer 0 parts)
    {place parts : List String} (hwalk : d.walk true links place parts = .ok found) :
    d.Bounded depth links place.length parts := by
  induction parts generalizing place with
  | nil =>
      rw [walk] at hwalk
      obtain rfl := Except.ok.inj hwalk
      have hplace := hdepth _ _ hnode
      exact ⟨by simp; omega, by simp⟩
  | cons part parts ih =>
      obtain ⟨hdir, hidle | hup | ⟨hname, hnup, hmem, hstep⟩⟩ := walk_cons hwalk hnode
      · obtain ⟨hidle, hrest⟩ := hidle
        obtain ⟨hlength, hnames⟩ := ih hrest
        have hnup : part ≠ ".." := by
          rintro rfl
          exact absurd hidle (by decide)
        refine ⟨by simpa [hidle, List.count_cons, hnup] using hlength, ?_⟩
        simpa [hidle] using hnames
      · obtain ⟨rfl, hrest⟩ := hup
        obtain ⟨hlength, hnames⟩ := ih hrest
        refine ⟨?_, by simpa using hnames⟩
        rw [List.length_dropLast] at hlength
        rw [List.filter_cons_of_pos (by decide), List.length_cons, List.count_cons_self]
        omega
      · have hnext : d.Bounded depth links (place.length + 1) parts := by
          rcases hstep with hrest | ⟨fewer, target, rfl, hrest⟩
          · simpa using ih hrest
          · obtain ⟨hlength, hnames⟩ := hfewer fewer (Nat.lt_succ_self _) _ _ _ hrest
            have hplace := hdepth _ _ hdir
            have hmul : (fewer + 1) * (depth + 1) = fewer * (depth + 1) + depth + 1 := by ring
            exact ⟨by omega, hnames⟩
        have hlength := hnext.length
        refine ⟨?_, ?_⟩
        · rw [List.filter_cons_of_pos (by simp [hname]), List.length_cons,
            List.count_cons_of_ne hnup]
          omega
        · intro other hother
          rcases List.mem_cons.mp hother with rfl | hother
          · exact fun _ _ => hmem
          · exact hnext.names other hother

theorem bounded_of_walk (links : Nat) (place before parts : List String)
    (hwalk : d.walk true links place (before ++ parts) = .ok found) :
    d.Bounded depth links 0 parts := by
  induction links using Nat.strong_induction_on generalizing place before parts with
  | _ links ih =>
    induction before generalizing place with
    | nil => exact (bounded_of_place hdepth hnode ih hwalk).mono (Nat.le_refl _) (Nat.zero_le _)
    | cons part before ihbefore =>
        obtain ⟨-, ⟨-, hrest⟩ | ⟨-, hrest⟩ | ⟨-, -, -, hrest | ⟨fewer, target, rfl, hrest⟩⟩⟩ :=
          walk_cons hwalk hnode
        · exact ihbefore _ hrest
        · exact ihbefore _ hrest
        · exact ihbefore _ hrest
        · change d.walk true fewer _ (_ ++ (before ++ parts)) = _ at hrest
          rw [← List.append_assoc] at hrest
          exact (ih fewer (Nat.lt_succ_self _) _ _ _ hrest).mono (Nat.le_succ _) (Nat.le_refl _)

end Walks

/-! ### Paths to files -/

theorem exists_node_of_read {path : Path} {text : String} (h : d.read path = .ok text) :
    ∃ found node, d.walk true 40 (origin path d.workingDirectory) (partsOf path) = .ok found ∧
      d.node? found = some node := by
  have hread : (d.find true path).toOption.bind textOf? = some text := by
    rw [← toOption_read, h]
    rfl
  obtain ⟨node, hfind, -⟩ := Option.bind_eq_some_iff.mp hread
  rw [toOption_find] at hfind
  obtain ⟨found, hplace, hnode⟩ := Option.bind_eq_some_iff.mp hfind
  refine ⟨found, node, ?_, hnode⟩
  unfold place at hplace
  split at hplace
  · cases hplace
  · cases hwalk : d.walk true 40 (origin path d.workingDirectory) (partsOf path) with
    | ok place =>
        rw [hwalk] at hplace
        exact congrArg _ (Option.some.inj hplace)
    | error _ =>
        rw [hwalk] at hplace
        cases hplace

/-- What a part of a path stands for. -/
theorem component?_cases {part : List Char} {c : Component} (h : Path.component? part = some c) :
    isIdle (String.ofList part) = false ∧ (String.ofList part = ".." ∧ c = .up ∨
      String.ofList part ≠ ".." ∧ c = .name (String.ofList part)) := by
  have hidle : Path.isIdle part = false := by
    rw [← Bool.not_eq_true, ← Path.component?_eq_none_iff, h]
    simp
  refine ⟨(isIdle_ofList part).trans hidle, ?_⟩
  have hup : String.ofList part = ".." ↔ part = ['.', '.'] := by
    rw [show ".." = String.ofList ['.', '.'] from rfl, String.ofList_inj]
  rw [ne_eq, hup]
  unfold Path.component? at h
  split at h
  · cases h
  · split at h
    · next heq => exact .inl ⟨heq, (Option.some.inj h).symm⟩
    · next hne => exact .inr ⟨hne, (Option.some.inj h).symm⟩

theorem count_up_filterMap (parts : List (List Char)) :
    (parts.map String.ofList).count ".." = (parts.filterMap Path.component?).count .up ∧
      ((parts.map String.ofList).filter (!isIdle ·)).length =
        (parts.filterMap Path.component?).length := by
  induction parts with
  | nil => exact ⟨rfl, rfl⟩
  | cons part parts ih =>
      obtain ⟨hcount, hlength⟩ := ih
      rw [List.map_cons]
      cases hc : Path.component? part with
      | none =>
          have hidle : isIdle (String.ofList part) = true :=
            (isIdle_ofList part).trans (Path.component?_eq_none_iff.mp hc)
          have hne : String.ofList part ≠ ".." := fun hup => by
            rw [hup] at hidle
            exact absurd hidle (by decide)
          rw [List.filterMap_cons_none hc, List.filter_cons_of_neg (by simp [hidle]),
            List.count_cons_of_ne hne]
          exact ⟨hcount, hlength⟩
      | some c =>
          obtain ⟨hidle, ⟨hup, rfl⟩ | ⟨hup, rfl⟩⟩ := component?_cases hc
          · rw [List.filterMap_cons_some hc, List.filter_cons_of_pos (by simp [hidle]), hup]
            simp [hcount, hlength]
          · rw [List.filterMap_cons_some hc, List.filter_cons_of_pos (by simp [hidle]),
              List.count_cons_of_ne hup]
            simp [hcount, hlength]

/-- Lists that are not too long over finitely many elements. -/
theorem finite_lists {α : Type} {s : Set α} (hs : s.Finite) (n : Nat) :
    {l : List α | l.length ≤ n ∧ ∀ x ∈ l, x ∈ s}.Finite := by
  have := hs.to_subtype
  refine ((List.finite_length_le s n).image (List.map Subtype.val)).subset ?_
  rintro l ⟨hlength, hmem⟩
  exact ⟨l.pmap Subtype.mk hmem, by simpa using hlength, by simp [List.map_pmap]⟩

/-- The components of the paths that lead to a file and go up once at most. -/
def readable (d : Disk) : Set (List Component) :=
  {cs | cs.count .up ≤ 1 ∧ ∃ path text, path.components = cs ∧ d.read path = .ok text}

theorem finite_readable (d : Disk) : d.readable.Finite := by
  obtain ⟨depth, hdepth⟩ := d.exists_depth
  have hnames : ({.root, .here, .up} ∪ {c | ∃ name ∈ d.names, c = .name name} :
      Set Component).Finite := by
    refine (by simp : ({.root, .here, .up} : Set Component).Finite).union ?_
    exact ((List.finite_toSet d.names).image Component.name).subset fun c ⟨name, hname, hc⟩ =>
      ⟨name, hname, hc.symm⟩
  refine (finite_lists hnames (3 + depth + 40 * (depth + 1))).subset ?_
  rintro cs ⟨hup, path, text, rfl, hread⟩
  obtain ⟨found, node, hwalk, hnode⟩ := exists_node_of_read hread
  obtain ⟨hlength, hmem⟩ := bounded_of_walk hdepth hnode 40 _ [] _ hwalk
  obtain ⟨hcount, hparts⟩ := count_up_filterMap path.parts
  obtain ⟨start, hstart, hcomponents⟩ := path.exists_components
  have hlong : start.length ≤ 1 ∧ start.count .up = 0 := by
    rcases hstart with rfl | rfl | rfl <;> decide
  refine ⟨?_, fun c hc => ?_⟩
  · rw [hcomponents, List.count_append] at hup
    rw [hcomponents, List.length_append]
    simp only [hcount, hparts] at hlength
    omega
  · rw [hcomponents, List.mem_append] at hc
    rcases hc with hc | hc
    · rcases hstart with rfl | rfl | rfl <;> simp_all
    · obtain ⟨part, hpart, hsome⟩ := List.mem_filterMap.mp hc
      obtain ⟨hidle, ⟨-, rfl⟩ | ⟨hne, rfl⟩⟩ := component?_cases hsome
      · simp
      · exact .inr ⟨_, hmem _ (List.mem_map_of_mem hpart) hidle hne, rfl⟩

end Disk

/-! ### Finite layers -/

namespace FileLayer

/-- The files of a layer, by the components of the normal paths that lead to them. -/
def normalFiles (layer : FileLayer) : Set (List Component) :=
  {cs | ∃ path : Path, path.normalize.components = cs ∧
    ∃ text, layer.read path.normalize = .ok text}

/-- Normal paths lead to finitely many files. -/
def IsFinite (layer : FileLayer) : Prop :=
  layer.normalFiles.Finite

end FileLayer

theorem Disk.isFinite (d : Disk) : d.layer.IsFinite := by
  refine d.finite_readable.subset ?_
  rintro cs ⟨path, rfl, text, hread⟩
  exact ⟨path.count_up_normalize, path.normalize, text, rfl, hread⟩

theorem MemoryFiles.exists_node_of_read {m : MemoryFiles} {path : Path} {text : String}
    (h : m.read path = .ok text) : ∃ node, m.nodes.lookup path.components = some node := by
  cases hnode : m.nodes.lookup path.components with
  | some node => exact ⟨node, rfl⟩
  | none =>
      have hplace : m.at? path.components = some .directory ∨ m.at? path.components = none := by
        rw [at?, hnode]
        dsimp only
        split
        · exact .inl rfl
        · exact .inr rfl
      rcases hplace with hplace | hplace <;> simp [read, resolve?, follow?, hplace] at h

theorem MemoryFiles.isFinite (m : MemoryFiles) : m.layer.IsFinite := by
  refine (List.finite_toSet (m.nodes.map (·.1))).subset ?_
  rintro cs ⟨path, rfl, text, hread⟩
  unfold layer at hread
  split at hread
  · obtain ⟨node, hnode⟩ := exists_node_of_read hread
    obtain ⟨before, after, hnodes, -⟩ := List.lookup_eq_some_iff.mp hnode
    simp [hnodes]
  · cases hread

end LintDesk
