import LintDesk.Files.Disk
import LintDesk.Files.Memory
import LintDesk.Proofs.Config.Probing

/-! # File layers and the spelling of paths

A layer in memory tells paths apart by their components only. A disk does not, as a separator after
the name of a file makes a difference there; but it finds the same in a directory, however the path
of the directory is spelled.
-/

namespace LintDesk

/-! ### In memory -/

namespace MemoryFiles

variable {path path' : Path}

theorem stat_congr (m : MemoryFiles) (h : path.components = path'.components) :
    (m.stat path).toOption = (m.stat path').toOption := by
  unfold stat resolve?
  rw [h]
  split <;> rfl

theorem read_congr (m : MemoryFiles) (h : path.components = path'.components) :
    (m.read path).toOption = (m.read path').toOption := by
  unfold read resolve?
  rw [h]
  split <;> rfl

theorem list_congr (m : MemoryFiles) (h : path.components = path'.components) :
    (m.list path).toOption = (m.list path').toOption := by
  unfold list resolve?
  rw [h]
  split <;> rfl

theorem ignoresSpelling (m : MemoryFiles) : m.layer.IgnoresSpelling := by
  unfold layer
  split
  · refine ⟨fun dir dir' h => ?_, fun dir dir' h name _ => ?_, fun dir dir' h name _ => ?_⟩
    · exact m.list_congr (by simpa [Path.same] using h)
    · exact m.stat_congr (Path.components_join_congr (by simpa [Path.same] using h) _)
    · exact m.read_congr (Path.components_join_congr (by simpa [Path.same] using h) _)
  · exact ⟨fun _ _ _ => rfl, fun _ _ _ _ _ => rfl, fun _ _ _ _ _ => rfl⟩

end MemoryFiles

/-! ### On disk -/

namespace Disk

/-- Whether a part of a path stays where it is. -/
def isIdle (part : String) : Bool :=
  part = "" ∨ part = "."

variable {d : Disk}

theorem walk_of_no_directory {follow : Bool} {links : Nat} {place parts : List String}
    (h : d.hasDirectory place = false) (hparts : parts ≠ []) :
    d.walk follow links place parts = .error notDirectory := by
  obtain ⟨part, rest, rfl⟩ := List.exists_cons_of_ne_nil hparts
  rw [walk, h]
  rfl

/-- Idle parts before others do not matter. -/
theorem walk_filter (d : Disk) (links : Nat) (place parts : List String) {rest : List String}
    (hrest : rest ≠ []) :
    (d.walk true links place (parts ++ rest)).toOption =
      (d.walk true links place (parts.filter (!isIdle ·) ++ rest)).toOption := by
  induction links using Nat.strong_induction_on generalizing place parts with
  | _ links ihlinks =>
    induction parts generalizing place with
    | nil => rfl
    | cons part more ih =>
        cases hdir : d.hasDirectory place with
        | false =>
            rw [walk_of_no_directory hdir (by simp), walk_of_no_directory hdir (by simp [hrest])]
        | true =>
            by_cases hidle : isIdle part = true
            · rw [List.filter_cons_of_neg (by simp [hidle]), ← ih, List.cons_append, walk]
              simp only [isIdle, decide_eq_true_eq] at hidle
              simp [hdir, hidle]
            · rw [List.filter_cons_of_pos (by simp [hidle]), List.cons_append, List.cons_append,
                walk, walk]
              simp only [isIdle, decide_eq_true_eq] at hidle
              simp only [hdir, Bool.not_true, Bool.false_eq_true, if_false, hidle]
              split
              · exact ih _
              · cases hnode : d.node? (place ++ [part]) with
                | none => simp [hrest]
                | some node =>
                    cases node with
                    | link target =>
                        cases links with
                        | zero => simp
                        | succ links =>
                            have hlong := ihlinks links (Nat.lt_succ_self links)
                              (origin ⟨target⟩ place) (partsOf ⟨target⟩ ++ more)
                            have hshort := ihlinks links (Nat.lt_succ_self links)
                              (origin ⟨target⟩ place)
                              (partsOf ⟨target⟩ ++ more.filter (!isIdle ·))
                            simp only [List.filter_append, List.filter_filter, Bool.and_self,
                              List.append_assoc] at hlong hshort
                            simpa [hrest] using hlong.trans hshort.symm
                    | file text => exact ih _
                    | directory => exact ih _

/-- A `.` at the end asks for a directory. -/
theorem walk_dot (d : Disk) (links : Nat) (place parts : List String) :
    (d.walk true links place (parts ++ ["."])).toOption =
      (d.walk true links place parts).toOption.filter d.hasDirectory := by
  induction links using Nat.strong_induction_on generalizing place parts with
  | _ links ihlinks =>
    induction parts generalizing place with
    | nil =>
        rw [List.nil_append, walk, walk]
        cases hdir : d.hasDirectory place <;> simp [hdir, Except.toOption, walk, Option.filter_some]
    | cons part more ih =>
        cases hdir : d.hasDirectory place with
        | false => simp [walk_of_no_directory hdir, Except.toOption]
        | true =>
            rw [List.cons_append, walk, walk]
            simp only [hdir, Bool.not_true, Bool.false_eq_true, if_false]
            split
            · exact ih _
            · split
              · exact ih _
              · cases hnode : d.node? (place ++ [part]) with
                | none =>
                    cases more <;> simp [Except.toOption, hasDirectory, hnode, Option.filter_some]
                | some node =>
                    cases node with
                    | link target =>
                        cases links with
                        | zero => simp [Except.toOption]
                        | succ links =>
                            have hnext := ihlinks links (Nat.lt_succ_self links)
                              (origin ⟨target⟩ place) (partsOf ⟨target⟩ ++ more)
                            simpa using hnext
                    | file text => exact ih _
                    | directory => exact ih _

/-- The names on the way that components describe. -/
def namesOf (components : List Component) : List String :=
  components.filterMap fun
    | .up => some ".."
    | .name s => some s
    | _ => none

theorem isIdle_ofList (part : List Char) : isIdle (String.ofList part) = Path.isIdle part := by
  have hdot : String.ofList part = "." ↔ part = ['.'] := by
    rw [show "." = String.ofList ['.'] from rfl, String.ofList_inj]
  simp [isIdle, Path.isIdle, hdot]

theorem namesOf_filterMap (parts : List (List Char)) :
    namesOf (parts.filterMap Path.component?) =
      (parts.map String.ofList).filter (!isIdle ·) := by
  induction parts with
  | nil => rfl
  | cons part parts ih =>
      rw [List.map_cons]
      cases hidle : Path.isIdle part with
      | true =>
          rw [List.filterMap_cons_none (Path.component?_eq_none_iff.mpr hidle),
            List.filter_cons_of_neg (by simp [isIdle_ofList, hidle]), ih]
      | false =>
          rw [List.filter_cons_of_pos (by simp [isIdle_ofList, hidle]), ← ih]
          simp only [Path.isIdle, Bool.or_eq_false_iff, decide_eq_false_iff_not] at hidle
          by_cases hup : part = ['.', '.']
          · subst hup
            rfl
          · have hname : Path.component? part = some (.name (String.ofList part)) := by
              simp [Path.component?, hidle, hup]
            rw [List.filterMap_cons_some hname]
            rfl

theorem namesOf_components (path : Path) :
    namesOf path.components = (partsOf path).filter (!isIdle ·) := by
  rw [partsOf, ← namesOf_filterMap, Path.components]
  split
  · rfl
  · split <;> rfl

theorem origin_congr {path path' : Path} (h : path.components = path'.components)
    (place : List String) : origin path place = origin path' place := by
  simp only [origin, Path.isAbsolute_congr h]

theorem text_eq_empty_congr {path path' : Path} (h : path.components = path'.components) :
    path.text = "" ↔ path'.text = "" := by
  rw [← Path.components_eq_nil_iff, h, Path.components_eq_nil_iff]

/-- The way to a directory. -/
theorem place_directory (d : Disk) (path : Path) :
    (d.place true path).toOption.filter d.hasDirectory =
      if path.text = "" then none
      else (d.walk true 40 (origin path d.workingDirectory)
        (namesOf path.components ++ ["."])).toOption := by
  unfold place
  split
  · rfl
  · rw [← walk_dot, walk_filter _ _ _ _ (by simp), namesOf_components]

/-- The way to a path that ends with a name. -/
theorem place_name (d : Disk) {path : Path} {init : List String} {last : String}
    (hparts : partsOf path = init ++ [last]) (hlast : isIdle last = false) :
    (d.place true path).toOption =
      if path.text = "" then none
      else (d.walk true 40 (origin path d.workingDirectory)
        (namesOf path.components)).toOption := by
  have hnames : namesOf path.components = init.filter (!isIdle ·) ++ [last] := by
    simp [namesOf_components, hparts, hlast]
  unfold place
  split
  · rfl
  · rw [hparts, hnames, walk_filter _ _ _ _ (by simp)]

theorem list_congr (d : Disk) {path path' : Path} (h : path.components = path'.components) :
    (d.list path).toOption = (d.list path').toOption := by
  have hlist : ∀ path, (d.list path).toOption =
      ((d.place true path).toOption.filter d.hasDirectory).map fun place =>
        (d.namesBelow place).map fun name =>
          ⟨name, ((d.node? (place ++ [name])).map kindOf).getD .other⟩ := by
    intro path
    unfold list
    cases d.place true path with
    | error _ => rfl
    | ok place =>
        simp only [bind, Except.bind, Except.toOption, Option.filter_some]
        cases hdir : d.hasDirectory place with
        | true =>
            have hnode : d.node? place = some .directory := by simpa [hasDirectory] using hdir
            simp [hnode]
        | false =>
            have hnode : d.node? place ≠ some .directory := by simpa [hasDirectory] using hdir
            split
            · next hlisted =>
                split at hlisted
                · contradiction
                · cases hlisted
                · cases hlisted
            · rfl
  rw [hlist, hlist, place_directory, place_directory, origin_congr h, h]
  simp only [text_eq_empty_congr h]

/-- Whether a text is a path of a single name. -/
def IsName (name : String) : Prop :=
  Path.isAbsolute ⟨name⟩ = false ∧ partsOf ⟨name⟩ = [name] ∧ isIdle name = false

instance (name : String) : Decidable (IsName name) :=
  inferInstanceAs (Decidable (_ ∧ _ ∧ _))

theorem isName_configFileNames : ∀ name ∈ configFileNames, IsName name := by
  decide

theorem place_join_congr (d : Disk) {dir dir' : Path} (h : dir.components = dir'.components)
    {name : String} (hname : IsName name) :
    (d.place true (dir.join ⟨name⟩)).toOption = (d.place true (dir'.join ⟨name⟩)).toOption := by
  obtain ⟨hrelative, hparts, hidle⟩ := hname
  have hjoin : ∀ dir : Path, ∃ init, partsOf (dir.join ⟨name⟩) = init ++ [name] := by
    intro dir
    obtain ⟨init, hinit⟩ := Path.exists_parts_join dir hrelative
    refine ⟨init.map String.ofList, ?_⟩
    rw [partsOf, hinit, List.map_append]
    exact congrArg _ hparts
  obtain ⟨init, hinit⟩ := hjoin dir
  obtain ⟨init', hinit'⟩ := hjoin dir'
  have hcomponents := Path.components_join_congr h ⟨name⟩
  rw [place_name d hinit hidle, place_name d hinit' hidle, origin_congr hcomponents, hcomponents]
  simp only [text_eq_empty_congr hcomponents]

theorem toOption_find (d : Disk) (path : Path) :
    (d.find true path).toOption = (d.place true path).toOption.bind d.node? := by
  unfold find
  cases d.place true path with
  | error _ => rfl
  | ok place =>
      simp only [bind, Except.bind, Except.toOption, Option.bind_some]
      cases d.node? place <;> rfl

/-- The text of a node that is a file. -/
def textOf? : DiskNode → Option String
  | .file text => text
  | _ => none

theorem toOption_read (d : Disk) (path : Path) :
    (d.read path).toOption = (d.find true path).toOption.bind textOf? := by
  unfold read
  cases d.find true path with
  | error _ => rfl
  | ok node =>
      simp only [bind, Except.bind, Except.toOption, Option.bind_some]
      cases node with
      | file text => cases text <;> rfl
      | directory => rfl
      | link target => rfl

theorem find_join_congr (d : Disk) {dir dir' : Path} (h : dir.components = dir'.components)
    {name : String} (hname : IsName name) :
    (d.find true (dir.join ⟨name⟩)).toOption = (d.find true (dir'.join ⟨name⟩)).toOption := by
  rw [toOption_find, toOption_find, place_join_congr d h hname]

theorem read_join_congr (d : Disk) {dir dir' : Path} (h : dir.components = dir'.components)
    {name : String} (hname : IsName name) :
    (d.read (dir.join ⟨name⟩)).toOption = (d.read (dir'.join ⟨name⟩)).toOption := by
  rw [toOption_read, toOption_read, find_join_congr d h hname]

theorem ignoresSpelling (d : Disk) : d.layer.IgnoresSpelling := by
  refine ⟨fun dir dir' h => ?_, fun dir dir' h name hname => ?_, fun dir dir' h name hname => ?_⟩
  · exact d.list_congr (by simpa [Path.same] using h)
  · have hfind := d.find_join_congr (by simpa [Path.same] using h)
      (isName_configFileNames name hname)
    change ((d.find true _).map kindOf).toOption = ((d.find true _).map kindOf).toOption
    rcases ok_or_error_of_toOption hfind with
      ⟨node, hnode, hnode'⟩ | ⟨fault, fault', hnode, hnode'⟩
    · rw [hnode, hnode']
    · rw [hnode, hnode']
      rfl
  · exact d.read_join_congr (by simpa [Path.same] using h) (isName_configFileNames name hname)

end Disk

end LintDesk
