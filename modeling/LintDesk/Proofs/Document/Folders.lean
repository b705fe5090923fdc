import LintDesk.Document.Basic
import LintDesk.Proofs.Path

/-! # Folders of a workspace

Whether a folder contains a URL is decided on texts: the path of the URL is that of the folder, or
continues it with a separator. Segment by segment this is the prefix order (`contains_iff`), so the
folders that contain one URL lie in each other, and the longest of them is the innermost one
(`Workspace.segments_prefix`).
-/

namespace LintDesk

/-! ### Separators -/

/-- A text without separators at its end. -/
def trimmed (s : List Char) : List Char :=
  s.rdropWhile (· == '/')

theorem toList_trimSlashes (s : String) : (trimSlashes s).toList = trimmed s.toList := by
  simp [trimSlashes, trimmed, List.rdropWhile]

/-- What is trimmed away are separators. -/
theorem exists_toList_trimSlashes (s : String) :
    ∃ k, s.toList = (trimSlashes s).toList ++ List.replicate k '/' := by
  refine ⟨(s.toList.rtakeWhile (· == '/')).length, ?_⟩
  have hslashes : s.toList.rtakeWhile (· == '/') =
      List.replicate (s.toList.rtakeWhile (· == '/')).length '/' := by
    refine List.eq_replicate_iff.mpr ⟨rfl, fun c hc => ?_⟩
    simpa using List.mem_rtakeWhile_imp hc
  rw [toList_trimSlashes, trimmed, ← hslashes, List.rdropWhile_append_rtakeWhile]

/-- A text is another one or continues it with a separator. -/
def Below (base s : List Char) : Prop :=
  s = base ∨ ∃ rest, s = base ++ '/' :: rest

theorem isBelow_iff_below {base s : String} :
    isBelow base s = true ↔ Below base.toList s.toList := by
  have hbegins : (base.toList ++ ['/']).isPrefixOf s.toList = true ↔
      ∃ rest, s.toList = base.toList ++ '/' :: rest := by
    simp only [List.isPrefixOf_iff_prefix, List.IsPrefix, List.append_assoc, List.singleton_append]
    exact exists_congr fun rest => eq_comm
  have hslash : ("/" : String).toList = ['/'] := rfl
  rw [isBelow, Bool.or_eq_true, beq_iff_eq, String.toList_append, hslash, hbegins, Below,
    String.toList_inj]

/-- A text lies below another if it continues it segment by segment. -/
theorem below_iff {base s : List Char} :
    Below base s ↔ Path.splitSlash base <+: Path.splitSlash s := by
  constructor
  · rintro (rfl | ⟨rest, rfl⟩)
    · exact List.prefix_refl _
    · rw [Path.splitSlash_append]
      exact List.prefix_append _ _
  · rintro ⟨more, hmore⟩
    by_cases hnil : more = []
    · rw [hnil, List.append_nil] at hmore
      exact .inl (Path.splitSlash_injective hmore).symm
    · have hslash : ∀ part ∈ more, '/' ∉ part := fun part hpart =>
        Path.slash_not_mem_splitSlash (s := s) (by simp [← hmore, hpart])
      refine .inr ⟨['/'].intercalate more, Path.splitSlash_injective ?_⟩
      rw [Path.splitSlash_append, Path.splitSlash_intercalate hnil hslash, hmore]

theorem isBelow_iff {base s : String} :
    isBelow base s = true ↔ Path.splitSlash base.toList <+: Path.splitSlash s.toList :=
  isBelow_iff_below.trans below_iff

/-- Below a text there are only longer ones. -/
theorem eq_of_isBelow {base s : String} (h : isBelow base s = true)
    (hsize : s.utf8ByteSize ≤ base.utf8ByteSize) : s = base := by
  rcases isBelow_iff_below.mp h with hsame | ⟨rest, hrest⟩
  · exact String.toList_injective hsame
  · have happend : s = base ++ String.ofList ('/' :: rest) := by
      apply String.toList_injective
      simp [hrest]
    rw [happend, String.utf8ByteSize_append, String.ofList_cons, String.utf8ByteSize_append]
      at hsize
    have hslash : (String.singleton '/').utf8ByteSize = 1 := by decide
    omega

/-! ### The greatest of a list -/

section Greatest

variable {α β : Type} {key : α → Nat} {l : List α}

theorem lastMaxBy?_eq_none_iff : lastMaxBy? key l = none ↔ l = [] := by
  cases l with
  | nil => simp [lastMaxBy?]
  | cons a rest =>
      simp only [lastMaxBy?]
      split
      · simp
      · split <;> simp

theorem lastMaxBy?_spec {a : α} (h : lastMaxBy? key l = some a) :
    a ∈ l ∧ ∀ b ∈ l, key b ≤ key a := by
  induction l generalizing a with
  | nil => cases h
  | cons first rest ih =>
      rw [lastMaxBy?] at h
      split at h
      · next hnone =>
          obtain rfl := Option.some.inj h
          simp [lastMaxBy?_eq_none_iff.mp hnone]
      · next best hbest =>
          obtain ⟨hmem, hmax⟩ := ih hbest
          split at h
          · next hgreater =>
              obtain rfl := Option.some.inj h
              refine ⟨by simp, fun b hb => ?_⟩
              rcases List.mem_cons.mp hb with rfl | hb
              · exact Nat.le_refl _
              · have := hmax b hb
                omega
          · obtain rfl := Option.some.inj h
            refine ⟨by simp [hmem], fun b hb => ?_⟩
            rcases List.mem_cons.mp hb with rfl | hb
            · omega
            · exact hmax b hb

/-- Two keys that order the elements of a list in the same way choose the same one. -/
theorem lastMaxBy?_congr {key' : α → Nat}
    (h : ∀ a ∈ l, ∀ b ∈ l, key a > key b ↔ key' a > key' b) :
    lastMaxBy? key l = lastMaxBy? key' l := by
  induction l with
  | nil => rfl
  | cons first rest ih =>
      have hrest : lastMaxBy? key rest = lastMaxBy? key' rest :=
        ih fun a ha b hb => h a (by simp [ha]) b (by simp [hb])
      rw [lastMaxBy?, lastMaxBy?, hrest]
      cases hbest : lastMaxBy? key' rest with
      | none => rfl
      | some best =>
          have hmem := (lastMaxBy?_spec hbest).1
          simp only [h first (by simp) best (by simp [hmem])]

theorem lastMaxBy?_map (f : α → β) (key : β → Nat) (l : List α) :
    lastMaxBy? key (l.map f) = (lastMaxBy? (key ∘ f) l).map f := by
  induction l with
  | nil => rfl
  | cons first rest ih =>
      rw [List.map_cons, lastMaxBy?, lastMaxBy?, ih]
      cases lastMaxBy? (key ∘ f) rest with
      | none => rfl
      | some best =>
          simp only [Option.map_some, Function.comp]
          split <;> rfl

end Greatest

/-! ### The innermost folder -/

namespace Folder

/-- The segments of a folder's path, without separators at its end. -/
def segments (f : Folder) : List (List Char) :=
  Path.splitSlash (trimSlashes f.uri.path).toList

/-- A folder contains what its segments are a prefix of, on the same host. -/
theorem contains_iff {f : Folder} {u : Url} :
    f.contains u = true ↔ f.uri.scheme = u.scheme ∧
      f.uri.authority.getD "" = u.authority.getD "" ∧
      f.segments <+: Path.splitSlash u.path.toList := by
  simp [contains, segments, isBelow_iff, and_assoc]

/-- Of two folders that contain a URL the longer one lies in the other. -/
theorem segments_prefix_of_depth_le {f g : Folder} {u : Url} (hf : f.contains u = true)
    (hg : g.contains u = true) (hdepth : g.depth ≤ f.depth) : g.segments <+: f.segments := by
  obtain ⟨-, -, hf⟩ := contains_iff.mp hf
  obtain ⟨-, -, hg⟩ := contains_iff.mp hg
  rcases List.prefix_or_prefix_of_prefix hg hf with hbegins | hbegins
  · exact hbegins
  · have hsame := eq_of_isBelow (isBelow_iff.mpr hbegins) hdepth
    have hsegments : g.segments = f.segments := by rw [segments, segments, hsame]
    exact ⟨[], (List.append_nil _).trans hsegments⟩

/-- The segments of a folder are those of its path, but for empty ones at the end. -/
theorem exists_splitSlash (f : Folder) :
    ∃ k, Path.splitSlash f.uri.path.toList = f.segments ++ List.replicate k [] := by
  obtain ⟨k, hk⟩ := exists_toList_trimSlashes f.uri.path
  have hslashes : ∀ k, Path.splitSlash (List.replicate k '/') = List.replicate (k + 1) [] := by
    intro k
    induction k with
    | zero => rfl
    | succ k ih =>
        rw [List.replicate_succ, Path.splitSlash, if_pos rfl, ih, ← List.replicate_succ]
  rw [hk]
  cases k with
  | zero => exact ⟨0, by simp [segments]⟩
  | succ k =>
      exact ⟨k + 1, by rw [List.replicate_succ, Path.splitSlash_append, hslashes, segments]⟩

end Folder

namespace Workspace

variable {w : Workspace} {u : Url} {f g : Folder}

theorem folderFor?_isSome_iff :
    (w.folderFor? u).isSome = true ↔ ∃ f ∈ w, f.contains u = true := by
  rw [Option.isSome_iff_ne_none, folderFor?, ne_eq, lastMaxBy?_eq_none_iff]
  simp

theorem mem_of_folderFor? (h : w.folderFor? u = some f) : f ∈ w ∧ f.contains u = true :=
  List.mem_filter.mp (lastMaxBy?_spec h).1

/-- The folder of a URL lies in every other folder that contains the URL. -/
theorem segments_prefix (h : w.folderFor? u = some f) (hg : g ∈ w) (hin : g.contains u = true) :
    g.segments <+: f.segments :=
  Folder.segments_prefix_of_depth_le (mem_of_folderFor? h).2 hin
    ((lastMaxBy?_spec h).2 g (List.mem_filter.mpr ⟨hg, hin⟩))

end Workspace

end LintDesk
