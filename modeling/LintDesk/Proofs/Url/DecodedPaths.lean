import LintDesk.Document.Basic
import LintDesk.Proofs.Path
import Mathlib.Data.List.Basic

/-! # Paths of URLs

A path is decoded from the segments of a URL, and each segment stands for components of its own: a
separator that is percent-encoded separates components too, and an empty segment stands for nothing
(`Url.components_pathReadBy`). This holds however the bytes of a segment are read.
-/

namespace LintDesk

/-! ### Segments -/

namespace Url

theorem splitAtChar_slash (s : List Char) : splitAtChar '/' s = Path.splitSlash s := by
  induction s with
  | nil => rfl
  | cons c s ih =>
      rw [splitAtChar, ih]
      cases hparts : Path.splitSlash s with
      | nil => simp [Path.splitSlash, hparts]
      | cons part more => simp [Path.splitSlash, hparts]

theorem flatMap_slash {parts : List (List Char)} (h : parts ≠ []) :
    parts.flatMap ('/' :: ·) = '/' :: ['/'].intercalate parts := by
  induction parts with
  | nil => exact absurd rfl h
  | cons part rest ih =>
      cases rest with
      | nil => simp
      | cons next rest =>
          rw [List.flatMap_cons, ih (by simp)]
          simp

/-- The path of a URL whose decoded segments are read by `read`. -/
def pathReadBy? (read : List UInt8 → List Char) (u : Url) : Option Path :=
  if u.hierarchical && u.path.startsWith "/" && (u.host == "" || u.host == "localhost") then
    let decoded := (splitAtChar '/' (u.path.toList.drop 1)).map fun s => read (percentBytes s)
    let joined := decoded.flatMap ('/' :: ·)
    let drive := joined.length > 2 && isDriveLetter (joined.drop (joined.length - 2))
    some ⟨String.ofList (if drive then joined ++ ['/'] else joined)⟩
  else none

theorem filePath?_eq (u : Url) : u.filePath? = u.pathReadBy? textOfBytes := rfl

/-- The components that a segment stands for. -/
def componentsReadBy (read : List UInt8 → List Char) (segment : List Char) : List Component :=
  (Path.splitSlash (read (percentBytes segment))).filterMap Path.component?

/-! ### Components -/

/-- The components of what is written with a separator before each piece. -/
theorem components_flatMap_slash {pieces : List (List Char)} (h : pieces ≠ []) :
    Path.components ⟨String.ofList (pieces.flatMap ('/' :: ·))⟩ =
      .root :: (pieces.flatMap Path.splitSlash).filterMap Path.component? := by
  obtain ⟨hparts, habsolute⟩ := Path.parts_of_absolute
    (p := ⟨String.ofList (pieces.flatMap ('/' :: ·))⟩) (s := ['/'].intercalate pieces)
    (by rw [String.toList_ofList, flatMap_slash h])
  rw [Path.components, hparts, habsolute, Path.splitSlash_intercalate_eq_flatMap h]
  rfl

theorem areParts_componentsReadBy (read : List UInt8 → List Char) (segments : List (List Char)) :
    Path.AreParts (segments.flatMap (componentsReadBy read)) := by
  intro c hc
  obtain ⟨segment, -, hc⟩ := List.mem_flatMap.mp hc
  exact Path.areParts_filterMap (fun part hpart => Path.slash_not_mem_splitSlash hpart) c hc

section Reading

variable {read : List UInt8 → List Char} (hread : read [] = [])

include hread

theorem componentsReadBy_nil : componentsReadBy read [] = [] := by
  simp [componentsReadBy, percentBytes, hread, Path.splitSlash, Path.component?]

/-- The components of a decoded path, segment by segment. -/
theorem components_pathReadBy {u : Url} {p : Path} (h : u.pathReadBy? read = some p) :
    p.components = .root :: (Path.splitSlash u.path.toList).flatMap (componentsReadBy read) := by
  unfold pathReadBy? at h
  split at h
  case isFalse => cases h
  next hcond =>
  have hstart : u.path.startsWith "/" = true := by
    simp only [Bool.and_eq_true] at hcond
    exact hcond.1.2
  obtain ⟨tail, htail⟩ : ∃ tail, u.path.toList = '/' :: tail := by
    obtain ⟨tail, htail⟩ := String.startsWith_string_iff.mp hstart
    exact ⟨tail, htail.symm⟩
  obtain rfl := Option.some.inj h
  rw [htail, Path.splitSlash, if_pos rfl, List.flatMap_cons, componentsReadBy_nil hread,
    List.nil_append, List.drop_one, List.tail_cons, splitAtChar_slash]
  have hdecoded : (Path.splitSlash tail).flatMap (componentsReadBy read) =
      (((Path.splitSlash tail).map fun s => read (percentBytes s)).flatMap
        Path.splitSlash).filterMap Path.component? := by
    rw [List.filterMap_flatMap, List.flatMap_map]
    rfl
  have hne : (Path.splitSlash tail).map (fun s => read (percentBytes s)) ≠ [] := by
    simpa using Path.splitSlash_ne_nil tail
  rw [hdecoded]
  generalize (Path.splitSlash tail).map (fun s => read (percentBytes s)) = decoded at hne
  split
  · -- the separator at the end begins an empty part
    have hend : decoded.flatMap ('/' :: ·) ++ ['/'] = (decoded ++ [[]]).flatMap ('/' :: ·) := by
      simp
    rw [hend, components_flatMap_slash (by simp)]
    simp [Path.splitSlash, Path.component?]
  · exact components_flatMap_slash hne

end Reading

end Url

end LintDesk
