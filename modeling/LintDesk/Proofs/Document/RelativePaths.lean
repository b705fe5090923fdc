import LintDesk.Proofs.Document.Folders
import LintDesk.Proofs.Path.Lexical
import LintDesk.Proofs.Url.FilePaths

/-! # Paths relative to a folder

The path of a document relative to its folder leads back to the document when it is joined to the
path of the folder (`Workspace.innermost_relativePath`). Paths are decoded from the segments of
URLs, and the system keeps them as bytes; a relative path is a text, in which bytes that are not
UTF-8 are replaced. So it leads back to the very path if the names below the folder are UTF-8, and
always if both paths are read as texts.
-/

namespace LintDesk

/-! ### Paths as bytes -/

namespace Url

/-- Bytes, each as the character with its number. -/
def bytewise (bytes : List UInt8) : List Char :=
  bytes.map fun b => Char.ofNat b.toNat

/-- The path of a file as the system keeps it, with a character for each byte. -/
def nativePath? (u : Url) : Option Path :=
  u.pathReadBy? bytewise

/-- Whether a segment stands for the UTF-8 bytes of a text. -/
def IsText (segment : List Char) : Prop :=
  ∃ t : List Char, percentBytes segment = t.flatMap utf8Bytes

end Url

/-! ### Relative paths -/

namespace Path

variable {cs : List Component}

theorem AreParts.text_end (h : AreParts cs) {c : Component} (hc : c ∈ cs) :
    ∃ init x, c.text.toList = init ++ [x] ∧ x ≠ '/' := by
  obtain ⟨hpart, hslash⟩ := h c hc
  rcases List.eq_nil_or_concat' c.text.toList with hnil | ⟨init, x, hx⟩
  · rw [hnil] at hpart
    cases hpart
  · refine ⟨init, x, hx, ?_⟩
    rintro rfl
    exact hslash (by simp [hx])

theorem AreParts.tail {c : Component} (h : AreParts (c :: cs)) : AreParts cs :=
  fun b hb => h b (by simp [hb])

theorem slashed_eq_foldl (h : AreParts cs) :
    slashed cs = cs.foldl (fun out c => addSegment out c.text) "" := by
  refine List.foldl_ext _ _ _ fun out c hc => ?_
  rcases h.up_or_name hc with rfl | ⟨s, rfl⟩ <;> rfl

theorem toList_foldl_addSegment {out : String} (hne : out ≠ "")
    (hend : out.toList.getLast? ≠ some '/') (h : AreParts cs) :
    (cs.foldl (fun out c => addSegment out c.text) out).toList =
      out.toList ++ cs.flatMap fun c => '/' :: c.text.toList := by
  induction cs generalizing out with
  | nil => simp
  | cons c rest ih =>
      obtain ⟨init, x, htext, hx⟩ := h.text_end (c := c) (by simp)
      have hstep : (addSegment out c.text).toList = out.toList ++ '/' :: c.text.toList := by
        rw [addSegment, if_neg (by simp [hne, hend])]
        simp
      have hlast : (out.toList ++ '/' :: c.text.toList).getLast? = some x := by
        rw [htext, ← List.cons_append, ← List.append_assoc, List.getLast?_concat]
      have hne' : addSegment out c.text ≠ "" := by
        rw [ne_eq, ← String.toList_inj, hstep]
        simp
      have hend' : (addSegment out c.text).toList.getLast? ≠ some '/' := by
        rw [hstep, hlast]
        simpa using hx
      rw [List.foldl_cons, ih hne' hend' h.tail, hstep, List.flatMap_cons, List.append_assoc]

/-- Components that stand for parts are written with single separators between them. -/
theorem toList_slashed (h : AreParts cs) :
    (slashed cs).toList = ['/'].intercalate (cs.map fun c => c.text.toList) := by
  rw [slashed_eq_foldl h]
  cases cs with
  | nil => rfl
  | cons c rest =>
      obtain ⟨init, x, htext, hx⟩ := h.text_end (c := c) (by simp)
      have hstart : addSegment "" c.text = c.text := by simp [addSegment]
      have hne : c.text ≠ "" := by
        rw [ne_eq, ← String.toList_inj, htext]
        simp
      rw [List.foldl_cons, hstart, toList_foldl_addSegment hne (by simp [htext, hx]) h.tail]
      have hslash : ((c :: rest).map fun c => c.text.toList).flatMap ('/' :: ·) = _ :=
        Url.flatMap_slash (by simp)
      rw [List.map_cons, List.flatMap_cons, List.cons_append, List.cons.injEq, List.flatMap_map]
        at hslash
      exact hslash.2

/-- The parts of what is written are the texts of the components. -/
theorem splitSlash_slashed (h : AreParts cs) :
    splitSlash (slashed cs).toList = if cs = [] then [[]] else cs.map fun c => c.text.toList := by
  rw [toList_slashed h]
  split
  · next hnil => simp [hnil, splitSlash]
  · next hne =>
      refine splitSlash_intercalate (by simpa using hne) fun part hpart => ?_
      obtain ⟨c, hc, rfl⟩ := List.mem_map.mp hpart
      exact (h c hc).2

theorem isAbsolute_slashed (h : AreParts cs) : isAbsolute ⟨slashed cs⟩ = false := by
  rw [isAbsolute, toList_slashed h]
  cases cs with
  | nil => rfl
  | cons c rest =>
      obtain ⟨hpart, hslash⟩ := h c (by simp)
      cases htext : c.text.toList with
      | nil =>
          rw [htext] at hpart
          cases hpart
      | cons x more =>
          have hx : x ≠ '/' := by
            rintro rfl
            exact hslash (by simp [htext])
          cases rest <;> simp [htext, hx]

/-- No part of what is written is a `.`. -/
theorem ne_dot_of_mem_slashed (h : AreParts cs) {part : List Char}
    (hpart : part ∈ splitSlash (slashed cs).toList) : part ≠ ['.'] := by
  rw [splitSlash_slashed h] at hpart
  split at hpart
  · simp_all
  · obtain ⟨c, hc, rfl⟩ := List.mem_map.mp hpart
    intro hdot
    have hcomponent := (h c hc).1
    rw [hdot] at hcomponent
    cases hcomponent

/-- Joined to a directory, what is written adds the components. -/
theorem components_join_slashed {base : Path} (hbase : base.text ≠ "") (h : AreParts cs) :
    (base.join ⟨slashed cs⟩).components = base.components ++ cs := by
  have hrelative := isAbsolute_slashed h
  rw [components_join hrelative hbase, parts_of_relative hrelative, splitSlash_slashed h]
  split
  · next hnil => simp [hnil, component?]
  · rw [h.filterMap]

end Path

/-! ### Texts as bytes -/

/-- The bytes of a text, each as the character with its number. -/
def nativeText (s : List Char) : List Char :=
  s.flatMap fun c => Url.bytewise (Url.utf8Bytes c)

/-- A path of text as the system takes it. -/
def Path.native (p : Path) : Path :=
  ⟨String.ofList (nativeText p.text.toList)⟩

/-- A component of text as the system takes it. -/
def Component.native : Component → Component
  | .name s => .name (String.ofList (nativeText s.toList))
  | c => c

theorem toNat_ofNat_of_lt : ∀ n < 256, (Char.ofNat n).toNat = n := by
  decide +kernel

theorem bytewise_injective : Function.Injective Url.bytewise := by
  refine List.map_injective_iff.mpr fun a b h => UInt8.toNat_inj.mp ?_
  rw [← toNat_ofNat_of_lt _ a.toNat_lt, ← toNat_ofNat_of_lt _ b.toNat_lt, h]

theorem nativeText_eq_bytewise (s : List Char) :
    nativeText s = Url.bytewise (s.flatMap Url.utf8Bytes) := by
  simp only [nativeText, Url.bytewise, List.map_flatMap]

theorem nativeText_injective : Function.Injective nativeText := by
  intro s t h
  rw [nativeText_eq_bytewise, nativeText_eq_bytewise] at h
  rw [← Url.textOfBytes_flatMap s, bytewise_injective h, Url.textOfBytes_flatMap]

theorem bytewise_utf8Bytes (c : Char) :
    Url.bytewise (Url.utf8Bytes c) = (Url.codes c).map Char.ofNat := by
  rw [Url.bytewise, Url.codes, List.map_map]
  rfl

/-- A character of ASCII is its only byte. -/
theorem bytewise_of_ascii {c : Char} (h : c.toNat < 0x80) :
    Url.bytewise (Url.utf8Bytes c) = [c] := by
  have hcodes : Url.codes c = [c.toNat] := by
    rcases Url.codes_cases c with ⟨-, hcodes⟩ | ⟨hc, -⟩ | ⟨hc, -⟩ | ⟨hc, -⟩
    · exact hcodes
    all_goals omega
  rw [bytewise_utf8Bytes, hcodes, List.map_singleton, Char.ofNat_toNat]

theorem nativeText_of_ascii {s : List Char} (h : s.all (·.toNat < 0x80) = true) :
    nativeText s = s := by
  rw [List.all_eq_true] at h
  rw [nativeText, List.flatMap_congr fun c hc => bytewise_of_ascii (of_decide_eq_true (h c hc))]
  exact List.flatMap_singleton' s

/-- No byte of another character is that of the separator. -/
theorem eq_slash_of_mem {c : Char} (h : '/' ∈ Url.bytewise (Url.utf8Bytes c)) : c = '/' := by
  by_cases hc : c.toNat < 0x80
  · rw [bytewise_of_ascii hc] at h
    exact (List.mem_singleton.mp h).symm
  · obtain ⟨b, hb, hchar⟩ := List.mem_map.mp h
    have hcode : b.toNat ∈ Url.codes c := List.mem_map_of_mem hb
    have hbyte : b.toNat = 47 := by
      rw [← toNat_ofNat_of_lt _ b.toNat_lt, hchar]
      rfl
    rw [hbyte] at hcode
    rcases Url.codes_cases c with ⟨-, h⟩ | ⟨-, -, h⟩ | ⟨-, -, -, h⟩ | ⟨-, -, h⟩ <;>
      simp [h] at hcode <;> omega

theorem slash_mem_nativeText {s : List Char} (h : '/' ∈ nativeText s) : '/' ∈ s := by
  obtain ⟨c, hc, hmem⟩ := List.mem_flatMap.mp h
  rwa [eq_slash_of_mem hmem] at hc

namespace Path

/-- The parts of a text have the bytes of its parts. -/
theorem splitSlash_nativeText (s : List Char) :
    splitSlash (nativeText s) = (splitSlash s).map nativeText := by
  induction s with
  | nil => rfl
  | cons c s ih =>
      by_cases hc : c = '/'
      · have hslash : nativeText ('/' :: s) = '/' :: nativeText s := by
          rw [nativeText, List.flatMap_cons, bytewise_of_ascii (c := '/') (by decide)]
          rfl
        rw [hc, hslash, splitSlash, if_pos rfl, ih, splitSlash, if_pos rfl]
        rfl
      · have hbytes : '/' ∉ Url.bytewise (Url.utf8Bytes c) := fun h => hc (eq_slash_of_mem h)
        obtain ⟨part, more, hsplit⟩ := List.exists_cons_of_ne_nil (splitSlash_ne_nil s)
        rw [nativeText, List.flatMap_cons, splitSlash_append_of_not_mem hbytes, splitSlash,
          if_neg hc, ← nativeText, ih, hsplit]
        simp [nativeText]

theorem component?_nativeText (part : List Char) :
    component? (nativeText part) = (component? part).map Component.native := by
  have hnil : nativeText part = [] ↔ part = [] := nativeText_injective.eq_iff (b := [])
  have hdot : nativeText part = ['.'] ↔ part = ['.'] := by
    conv_lhs => rw [← nativeText_of_ascii (s := ['.']) (by decide), nativeText_injective.eq_iff]
  have hup : nativeText part = ['.', '.'] ↔ part = ['.', '.'] := by
    conv_lhs =>
      rw [← nativeText_of_ascii (s := ['.', '.']) (by decide), nativeText_injective.eq_iff]
  simp only [component?, hnil, hdot, hup]
  split
  · rfl
  · split
    · rfl
    · simp [Component.native]

variable {cs : List Component}

theorem AreParts.text_native (h : AreParts cs) {c : Component} (hc : c ∈ cs) :
    c.native.text.toList = nativeText c.text.toList := by
  rcases h.up_or_name hc with rfl | ⟨s, rfl⟩
  · exact (nativeText_of_ascii (by decide)).symm
  · exact String.toList_ofList

theorem AreParts.native (h : AreParts cs) : AreParts (cs.map Component.native) := by
  intro c' hc'
  obtain ⟨c, hc, rfl⟩ := List.mem_map.mp hc'
  obtain ⟨hpart, hslash⟩ := h c hc
  rw [h.text_native hc, component?_nativeText, hpart]
  exact ⟨rfl, fun hmem => hslash (slash_mem_nativeText hmem)⟩

theorem native_slashed (h : AreParts cs) :
    native ⟨slashed cs⟩ = ⟨slashed (cs.map Component.native)⟩ := by
  have htext : nativeText (slashed cs).toList = (slashed (cs.map Component.native)).toList := by
    apply splitSlash_injective
    rw [splitSlash_nativeText, splitSlash_slashed h, splitSlash_slashed h.native]
    split
    · next hnil => simp [hnil, nativeText]
    · next hne =>
        rw [if_neg (by simpa using hne), List.map_map, List.map_map]
        exact List.map_congr_left fun c hc => (h.text_native hc).symm
  rw [native, htext, String.ofList_toList]

end Path

/-- What a segment of text stands for, read as bytes and as text. -/
theorem Url.componentsReadBy_bytewise {segment : List Char} (h : IsText segment) :
    componentsReadBy bytewise segment =
      (componentsReadBy textOfBytes segment).map Component.native := by
  obtain ⟨t, ht⟩ := h
  rw [componentsReadBy, componentsReadBy, ht, textOfBytes_flatMap, ← nativeText_eq_bytewise,
    Path.splitSlash_nativeText, List.filterMap_map, List.map_filterMap]
  exact List.filterMap_congr fun part _ => Path.component?_nativeText part

/-! ### Paths relative to a folder -/

/-- The segments of a URL after those of a folder. -/
def Folder.below (f : Folder) (u : Url) : List (List Char) :=
  (Path.splitSlash u.path.toList).drop f.segments.length

/-- Below a folder a path goes on with what the segments after those of the folder stand for. -/
theorem Folder.components_below {f : Folder} {u : Url} (hin : f.contains u = true)
    {read : List UInt8 → List Char} (hread : read [] = []) {root path : Path}
    (hroot : f.uri.pathReadBy? read = some root) (hpath : u.pathReadBy? read = some path) :
    path.components = root.components ++ (f.below u).flatMap (Url.componentsReadBy read) := by
  obtain ⟨k, hk⟩ := f.exists_splitSlash
  obtain ⟨more, hmore⟩ := (contains_iff.mp hin).2.2
  have hempty : ∀ k, (List.replicate k []).flatMap (Url.componentsReadBy read) = [] := fun k =>
    List.flatMap_eq_nil_iff.mpr fun s hs => by
      rw [List.eq_of_mem_replicate hs, Url.componentsReadBy_nil hread]
  rw [below, Url.components_pathReadBy hread hroot, Url.components_pathReadBy hread hpath, hk,
    ← hmore, List.drop_left, List.flatMap_append, List.flatMap_append, hempty, List.append_nil,
    List.cons_append]

/-- Joining what is written below a folder to its path. -/
theorem Folder.components_join_below {f : Folder} {u : Url} (hin : f.contains u = true)
    {read : List UInt8 → List Char} (hread : read [] = []) {root path : Path}
    (hroot : f.uri.pathReadBy? read = some root) (hpath : u.pathReadBy? read = some path) :
    (root.join ⟨Path.slashed ((f.below u).flatMap (Url.componentsReadBy read))⟩).components =
      path.components := by
  have hne : root.text ≠ "" := by
    rw [ne_eq, ← Path.components_eq_nil_iff, Url.components_pathReadBy hread hroot]
    simp
  rw [Path.components_join_slashed hne (Url.areParts_componentsReadBy read _),
    components_below hin hread hroot hpath]

/-- A URL has a path of text if it has one of bytes. -/
theorem Url.exists_filePath?_of_nativePath? {u : Url} {p : Path} (h : u.nativePath? = some p) :
    ∃ q, u.filePath? = some q := by
  rw [nativePath?, pathReadBy?] at h
  rw [filePath?_eq, pathReadBy?]
  split at h
  · next hcond => exact ⟨_, if_pos hcond⟩
  · cases h

namespace Workspace

/-- The relative path is written from what the segments below the folder stand for. -/
theorem relativePath_eq {w : Workspace} {d : Document} {f : Folder}
    (h : w.folderFor? d.uri = some f) (hfile : f.uri.scheme = "file") {root path : Path}
    (hroot : f.uri.filePath? = some root) (hpath : d.uri.filePath? = some path) :
    w.relativePath d =
      Path.slashed ((f.below d.uri).flatMap (Url.componentsReadBy Url.textOfBytes)) := by
  have hin := (mem_of_folderFor? h).2
  have hscheme : d.uri.scheme = "file" := (Folder.contains_iff.mp hin).1 ▸ hfile
  have hcomponents := Folder.components_below hin rfl hroot hpath
  have hrelative : path.relativeTo? root =
      some ((f.below d.uri).flatMap (Url.componentsReadBy Url.textOfBytes)) := by
    rw [Path.relativeTo?, if_pos, hcomponents, List.drop_left]
    rw [Path.startsWith, hcomponents]
    exact List.isPrefixOf_iff_prefix.mpr (List.prefix_append _ _)
  unfold relativePath
  simp only [Document.path?, hscheme, Folder.path?, hfile, h, hroot, hpath, beq_self_eq_true,
    if_true, Option.bind_eq_bind, Option.bind_some, hrelative, Option.getD_some]

/-- A URL has a folder if some folder contains it, and then its folder is the innermost one. The
path of a file relative to its folder, joined to the path of the folder, leads back to the file: to
its very path if the names below the folder are UTF-8, and else to the path that is read as text. -/
theorem innermost_relativePath (w : Workspace) (d : Document) :
    ((w.folderFor? d.uri).isSome = true ↔ ∃ f ∈ w, f.contains d.uri = true) ∧
    ∀ f, w.folderFor? d.uri = some f →
      (f ∈ w ∧ f.contains d.uri = true ∧
        ∀ g ∈ w, g.contains d.uri = true → g.segments <+: f.segments) ∧
      (f.uri.scheme = "file" → ∀ root path,
        f.uri.nativePath? = some root → d.uri.nativePath? = some path →
          (w.relativePath d).toList.head? ≠ some '/' ∧
          (∀ part ∈ Path.splitSlash (w.relativePath d).toList, part ≠ ['.']) ∧
          ((∀ s ∈ f.below d.uri, Url.IsText s) →
            (root.join (Path.native ⟨w.relativePath d⟩)).components = path.components) ∧
          ∃ root' path', f.path? = some root' ∧ d.path? = some path' ∧
            (root'.join ⟨w.relativePath d⟩).components = path'.components) := by
  refine ⟨folderFor?_isSome_iff, fun f h => ?_⟩
  obtain ⟨hmem, hin⟩ := mem_of_folderFor? h
  refine ⟨⟨hmem, hin, fun g hg hgin => segments_prefix h hg hgin⟩,
    fun hfile root path hroot hpath => ?_⟩
  obtain ⟨root', hroot'⟩ := Url.exists_filePath?_of_nativePath? hroot
  obtain ⟨path', hpath'⟩ := Url.exists_filePath?_of_nativePath? hpath
  have hscheme : d.uri.scheme = "file" := (Folder.contains_iff.mp hin).1 ▸ hfile
  have hparts := Url.areParts_componentsReadBy Url.textOfBytes (f.below d.uri)
  rw [relativePath_eq h hfile hroot' hpath']
  refine ⟨?_, fun part hpart => Path.ne_dot_of_mem_slashed hparts hpart, fun htext => ?_,
    root', path', by simp [Folder.path?, hfile, hroot'], by simp [Document.path?, hscheme, hpath'],
    Folder.components_join_below hin rfl hroot' hpath'⟩
  · have hrelative := Path.isAbsolute_slashed hparts
    simpa [Path.isAbsolute] using hrelative
  · have hbytes : ((f.below d.uri).flatMap (Url.componentsReadBy Url.textOfBytes)).map
        Component.native = (f.below d.uri).flatMap (Url.componentsReadBy Url.bytewise) := by
      rw [List.map_flatMap]
      exact List.flatMap_congr fun s hs => (Url.componentsReadBy_bytewise (htext s hs)).symm
    rw [Path.native_slashed hparts, hbytes]
    exact Folder.components_join_below hin rfl hroot hpath

/-- A document in the inner one of two folders, with a name beyond ASCII. -/
theorem innermost_relativePath_of_nested :
    let outer : Folder := ⟨{ scheme := "file", authority := some "", path := "/w" }, "w"⟩
    let inner : Folder := ⟨{ scheme := "file", authority := some "", path := "/w/b/" }, "b"⟩
    let d : Document := ⟨{ scheme := "file", authority := some "", path := "/w/b/%C3%A9.md" }, "",
      "markdown", 1⟩
    outer.segments <+: inner.segments ∧
      Path.components (Path.join ⟨"/w/b/"⟩ (Path.native ⟨relativePath [inner, outer] d⟩)) =
        Path.components ⟨"/w/b/\u00C3\u00A9.md"⟩ := by
  intro outer inner d
  have hfor : folderFor? [inner, outer] d.uri = some inner := by decide +kernel
  obtain ⟨⟨-, -, hbegins⟩, hrelative⟩ := (innermost_relativePath [inner, outer] d).2 inner hfor
  obtain ⟨-, -, htext, -⟩ :=
    hrelative rfl ⟨"/w/b/"⟩ ⟨"/w/b/\u00C3\u00A9.md"⟩ (by decide +kernel) (by decide +kernel)
  refine ⟨hbegins outer (by simp) (by decide +kernel), htext fun s hs => ?_⟩
  have hbelow : inner.below d.uri = ["%C3%A9.md".toList] := by decide +kernel
  rw [hbelow, List.mem_singleton] at hs
  exact ⟨"\u00E9.md".toList, by rw [hs]; decide +kernel⟩

/-- Two files whose names are not UTF-8 have the same path relative to their folder, which cannot
lead back to both. -/
theorem relativePath_of_names_not_text :
    ¬ ∀ (w : Workspace) (d : Document) (f : Folder) (root path : Path),
      (∃ s, Url.parse? s = some f.uri) → (∃ s, Url.parse? s = some d.uri) →
        w.folderFor? d.uri = some f → f.uri.scheme = "file" → f.uri.nativePath? = some root →
          d.uri.nativePath? = some path →
            (root.join (Path.native ⟨w.relativePath d⟩)).components = path.components := by
  intro h
  let f : Folder := ⟨{ scheme := "file", authority := some "", path := "/w" }, "w"⟩
  let d (path : String) : Document :=
    ⟨{ scheme := "file", authority := some "", path }, "", "markdown", 1⟩
  have hfe := h [f] (d "/w/%FE.md") f ⟨"/w"⟩ ⟨"/w/\u00FE.md"⟩ ⟨"file:///w", by decide +kernel⟩
    ⟨"file:///w/%FE.md", by decide +kernel⟩ (by decide +kernel) rfl (by decide +kernel)
    (by decide +kernel)
  have hff := h [f] (d "/w/%FF.md") f ⟨"/w"⟩ ⟨"/w/\u00FF.md"⟩ ⟨"file:///w", by decide +kernel⟩
    ⟨"file:///w/%FF.md", by decide +kernel⟩ (by decide +kernel) rfl (by decide +kernel)
    (by decide +kernel)
  have hsame : relativePath [f] (d "/w/%FE.md") = relativePath [f] (d "/w/%FF.md") := by
    decide +kernel
  rw [hsame, hff] at hfe
  revert hfe
  decide

end Workspace

end LintDesk
