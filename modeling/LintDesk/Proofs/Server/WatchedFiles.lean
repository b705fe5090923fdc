import LintDesk.Proofs.Path.Lexical
import LintDesk.Proofs.Url.PathTexts
import LintDesk.Server.Serve

/-! # Watched files

A client tells which files have changed, and the server starts over if one of them is a
configuration file or the ignore file of the settings. The ignore file is known by its name as it
stands in the settings, which has to be how the path of the URL ends: so a change of it is noticed
only if the name is spelled that way (`Server.ignorePath_noticed_iff`).
-/

namespace LintDesk

/-! ### Ends of a path -/

namespace Path

/-- A text at the end of another has its last parts, and the first of them in part. -/
theorem exists_splitSlash_of_isSuffix {s t : List Char} (h : s <:+ t) :
    ∃ before part first rest, splitSlash t = before ++ part :: rest ∧
      splitSlash s = first :: rest ∧ first <:+ part := by
  obtain ⟨front, rfl⟩ := h
  induction front with
  | nil =>
      obtain ⟨first, rest, hs⟩ := List.exists_cons_of_ne_nil (splitSlash_ne_nil s)
      exact ⟨[], first, first, rest, hs, hs, List.suffix_rfl⟩
  | cons c front ih =>
      obtain ⟨before, part, first, rest, ht, hs, hfirst⟩ := ih
      rw [List.cons_append, splitSlash, ht]
      by_cases hc : c = '/'
      · exact ⟨[] :: before, part, first, rest, by simp [hc], hs, hfirst⟩
      · cases before with
        | nil => exact ⟨[], c :: part, first, rest, by simp [hc], hs, hfirst.trans (by simp)⟩
        | cons b before => exact ⟨(c :: b) :: before, part, first, rest, by simp [hc], hs, hfirst⟩

theorem mem_of_mem_splitSlash {s : List Char} {c : Char} (h : c ∈ s) :
    c = '/' ∨ ∃ part ∈ splitSlash s, c ∈ part := by
  induction s with
  | nil => cases h
  | cons d s ih =>
      obtain ⟨part, more, hs⟩ := List.exists_cons_of_ne_nil (splitSlash_ne_nil s)
      rw [hs] at ih
      rw [splitSlash, hs]
      by_cases hd : d = '/'
      · rcases List.mem_cons.mp h with rfl | h
        · exact .inl hd
        · simpa [hd] using ih h
      · rw [if_neg hd]
        rcases List.mem_cons.mp h with rfl | h
        · exact .inr ⟨c :: part, by simp, by simp⟩
        · rcases ih h with hslash | ⟨found, hfound, hc⟩
          · exact .inl hslash
          · rcases List.mem_cons.mp hfound with rfl | hmore
            · exact .inr ⟨d :: found, by simp, by simp [hc]⟩
            · exact .inr ⟨found, by simp [hmore], hc⟩

theorem AreParts.not_idle {cs : List Component} (h : AreParts cs) :
    ∀ part ∈ cs.map fun c => c.text.toList, isIdle part = false := by
  intro part hpart
  obtain ⟨c, hc, rfl⟩ := List.mem_map.mp hpart
  rw [← Bool.not_eq_true, ← component?_eq_none_iff, (h c hc).1]
  nofun

theorem isIdle_iff {part : List Char} : isIdle part = true ↔ part = [] ∨ part = ['.'] := by
  simp [isIdle]

/-- The texts of the components that parts stand for are the parts that are not idle. -/
theorem texts_filterMap_component? (parts : List (List Char)) :
    (parts.filterMap component?).map (fun c => c.text.toList) = parts.filter (!isIdle ·) := by
  induction parts with
  | nil => rfl
  | cons part rest ih =>
      cases hpart : component? part with
      | none => simp [hpart, component?_eq_none_iff.mp hpart, ih]
      | some c =>
          have hidle : isIdle part = false := by
            rw [← Bool.not_eq_true, ← component?_eq_none_iff, hpart]
            nofun
          simp [hpart, hidle, ih, text_of_component? hpart]

end Path

/-! ### Names at the end of a path -/

namespace Url

/-- A `.` at the end of what is encoded has been there before. -/
theorem dot_isSuffix {s : List Char} (h : ['.'] <:+ percentEncode inFilePath s) : ['.'] <:+ s := by
  rcases List.eq_nil_or_concat' s with rfl | ⟨init, c, rfl⟩
  · exact h
  · obtain ⟨before, hbefore⟩ := h
    rcases percentEncode_concat inFilePath init c with ⟨-, hsame⟩ | ⟨-, front, n, hn, hdigit⟩
    · rw [hsame] at hbefore
      have hdot : ['.'] = [c] := List.append_inj_right' hbefore rfl
      rw [hdot]
      exact List.suffix_append init [c]
    · rw [hdigit] at hbefore
      have hdot : '.' = upperHex n := by simpa using List.append_inj_right' hbefore rfl
      exact absurd hdot.symm (upperHex_kept n hn).2

theorem slash_not_mem_map_percentEncode (parts : List (List Char)) :
    ∀ part ∈ parts.map (percentEncode inSegment), '/' ∉ part := by
  intro part hpart
  obtain ⟨raw, -, rfl⟩ := List.mem_map.mp hpart
  exact slash_not_mem_percentEncode raw

/-- A name whose parts are the last of a path ends this, also if its first part is idle and not
among them. Only of a `.` alone this has to be known. -/
theorem isSuffix_of_kept {parts before rest : List (List Char)} {n first : List Char}
    (hne : parts ≠ []) (hn : Path.splitSlash n = first :: rest)
    (hparts : parts = before ++ if Path.isIdle first then rest else first :: rest)
    (hstart : ∀ more, n ≠ '.' :: '/' :: more)
    (hdot : n = ['.'] → n <:+ '/' :: ['/'].intercalate parts) :
    n <:+ '/' :: ['/'].intercalate parts := by
  have hname : n = ['/'].intercalate (first :: rest) := by
    rw [← hn, Path.intercalate_splitSlash]
  by_cases hfirst : Path.isIdle first = true
  · rw [if_pos hfirst] at hparts
    cases rest with
    | nil =>
        rcases Path.isIdle_iff.mp hfirst with rfl | rfl
        · simp [hname]
        · exact hdot hname
    | cons next rest =>
        rcases Path.isIdle_iff.mp hfirst with rfl | rfl
        · rw [← flatMap_slash hne, hparts, List.flatMap_append,
            flatMap_slash (List.cons_ne_nil next rest), hname]
          exact List.suffix_append _ _
        · exact absurd hname (hstart (['/'].intercalate (next :: rest)))
  · rw [if_neg hfirst] at hparts
    rw [← flatMap_slash hne, hparts, List.flatMap_append,
      flatMap_slash (List.cons_ne_nil first rest), ← hname]
    exact (List.suffix_cons '/' n).trans (List.suffix_append _ _)

section Names

variable {parts before : List (List Char)} {n : List Char}
  (hidle : ∀ part ∈ parts, Path.isIdle part = false)
  (hparts : parts = before ++ (Path.splitSlash n).filter (!Path.isIdle ·))

include hidle

/-- A name at the end of an encoded path: none of its parts is idle but perhaps the first. -/
theorem exists_ending (hne : parts ≠ [])
    (h : n <:+ '/' :: ['/'].intercalate (parts.map (percentEncode inSegment))) :
    ∃ front part first rest, [] :: parts.map (percentEncode inSegment) = front ++ part :: rest ∧
      Path.splitSlash n = first :: rest ∧ first <:+ part ∧
      ∀ kept ∈ rest, Path.isIdle kept = false := by
  obtain ⟨front, part, first, rest, hwritten, hn, hfirst⟩ := Path.exists_splitSlash_of_isSuffix h
  rw [Path.splitSlash, if_pos rfl, Path.splitSlash_intercalate (by simpa using hne)
    (slash_not_mem_map_percentEncode parts)] at hwritten
  refine ⟨front, part, first, rest, hwritten, hn, hfirst, fun kept hkept => ?_⟩
  have hmem : kept ∈ parts.map (percentEncode inSegment) := by
    cases front with
    | nil =>
        rw [(List.cons.inj hwritten).2]
        exact hkept
    | cons f front =>
        rw [(List.cons.inj hwritten).2]
        simp [hkept]
  obtain ⟨raw, hraw, rfl⟩ := List.mem_map.mp hmem
  rw [isIdle_percentEncode, hidle raw hraw]

include hparts

/-- A name at the end of the path it leads to, when this is encoded: its parts are those at the end
of the path, apart from an idle one at its start, and nothing in them is encoded. -/
theorem exists_parts_of_isSuffix (hne : parts ≠ [])
    (h : n <:+ '/' :: ['/'].intercalate (parts.map (percentEncode inSegment))) :
    ∃ first rest, Path.splitSlash n = first :: rest ∧
      (Path.splitSlash n).filter (!Path.isIdle ·) =
        (if Path.isIdle first then rest else first :: rest) ∧
      ∀ part ∈ Path.splitSlash n, ∀ c ∈ part, inSegment c = false := by
  obtain ⟨front, part, first, rest, hwritten, hn, hfirst, hrest⟩ := exists_ending hidle hne h
  have hfilter : rest.filter (!Path.isIdle ·) = rest :=
    List.filter_eq_self.mpr fun kept hkept => by simp [hrest kept hkept]
  have hkept : (Path.splitSlash n).filter (!Path.isIdle ·) =
      if Path.isIdle first then rest else first :: rest := by
    rw [hn, List.filter_cons, hfilter]
    cases Path.isIdle first <;> rfl
  refine ⟨first, rest, hn, hkept, ?_⟩
  rw [hparts, hkept, List.map_append] at hwritten
  rw [hn]
  -- what ends the path is not changed by encoding it
  have hsame : rest.map (percentEncode inSegment) = rest ∧
      (Path.isIdle first = false → part = percentEncode inSegment first) := by
    cases hidle : Path.isIdle first with
    | true =>
        rw [hidle, if_pos rfl, ← List.cons_append, List.append_cons front] at hwritten
        exact ⟨List.append_inj_right' hwritten (by simp), nofun⟩
    | false =>
        rw [hidle, if_neg (by simp), List.map_cons, ← List.cons_append] at hwritten
        obtain ⟨hpart, hrest⟩ := List.cons.inj (List.append_inj_right' hwritten (by simp))
        exact ⟨hrest, fun _ => hpart.symm⟩
  intro kept hmem
  rcases List.mem_cons.mp hmem with rfl | hmem
  · cases hidle : Path.isIdle kept with
    | true =>
        rcases Path.isIdle_iff.mp hidle with rfl | rfl
        · simp
        · exact List.forall_mem_singleton.mpr rfl
    | false =>
        rw [hsame.2 hidle] at hfirst
        exact kept_of_isSuffix hfirst
  · have hself : percentEncode inSegment kept = kept :=
      List.map_inj_left.mp (hsame.1.trans (List.map_id rest).symm) kept hmem
    exact kept_of_isSuffix (by simp [hself])

/-- A name ends the path it leads to, when this is encoded, just if it ends the path as it is and
holds nothing that is encoded. -/
theorem isSuffix_percentEncode_iff (hslash : ∀ part ∈ parts, '/' ∉ part)
    (hstart : ∀ rest, n ≠ '.' :: '/' :: rest) :
    n <:+ percentEncode inFilePath ('/' :: ['/'].intercalate parts) ↔
      n <:+ '/' :: ['/'].intercalate parts ∧ ∀ c ∈ n, inFilePath c = false := by
  constructor
  · intro h
    by_cases hne : parts = []
    · subst hne
      exact ⟨h, fun c hc => by rw [List.mem_singleton.mp (h.subset hc)]; rfl⟩
    · have hwritten : percentEncode inFilePath ('/' :: ['/'].intercalate parts) =
          '/' :: ['/'].intercalate (parts.map (percentEncode inSegment)) := by
        rw [← percentEncode_intercalate hslash]
        exact percentEncode_append inFilePath ['/'] _
      obtain ⟨first, rest, hn, hkept, hchars⟩ := exists_parts_of_isSuffix hidle hparts hne
        (hwritten ▸ h)
      refine ⟨isSuffix_of_kept hne hn (hkept ▸ hparts) hstart fun hdot => ?_, fun c hc => ?_⟩
      · rw [hdot] at h ⊢
        exact dot_isSuffix h
      · rcases Path.mem_of_mem_splitSlash hc with rfl | ⟨part, hpart, hmem⟩
        · rfl
        · simp [inFilePath, hchars part hpart c hmem]
  · rintro ⟨⟨front, hfront⟩, hkept⟩
    rw [← hfront, percentEncode_append, percentEncode_of_kept hkept]
    exact List.suffix_append _ n

end Names

/-! ### Names of configuration files -/

theorem configFileNames_kept :
    ∀ name ∈ configFileNames, percentEncode inSegment name.toList = name.toList := by
  decide +kernel

theorem mem_configFileNames_iff {s : List Char} :
    String.ofList (percentEncode inSegment s) ∈ configFileNames ↔
      String.ofList s ∈ configFileNames := by
  constructor
  · intro h
    have hencoded := configFileNames_kept _ h
    rw [String.toList_ofList] at hencoded
    rwa [percentEncode_injective hencoded] at h
  · intro h
    have hencoded := configFileNames_kept _ h
    rw [String.toList_ofList] at hencoded
    rwa [hencoded]

theorem lastSegment?_of_ofFilePath? {p : Path} {cs : List Component} {u : Url}
    (hp : p.components = .root :: cs) (h : ofFilePath? p = some u) :
    u.lastSegment? = some (String.ofList
      ((cs.getLast?.map fun c => percentEncode inSegment c.text.toList).getD [])) := by
  have hpath := toList_path_of_components hp h
  have hhierarchical : u.hierarchical = true := (locates_of_ofFilePath? h).hierarchical
  have hstart : u.path.startsWith "/" = true := by
    rw [String.startsWith_string_iff, hpath]
    simp
  have hslash := slash_not_mem_map_percentEncode (cs.map fun c => c.text.toList)
  rw [List.map_map] at hslash
  rw [lastSegment?, if_pos (by simp [hhierarchical, hstart]), splitAtChar_slash, hpath,
    Path.splitSlash, if_pos rfl]
  by_cases hnil : cs = []
  · simp [hnil, Path.splitSlash]
  · obtain ⟨init, c, rfl⟩ := (List.eq_nil_or_concat' cs).resolve_left hnil
    rw [Path.splitSlash_intercalate (by simp) (by simpa using hslash), List.map_append,
      List.map_singleton, ← List.cons_append, List.getLast?_concat, List.getLast?_concat]
    rfl

/-- The last segment of a file's URL names a configuration file just if the path does. -/
theorem lastSegment?_mem_iff {p : Path} {u : Url} (h : ofFilePath? p = some u) :
    (∃ segment ∈ u.lastSegment?, segment ∈ configFileNames) ↔
      ∃ name ∈ p.fileName?, name ∈ configFileNames := by
  obtain ⟨cs, hp, hcs⟩ := Path.exists_areParts (isAbsolute_of_ofFilePath? h)
  have hup : ".." ∉ configFileNames := by decide
  have hempty : "" ∉ configFileNames := by decide
  rw [lastSegment?_of_ofFilePath? hp h, Path.fileName?, hp]
  by_cases hnil : cs = []
  · simp [hnil, hempty]
  · obtain ⟨init, c, rfl⟩ := (List.eq_nil_or_concat' cs).resolve_left hnil
    have hlast : (Component.root :: (init ++ [c])).getLast? = some c := by
      rw [← List.cons_append, List.getLast?_concat]
    rw [hlast, List.getLast?_concat]
    rcases hcs.up_or_name (c := c) (by simp) with rfl | ⟨s, rfl⟩
    · simp [mem_configFileNames_iff, Component.text, hup]
    · simp [mem_configFileNames_iff, Component.text]

end Url

/-! ### The path that is read -/

theorem Path.components_of_isAbsolute {p : Path} (h : p.isAbsolute = true) :
    p.components = .root :: (splitSlash p.text.toList).filterMap component? := by
  obtain ⟨rest, hrest⟩ : ∃ rest, p.text.toList = '/' :: rest :=
    List.head?_eq_some_iff.mp (by simpa [isAbsolute] using h)
  rw [components, h, (parts_of_absolute hrest).1, hrest]
  rfl

theorem Path.exists_components_join {base rest : Path} (h : (base.join rest).isAbsolute = true) :
    ∃ before, (base.join rest).components =
      .root :: (before ++ (splitSlash rest.text.toList).filterMap component?) := by
  cases hrest : rest.isAbsolute with
  | true =>
      have hjoin : base.join rest = rest := by simp [join, hrest]
      exact ⟨[], by rw [hjoin, components_of_isAbsolute hrest]; rfl⟩
  | false =>
      have hbase : base.text ≠ "" := by
        intro hempty
        have hjoin : base.join rest = rest := by simp [join, hrest, hempty]
        rw [hjoin, hrest] at h
        cases h
      have hne : base.components ≠ [] := (components_eq_nil_iff base).not.mpr hbase
      obtain ⟨first, before, hfirst⟩ := List.exists_cons_of_ne_nil hne
      rw [isAbsolute_iff] at h
      rw [components_join hrest hbase, hfirst] at h ⊢
      rw [parts_of_relative hrest]
      obtain rfl := Option.some.inj h
      exact ⟨before, rfl⟩

theorem Collection.exists_components_ignorePath {c : Collection} {name : String}
    (h : (c.ignorePath name).isAbsolute = true) :
    ∃ before, (c.ignorePath name).components =
      .root :: (before ++ (Path.splitSlash name.toList).filterMap Path.component?) := by
  unfold ignorePath at h ⊢
  split at h
  · exact Path.exists_components_join h
  · exact ⟨[], Path.components_of_isAbsolute h⟩

namespace Server

theorem filterMap_trimHere (s : List Char) :
    (Path.splitSlash (trimHere s)).filterMap Path.component? =
      (Path.splitSlash s).filterMap Path.component? := by
  fun_induction trimHere s with
  | case1 rest ih =>
      rw [ih]
      obtain ⟨part, more, hrest⟩ := List.exists_cons_of_ne_nil (Path.splitSlash_ne_nil rest)
      simp [Path.splitSlash, Path.component?, hrest]
  | case2 => rfl

theorem trimHere_ne (s rest : List Char) : trimHere s ≠ '.' :: '/' :: rest := by
  fun_induction trimHere s with
  | case1 _ ih => exact ih
  | case2 s hs => exact fun h => hs rest h

/-- Whether a change of an ignore file is noticed. It has the name of a configuration file; or its
name in the settings, without the `./` that this starts with, is how its path ends when written with
single separators, and holds nothing that is encoded in URLs. -/
def Noticed (path : Path) (name : String) : Prop :=
  (∃ s ∈ path.fileName?, s ∈ configFileNames) ∨
    trimHere name.toList <:+ (Path.ofComponents path.components).text.toList ∧
      ∀ c ∈ trimHere name.toList, Url.inFilePath c = false

theorem affectsLinting_iff {u : Url} {segment : String} (h : u.lastSegment? = some segment)
    (name : String) :
    affectsLinting u (.file name) = true ↔
      (∃ s ∈ u.lastSegment?, s ∈ configFileNames) ∨ trimHere name.toList <:+ u.path.toList := by
  simp [affectsLinting, h]

theorem affectsLinting_ignorePath_iff {c : Collection} {name : String} {u : Url}
    (h : Url.ofFilePath? (c.ignorePath name) = some u) :
    affectsLinting u (.file name) = true ↔ Noticed (c.ignorePath name) name := by
  have habsolute := Url.isAbsolute_of_ofFilePath? h
  obtain ⟨before, hname⟩ := Collection.exists_components_ignorePath habsolute
  obtain ⟨cs, hp, hcs⟩ := Path.exists_areParts habsolute
  have hparts : cs.map (fun c => c.text.toList) = before.map (fun c => c.text.toList) ++
      (Path.splitSlash (trimHere name.toList)).filter (!Path.isIdle ·) := by
    rw [(List.cons.inj (hp.symm.trans hname)).2, List.map_append, ← filterMap_trimHere,
      Path.texts_filterMap_component?]
  have hend := Url.isSuffix_percentEncode_iff hcs.not_idle hparts hcs.slash_not_mem
    (trimHere_ne name.toList)
  rw [affectsLinting_iff (Url.lastSegment?_of_ofFilePath? hp h), Noticed,
    Url.lastSegment?_mem_iff h, Url.toList_path_of_ofFilePath? h, hp,
    Url.toList_ofComponents_root, hend]

/-- The server starts over when it notices a change of an ignore file that is read, and does nothing
otherwise. -/
theorem ignorePath_noticed_iff {c : Collection} {name : String} {u : Url}
    (h : Url.ofFilePath? (c.ignorePath name) = some u) :
    (affectsLinting u (.file name) = true ↔ Noticed (c.ignorePath name) name) ∧
      ∀ d : Desk, (d.settingsFor u).ignoring = .file name →
        (Noticed (c.ignorePath name) name →
          ((Notice.filesChanged [u]).apply d).ignores = d.ignores.invalidate) ∧
        (¬ Noticed (c.ignorePath name) name → (Notice.filesChanged [u]).apply d = d) := by
  have hiff := affectsLinting_ignorePath_iff h
  refine ⟨hiff, fun d hsetting => ⟨fun hnoticed => ?_, fun hnot => ?_⟩⟩
  · have haffects : [u].any (fun u => affectsLinting u (d.settingsFor u).ignoring) = true := by
      simpa [hsetting] using hiff.mpr hnoticed
    rw [Notice.apply, if_pos haffects]
    rfl
  · have haffects : ¬ [u].any (fun u => affectsLinting u (d.settingsFor u).ignoring) = true := by
      simpa [hsetting] using hiff.not.mpr hnot
    rw [Notice.apply, if_neg haffects]

/-! ### A folder with an ignore file -/

def notesFolder : Folder where
  uri := { scheme := "file", authority := some "", path := "/notes" }
  name := "notes"

/-- A note is looked at, and the settings name an ignore file. -/
def notesCollection (name : String) : Collection where
  document := { uri := { scheme := "file", authority := some "", path := "/notes/a.md" }
                text := "a", language := "markdown", version := 1 }
  settings := { ignoring := .file name }
  workspace := [notesFolder]
  purpose := .report

/-- The URL of a file in the folder of the notes. -/
def notesUrl (path : String) : Url where
  scheme := "file"
  authority := some ""
  path := "/notes/" ++ path

/-- The ignore file is in a directory of its own. -/
theorem ignorePath_noticed_iff_of_nested :
    let u := notesUrl "docs/.mdignore"
    Url.ofFilePath? ((notesCollection "./docs/.mdignore").ignorePath "./docs/.mdignore") = some u ∧
      affectsLinting u (.file "./docs/.mdignore") = true ∧
      ∀ d : Desk, (d.settingsFor u).ignoring = .file "./docs/.mdignore" →
        ((Notice.filesChanged [u]).apply d).ignores = d.ignores.invalidate := by
  intro u
  have hurl : Url.ofFilePath?
      ((notesCollection "./docs/.mdignore").ignorePath "./docs/.mdignore") = some u := by
    decide +kernel
  have hkept : (trimHere "./docs/.mdignore".toList).all (fun c => Url.inFilePath c == false) := by
    decide +kernel
  have hnoticed : Noticed ((notesCollection "./docs/.mdignore").ignorePath "./docs/.mdignore")
      "./docs/.mdignore" :=
    .inr ⟨by decide +kernel, fun c hc => eq_of_beq (List.all_eq_true.mp hkept c hc)⟩
  obtain ⟨hiff, hstarts⟩ := ignorePath_noticed_iff hurl
  exact ⟨hurl, hiff.mpr hnoticed, fun d hd => (hstarts d hd).1 hnoticed⟩

/-- A blank is encoded in URLs, so a change of an ignore file with a blank is not noticed. -/
theorem blank_in_name_unnoticed :
    (notesCollection "my ignore").folder? = some notesFolder ∧ notesFolder.isFile = true ∧
      Url.ofFilePath? ((notesCollection "my ignore").ignorePath "my ignore") =
        some (notesUrl "my%20ignore") ∧
      affectsLinting (notesUrl "my%20ignore") (.file "my ignore") = false := by
  decide +kernel

end Server

end LintDesk
