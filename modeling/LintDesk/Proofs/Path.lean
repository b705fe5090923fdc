import LintDesk.Path
import Mathlib.Data.List.DropRight

/-! # Paths by their components

Joining a path to a directory and going up from it depend on the components of the directory only,
not on how it is spelled.
-/

namespace LintDesk.Path

/-! ### Parts -/

theorem splitSlash_eq_splitOn (s : List Char) : splitSlash s = s.splitOn '/' := by
  induction s with
  | nil => simp [splitSlash]
  | cons c rest ih =>
      unfold splitSlash
      rw [List.splitOn_cons_eq_if_modifyHead, ih]
      by_cases hc : c = '/'
      · simp [hc]
      · obtain ⟨part, more, hsplit⟩ := List.exists_cons_of_ne_nil (List.splitOn_ne_nil '/' rest)
        simp [hc, hsplit]

theorem splitSlash_append (a b : List Char) :
    splitSlash (a ++ '/' :: b) = splitSlash a ++ splitSlash b := by
  simp only [splitSlash_eq_splitOn, List.splitOn_append_cons_self]

theorem splitSlash_ne_nil (s : List Char) : splitSlash s ≠ [] := by
  rw [splitSlash_eq_splitOn]
  exact List.splitOn_ne_nil '/' s

theorem slash_not_mem_splitSlash {s part : List Char} (h : part ∈ splitSlash s) : '/' ∉ part := by
  induction s generalizing part with
  | nil => simp_all [splitSlash]
  | cons c rest ih =>
      unfold splitSlash at h
      split at h
      · rcases List.mem_cons.mp h with rfl | h
        · simp
        · exact ih h
      · next hc =>
          split at h
          · next hnil => exact absurd hnil (splitSlash_ne_nil rest)
          · next first more hsplit =>
              rcases List.mem_cons.mp h with rfl | h
              · have hfirst : '/' ∉ first := ih (by simp [hsplit])
                simp [hfirst, Ne.symm hc]
              · exact ih (by simp [hsplit, h])

theorem splitSlash_intercalate {parts : List (List Char)} (hne : parts ≠ [])
    (h : ∀ part ∈ parts, '/' ∉ part) : splitSlash (['/'].intercalate parts) = parts := by
  rw [splitSlash_eq_splitOn]
  exact List.splitOn_intercalate '/' h hne

theorem intercalate_splitSlash (s : List Char) : ['/'].intercalate (splitSlash s) = s := by
  rw [splitSlash_eq_splitOn]
  exact List.intercalate_splitOn '/'

theorem splitSlash_injective : Function.Injective splitSlash :=
  Function.LeftInverse.injective intercalate_splitSlash

theorem splitSlash_append_of_not_mem {s : List Char} (h : '/' ∉ s) (t : List Char) :
    splitSlash (s ++ t) = (splitSlash t).modifyHead (s ++ ·) := by
  obtain ⟨part, more, hsplit⟩ := List.exists_cons_of_ne_nil (splitSlash_ne_nil t)
  induction s with
  | nil => simp [hsplit]
  | cons c s ih =>
      have hc : c ≠ '/' := by
        rintro rfl
        exact h (by simp)
      rw [List.cons_append, splitSlash, if_neg hc, ih fun hs => h (by simp [hs]), hsplit]
      rfl

theorem splitSlash_of_not_mem {s : List Char} (h : '/' ∉ s) : splitSlash s = [s] := by
  rw [← List.append_nil s, splitSlash_append_of_not_mem h]
  simp [splitSlash]

theorem splitSlash_intercalate_eq_flatMap {parts : List (List Char)} (h : parts ≠ []) :
    splitSlash (['/'].intercalate parts) = parts.flatMap splitSlash := by
  induction parts with
  | nil => exact absurd rfl h
  | cons part rest ih =>
      cases rest with
      | nil => simp
      | cons next rest =>
          rw [List.flatMap_cons, ← ih (by simp), ← splitSlash_append]
          simp

theorem parts_ne_nil (p : Path) : p.parts ≠ [] := by
  unfold parts
  split <;> exact splitSlash_ne_nil _

theorem slash_not_mem_parts {p : Path} {part : List Char} (h : part ∈ p.parts) : '/' ∉ part := by
  unfold parts at h
  split at h <;> exact slash_not_mem_splitSlash h

theorem parts_of_absolute {p : Path} {s : List Char} (h : p.text.toList = '/' :: s) :
    p.parts = splitSlash s ∧ p.isAbsolute = true := by
  simp [parts, isAbsolute, h]

theorem parts_of_relative {p : Path} (h : p.isAbsolute = false) :
    p.parts = splitSlash p.text.toList := by
  unfold parts
  split
  · next rest htext => simp [isAbsolute, htext] at h
  · rfl

/-- The first part of a relative path is empty only if the path is. -/
theorem head?_parts_of_relative {p : Path} (h : p.isAbsolute = false) (hne : p.text.toList ≠ []) :
    p.parts.head? ≠ some [] := by
  obtain ⟨c, rest, htext⟩ := List.exists_cons_of_ne_nil hne
  have hc : c ≠ '/' := by simpa [isAbsolute, htext] using h
  obtain ⟨part, more, hsplit⟩ := List.exists_cons_of_ne_nil (splitSlash_ne_nil rest)
  rw [parts_of_relative h, htext]
  simp [splitSlash, hc, hsplit]

/-! ### Components of parts -/

/-- The components of parts. -/
def componentsOf (absolute : Bool) (parts : List (List Char)) : List Component :=
  if absolute then .root :: parts.filterMap component?
  else if parts.head? = some ['.'] then .here :: parts.filterMap component?
  else parts.filterMap component?

theorem components_eq (p : Path) : p.components = componentsOf p.isAbsolute p.parts := rfl

theorem component?_eq_none_iff {part : List Char} :
    component? part = none ↔ isIdle part = true := by
  unfold component? isIdle
  split
  · simp_all
  · split <;> simp_all

theorem componentsOf_append (absolute : Bool) {parts : List (List Char)} (h : parts ≠ [])
    (more : List (List Char)) :
    componentsOf absolute (parts ++ more) =
      componentsOf absolute parts ++ more.filterMap component? := by
  obtain ⟨part, rest, rfl⟩ := List.exists_cons_of_ne_nil h
  unfold componentsOf
  rw [List.filterMap_append]
  split
  · rfl
  · split <;> rename_i hhead <;> simp_all

theorem filterMap_component?_of_idle {parts : List (List Char)}
    (h : ∀ part ∈ parts, isIdle part = true) : parts.filterMap component? = [] :=
  List.filterMap_eq_nil_iff.mpr fun part hpart => component?_eq_none_iff.mpr (h part hpart)

theorem trimIdle_eq (absolute : Bool) (parts : List (List Char)) :
    trimIdle absolute parts =
      if parts.rdropWhile isIdle = [] ∧ absolute = false ∧ parts.head? = some ['.'] then [['.']]
      else parts.rdropWhile isIdle := by
  unfold trimIdle
  simp [List.rdropWhile, and_assoc]

/-- What is trimmed away is idle, and what is left does not end so, apart from a `.` that starts a
relative path. -/
theorem exists_trimIdle (absolute : Bool) (parts : List (List Char)) :
    ∃ dropped, parts = trimIdle absolute parts ++ dropped ∧ (∀ part ∈ dropped, isIdle part = true) ∧
      (trimIdle absolute parts = [] → absolute = true ∨ parts.head? ≠ some ['.']) ∧
      ∀ kept last, trimIdle absolute parts = kept ++ [last] →
        isIdle last = false ∨ absolute = false ∧ kept = [] ∧ last = ['.'] := by
  rw [trimIdle_eq]
  split
  · next h =>
      obtain ⟨hnil, habsolute, hhead⟩ := h
      obtain ⟨rest, rfl⟩ := List.head?_eq_some_iff.mp hhead
      have hidle := List.rdropWhile_eq_nil_iff.mp hnil
      refine ⟨rest, rfl, fun part hpart => hidle part (by simp [hpart]), nofun, ?_⟩
      intro kept last heq
      obtain ⟨rfl, hlast⟩ := List.append_inj' (show [] ++ [['.']] = kept ++ [last] from heq) rfl
      exact .inr ⟨habsolute, rfl, by simpa using hlast.symm⟩
  · next h =>
      refine ⟨parts.rtakeWhile isIdle, (List.rdropWhile_append_rtakeWhile ..).symm,
        fun part hpart => List.mem_rtakeWhile_imp hpart, fun hnil => ?_,
        fun kept last heq => .inl ?_⟩
      · simpa [hnil, or_iff_not_imp_left] using h
      · have hne : parts.rdropWhile isIdle ≠ [] := by simp [heq]
        have hlast := List.rdropWhile_last_not _ _ hne
        simpa [heq] using hlast

theorem componentsOf_trimIdle (absolute : Bool) (parts : List (List Char)) :
    componentsOf absolute (trimIdle absolute parts) = componentsOf absolute parts := by
  obtain ⟨dropped, hparts, hidle, hnil, -⟩ := exists_trimIdle absolute parts
  have hnone := filterMap_component?_of_idle hidle
  by_cases hempty : trimIdle absolute parts = []
  · rw [hempty, List.nil_append] at hparts
    rw [← hparts] at hnone
    rw [hempty]
    unfold componentsOf
    rw [hnone]
    rcases hnil hempty with rfl | hhead
    · rfl
    · simp [hhead]
  · conv_rhs => rw [hparts, componentsOf_append _ hempty, hnone, List.append_nil]

theorem dropLast_componentsOf (absolute : Bool) (parts : List (List Char)) {last : List Char}
    (h : isIdle last = false) :
    componentsOf absolute (parts ++ [last]) ≠ [] ∧
      componentsOf absolute parts = (componentsOf absolute (parts ++ [last])).dropLast := by
  obtain ⟨c, hc⟩ := Option.ne_none_iff_exists'.mp
    (show component? last ≠ none by simp [component?_eq_none_iff, h])
  have hdot : last ≠ ['.'] := by
    rintro rfl
    cases h
  have hlast : componentsOf absolute (parts ++ [last]) = componentsOf absolute parts ++ [c] := by
    by_cases hnil : parts = []
    · cases absolute <;> simp [hnil, componentsOf, hc, hdot]
    · simp [componentsOf_append absolute hnil, hc]
  simp [hlast]

/-! ### Going up -/

/-- A path that is put together from parts. -/
theorem components_intercalate (absolute : Bool) {parts : List (List Char)}
    (hslash : ∀ part ∈ parts, '/' ∉ part)
    (hhead : absolute = false → parts.head? ≠ some []) :
    components ⟨if absolute then "/" ++ "/".intercalate (parts.map String.ofList)
      else "/".intercalate (parts.map String.ofList)⟩ = componentsOf absolute parts := by
  have htext : ("/".intercalate (parts.map String.ofList)).toList = ['/'].intercalate parts := by
    simp [Function.comp_def]
  have hparts : componentsOf absolute (splitSlash (['/'].intercalate parts)) =
      componentsOf absolute parts := by
    by_cases hnil : parts = []
    · subst hnil
      cases absolute <;> rfl
    · rw [splitSlash_intercalate hnil hslash]
  rw [components_eq, ← hparts]
  cases absolute with
  | true =>
      obtain ⟨hsplit, habsolute⟩ := parts_of_absolute
        (p := ⟨"/" ++ "/".intercalate (parts.map String.ofList)⟩) (s := ['/'].intercalate parts)
        (by simp [htext])
      rw [if_pos rfl, hsplit, habsolute]
  | false =>
      have hrelative : isAbsolute ⟨"/".intercalate (parts.map String.ofList)⟩ = false := by
        rw [isAbsolute, htext]
        cases parts with
        | nil => rfl
        | cons first rest =>
            obtain ⟨c, more, rfl⟩ := List.exists_cons_of_ne_nil
              (show first ≠ [] from fun hnil => hhead rfl (by simp [hnil]))
            have hc : c ≠ '/' := fun heq => hslash (c :: more) (by simp) (by simp [heq])
            cases rest <;> simp [hc]
      rw [if_neg (by simp), hrelative, parts_of_relative hrelative, htext]

/-- The components of the parent are those of the path without the last one. -/
theorem parent?_cases (p : Path) :
    (p.parent? = none ∧ p.components.dropLast = []) ∨
      ∃ parent, p.parent? = some parent ∧ p.components ≠ [] ∧
        parent.components = p.components.dropLast := by
  obtain ⟨dropped, hparts, hidle, hnil, hend⟩ := exists_trimIdle p.isAbsolute p.parts
  rw [components_eq, ← componentsOf_trimIdle]
  unfold parent?
  dsimp only
  rcases List.eq_nil_or_concat' (trimIdle p.isAbsolute p.parts) with hempty | ⟨kept, last, hkept⟩
  · left
    rw [hempty]
    refine ⟨rfl, ?_⟩
    cases p.isAbsolute <;> rfl
  · right
    have hcomponents : componentsOf p.isAbsolute (kept ++ [last]) ≠ [] ∧
        componentsOf p.isAbsolute kept = (componentsOf p.isAbsolute (kept ++ [last])).dropLast := by
      rcases hend kept last hkept with hlast | ⟨hrelative, rfl, rfl⟩
      · exact dropLast_componentsOf p.isAbsolute kept hlast
      · rw [hrelative]
        exact ⟨nofun, rfl⟩
    obtain ⟨dropped', hkept', -⟩ := exists_trimIdle p.isAbsolute kept
    have hsub : ∀ part ∈ trimIdle p.isAbsolute kept, part ∈ p.parts := by
      intro part hpart
      rw [hparts, hkept, hkept']
      simp [hpart]
    rw [hkept, List.reverse_append, List.reverse_singleton, List.singleton_append]
    refine ⟨_, rfl, hcomponents.1, ?_⟩
    rw [List.reverse_reverse, components_intercalate, componentsOf_trimIdle, hcomponents.2]
    · exact fun part hpart => slash_not_mem_parts (hsub part hpart)
    · intro hrelative hhead
      obtain ⟨rest, hrest⟩ := List.head?_eq_some_iff.mp hhead
      have hall : p.parts = [] :: (rest ++ dropped' ++ [last] ++ dropped) := by
        rw [hparts, hkept, hkept', hrest]
        simp
      by_cases hempty : p.text.toList = []
      · rw [parts_of_relative hrelative, hempty] at hall
        simp [splitSlash] at hall
      · exact head?_parts_of_relative hrelative hempty (by rw [hall]; rfl)

theorem components_parent (p : Path) :
    (p.parent?.getD ⟨""⟩).components = p.components.dropLast := by
  rcases parent?_cases p with ⟨hnone, hdrop⟩ | ⟨parent, hparent, -, hcomponents⟩
  · rw [hnone, hdrop]
    rfl
  · rw [hparent]
    exact hcomponents

/-! ### Joining -/

theorem components_eq_nil_iff (p : Path) : p.components = [] ↔ p.text = "" := by
  constructor
  · intro h
    by_contra hne
    rw [components_eq] at h
    cases habsolute : p.isAbsolute with
    | true => simp [habsolute, componentsOf] at h
    | false =>
        obtain ⟨first, rest, hparts⟩ := List.exists_cons_of_ne_nil p.parts_ne_nil
        have hfirst : first ≠ [] := by
          have hhead := head?_parts_of_relative habsolute (by simpa using hne)
          simpa [hparts] using hhead
        have hdot : first ≠ ['.'] := by
          rintro rfl
          simp [componentsOf, habsolute, hparts] at h
        have hidle : isIdle first = true := by
          rw [← component?_eq_none_iff]
          have hnone : (first :: rest).filterMap component? = [] := by
            simpa [componentsOf, habsolute, hparts, hdot] using h
          exact List.filterMap_eq_nil_iff.mp hnone first (by simp)
        simp [isIdle, hfirst, hdot] at hidle
  · intro h
    rw [components, parts, isAbsolute, h]
    rfl

theorem parts_of_append {p : Path} {c : Char} {s more : List Char}
    (h : p.text.toList = c :: s ++ more) :
    p.isAbsolute = (c == '/') ∧
      p.parts = splitSlash ((if c = '/' then s else c :: s) ++ more) := by
  by_cases hc : c = '/'
  · subst hc
    obtain ⟨hparts, habsolute⟩ := parts_of_absolute (h.trans (List.cons_append ..))
    simp [hparts, habsolute]
  · have hrelative : p.isAbsolute = false := by simp [isAbsolute, h, hc]
    simp [parts_of_relative hrelative, hrelative, h, hc]

theorem exists_join {base rest : Path} (hrest : rest.isAbsolute = false) (hbase : base.text ≠ "") :
    ∃ dir, (base.join rest).text.toList = dir ++ '/' :: rest.text.toList ∧
      (base.text.toList = dir ∨ base.text.toList = dir ++ ['/']) := by
  unfold join
  rw [if_neg (by simp [hrest])]
  split
  · next hend =>
      obtain ⟨dir, hdir⟩ := List.getLast?_eq_some_iff.mp (hend.resolve_left hbase)
      exact ⟨dir, by simp [hdir], .inr hdir⟩
  · exact ⟨base.text.toList, by simp, .inl rfl⟩

/-- What a relative path adds to the components of a directory. -/
theorem components_join {base rest : Path} (hrest : rest.isAbsolute = false)
    (hbase : base.text ≠ "") :
    (base.join rest).components = base.components ++ rest.parts.filterMap component? := by
  obtain ⟨dir, hjoin, hdir⟩ := exists_join hrest hbase
  rw [parts_of_relative hrest, components_eq, components_eq]
  cases dir with
  | nil =>
      -- only the root is left of the directory
      have hroot : base.text.toList = '/' :: [] := hdir.resolve_left (by simpa using hbase)
      obtain ⟨hparts, habsolute⟩ := parts_of_absolute hroot
      obtain ⟨hparts', habsolute'⟩ := parts_of_absolute hjoin
      rw [hparts, habsolute, hparts', habsolute']
      rfl
  | cons c dir =>
      obtain ⟨habsolute', hparts'⟩ := parts_of_append hjoin
      rw [habsolute', hparts', splitSlash_append,
        componentsOf_append _ (splitSlash_ne_nil _) (splitSlash _)]
      congr 1
      rcases hdir with hdir | hdir
      · obtain ⟨habsolute, hparts⟩ := parts_of_append (hdir.trans (List.append_nil _).symm)
        rw [habsolute, hparts, List.append_nil]
      · obtain ⟨habsolute, hparts⟩ := parts_of_append hdir
        rw [habsolute, hparts, splitSlash_append, componentsOf_append _ (splitSlash_ne_nil _)]
        exact (List.append_nil _).symm

theorem components_join_congr {base base' : Path} (h : base.components = base'.components)
    (rest : Path) : (base.join rest).components = (base'.join rest).components := by
  cases hrest : rest.isAbsolute with
  | true => simp [join, hrest]
  | false =>
      by_cases hempty : base.text = ""
      · have hempty' : base'.text = "" := by
          rw [← components_eq_nil_iff, ← h, components_eq_nil_iff, hempty]
        simp [join, hrest, hempty, hempty']
      · have hempty' : base'.text ≠ "" := by
          rw [ne_eq, ← components_eq_nil_iff, ← h, components_eq_nil_iff]
          exact hempty
        rw [components_join hrest hempty, components_join hrest hempty', h]

theorem component?_ne_root (part : List Char) : component? part ≠ some .root := by
  unfold component?
  split
  · simp
  · split <;> simp

theorem isAbsolute_iff (p : Path) : p.isAbsolute = true ↔ p.components.head? = some .root := by
  rw [components_eq]
  cases p.isAbsolute with
  | true => simp [componentsOf]
  | false =>
      refine ⟨nofun, fun hhead => ?_⟩
      have hmem : .root ∈ p.parts.filterMap component? := by
        have hroot := List.mem_of_head? hhead
        unfold componentsOf at hroot
        split at hroot
        · contradiction
        · split at hroot <;> simpa using hroot
      obtain ⟨part, -, hpart⟩ := List.mem_filterMap.mp hmem
      exact absurd hpart (component?_ne_root part)

theorem isAbsolute_congr {p p' : Path} (h : p.components = p'.components) :
    p.isAbsolute = p'.isAbsolute := by
  rw [Bool.eq_iff_iff, isAbsolute_iff, isAbsolute_iff, h]

/-- A relative path keeps its parts where it is joined to a directory. -/
theorem exists_parts_join (base : Path) {rest : Path} (hrest : rest.isAbsolute = false) :
    ∃ init, (base.join rest).parts = init ++ rest.parts := by
  by_cases hbase : base.text = ""
  · exact ⟨[], by simp [join, hrest, hbase]⟩
  · obtain ⟨dir, hjoin, -⟩ := exists_join hrest hbase
    rw [parts_of_relative hrest]
    cases dir with
    | nil => exact ⟨[], (parts_of_absolute hjoin).1⟩
    | cons c dir =>
        rw [(parts_of_append hjoin).2, splitSlash_append]
        exact ⟨_, rfl⟩

/-! ### Components put together -/

/-- Before what its parts stand for, a path has its root or a `.`, or nothing. -/
theorem exists_components (p : Path) :
    ∃ start, (start = [] ∨ start = [.root] ∨ start = [.here]) ∧
      p.components = start ++ p.parts.filterMap component? := by
  unfold components
  split
  · exact ⟨[.root], .inr (.inl rfl), rfl⟩
  · split
    · exact ⟨[.here], .inr (.inr rfl), rfl⟩
    · exact ⟨[], .inl rfl, rfl⟩

theorem text_of_component? {part : List Char} {c : Component} (h : component? part = some c) :
    c.text.toList = part := by
  unfold component? at h
  split at h
  · cases h
  · split at h
    · next hup =>
        cases h
        exact hup.symm
    · cases h
      exact String.toList_ofList

/-- Components that parts of a path stand for. -/
def AreParts (cs : List Component) : Prop :=
  ∀ c ∈ cs, component? c.text.toList = some c ∧ '/' ∉ c.text.toList

theorem areParts_filterMap {parts : List (List Char)} (h : ∀ part ∈ parts, '/' ∉ part) :
    AreParts (parts.filterMap component?) := by
  intro c hc
  obtain ⟨part, hpart, hsome⟩ := List.mem_filterMap.mp hc
  rw [text_of_component? hsome]
  exact ⟨hsome, h part hpart⟩

theorem exists_areParts {p : Path} (h : p.isAbsolute = true) :
    ∃ cs, p.components = .root :: cs ∧ AreParts cs := by
  refine ⟨p.parts.filterMap component?, ?_,
    areParts_filterMap fun part hpart => slash_not_mem_parts hpart⟩
  rw [components, h]
  rfl

theorem AreParts.filterMap {cs : List Component} (h : AreParts cs) :
    (cs.map fun c => c.text.toList).filterMap component? = cs := by
  rw [List.filterMap_map]
  exact (List.filterMap_congr fun c hc => (h c hc).1).trans List.filterMap_some

theorem components_ofComponents {start : List Component} (hstart : start = [] ∨ start = [.root])
    {cs : List Component} (h : AreParts cs) :
    (ofComponents (start ++ cs)).components = start ++ cs := by
  have htexts : (cs.map fun c => c.text.toList).map String.ofList = cs.map Component.text := by
    simp
  have hslash : ∀ part ∈ cs.map fun c => c.text.toList, '/' ∉ part := by
    intro part hpart
    obtain ⟨c, hc, rfl⟩ := List.mem_map.mp hpart
    exact (h c hc).2
  rcases hstart with rfl | rfl
  · have hhead : ∀ part, component? part = none →
        (cs.map fun c => c.text.toList).head? ≠ some part := by
      intro part hpart hhead
      cases cs with
      | nil => cases hhead
      | cons c cs =>
          obtain rfl := Option.some.inj hhead
          rw [(h c List.mem_cons_self).1] at hpart
          cases hpart
    have hcomponents := components_intercalate false hslash fun _ => hhead [] rfl
    rw [if_neg (by simp), htexts, componentsOf, if_neg (by simp), if_neg (hhead ['.'] rfl),
      h.filterMap] at hcomponents
    have hnormal : ofComponents cs = ⟨"/".intercalate (cs.map Component.text)⟩ := by
      unfold ofComponents
      split
      · exact absurd (h .root List.mem_cons_self).1 (component?_ne_root _)
      · rfl
    rw [List.nil_append, hnormal, hcomponents]
  · have hcomponents := components_intercalate true hslash nofun
    rw [if_pos rfl, htexts, componentsOf, if_pos rfl, h.filterMap] at hcomponents
    exact hcomponents

theorem normalize_congr {p p' : Path} (h : p.components = p'.components) :
    p.normalize = p'.normalize := by
  simp only [normalize, h]

theorem fileName?_congr {p p' : Path} (h : p.components = p'.components) :
    p.fileName? = p'.fileName? := by
  simp only [fileName?, h]

end LintDesk.Path
