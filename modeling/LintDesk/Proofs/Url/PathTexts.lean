import LintDesk.Proofs.Url.FilePaths

/-! # The path of a file's URL as text

The path of a URL is that of the file, written with single separators, in which all but the
separators is percent-encoded (`Url.toList_path_of_ofFilePath?`). A text that stays as it is holds
nothing that is encoded.
-/

namespace LintDesk

theorem Path.AreParts.slash_not_mem {cs : List Component} (h : AreParts cs) :
    ∀ part ∈ cs.map fun c => c.text.toList, '/' ∉ part := by
  intro part hpart
  obtain ⟨c, hc, rfl⟩ := List.mem_map.mp hpart
  exact (h c hc).2

namespace Url

/-- What is encoded in the path of a file: what is encoded in a name, apart from separators. -/
def inFilePath (c : Char) : Bool :=
  c != '/' && inSegment c

/-! ### What is left as it is -/

theorem percentEncode_append (escape : Char → Bool) (a b : List Char) :
    percentEncode escape (a ++ b) = percentEncode escape a ++ percentEncode escape b :=
  List.flatMap_append

theorem percentEncode_of_kept {escape : Char → Bool} {s : List Char}
    (h : ∀ c ∈ s, escape c = false) : percentEncode escape s = s := by
  induction s with
  | nil => rfl
  | cons c s ih =>
      obtain ⟨hc, hs⟩ := List.forall_mem_cons.mp h
      have ih := ih hs
      simp only [percentEncode] at ih
      simp [percentEncode, hc, ih]

theorem percentEncode_injective : Function.Injective (percentEncode inSegment) := by
  intro a b h
  rw [← decode_percentEncode a, h, decode_percentEncode]

theorem upperHex_kept : ∀ n < 16, inSegment (upperHex n) = false ∧ upperHex n ≠ '.' := by
  decide

/-- The last character of a text stays, or a digit stands at the end. -/
theorem percentEncode_concat (escape : Char → Bool) (s : List Char) (c : Char) :
    (escape c = false ∧ percentEncode escape (s ++ [c]) = percentEncode escape s ++ [c]) ∨
      escape c = true ∧
        ∃ init, ∃ n < 16, percentEncode escape (s ++ [c]) = init ++ [upperHex n] := by
  rw [percentEncode_append]
  cases hc : escape c with
  | false => exact .inl ⟨rfl, by simp [percentEncode, hc]⟩
  | true =>
      obtain ⟨first, more, hcodes, -⟩ := codes_spec c
      have hbytes : utf8Bytes c ≠ [] := by
        intro hnil
        simp [codes, hnil] at hcodes
      obtain ⟨init, b, hb⟩ := (List.eq_nil_or_concat' (utf8Bytes c)).resolve_left hbytes
      have hlt := b.toNat_lt
      have hdigits : percentEncode escape [c] =
          init.flatMap encodeByte ++ ['%', upperHex (b.toNat / 16)] ++
            [upperHex (b.toNat % 16)] := by
        simp [percentEncode, hc, hb, encodeByte]
      rw [hdigits, ← List.append_assoc]
      exact .inr ⟨rfl, _, b.toNat % 16, by omega, rfl⟩

/-- A text that ends what it is encoded to holds nothing that is encoded. -/
theorem kept_of_isSuffix {s : List Char} (h : s <:+ percentEncode inSegment s) :
    ∀ c ∈ s, inSegment c = false := by
  induction s using List.reverseRecOn with
  | nil => simp
  | append_singleton s c ih =>
      obtain ⟨before, hbefore⟩ := h
      rw [← List.append_assoc] at hbefore
      rcases percentEncode_concat inSegment s c with ⟨hc, hsame⟩ | ⟨hc, init, n, hn, hdigit⟩
      · rw [hsame] at hbefore
        have hs := ih ⟨before, List.append_inj_left' hbefore rfl⟩
        intro d hd
        rcases List.mem_append.mp hd with hd | hd
        · exact hs d hd
        · rwa [List.mem_singleton.mp hd]
      · -- a digit at the end is no character that is encoded
        rw [hdigit] at hbefore
        have hlast : c = upperHex n := by
          simpa using List.append_inj_right' hbefore rfl
        rw [hlast, (upperHex_kept n hn).1] at hc
        cases hc

theorem isIdle_percentEncode (s : List Char) :
    Path.isIdle (percentEncode inSegment s) = Path.isIdle s := by
  have hnil : percentEncode inSegment s = [] ↔ s = [] :=
    percentEncode_injective.eq_iff' rfl
  have hdot : percentEncode inSegment s = ['.'] ↔ s = ['.'] :=
    percentEncode_injective.eq_iff' rfl
  simp [Path.isIdle, hnil, hdot]

/-! ### Whole paths -/

theorem percentEncode_inFilePath_of_not_mem {s : List Char} (h : '/' ∉ s) :
    percentEncode inFilePath s = percentEncode inSegment s := by
  refine List.flatMap_congr fun c hc => ?_
  have hslash : c ≠ '/' := by
    rintro rfl
    exact h hc
  simp [inFilePath, hslash]

theorem percentEncode_intercalate {parts : List (List Char)} (h : ∀ part ∈ parts, '/' ∉ part) :
    percentEncode inFilePath (['/'].intercalate parts) =
      ['/'].intercalate (parts.map (percentEncode inSegment)) := by
  induction parts with
  | nil => rfl
  | cons part rest ih =>
      obtain ⟨hpart, hrest⟩ := List.forall_mem_cons.mp h
      cases rest with
      | nil => simpa using percentEncode_inFilePath_of_not_mem hpart
      | cons next rest =>
          have hslash : percentEncode inFilePath ['/'] = ['/'] := rfl
          rw [List.map_cons, List.map_cons, List.intercalate_cons_cons, List.intercalate_cons_cons,
            percentEncode_append, percentEncode_append, percentEncode_inFilePath_of_not_mem hpart,
            hslash, ih hrest, List.map_cons]

theorem isAbsolute_of_ofFilePath? {p : Path} {u : Url} (h : ofFilePath? p = some u) :
    p.isAbsolute = true := by
  unfold ofFilePath? at h
  split at h
  · assumption
  · cases h

theorem toList_ofComponents_root (cs : List Component) :
    (Path.ofComponents (.root :: cs)).text.toList =
      '/' :: ['/'].intercalate (cs.map fun c => c.text.toList) := by
  simp [Path.ofComponents, Function.comp_def]

theorem toList_path_of_components {p : Path} {cs : List Component} {u : Url}
    (hp : p.components = .root :: cs) (h : ofFilePath? p = some u) :
    u.path.toList =
      '/' :: ['/'].intercalate (cs.map fun c => percentEncode inSegment c.text.toList) := by
  rw [ofFilePath?_eq hp] at h
  obtain rfl := Option.some.inj h
  rw [String.toList_ofList]
  by_cases hcs : cs = []
  · simp [hcs]
  · have hflat : (cs.map fun c => percentEncode inSegment c.text.toList).flatMap ('/' :: ·) = _ :=
      flatMap_slash (by simpa using hcs)
    rw [if_neg hcs, ← hflat, encoded, List.flatMap_map]

/-- The path of a file's URL is that of the file with single separators, percent-encoded. -/
theorem toList_path_of_ofFilePath? {p : Path} {u : Url} (h : ofFilePath? p = some u) :
    u.path.toList = percentEncode inFilePath (Path.ofComponents p.components).text.toList := by
  obtain ⟨cs, hp, hparts⟩ := Path.exists_areParts (isAbsolute_of_ofFilePath? h)
  have hencoded := percentEncode_intercalate hparts.slash_not_mem
  rw [List.map_map] at hencoded
  have hroot : ∀ s, percentEncode inFilePath ('/' :: s) = '/' :: percentEncode inFilePath s :=
    fun s => percentEncode_append inFilePath ['/'] s
  rw [toList_path_of_components hp h, hp, toList_ofComponents_root, hroot, hencoded]
  rfl

end Url

end LintDesk
