import LintDesk.Proofs.Url.DecodedPaths

/-! # Paths and their URLs

The URL of a directory leads back to the directory: what is percent-encoded is decoded again, and
the UTF-8 bytes of a text are the text. The path that comes back may be spelled in another way, but
it has the same components. The URL of a file below the directory lies below that of the directory.
-/

namespace LintDesk

namespace Url

/-! ### UTF-8 -/

theorem toList_loop (bytes : ByteArray) (i : Nat) (done : List UInt8) :
    ByteArray.toList.loop bytes i done = done.reverse ++ bytes.data.toList.drop i := by
  fun_induction ByteArray.toList.loop bytes i done with
  | case1 i done h ih =>
      have hi : i < bytes.data.toList.length := by simpa using h
      rw [ih, List.drop_eq_getElem_cons hi]
      simp [ByteArray.get!, h]
  | case2 i done h =>
      rw [List.drop_eq_nil_of_le (by simpa using Nat.le_of_not_lt h)]
      simp

theorem utf8Bytes_eq (c : Char) : utf8Bytes c = String.utf8EncodeChar c := by
  have hsingle : String.singleton c = String.ofList [c] := by simp
  rw [utf8Bytes, hsingle, String.toUTF8_eq_toByteArray, String.toByteArray_ofList,
    List.utf8Encode, ByteArray.toList, toList_loop, List.toList_data_toByteArray]
  simp

/-- The bytes of a character as numbers. -/
def codes (c : Char) : List Nat :=
  (utf8Bytes c).map UInt8.toNat

/-- The bytes of a character by its number, which is no surrogate. -/
theorem codes_cases (c : Char) :
    (c.toNat < 0x80 ∧ codes c = [c.toNat]) ∨
    (0x80 ≤ c.toNat ∧ c.toNat < 0x800 ∧
      codes c = [0xC0 + c.toNat / 64, 0x80 + c.toNat % 64]) ∨
    (0x800 ≤ c.toNat ∧ c.toNat < 0x10000 ∧ (c.toNat < 0xD800 ∨ 0xDFFF < c.toNat) ∧
      codes c = [0xE0 + c.toNat / 4096, 0x80 + c.toNat / 64 % 64, 0x80 + c.toNat % 64]) ∨
    (0x10000 ≤ c.toNat ∧ c.toNat < 0x110000 ∧
      codes c = [0xF0 + c.toNat / 262144, 0x80 + c.toNat / 4096 % 64, 0x80 + c.toNat / 64 % 64,
        0x80 + c.toNat % 64]) := by
  have hvalid : c.toNat < 0xD800 ∨ 0xDFFF < c.toNat ∧ c.toNat < 0x110000 := c.valid
  rw [codes, utf8Bytes_eq, String.utf8EncodeChar, show c.val.toNat = c.toNat from rfl]
  split
  · refine .inl ⟨by omega, ?_⟩
    simp
    omega
  · split
    · refine .inr (.inl ⟨by omega, by omega, ?_⟩)
      simp
      omega
    · split
      · refine .inr (.inr (.inl ⟨by omega, by omega, by omega, ?_⟩))
        simp
        omega
      · refine .inr (.inr (.inr ⟨by omega, by omega, ?_⟩))
        simp
        omega

/-- A lead byte with the continuation bytes it asks for. -/
theorem sequenceLength_of_lead {first second low high : Nat} {tails : List Nat}
    (hlead : lead? first = some (tails.length + 2, low, high))
    (hsecond : low ≤ second ∧ second ≤ high) (htails : ∀ b ∈ tails, 0x80 ≤ b ∧ b ≤ 0xBF)
    (rest : List Nat) :
    sequenceLength first (second :: tails ++ rest) = (tails.length + 2, true) := by
  have htake : (second :: tails ++ rest).take (tails.length + 2 - 1) = second :: tails := by simp
  have hfits : ∀ x ∈ (second :: tails).zipIdx,
      (if x.2 = 0 then decide (low ≤ x.1) && decide (x.1 ≤ high)
        else decide (0x80 ≤ x.1) && decide (x.1 ≤ 0xBF)) = true := by
    rintro ⟨b, i⟩ hb
    rcases List.mem_cons.mp hb with heq | hb
    · obtain ⟨rfl, rfl⟩ := Prod.mk.inj heq
      simpa using hsecond
    · obtain ⟨hi, -, hb⟩ := List.mem_zipIdx hb
      have hrange := htails b (hb ▸ List.getElem_mem _)
      simpa [Nat.ne_of_gt hi] using hrange
  unfold sequenceLength
  rw [hlead]
  dsimp only
  rw [htake, List.takeWhile_eq_self_iff.mpr hfits]
  simp

/-- The first two of three bytes fit together. -/
theorem exists_lead_three {n : Nat} (hlow : 0x800 ≤ n) (hhigh : n < 0x10000)
    (hgap : n < 0xD800 ∨ 0xDFFF < n) :
    ∃ low high, lead? (0xE0 + n / 4096) = some (3, low, high) ∧
      low ≤ 0x80 + n / 64 % 64 ∧ 0x80 + n / 64 % 64 ≤ high := by
  unfold lead?
  rw [if_neg (by omega), if_neg (by omega)]
  by_cases hfirst : n / 4096 = 0
  · rw [if_pos (by omega)]
    exact ⟨_, _, rfl, by omega, by omega⟩
  · rw [if_neg (by omega)]
    by_cases hsurrogate : n / 4096 = 13
    · rw [if_pos (by omega)]
      exact ⟨_, _, rfl, by omega, by omega⟩
    · rw [if_neg (by omega), if_pos (by omega)]
      exact ⟨_, _, rfl, by omega, by omega⟩

/-- The first two of four bytes fit together. -/
theorem exists_lead_four {n : Nat} (hlow : 0x10000 ≤ n) (hhigh : n < 0x110000) :
    ∃ low high, lead? (0xF0 + n / 262144) = some (4, low, high) ∧
      low ≤ 0x80 + n / 4096 % 64 ∧ 0x80 + n / 4096 % 64 ≤ high := by
  unfold lead?
  rw [if_neg (by omega), if_neg (by omega), if_neg (by omega), if_neg (by omega),
    if_neg (by omega)]
  by_cases hfirst : n / 262144 = 0
  · rw [if_pos (by omega)]
    exact ⟨_, _, rfl, by omega, by omega⟩
  · rw [if_neg (by omega)]
    by_cases hlast : n / 262144 = 4
    · rw [if_neg (by omega), if_pos (by omega)]
      exact ⟨_, _, rfl, by omega, by omega⟩
    · rw [if_pos (by omega)]
      exact ⟨_, _, rfl, by omega, by omega⟩

/-- The first byte of a character tells how many belong to it, and together they are the
character. -/
theorem codes_spec (c : Char) :
    ∃ first more, codes c = first :: more ∧ sequenceChar (first :: more) = c ∧
      ∀ rest, sequenceLength first (more ++ rest) = (more.length + 1, true) := by
  have hchar : ∀ n, n = c.toNat → Char.ofNat n = c := fun n h => by rw [h, Char.ofNat_toNat]
  rcases codes_cases c with ⟨hc, h⟩ | ⟨hlow, hc, h⟩ | ⟨hlow, hc, hgap, h⟩ | ⟨hlow, hc, h⟩
  · refine ⟨_, _, h, hchar _ rfl, fun rest => ?_⟩
    simp [sequenceLength, lead?, hc]
  · refine ⟨_, _, h, hchar _ (by omega), ?_⟩
    have hlead : lead? (0xC0 + c.toNat / 64) = some (2, 0x80, 0xBF) := by
      unfold lead?
      rw [if_neg (by omega), if_pos (by omega)]
    exact sequenceLength_of_lead hlead (by omega) (by simp)
  · refine ⟨_, _, h, hchar _ (by omega), ?_⟩
    obtain ⟨low, high, hlead, hsecond⟩ := exists_lead_three hlow hc hgap
    refine sequenceLength_of_lead hlead hsecond ?_
    simp
    omega
  · refine ⟨_, _, h, hchar _ (by omega), ?_⟩
    obtain ⟨low, high, hlead, hsecond⟩ := exists_lead_four hlow hc
    refine sequenceLength_of_lead hlead hsecond ?_
    simp
    omega

/-- The bytes of a text are decoded to the text. -/
theorem decodeBytes_codes (s : List Char) (fuel : Nat) (h : (s.flatMap codes).length ≤ fuel) :
    decodeBytes fuel (s.flatMap codes) = s := by
  induction s generalizing fuel with
  | nil => cases fuel <;> rfl
  | cons c s ih =>
      obtain ⟨first, more, hcodes, hchar, hlength⟩ := codes_spec c
      rw [List.flatMap_cons, hcodes, List.cons_append] at h ⊢
      obtain ⟨fuel, rfl⟩ : ∃ k, fuel = k + 1 := ⟨fuel - 1, by simp at h; omega⟩
      rw [decodeBytes, hlength]
      simp only [Nat.add_sub_cancel, List.take_left, List.drop_left, if_true, hchar]
      rw [ih fuel (by simp at h ⊢; omega)]

theorem textOfBytes_flatMap (s : List Char) : textOfBytes (s.flatMap utf8Bytes) = s := by
  have hcodes : (s.flatMap utf8Bytes).map UInt8.toNat = s.flatMap codes := List.map_flatMap
  unfold textOfBytes
  rw [hcodes]
  exact decodeBytes_codes s _ (by rw [← hcodes, List.length_map])

/-! ### Percent-encoding -/

theorem hexDigit?_upperHex : ∀ n < 16, Json.hexDigit? (upperHex n) = some n := by
  decide

theorem percentBytes_encodeByte (b : UInt8) (rest : List Char) :
    percentBytes (encodeByte b ++ rest) = b :: percentBytes rest := by
  have hb := b.toNat_lt
  rw [encodeByte, List.cons_append, List.cons_append, List.cons_append, List.nil_append,
    percentBytes, hexDigit?_upperHex _ (by omega), hexDigit?_upperHex _ (by omega)]
  simp only [List.cons.injEq, and_true]
  rw [show b.toNat / 16 * 16 + b.toNat % 16 = b.toNat by omega, UInt8.ofNat_toNat]

theorem percentBytes_encodeBytes (bytes : List UInt8) (rest : List Char) :
    percentBytes (bytes.flatMap encodeByte ++ rest) = bytes ++ percentBytes rest := by
  induction bytes with
  | nil => rfl
  | cons b bytes ih =>
      rw [List.flatMap_cons, List.append_assoc, percentBytes_encodeByte, ih, List.cons_append]

theorem percentBytes_cons {c : Char} (h : c ≠ '%') (rest : List Char) :
    percentBytes (c :: rest) = utf8Bytes c ++ percentBytes rest := by
  rw [percentBytes]
  rintro a b more heq -
  exact h heq

/-- What is encoded is decoded to the bytes of the text, if percent signs are encoded. -/
theorem percentBytes_percentEncode {escape : Char → Bool} (h : escape '%' = true) (s : List Char) :
    percentBytes (percentEncode escape s) = s.flatMap utf8Bytes := by
  induction s with
  | nil => simp [percentEncode, percentBytes]
  | cons c s ih =>
      rw [percentEncode, List.flatMap_cons, List.flatMap_cons, ← ih]
      split
      · exact percentBytes_encodeBytes _ _
      · next hc =>
          refine percentBytes_cons ?_ _
          rintro rfl
          exact hc h

theorem decode_percentEncode (s : List Char) :
    textOfBytes (percentBytes (percentEncode inSegment s)) = s := by
  rw [percentBytes_percentEncode rfl, textOfBytes_flatMap]

theorem slash_not_mem_encodeByte (b : UInt8) : '/' ∉ encodeByte b := by
  have hhex : ∀ n < 16, '/' ≠ upperHex n := by decide
  have hb := b.toNat_lt
  simp [encodeByte, hhex (b.toNat / 16) (by omega), hhex (b.toNat % 16) (by omega)]

/-- A separator in what is encoded has been left as it was. -/
theorem slash_mem_of_percentEncode {escape : Char → Bool} {s : List Char}
    (h : '/' ∈ percentEncode escape s) : '/' ∈ s ∧ escape '/' = false := by
  obtain ⟨c, hc, hmem⟩ := List.mem_flatMap.mp h
  split at hmem
  · obtain ⟨b, -, hb⟩ := List.mem_flatMap.mp hmem
    exact absurd hb (slash_not_mem_encodeByte b)
  · next hkept =>
      obtain rfl := List.mem_singleton.mp hmem
      exact ⟨hc, by simpa using hkept⟩

theorem slash_not_mem_percentEncode (s : List Char) : '/' ∉ percentEncode inSegment s := by
  intro hmem
  cases (slash_mem_of_percentEncode hmem).2

/-! ### Paths -/

/-- Segments of a URL stand for components. -/
structure Spells (parts : List (List Char)) (components : List Component) : Prop where
  nonempty : parts ≠ []
  slash : ∀ part ∈ parts, '/' ∉ part
  decoded : ∀ part ∈ parts, '/' ∉ textOfBytes (percentBytes part)
  components : (parts.map fun s => textOfBytes (percentBytes s)).filterMap Path.component? =
    components

theorem textOfBytes_nil : textOfBytes (percentBytes []) = [] := by
  simp [percentBytes, textOfBytes, decodeBytes]

/-- An empty segment stands for nothing. -/
theorem Spells.concat {parts : List (List Char)} {components : List Component}
    (h : Spells parts components) : Spells (parts ++ [[]]) components := by
  refine ⟨by simp, ?_, ?_, ?_⟩
  · simpa [or_imp, forall_and] using h.slash
  · simpa [or_imp, forall_and, textOfBytes_nil] using h.decoded
  · simp [textOfBytes_nil, Path.component?, h.components]

/-- The path of a URL has the components that its segments stand for. -/
theorem exists_filePath? {u : Url} {parts : List (List Char)} {components : List Component}
    (hu : u.hierarchical = true) (hhost : u.host = "")
    (hpath : u.path.toList = parts.flatMap ('/' :: ·)) (h : Spells parts components) :
    ∃ p, u.filePath? = some p ∧ p.components = .root :: components := by
  obtain ⟨hne, hslash, hdecoded, rfl⟩ := h
  have hwritten : u.path.toList = '/' :: ['/'].intercalate parts := hpath.trans (flatMap_slash hne)
  have hstart : u.path.startsWith "/" = true := by
    rw [String.startsWith_string_iff, hwritten]
    simp
  obtain ⟨p, hp⟩ : ∃ p, u.filePath? = some p := ⟨_, if_pos (by simp [hu, hstart, hhost])⟩
  have hpart : ∀ part ∈ parts, componentsReadBy textOfBytes part =
      (Path.component? (textOfBytes (percentBytes part))).toList := by
    intro part hpart
    rw [componentsReadBy, Path.splitSlash_of_not_mem (hdecoded part hpart)]
    rfl
  refine ⟨p, hp, ?_⟩
  rw [components_pathReadBy rfl hp, hwritten, Path.splitSlash, if_pos rfl,
    Path.splitSlash_intercalate hne hslash, List.flatMap_cons, componentsReadBy_nil rfl,
    List.nil_append, List.flatMap_congr hpart, List.filterMap_map,
    List.filterMap_eq_flatMap_toList]
  rfl

end Url

/-- Components that are percent-encoded are spelled. -/
theorem Url.spells_encoded {cs : List Component} (hne : cs ≠ []) (h : Path.AreParts cs) :
    Spells (cs.map fun c => percentEncode inSegment c.text.toList) cs := by
  refine ⟨by simpa using hne, fun part hpart => ?_, fun part hpart => ?_, ?_⟩
  · obtain ⟨c, -, rfl⟩ := List.mem_map.mp hpart
    exact slash_not_mem_percentEncode _
  · obtain ⟨c, hc, rfl⟩ := List.mem_map.mp hpart
    rw [decode_percentEncode]
    exact (h c hc).2
  · rw [List.map_map, List.filterMap_map]
    refine (List.filterMap_congr fun c hc => ?_).trans List.filterMap_some
    dsimp only [Function.comp]
    rw [decode_percentEncode, (h c hc).1]

theorem Url.spells_nil : Spells [[]] [] := by
  refine ⟨by simp, by simp, ?_, ?_⟩
  · simp [textOfBytes_nil]
  · simp [textOfBytes_nil, Path.component?]

/-- A URL is that of a path. -/
structure Url.Locates (u : Url) (p : Path) : Prop where
  scheme : u.scheme = "file"
  hierarchical : u.hierarchical = true
  host : u.host = ""
  path : ∃ parts cs, p.components = .root :: cs ∧ u.path.toList = parts.flatMap ('/' :: ·) ∧
    Spells parts cs

theorem Url.locates_of_ofFilePath? {u : Url} {p : Path} (h : ofFilePath? p = some u) :
    u.Locates p := by
  unfold ofFilePath? at h
  split at h
  · next habsolute =>
      obtain ⟨cs, hroot, htexts⟩ := Path.exists_areParts habsolute
      obtain rfl := Option.some.inj h
      refine ⟨rfl, rfl, rfl, ?_⟩
      dsimp only
      rw [hroot, List.drop_one, List.tail_cons]
      by_cases hnil : cs = []
      · subst hnil
        exact ⟨[[]], [], rfl, rfl, spells_nil⟩
      · refine ⟨_, cs, rfl, ?_, spells_encoded hnil htexts⟩
        simp [hnil, List.flatMap_map]
  · cases h

theorem Url.locates_of_ofDirectory? {u : Url} {p : Path} (h : ofDirectory? p = some u) :
    u.Locates p := by
  obtain ⟨file, hfile, rfl⟩ := Option.map_eq_some_iff.mp h
  obtain ⟨hscheme, hu, hhost, parts, cs, hcs, hparts, hspells⟩ := locates_of_ofFilePath? hfile
  split
  · exact ⟨hscheme, hu, hhost, parts, cs, hcs, hparts, hspells⟩
  · refine ⟨hscheme, hu, hhost, parts ++ [[]], cs, hcs, ?_, hspells.concat⟩
    simp [hparts]

/-- The folder of a directory lies at that directory. -/
theorem Folder.exists_path?_of_ofPath? {p : Path} {f : Folder} (h : ofPath? p = some f) :
    ∃ root, f.path? = some root ∧ root.components = p.components := by
  obtain ⟨u, hu, rfl⟩ := Option.map_eq_some_iff.mp h
  obtain ⟨hscheme, hu, hhost, parts, cs, hcs, hparts, hspells⟩ := Url.locates_of_ofDirectory? hu
  obtain ⟨root, hroot, hcomponents⟩ := Url.exists_filePath? hu hhost hparts hspells
  exact ⟨root, by simp [path?, hscheme, hroot], hcomponents.trans hcs.symm⟩

/-! ### Files below a directory -/

namespace Url

/-- The path of a URL, from the components after the root. -/
def encoded (cs : List Component) : List Char :=
  cs.flatMap fun c => '/' :: percentEncode inSegment c.text.toList

theorem ofFilePath?_eq {p : Path} {cs : List Component} (h : p.components = .root :: cs) :
    ofFilePath? p = some { scheme := "file", authority := some "",
                           path := String.ofList (if cs = [] then ['/'] else encoded cs) } := by
  have habsolute : p.isAbsolute = true := (Path.isAbsolute_iff p).mpr (by simp [h])
  have hjoin : String.join (cs.map fun c => String.ofList
      ('/' :: percentEncode inSegment c.text.toList)) = String.ofList (encoded cs) := by
    apply String.toList_injective
    simp [encoded, List.flatMap_map]
  unfold ofFilePath?
  rw [if_pos habsolute, h, List.drop_one, List.tail_cons]
  dsimp only
  rw [hjoin]
  by_cases hcs : cs = []
  · simp [hcs]
  · simp [hcs]

theorem percentEncode_ne_nil {s : List Char} (h : s ≠ []) : percentEncode inSegment s ≠ [] := by
  intro hnil
  have hdecode := decode_percentEncode s
  rw [hnil, textOfBytes_nil] at hdecode
  exact h hdecode.symm

/-- What is encoded does not end with a separator. -/
theorem dropWhile_reverse_encoded {cs : List Component} (h : Path.AreParts cs) :
    (encoded cs).reverse.dropWhile (· == '/') = (encoded cs).reverse := by
  rcases List.eq_nil_or_concat cs with rfl | ⟨init, c, rfl⟩
  · rfl
  · have htext : c.text.toList ≠ [] := by
      intro hnil
      have hc := (h c (by simp)).1
      rw [hnil] at hc
      cases hc
    obtain ⟨xs, x, hx⟩ := (List.eq_nil_or_concat _).resolve_left (percentEncode_ne_nil htext)
    have hslash : x ≠ '/' := by
      rintro rfl
      exact slash_not_mem_percentEncode c.text.toList (by simp [hx])
    simp [encoded, hx, hslash]

/-- The URL of a directory is that of its path, up to a separator at its end. -/
theorem trimSlashes_ofDirectory? {p : Path} {cs : List Component} (hp : p.components = .root :: cs)
    (hcs : Path.AreParts cs) {u : Url} (h : ofDirectory? p = some u) :
    u.scheme = "file" ∧ u.authority = some "" ∧
      trimSlashes u.path = String.ofList (encoded cs) := by
  have htrim : trimSlashes (String.ofList (if cs = [] then ['/'] else encoded cs)) =
      String.ofList (encoded cs) := by
    by_cases hnil : cs = []
    · simp [hnil, trimSlashes, encoded]
    · simp [hnil, trimSlashes, dropWhile_reverse_encoded hcs]
  rw [ofDirectory?, ofFilePath?_eq hp, Option.map_some] at h
  generalize (if cs = [] then ['/'] else encoded cs) = written at h htrim
  obtain rfl := Option.some.inj h
  split
  · exact ⟨rfl, rfl, htrim⟩
  · refine ⟨rfl, rfl, ?_⟩
    rw [← htrim]
    simp [trimSlashes]

end Url

/-- A file below a directory lies in the folder of the directory. -/
theorem Folder.contains_of_startsWith {root path : Path} {f : Folder} {uri : Url}
    (hf : Folder.ofPath? root = some f) (huri : Url.ofFilePath? path = some uri)
    (hbelow : path.startsWith root = true) : f.contains uri = true := by
  obtain ⟨u, hu, rfl⟩ := Option.map_eq_some_iff.mp hf
  have habsolute : root.isAbsolute = true := by
    obtain ⟨-, -, -, -, cs, hcs, -⟩ := Url.locates_of_ofDirectory? hu
    exact root.isAbsolute_iff.mpr (by simp [hcs])
  obtain ⟨cs, hroot, hparts⟩ := Path.exists_areParts habsolute
  obtain ⟨more, hmore⟩ := List.isPrefixOf_iff_prefix.mp hbelow
  have hpath : path.components = .root :: (cs ++ more) := by
    rw [← hmore, hroot, List.cons_append]
  obtain ⟨hscheme, hauthority, htrim⟩ := Url.trimSlashes_ofDirectory? hroot hparts hu
  rw [Url.ofFilePath?_eq hpath] at huri
  obtain rfl := Option.some.inj huri
  have hbase : isBelow (String.ofList (Url.encoded cs)) (String.ofList
      (if cs ++ more = [] then ['/'] else Url.encoded (cs ++ more))) = true := by
    cases more with
    | nil =>
        by_cases hnil : cs = []
        · simp [isBelow, hnil, Url.encoded]
        · simp [isBelow, hnil]
    | cons c more => simp [isBelow, Url.encoded]
  simpa [contains, hscheme, hauthority, htrim] using hbase

end LintDesk
