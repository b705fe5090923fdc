import LintDesk.Proofs.Url.FilePaths

/-! # How URLs are written

Reading a URL keeps separators out of its scheme and its authority, and a path that is made of
segments starts with a separator unless it is empty (`written_of_parse?`).
-/

namespace LintDesk

/-- Whether a text starts with a separator or is empty. -/
def Rooted (s : List Char) : Prop :=
  ∀ c ∈ s.head?, c = '/'

namespace Url

/-- Separators stand in a URL only where they separate. -/
structure Written (u : Url) : Prop where
  scheme : ∀ c ∈ u.scheme.toList, c ≠ ':' ∧ c ≠ '/'
  authority : ∀ a, u.authority = some a → '/' ∉ a.toList
  rooted : u.hierarchical = true → Rooted u.path.toList
  bare : u.hierarchical = false → u.authority = none ∧ u.path.toList.head? ≠ some '/'

/-! ### Schemes -/

/-- Whether a character may stand in a scheme. -/
def isSchemeChar (c : Char) : Bool :=
  c.isAlphanum || c == '+' || c == '-' || c == '.'

theorem toNat_lt_of_isSchemeChar {c : Char} (h : isSchemeChar c = true) : c.toNat < 128 := by
  change (((decide (c.val ≥ 'A'.val ∧ c.val ≤ 'Z'.val) || (c.val ≥ 'a'.val && c.val ≤ 'z'.val)) ||
      (c.val ≥ '0'.val && c.val ≤ '9'.val)) || c == '+' || c == '-' || c == '.') = true at h
  simp only [Bool.or_eq_true, Bool.and_eq_true, decide_eq_true_eq, beq_iff_eq,
    UInt32.le_iff_toNat_le, ge_iff_le] at h
  have hc : c.toNat = c.val.toNat := rfl
  have hupper : 'Z'.val.toNat = 90 := rfl
  have hlower : 'z'.val.toNat = 122 := rfl
  have hdigit : '9'.val.toNat = 57 := rfl
  rcases h with ((h | rfl) | rfl) | rfl
  · omega
  all_goals decide

theorem toLower_of_isSchemeChar {c : Char} (h : isSchemeChar c = true) :
    c.toLower ≠ ':' ∧ c.toLower ≠ '/' := by
  have hall : ∀ n < 128, isSchemeChar (Char.ofNat n) = true →
      (Char.ofNat n).toLower ≠ ':' ∧ (Char.ofNat n).toLower ≠ '/' := by
    decide +kernel
  have hc := hall c.toNat (toNat_lt_of_isSchemeChar h)
  rw [Char.ofNat_toNat] at hc
  exact hc h

theorem scheme?_spec {s rest : List Char} {scheme : String} (h : scheme? s = some (scheme, rest)) :
    ∀ c ∈ scheme.toList, c ≠ ':' ∧ c ≠ '/' := by
  unfold scheme? at h
  split at h
  · split at h
    · dsimp only at h
      split at h
      · obtain ⟨rfl, rfl⟩ := Prod.mk.inj (Option.some.inj h)
        intro c hc
        rw [String.toList_ofList] at hc
        obtain ⟨d, hd, rfl⟩ := List.mem_map.mp hc
        exact toLower_of_isSchemeChar (List.mem_takeWhile_imp hd)
      · cases h
    · cases h
  · cases h

/-! ### Hosts and ports -/

theorem slash_not_mem_toDigits {b : Nat} (hb : 1 < b) (hle : b ≤ 16) (n : Nat) :
    '/' ∉ Nat.toDigits b n := by
  have hdigit : ∀ d < 16, '/' ≠ Nat.digitChar d := by decide
  induction n using Nat.strongRecOn with
  | ind n ih =>
      rw [Nat.toDigits_eq_if hb]
      split
      · next hlt => exact List.mem_singleton.not.mpr (hdigit n (by omega))
      · next hmore =>
          have hmod : n % b < b := Nat.mod_lt n (by omega)
          have hdiv : n / b < n := Nat.div_lt_self (by omega) hb
          simpa [hdigit (n % b) (by omega)] using ih (n / b) hdiv

theorem slash_not_mem_toString (n : Nat) : '/' ∉ (toString n).toList := by
  rw [Nat.toString_eq_ofList_toDigits, String.toList_ofList]
  exact slash_not_mem_toDigits (by omega) (by omega) n

theorem slash_not_mem_intercalate {sep : List Char} {parts : List (List Char)} (hsep : '/' ∉ sep)
    (h : ∀ part ∈ parts, '/' ∉ part) : '/' ∉ sep.intercalate parts := by
  induction parts with
  | nil => simp
  | cons part rest ih =>
      have hpart := h part (by simp)
      have hrest := ih fun part' hpart' => h part' (by simp [hpart'])
      cases rest with
      | nil => simpa using hpart
      | cons next rest => simpa [hpart, hsep] using hrest

theorem slash_not_mem_address4? {s t : List Char} (h : address4? s = some t) : '/' ∉ t := by
  unfold address4? at h
  simp only [Option.bind_eq_bind, Option.pure_def] at h
  split at h
  · cases h
  · obtain ⟨numbers, -, h⟩ := Option.bind_eq_some_iff.mp h
    split at h
    · cases h
    · obtain rfl := Option.some.inj h
      refine slash_not_mem_intercalate (by decide) fun part hpart => ?_
      obtain ⟨b, -, rfl⟩ := List.mem_map.mp hpart
      exact slash_not_mem_toString b

theorem slash_not_mem_address6? {s t : List Char} (h : address6? s = some t) : '/' ∉ t := by
  have hhex : ∀ groups : List Nat,
      '/' ∉ [':'].intercalate (groups.map fun n => Nat.toDigits 16 n) := fun groups =>
    slash_not_mem_intercalate (by decide) fun part hpart => by
      obtain ⟨n, -, rfl⟩ := List.mem_map.mp hpart
      exact slash_not_mem_toDigits (by omega) (by omega) n
  obtain ⟨groups, -, h⟩ := Option.bind_eq_some_iff.mp h
  generalize longestZeroRun groups = run at h
  obtain rfl := Option.some.inj h
  split <;> simp [hhex, -List.map_take, -List.map_drop]

theorem slash_not_mem_of_forbidden {s : List Char} {p : Char → Bool} (hp : p '/' = true)
    (h : s.any p = false) : '/' ∉ s := by
  intro hmem
  rw [List.any_eq_false] at h
  exact h '/' hmem hp

theorem slash_not_mem_host? {special : Bool} {s t : List Char} (h : host? special s = some t) :
    '/' ∉ t := by
  unfold host? at h
  split at h
  · split at h
    · exact slash_not_mem_address6? h
    · cases h
  · split at h
    · dsimp only at h
      split at h
      · cases h
      · next hdomain =>
          obtain ⟨-, hforbidden⟩ := not_or.mp hdomain
          split at h
          · exact slash_not_mem_address4? h
          · obtain rfl := Option.some.inj h
            exact slash_not_mem_of_forbidden (p := forbiddenInDomain) (by decide)
              (by simpa using hforbidden)
    · split at h
      · cases h
      · next hforbidden =>
          obtain rfl := Option.some.inj h
          exact fun hmem => slash_not_mem_of_forbidden (p := forbiddenInHost) (by decide)
            (by simpa using hforbidden) (slash_mem_of_percentEncode hmem).1

theorem slash_not_mem_userText (s : List Char) : '/' ∉ userText s := by
  have hencoded : ∀ t, '/' ∉ percentEncode inUserInfo t := by
    intro t hmem
    cases (slash_mem_of_percentEncode hmem).2
  unfold userText
  dsimp only
  split
  · split <;> simp [hencoded]
  · simp [hencoded]

theorem slash_not_mem_portText? {scheme : String} {s t : List Char}
    (h : portText? scheme s = some t) : '/' ∉ t := by
  unfold portText? at h
  split at h
  · dsimp only at h
    split at h
    · cases h
    · split at h
      · obtain rfl := Option.some.inj h
        simp
      · obtain rfl := Option.some.inj h
        exact List.not_mem_cons_of_ne_of_not_mem (by decide) (slash_not_mem_toString _)
  · cases h

theorem slash_not_mem_authority? {scheme : String} {s : List Char} {authority host : String}
    (h : authority? scheme s = some (authority, host)) : '/' ∉ authority.toList := by
  unfold authority? at h
  dsimp only at h
  split at h
  · split at h
    · cases h
    · obtain ⟨rfl, -⟩ := Prod.mk.inj (Option.some.inj h)
      simp
  · obtain ⟨host', hhost, h⟩ := Option.bind_eq_some_iff.mp h
    obtain ⟨port, hport, h⟩ := Option.bind_eq_some_iff.mp h
    obtain ⟨rfl, -⟩ := Prod.mk.inj (Option.some.inj h)
    have huser : '/' ∉ (splitUser s).1.elim [] userText := by
      cases (splitUser s).1 with
      | none => simp
      | some user => exact slash_not_mem_userText user
    simp [huser, slash_not_mem_host? hhost, slash_not_mem_portText? hport]

/-! ### Whole URLs -/

theorem head?_pathText (scheme : String) (s : List Char) :
    (pathText scheme s).toList.head? = some '/' := by
  simp [pathText]

theorem written_of_afterSlashes {scheme : String} {s : List Char} {u : Url}
    (hscheme : ∀ c ∈ scheme.toList, c ≠ ':' ∧ c ≠ '/') (h : afterSlashes scheme s = some u) :
    Written u := by
  obtain ⟨⟨authority, host⟩, hauthority, h⟩ := Option.bind_eq_some_iff.mp h
  obtain rfl := Option.some.inj h
  refine ⟨hscheme, fun a ha => ?_, fun _ c hc => ?_, nofun⟩
  · obtain rfl := Option.some.inj ha
    exact slash_not_mem_authority? hauthority
  · dsimp only at hc
    split at hc
    · split at hc
      · exact (Option.some.inj hc).symm
      · cases hc
    · rw [head?_pathText] at hc
      exact (Option.some.inj hc).symm

theorem written_of_fileUrl {s : List Char} {u : Url} (h : fileUrl s = some u) : Written u := by
  have hscheme : ∀ c ∈ "file".toList, c ≠ ':' ∧ c ≠ '/' := by
    have hall : "file".toList.all (fun c => c ≠ ':' ∧ c ≠ '/') = true := by decide
    exact fun c hc => of_decide_eq_true (List.all_eq_true.mp hall c hc)
  have hbuild : ∀ (host path : List Char) (query fragment : Option String), '/' ∉ host →
      Written { scheme := "file", authority := some (String.ofList host),
                host := String.ofList host, path := pathText "file" path, query, fragment } := by
    intro host path query fragment hhost
    refine ⟨hscheme, fun a ha => ?_, fun _ c hc => ?_, nofun⟩
    · obtain rfl := Option.some.inj ha
      rwa [String.toList_ofList]
    · rw [head?_pathText] at hc
      exact (Option.some.inj hc).symm
  have hnil : '/' ∉ ([] : List Char) := by simp
  -- the host may be dropped
  have hkept : ∀ (drive isLocal : Prop) [Decidable drive] [Decidable isLocal] (host : List Char),
      '/' ∉ host → '/' ∉ if drive then [] else if isLocal then [] else host := by
    intro drive isLocal _ _ host hhost
    split
    · exact hnil
    · split
      · exact hnil
      · exact hhost
  unfold fileUrl at h
  dsimp only at h
  split at h
  · split at h
    · split at h
      · obtain rfl := Option.some.inj h
        exact hbuild _ _ _ _ hnil
      · split at h
        · obtain rfl := Option.some.inj h
          exact hbuild _ _ _ _ (hkept _ _ _ hnil)
        · obtain ⟨host, hhost, h⟩ := Option.bind_eq_some_iff.mp h
          obtain rfl := Option.some.inj h
          exact hbuild _ _ _ _ (hkept _ _ _ (slash_not_mem_host? hhost))
    · split at h <;> obtain rfl := Option.some.inj h <;> exact hbuild _ _ _ _ hnil
  · obtain rfl := Option.some.inj h
    exact hbuild _ _ _ _ hnil
  · obtain rfl := Option.some.inj h
    exact hbuild _ _ _ _ hnil

theorem head?_percentEncode {escape : Char → Bool} {s : List Char}
    (h : s.head? ≠ some '/') : (percentEncode escape s).head? ≠ some '/' := by
  cases s with
  | nil => simp [percentEncode]
  | cons c rest =>
      rw [percentEncode, List.flatMap_cons]
      split
      · obtain ⟨first, more, hcodes, -⟩ := codes_spec c
        obtain ⟨b, bytes, hbytes, -⟩ := List.map_eq_cons_iff.mp hcodes
        simp [hbytes, encodeByte]
      · simpa using h

/-- A URL that has been read. -/
theorem written_of_parse? {input : String} {u : Url} (h : parse? input = some u) : Written u := by
  obtain ⟨⟨scheme, rest⟩, hscheme, h⟩ := Option.bind_eq_some_iff.mp h
  have hname := scheme?_spec hscheme
  dsimp only at h
  split at h
  · exact written_of_fileUrl h
  · split at h
    · exact written_of_afterSlashes hname h
    · split at h
      · exact written_of_afterSlashes hname h
      · split at h
        · obtain rfl := Option.some.inj h
          refine ⟨hname, nofun, fun _ c hc => ?_, nofun⟩
          rw [head?_pathText] at hc
          exact (Option.some.inj hc).symm
        · next hbody =>
            obtain rfl := Option.some.inj h
            refine ⟨hname, nofun, nofun, fun _ => ⟨rfl, ?_⟩⟩
            rw [String.toList_ofList]
            refine head?_percentEncode fun hhead => ?_
            obtain ⟨tail, htail⟩ := List.head?_eq_some_iff.mp hhead
            exact hbody tail htail

end Url

end LintDesk
