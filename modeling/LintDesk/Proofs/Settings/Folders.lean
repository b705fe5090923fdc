import LintDesk.Proofs.Document.Folders
import LintDesk.Proofs.Lookup
import LintDesk.Proofs.Url.Written
import LintDesk.Settings.Basic

/-! # Settings of folders

The layer of settings for a resource is chosen by whole URLs, and the folder of a resource by their
paths. Where the URLs are spelled alike both choices are the same
(`SettingsLayers.folderLayer?_of_spelledAlike`). They differ where the separators that start or end
a URL are trimmed away or counted.
-/

namespace LintDesk

/-! ### Trimmed texts -/

theorem trimmed_append (a b : List Char) :
    trimmed (a ++ b) = if trimmed b = [] then trimmed a else a ++ trimmed b := by
  simp only [trimmed, List.rdropWhile, List.reverse_append, List.dropWhile_append,
    List.isEmpty_iff, List.reverse_eq_nil_iff]
  split <;> simp_all

theorem trimmed_of_getLast? {s : List Char} (h : s.getLast? ≠ some '/') : trimmed s = s := by
  refine List.rdropWhile_eq_self_iff.mpr fun hne hslash => h ?_
  rw [List.getLast?_eq_some_getLast hne, eq_of_beq hslash]

theorem getLast?_trimmed (s : List Char) : (trimmed s).getLast? ≠ some '/' := by
  intro h
  have hne : trimmed s ≠ [] := by
    intro hnil
    simp [hnil] at h
  rw [List.getLast?_eq_some_getLast hne] at h
  have hlast := List.rdropWhile_last_not (· == '/') s hne
  exact hlast (beq_iff_eq.mpr (Option.some.inj h))

/-- Only the end of a text is trimmed if something in it is no separator. -/
theorem trimmed_append_of_getLast? {a : List Char} (h : a.getLast? ≠ some '/') (b : List Char) :
    trimmed (a ++ b) = a ++ trimmed b := by
  rw [trimmed_append]
  split
  · next hnil => rw [trimmed_of_getLast? h, hnil, List.append_nil]
  · rfl

theorem rooted_cons (s : List Char) : Rooted ('/' :: s) := by
  simp [Rooted]

theorem below_nil_iff {s : List Char} : Below [] s ↔ Rooted s := by
  cases s with
  | nil => simp [Below, Rooted]
  | cons c rest => simp [Below, Rooted]

theorem below_append_iff {a b s : List Char} : Below (a ++ b) (a ++ s) ↔ Below b s := by
  simp [Below, List.append_assoc]

theorem Rooted.trimmed {s : List Char} (h : Rooted s) : Rooted (trimmed s) := by
  intro c hc
  obtain ⟨dropped, hdropped⟩ := List.rdropWhile_prefix (· == '/') (l := s)
  refine h c ?_
  obtain ⟨rest, hrest⟩ := List.head?_eq_some_iff.mp hc
  rw [LintDesk.trimmed] at hrest
  rw [← hdropped, hrest]
  rfl

/-- Where a part without separators ends is seen by the separator after it. -/
theorem append_inj_of_rooted {a b s t : List Char} (ha : '/' ∉ a) (hb : '/' ∉ b) (hs : Rooted s)
    (ht : Rooted t) (h : a ++ s = b ++ t) : a = b ∧ s = t := by
  have htake : ∀ {a s : List Char}, '/' ∉ a → Rooted s → (a ++ s).takeWhile (· ≠ '/') = a := by
    intro a s ha hs
    have hkeep : ∀ c ∈ a, decide (c ≠ '/') = true := fun c hc =>
      decide_eq_true fun hslash => ha (hslash ▸ hc)
    have hstop : s.takeWhile (· ≠ '/') = [] := by
      cases s with
      | nil => rfl
      | cons c rest => simp [hs c rfl]
    rw [List.takeWhile_append_of_pos hkeep, hstop, List.append_nil]
  have hab : a = b := by rw [← htake ha hs, h, htake hb ht]
  subst hab
  exact ⟨rfl, List.append_cancel_left h⟩

theorem below_append_iff_of_rooted {a b s t : List Char} (ha : '/' ∉ a) (hb : '/' ∉ b)
    (hs : Rooted s) (ht : Rooted t) : Below (a ++ s) (b ++ t) ↔ a = b ∧ Below s t := by
  constructor
  · rintro (h | ⟨rest, h⟩)
    · obtain ⟨rfl, rfl⟩ := append_inj_of_rooted hb ha ht hs h
      exact ⟨rfl, .inl rfl⟩
    · have hrest : Rooted (s ++ '/' :: rest) := by
        cases s with
        | nil => exact rooted_cons rest
        | cons c s => simpa [Rooted] using hs
      rw [List.append_assoc] at h
      obtain ⟨rfl, rfl⟩ := append_inj_of_rooted hb ha ht hrest h
      exact ⟨rfl, .inr ⟨rest, rfl⟩⟩
  · rintro ⟨rfl, h⟩
    exact below_append_iff.mpr h

/-- Texts of different marks lie in each other only behind the mark. -/
theorem below_cons_iff_of_not_mem {a b s t : List Char} {d : Char} (ha : d ∉ a) (hb : d ∉ b) :
    Below (a ++ d :: s) (b ++ d :: t) ↔ a = b ∧ Below s t := by
  have hcut : ∀ {u v : List Char}, a ++ d :: u = b ++ d :: v → a = b ∧ u = v := by
    intro u v h
    rcases append_cons_cases h with ⟨hab, -, huv⟩ | ⟨m, hm, -⟩ | ⟨m, hm, -⟩
    · exact ⟨hab, huv⟩
    · exact absurd (by simp [hm]) ha
    · exact absurd (by simp [hm]) hb
  constructor
  · rintro (h | ⟨rest, h⟩)
    · obtain ⟨rfl, rfl⟩ := hcut h.symm
      exact ⟨rfl, .inl rfl⟩
    · rw [List.append_assoc, List.cons_append] at h
      obtain ⟨rfl, rfl⟩ := hcut h.symm
      exact ⟨rfl, .inr ⟨rest, rfl⟩⟩
  · rintro ⟨rfl, h⟩
    exact below_append_iff.mpr (below_append_iff (a := [d]).mpr h)

/-- What is above a text that starts with two separators starts so too, unless it ends there. -/
theorem Below.two_slashes {base s : List Char} (h : Below base ('/' :: '/' :: s)) (hne : base ≠ [])
    (hend : base.getLast? ≠ some '/') : ['/', '/'] <+: base := by
  have hbegins : base <+: '/' :: '/' :: s := by
    rcases h with h | ⟨rest, h⟩
    · exact h ▸ List.prefix_refl _
    · exact h ▸ List.prefix_append _ _
  match base with
  | [] => exact absurd rfl hne
  | [c] =>
      obtain ⟨hc, -⟩ := List.cons_prefix_cons.mp hbegins
      exact absurd (by simp [hc]) hend
  | c :: d :: rest =>
      obtain ⟨hc, htail⟩ := List.cons_prefix_cons.mp hbegins
      obtain ⟨hd, -⟩ := List.cons_prefix_cons.mp htail
      rw [hc, hd]
      exact List.prefix_append ['/', '/'] rest

/-! ### Texts of URLs -/

namespace Url

/-- What stands in a URL between its scheme and its path. -/
def lead (u : Url) : List Char :=
  match u.authority with
  | some a => '/' :: '/' :: a.toList
  | none => if u.hierarchical && u.path.startsWith "//" then ['/', '.'] else []

/-- A URL as read, without query and fragment. -/
structure Plain (u : Url) : Prop where
  read : ∃ input, parse? input = some u
  query : u.query = none
  fragment : u.fragment = none

theorem Plain.written {u : Url} (h : Plain u) : Written u := by
  obtain ⟨input, hinput⟩ := h.read
  exact written_of_parse? hinput

theorem Plain.toList_text {u : Url} (h : Plain u) :
    u.text.toList = u.scheme.toList ++ ':' :: (u.lead ++ u.path.toList) := by
  rw [text, h.query, h.fragment, lead]
  cases u.authority with
  | none => dsimp only; split <;> simp
  | some a => simp

theorem Plain.text_eq {u : Url} (h : Plain u) :
    u.text = String.ofList (u.scheme.toList ++ ':' :: u.lead) ++ u.path := by
  apply String.toList_injective
  rw [h.toList_text]
  simp

theorem Plain.toList_trim {u : Url} (h : Plain u) :
    (trimSlashes u.text).toList =
      u.scheme.toList ++ ':' :: trimmed (u.lead ++ u.path.toList) := by
  have hcolon : (u.scheme.toList ++ [':']).getLast? ≠ some '/' := by simp
  rw [toList_trimSlashes, h.toList_text, ← List.singleton_append, ← List.append_assoc,
    trimmed_append_of_getLast? hcolon]
  simp

/-- An authority stands between `//` and a rooted path. Without one nothing starts with `//`. -/
theorem Plain.lead_cases {u : Url} (h : Plain u) :
    (∃ a, u.authority = some a ∧ u.lead = '/' :: '/' :: a.toList ∧ '/' ∉ a.toList ∧
      Rooted u.path.toList) ∨
    (u.authority = none ∧ (u.lead = [] ∨ u.lead = ['/', '.'] ∧ Rooted u.path.toList) ∧
      ¬ ['/', '/'] <+: u.lead ++ u.path.toList) := by
  cases hauthority : u.authority with
  | some a =>
      have hsegments : u.hierarchical = true := by
        by_contra hbare
        have hnone := (h.written.bare (by simpa using hbare)).1
        rw [hauthority] at hnone
        cases hnone
      exact .inl ⟨a, rfl, by simp [lead, hauthority], h.written.authority a hauthority,
        h.written.rooted hsegments⟩
  | none =>
      refine .inr ⟨rfl, ?_⟩
      have hlead : u.lead =
          if u.hierarchical && u.path.startsWith "//" then ['/', '.'] else [] := by
        simp [lead, hauthority]
      split at hlead
      · next hdouble =>
          rw [Bool.and_eq_true] at hdouble
          exact ⟨.inr ⟨hlead, h.written.rooted hdouble.1⟩, by simp [hlead]⟩
      · next hsingle =>
          refine ⟨.inl hlead, fun hbegins => hsingle ?_⟩
          rw [hlead, List.nil_append] at hbegins
          obtain ⟨rest, hrest⟩ := hbegins
          have hstart : u.path.startsWith "//" = true :=
            String.startsWith_string_iff.mpr ⟨rest, hrest⟩
          cases hsegments : u.hierarchical with
          | true => simp [hstart]
          | false => exact absurd (by simp [← hrest]) (h.written.bare hsegments).2

variable {u r : Url} (hu : Plain u) (hr : Plain r)
  (hlead : u.authority.getD "" = r.authority.getD "" → u.lead = r.lead)
  (hhost : u.authority.getD "" = "" → trimmed u.path.toList = [] → r.authority.getD "" = "")

include hu hr hlead hhost

theorem below_lead_iff_of_authority {a : String} (ha : u.authority = some a) :
    Below (trimmed (u.lead ++ u.path.toList)) (r.lead ++ r.path.toList) ↔
      u.authority.getD "" = r.authority.getD "" ∧
        Below (trimmed u.path.toList) r.path.toList := by
  obtain ⟨hulead, hslash, hurooted⟩ :
      u.lead = '/' :: '/' :: a.toList ∧ '/' ∉ a.toList ∧ Rooted u.path.toList := by
    rcases hu.lead_cases with ⟨b, hb, h⟩ | ⟨hnone, -⟩
    · obtain rfl := Option.some.inj (ha.symm.trans hb)
      exact h
    · rw [ha] at hnone
      cases hnone
  by_cases hempty : a = "" ∧ trimmed u.path.toList = []
  · -- the separators before the host are trimmed away with those of the path
    obtain ⟨rfl, hnil⟩ := hempty
    have htrim : trimmed (u.lead ++ u.path.toList) = [] := by
      rw [trimmed_append, if_pos hnil, hulead]
      decide
    have hauthority := hhost (by simp [ha]) hnil
    rw [htrim, hnil, below_nil_iff, below_nil_iff, ha, hauthority]
    rcases hr.lead_cases with ⟨b, -, hrlead, -, hrrooted⟩ | ⟨-, hrlead | ⟨hrlead, hrrooted⟩, -⟩
    · refine iff_of_true ?_ ⟨rfl, hrrooted⟩
      rw [hrlead]
      exact rooted_cons _
    · simp [hrlead]
    · refine iff_of_true ?_ ⟨rfl, hrrooted⟩
      rw [hrlead]
      exact rooted_cons _
  · have htrim : trimmed (u.lead ++ u.path.toList) = u.lead ++ trimmed u.path.toList := by
      by_cases hnil : trimmed u.path.toList = []
      · refine trimmed_append_of_getLast? (fun hlast => ?_) _
        have hne : a.toList ≠ [] := fun h => hempty ⟨by simpa using h, hnil⟩
        obtain ⟨init, x, hx⟩ := (List.eq_nil_or_concat' a.toList).resolve_left hne
        rw [hulead, hx, ← List.cons_append, ← List.cons_append, List.getLast?_concat] at hlast
        exact hslash (by simp [hx, Option.some.inj hlast])
      · rw [trimmed_append, if_neg hnil]
    rw [htrim, ha, hulead]
    rcases hr.lead_cases with ⟨b, hb, hrlead, hslash', hrrooted⟩ | ⟨hnone, hrlead, hsingle⟩
    · have hcut := below_append_iff_of_rooted hslash hslash' hurooted.trimmed hrrooted
      rw [String.toList_inj] at hcut
      rw [hb, hrlead]
      exact (below_append_iff (a := ['/', '/'])).trans hcut
    · refine iff_of_false (fun hbelow => hsingle ?_) (fun h => ?_)
      · rcases hbelow with hbelow | ⟨rest, hbelow⟩ <;> rw [hbelow] <;>
          exact List.prefix_append ['/', '/'] _
      · have hsame := hlead (by rw [ha]; exact h.1)
        rw [hulead] at hsame
        rcases hrlead with hrlead | ⟨hrlead, -⟩ <;> rw [hrlead] at hsame <;> simp at hsame

theorem below_lead_iff :
    Below (trimmed (u.lead ++ u.path.toList)) (r.lead ++ r.path.toList) ↔
      u.authority.getD "" = r.authority.getD "" ∧
        Below (trimmed u.path.toList) r.path.toList := by
  rcases hu.lead_cases with ⟨a, ha, -⟩ | ⟨hnone, hulead, hsingle⟩
  · exact below_lead_iff_of_authority hu hr hlead hhost ha
  · -- nothing before the path is trimmed away
    have htrim : trimmed (u.lead ++ u.path.toList) = u.lead ++ trimmed u.path.toList := by
      refine trimmed_append_of_getLast? ?_ _
      rcases hulead with hulead | ⟨hulead, -⟩ <;> simp [hulead]
    have hsame : u.authority.getD "" = r.authority.getD "" →
        (Below (trimmed (u.lead ++ u.path.toList)) (r.lead ++ r.path.toList) ↔
          u.authority.getD "" = r.authority.getD "" ∧
            Below (trimmed u.path.toList) r.path.toList) := by
      intro hauthority
      rw [htrim, hlead hauthority, below_append_iff]
      exact (and_iff_right hauthority).symm
    rcases hr.lead_cases with ⟨b, hb, hrlead, -⟩ | ⟨hnone', -⟩
    · by_cases hempty : b = ""
      · exact hsame (by simp [hnone, hb, hempty])
      · have hdiffer : u.authority.getD "" ≠ r.authority.getD "" := by
          simpa [hnone, hb, eq_comm] using hempty
        have htrimmed : trimmed u.path.toList ≠ [] := fun hnil =>
          hempty (by simpa [hb] using hhost (by simp [hnone]) hnil)
        refine iff_of_false (fun hbelow => hsingle ?_) (fun h => hdiffer h.1)
        rw [hrlead] at hbelow
        have hslashes := hbelow.two_slashes (by simp [htrim, htrimmed]) (getLast?_trimmed _)
        exact hslashes.trans (List.rdropWhile_prefix (· == '/') _)
    · exact hsame (by simp [hnone, hnone'])

end Url

/-! ### Lengths -/

theorem utf8ByteSize_ofList_cons (c : Char) (s : List Char) :
    (String.ofList (c :: s)).utf8ByteSize = c.utf8Size + (String.ofList s).utf8ByteSize := by
  rw [String.ofList_cons, String.utf8ByteSize_append]
  simp

/-- A text below another that does not end with a separator itself is longer by more than one. -/
theorem utf8ByteSize_add_two_le {base s : String} (h : isBelow base s = true)
    (hsize : base.utf8ByteSize < s.utf8ByteSize) (hend : s.toList.getLast? ≠ some '/') :
    base.utf8ByteSize + 2 ≤ s.utf8ByteSize := by
  rcases isBelow_iff_below.mp h with hsame | ⟨rest, hrest⟩
  · rw [String.toList_inj.mp hsame] at hsize
    exact absurd hsize (Nat.lt_irrefl _)
  · cases rest with
    | nil => simp [hrest] at hend
    | cons c more =>
        have happend : s = base ++ String.ofList ('/' :: c :: more) := by
          apply String.toList_injective
          simp [hrest]
        have hc := c.utf8Size_pos
        have hslash : '/'.utf8Size = 1 := by decide
        rw [happend, String.utf8ByteSize_append, utf8ByteSize_ofList_cons, utf8ByteSize_ofList_cons]
        omega

theorem utf8ByteSize_slashes (k : Nat) :
    (String.ofList (List.replicate k '/')).utf8ByteSize = k := by
  induction k with
  | zero => rfl
  | succ k ih =>
      have hslash : '/'.utf8Size = 1 := by decide
      rw [List.replicate_succ, utf8ByteSize_ofList_cons, ih, hslash, Nat.add_comm]

/-- A path is longer than without the separators at its end by at most one, if it does not end with
two. -/
theorem utf8ByteSize_le_of_ending {s : String} (h : ¬ ['/', '/'] <:+ s.toList) :
    (trimSlashes s).utf8ByteSize ≤ s.utf8ByteSize ∧
      s.utf8ByteSize ≤ (trimSlashes s).utf8ByteSize + 1 := by
  obtain ⟨k, hk⟩ := exists_toList_trimSlashes s
  have happend : s = trimSlashes s ++ String.ofList (List.replicate k '/') := by
    apply String.toList_injective
    simpa using hk
  have hsize : s.utf8ByteSize = (trimSlashes s).utf8ByteSize + k := by
    conv_lhs => rw [happend, String.utf8ByteSize_append, utf8ByteSize_slashes]
  have hone : k ≤ 1 := by
    by_contra hmany
    obtain ⟨m, rfl⟩ : ∃ m, k = m + 2 := ⟨k - 2, by omega⟩
    refine h ⟨(trimSlashes s).toList ++ List.replicate m '/', ?_⟩
    rw [hk, List.append_assoc, ← List.replicate_append_replicate]
    rfl
  omega

/-! ### One spelling -/

/-- The URLs of folders and a resource are spelled in one way: with the same text between scheme and
path where scheme and host are the same, and without two separators at the end of a path or two
spellings of one folder; and no folder is the root of all hosts. -/
structure SpelledAlike (folders : List Url) (r : Url) : Prop where
  lead : ∀ u ∈ folders, u.scheme = r.scheme → u.authority.getD "" = r.authority.getD "" →
    u.lead = r.lead
  host : ∀ u ∈ folders, u.scheme = r.scheme → u.authority.getD "" = "" → trimSlashes u.path = "" →
    r.authority.getD "" = ""
  ending : ∀ u ∈ folders, ¬ ['/', '/'] <:+ u.path.toList
  spelling : ∀ u ∈ folders, ∀ v ∈ folders, trimSlashes u.text = trimSlashes v.text → u = v

section SpelledAlike

variable {folders : List Url} {r : Url} (h : SpelledAlike folders r) {f g : Folder}
  (hf : f.uri ∈ folders) (hg : g.uri ∈ folders)

include h hf

/-- Whole URLs lie below each other where folders contain them. -/
theorem SpelledAlike.isBelow_iff_contains (hplain : ∀ u ∈ folders, u.Plain) (hr : r.Plain) :
    isBelow (trimSlashes f.uri.text) r.text = true ↔ f.contains r = true := by
  have hu := hplain f.uri hf
  have hcolon : ∀ {u : Url}, u.Plain → ':' ∉ u.scheme.toList := fun hu hmem =>
    (hu.written.scheme ':' hmem).1 rfl
  rw [isBelow_iff_below, hu.toList_trim, hr.toList_text,
    below_cons_iff_of_not_mem (hcolon hu) (hcolon hr), String.toList_inj, Folder.contains]
  simp only [Bool.and_eq_true, beq_iff_eq, and_assoc, isBelow_iff_below, toList_trimSlashes]
  refine and_congr_right fun hscheme => Url.below_lead_iff hu hr (h.lead _ hf hscheme) ?_
  intro hauthority hnil
  refine h.host _ hf hscheme hauthority (String.toList_injective ?_)
  rw [toList_trimSlashes, hnil]
  rfl

variable (hin : f.contains r = true) (hin' : g.contains r = true)

include hg hin hin'

/-- Folders that contain one URL differ in their paths only. -/
theorem SpelledAlike.front_eq : f.uri.scheme = g.uri.scheme ∧ f.uri.lead = g.uri.lead := by
  obtain ⟨hscheme, hauthority, -⟩ := Folder.contains_iff.mp hin
  obtain ⟨hscheme', hauthority', -⟩ := Folder.contains_iff.mp hin'
  rw [h.lead _ hf hscheme hauthority, h.lead _ hg hscheme' hauthority', hscheme, hscheme']
  exact ⟨rfl, rfl⟩

variable (hplain : ∀ u ∈ folders, u.Plain)

include hplain

/-- A deeper folder has a longer URL. -/
theorem SpelledAlike.size_lt_of_depth_lt (hdepth : f.depth < g.depth) :
    f.uri.text.utf8ByteSize < g.uri.text.utf8ByteSize := by
  obtain ⟨hscheme, hlead⟩ := h.front_eq hf hg hin hin'
  have htwo : f.depth + 2 ≤ g.depth := by
    have hbegins := Folder.segments_prefix_of_depth_le hin' hin (Nat.le_of_lt hdepth)
    refine utf8ByteSize_add_two_le (isBelow_iff.mpr hbegins) hdepth ?_
    rw [toList_trimSlashes]
    exact getLast?_trimmed _
  have hf' := (utf8ByteSize_le_of_ending (h.ending _ hf)).2
  have hg' := (utf8ByteSize_le_of_ending (h.ending _ hg)).1
  rw [(hplain _ hf).text_eq, (hplain _ hg).text_eq, hscheme, hlead, String.utf8ByteSize_append,
    String.utf8ByteSize_append]
  rw [Folder.depth, Folder.depth] at htwo
  omega

/-- Folders of one depth have the same URL. -/
theorem SpelledAlike.uri_eq_of_depth_eq (hdepth : f.depth = g.depth) : f.uri = g.uri := by
  obtain ⟨hscheme, hlead⟩ := h.front_eq hf hg hin hin'
  have hbegins := Folder.segments_prefix_of_depth_le hin hin' (Nat.le_of_eq hdepth.symm)
  have hpath : trimSlashes f.uri.path = trimSlashes g.uri.path :=
    eq_of_isBelow (isBelow_iff.mpr hbegins) (Nat.le_of_eq hdepth)
  refine h.spelling _ hf _ hg (String.toList_injective ?_)
  have hpath' : trimmed f.uri.path.toList = trimmed g.uri.path.toList := by
    rw [← toList_trimSlashes, ← toList_trimSlashes, hpath]
  rw [(hplain _ hf).toList_trim, (hplain _ hg).toList_trim, trimmed_append, trimmed_append, hscheme,
    hlead, hpath']

end SpelledAlike

/-! ### The layer of a folder -/

/-- A folder with its layer is chosen for a resource, or none is, by its path as by its whole URL:
the settings of a resource are those of its folder. -/
theorem SettingsLayers.folderLayer?_of_spelledAlike (entries : List (Folder × SettingsLayer))
    (s : SettingsLayers) (hs : s.folders = entries.map fun e => (e.1.uri, e.2)) {r : Url}
    (hr : r.Plain) (hplain : ∀ e ∈ entries, e.1.uri.Plain)
    (h : SpelledAlike (entries.map (·.1.uri)) r) :
    ∃ chosen : Option (Folder × SettingsLayer), (∀ e ∈ chosen, e ∈ entries) ∧
      Workspace.folderFor? (entries.map Prod.fst) r = chosen.map Prod.fst ∧
      s.folderLayer? r = chosen.map Prod.snd := by
  have hmem : ∀ e ∈ entries, e.1.uri ∈ entries.map (·.1.uri) := fun e he =>
    List.mem_map_of_mem he
  have hplain' : ∀ u ∈ entries.map (·.1.uri), u.Plain := by
    intro u hu
    obtain ⟨e, he, rfl⟩ := List.mem_map.mp hu
    exact hplain e he
  have hfilter : entries.filter (fun e => isBelow (trimSlashes e.1.uri.text) r.text) =
      entries.filter (fun e => e.1.contains r) := by
    refine List.filter_congr fun e he => ?_
    rw [Bool.eq_iff_iff]
    exact h.isBelow_iff_contains (hmem e he) hplain' hr
  have hfolder : Workspace.folderFor? (entries.map Prod.fst) r =
      (lastMaxBy? (fun e => e.1.depth) (entries.filter (fun e => e.1.contains r))).map
        Prod.fst := by
    simp only [Workspace.folderFor?, List.filter_map, lastMaxBy?_map, Function.comp_def]
  have hlayer : s.folderLayer? r =
      (lastMaxBy? (fun e => e.1.uri.text.utf8ByteSize)
        (entries.filter (fun e => e.1.contains r))).map Prod.snd := by
    simp only [folderLayer?, hs, List.filter_map, lastMaxBy?_map, Function.comp_def,
      Option.map_map, hfilter]
  have hkeys : lastMaxBy? (fun e => e.1.uri.text.utf8ByteSize)
      (entries.filter (fun e => e.1.contains r)) =
      lastMaxBy? (fun e => e.1.depth) (entries.filter (fun e => e.1.contains r)) := by
    refine lastMaxBy?_congr fun a ha b hb => ?_
    obtain ⟨ha, hina⟩ := List.mem_filter.mp ha
    obtain ⟨hb, hinb⟩ := List.mem_filter.mp hb
    rcases Nat.lt_trichotomy b.1.depth a.1.depth with hlt | heq | hgt
    · have hsize := h.size_lt_of_depth_lt (hmem b hb) (hmem a ha) hinb hina hplain' hlt
      exact iff_of_true hsize hlt
    · have hsame := h.uri_eq_of_depth_eq (hmem b hb) (hmem a ha) hinb hina hplain' heq
      simp [hsame, heq]
    · have hsize := h.size_lt_of_depth_lt (hmem a ha) (hmem b hb) hina hinb hplain' hgt
      exact iff_of_false (Nat.lt_asymm hsize) (Nat.lt_asymm hgt)
  refine ⟨_, fun e he => ?_, hfolder, hlayer.trans (by rw [hkeys])⟩
  exact (List.mem_filter.mp (lastMaxBy?_spec he).1).1

/-- The layer of the inner one of two folders. -/
theorem SettingsLayers.folderLayer?_of_nested :
    let url (path : String) : Url := { scheme := "file", authority := some "", path }
    let outer : Folder × SettingsLayer := (⟨url "/w", "w"⟩, [("run", .str "onType")])
    let inner : Folder × SettingsLayer := (⟨url "/w/b/", "b"⟩, [("run", .str "onSave")])
    ({ folders := [(outer.1.uri, outer.2), (inner.1.uri, inner.2)] } : SettingsLayers).folderLayer?
      (url "/w/b/a.md") = some inner.2 := by
  intro url outer inner
  have hread : ∀ u ∈ [outer, inner].map (·.1.uri), u.Plain := by
    rintro u hu
    rcases List.mem_cons.mp hu with rfl | hu
    · exact ⟨⟨"file:///w", by decide +kernel⟩, rfl, rfl⟩
    · obtain rfl := List.mem_singleton.mp hu
      exact ⟨⟨"file:///w/b/", by decide +kernel⟩, rfl, rfl⟩
  have halike : SpelledAlike ([outer, inner].map (·.1.uri)) (url "/w/b/a.md") := by
    refine ⟨?_, ?_, ?_, ?_⟩
    · decide
    · decide
    · decide
    · decide
  obtain ⟨chosen, hchosen, hfolder, hlayer⟩ :=
    folderLayer?_of_spelledAlike [outer, inner]
      { folders := [(outer.1.uri, outer.2), (inner.1.uri, inner.2)] } rfl
      ⟨⟨"file:///w/b/a.md", by decide +kernel⟩, rfl, rfl⟩
      (fun e he => hread _ (List.mem_map_of_mem he)) halike
  have hinner : Workspace.folderFor? ([outer, inner].map Prod.fst) (url "/w/b/a.md") =
      some inner.1 := by
    decide +kernel
  obtain ⟨e, rfl, he⟩ := Option.map_eq_some_iff.mp (hfolder.symm.trans hinner)
  have hsame : e = inner := by
    rcases List.mem_cons.mp (hchosen e rfl) with rfl | hmem
    · exact absurd he (by decide)
    · exact List.mem_singleton.mp hmem
  rw [hlayer, hsame]
  rfl

/-- The root of the host without a name is taken for the root of every host: its layer is used for
a document that no folder contains. -/
theorem SettingsLayers.folderLayer?_of_other_host :
    ¬ ∀ (entries : List (Folder × SettingsLayer)) (s : SettingsLayers) (r : Url),
      (entries.map (·.1.uri)).Nodup → s.folders = entries.map (fun e => (e.1.uri, e.2)) →
      (∀ e ∈ entries, e.1.uri.Plain) → r.Plain →
        ∃ chosen : Option (Folder × SettingsLayer), (∀ e ∈ chosen, e ∈ entries) ∧
          Workspace.folderFor? (entries.map Prod.fst) r = chosen.map Prod.fst ∧
          s.folderLayer? r = chosen.map Prod.snd := by
  intro h
  let root : Folder := ⟨{ scheme := "file", authority := some "", path := "/" }, "root"⟩
  let document : Url :=
    { scheme := "file", authority := some "host", host := "host", path := "/a.md" }
  let layer : SettingsLayer := [("run", .str "onSave")]
  obtain ⟨chosen, -, hfolder, hlayer⟩ := h [(root, layer)] { folders := [(root.uri, layer)] }
    document (by simp) rfl
    (fun e he => by
      obtain rfl := List.mem_singleton.mp he
      exact ⟨⟨"file:///", by decide +kernel⟩, rfl, rfl⟩)
    ⟨⟨"file://host/a.md", by decide +kernel⟩, rfl, rfl⟩
  have hnone : Workspace.folderFor? [root] document = none := by decide +kernel
  have hsome : (SettingsLayers.folderLayer? { folders := [(root.uri, layer)] } document).isSome =
      true := by
    decide +kernel
  obtain rfl := Option.map_eq_none_iff.mp (hfolder.symm.trans hnone)
  rw [hlayer] at hsome
  cases hsome

/-- Separators at the end of a URL count in its length, so that the layer of a folder can be
preferred to that of a folder inside it. -/
example :
    let url (path : String) : Url := { scheme := "file", authority := some "", path }
    let outer : Folder := ⟨url "/w///", "w"⟩
    let inner : Folder := ⟨url "/w/b", "b"⟩
    let layers : SettingsLayers := { folders := [(outer.uri, []), (inner.uri, [("run", .null)])] }
    Workspace.folderFor? [outer, inner] (url "/w/b/a.md") = some inner ∧
      (layers.folderLayer? (url "/w/b/a.md")).map List.length = some 0 := by
  decide +kernel

end LintDesk
