import LintDesk.Proofs.Json.Dict
import LintDesk.Server.Wire
import Mathlib.Algebra.Group.Nat.Defs
import Mathlib.Data.List.Nodup

/-! # Fixes on the wire

A fix that was read from the wire fits it: written again, it reads back as it was. So do the range
and the data of a diagnostic.
-/

namespace LintDesk

namespace Json

theorem lt_of_natBelow? {bound n : Nat} {v : Json} (h : v.natBelow? bound = some n) :
    n < bound := by
  unfold natBelow? at h
  split at h
  · split at h
    · next hn =>
        obtain rfl := Option.some.inj h
        omega
    · cases h
  · cases h

theorem natBelow?_nat {bound n : Nat} (h : n < bound) : natBelow? bound (.nat n) = some n := by
  simp only [nat, natBelow?]
  rw [if_pos ⟨by omega, by omega⟩, Int.toNat_natCast]

/-! ### Records that were read -/

theorem exists_of_optional? {α : Type} {r : Dict Json} {key : String} {decode : Json → Option α}
    {a : α} (h : optional? r key decode = some (some a)) : ∃ v, decode v = some a := by
  unfold optional? at h
  split at h
  · simp at h
  · simp at h
  · next v _ _ =>
      obtain ⟨b, hb, hba⟩ := Option.map_eq_some_iff.mp h
      exact ⟨v, hb.trans hba⟩

theorem eq_or_exists_of_withDefault? {α : Type} {r : Dict Json} {key : String} {default a : α}
    {decode : Json → Option α} (h : withDefault? r key default decode = some a) :
    a = default ∨ ∃ v, decode v = some a := by
  unfold withDefault? at h
  split at h
  · exact .inl (Option.some.inj h).symm
  · next v _ => exact .inr ⟨v, h⟩

/-! ### Records that were written -/

/-- The fields of a record that are present. -/
def present (fields : List (String × Option Json)) : Dict Json :=
  fields.filterMap fun (k, v) => v.map fun v => (k, v)

theorem find?_present {fields : List (String × Option Json)} (h : (fields.map (·.1)).Nodup)
    (key : String) : Dict.find? key (present fields) = (Dict.find? key fields).join := by
  induction fields with
  | nil => rfl
  | cons field rest ih =>
      obtain ⟨k, v⟩ := field
      obtain ⟨hk, hrest⟩ := List.nodup_cons.mp h
      rw [present] at ih ⊢
      cases v with
      | some v =>
          by_cases hkey : k = key
          · simp [Dict.find?, hkey]
          · simpa [Dict.find?, hkey] using ih hrest
      | none =>
          by_cases hkey : k = key
          · have habsent : Dict.find? key rest = none := by
              rw [← hkey]
              exact Dict.find?_eq_none hk
            have hrest' := ih hrest
            rw [habsent] at hrest'
            simpa [Dict.find?, hkey] using hrest'
          · simpa [Dict.find?, hkey] using ih hrest

/-- A field that was written can be read. -/
theorem required?_present {α : Type} {fields : List (String × Option Json)} {key : String}
    {decode : Json → Option α} {v : Json} (h : (fields.map (·.1)).Nodup)
    (hfield : Dict.find? key fields = some (some v)) :
    required? (present fields) key decode = decode v := by
  rw [required?, find?_present h, hfield]
  rfl

theorem withDefault?_present {α : Type} {fields : List (String × Option Json)} {key : String}
    {decode : Json → Option α} {v : Json} (default : α) (h : (fields.map (·.1)).Nodup)
    (hfield : Dict.find? key fields = some (some v)) :
    withDefault? (present fields) key default decode = decode v := by
  rw [withDefault?, find?_present h, hfield]
  rfl

/-- A field that was written or left out can be read, if it is never written as `null`. -/
theorem optional?_present {α : Type} {fields : List (String × Option Json)} {key : String}
    {decode : Json → Option α} (encode : α → Json) {o : Option α}
    (h : (fields.map (·.1)).Nodup) (hfield : Dict.find? key fields = some (o.map encode))
    (ho : ∀ a ∈ o, decode (encode a) = some a ∧ encode a ≠ .null) :
    optional? (present fields) key decode = some o := by
  rw [optional?, find?_present h, hfield]
  cases o with
  | none => rfl
  | some a =>
      obtain ⟨hdecode, hnull⟩ := ho a rfl
      simp only [Option.map_some, Option.join_some]
      rw [hdecode, Option.map_some]

end Json

/-- The numbers of a fix fit the wire. -/
structure Fix.Encodable (f : Fix) : Prop where
  line : ∀ n ∈ f.line, n < 2 ^ 64
  column : f.column < 2 ^ 64
  count : f.removal.count ≤ Removal.maxCount

namespace Removal

theorem count_le_of_ofJson? {v : Json} {r : Removal} (h : ofJson? v = some r) :
    r.count ≤ maxCount := by
  obtain ⟨n, hn, rfl⟩ := Option.map_eq_some_iff.mp h
  unfold Json.intIn? at hn
  split at hn
  · split at hn
    · next hbound =>
        obtain rfl := Option.some.inj hn
        unfold ofInt
        split
        · exact Nat.zero_le _
        · simp only [count, maxCount]
          omega
    · cases hn
  · cases hn

theorem ofJson?_toInt {r : Removal} (h : r.count ≤ maxCount) :
    ofJson? (.int r.toInt) = some r := by
  cases r with
  | wholeLine => rfl
  | chars n =>
      have hn : n ≤ maxCount := h
      have hmin : min (n : Int) maxCount = n := by omega
      simp only [ofJson?, toInt, hmin, Json.int, Json.intIn?]
      unfold maxCount at hn
      rw [if_pos (by omega)]
      simp [ofInt]

end Removal

namespace Fix

theorem encodable_of_ofJson? {v : Json} {f : Fix} (h : ofJson? v = some f) : f.Encodable := by
  simp only [ofJson?, Option.bind_eq_bind, Option.bind_eq_some_iff, Option.pure_def,
    Option.some.injEq] at h
  obtain ⟨r, -, line, hline, column, hcolumn, removal, hremoval, insertion, -, rfl⟩ := h
  refine ⟨?_, ?_, ?_⟩
  · rintro n rfl
    obtain ⟨v, hv⟩ := Json.exists_of_optional? hline
    exact Json.lt_of_natBelow? hv
  · rcases Json.eq_or_exists_of_withDefault? hcolumn with rfl | ⟨v, hv⟩
    · exact Nat.one_lt_two_pow (by omega)
    · exact Json.lt_of_natBelow? hv
  · rcases Json.eq_or_exists_of_withDefault? hremoval with rfl | ⟨v, hv⟩
    · exact Nat.zero_le _
    · exact Removal.count_le_of_ofJson? hv

/-- What is written of a fix. -/
def fields (f : Fix) : List (String × Option Json) :=
  [("lineNumber", f.line.map .nat), ("editColumn", some (.nat f.column)),
    ("deleteCount", some (.int f.removal.toInt)), ("insertText", f.insertion.map .str)]

theorem ofJson?_toJson {f : Fix} (h : f.Encodable) : ofJson? f.toJson = some f := by
  have hkeys : (f.fields.map (·.1)).Nodup := by simp [fields]
  have hline : Json.optional? (Json.present f.fields) "lineNumber" Json.word? = some f.line :=
    Json.optional?_present .nat hkeys (by simp [fields, Dict.find?]) fun n hn =>
      ⟨Json.natBelow?_nat (h.line n hn), by simp [Json.nat]⟩
  have hcolumn : Json.withDefault? (Json.present f.fields) "editColumn" 1 Json.word? =
      some f.column :=
    (Json.withDefault?_present 1 hkeys (by simp [fields, Dict.find?])).trans
      (Json.natBelow?_nat h.column)
  have hremoval : Json.withDefault? (Json.present f.fields) "deleteCount" (.chars 0)
      Removal.ofJson? = some f.removal :=
    (Json.withDefault?_present (.chars 0) hkeys (by simp [fields, Dict.find?])).trans
      (Removal.ofJson?_toInt h.count)
  have hinsertion : Json.optional? (Json.present f.fields) "insertText" Json.string? =
      some f.insertion :=
    Json.optional?_present .str hkeys (by simp [fields, Dict.find?]) fun s _ => ⟨rfl, by simp⟩
  have hrecord : f.toJson.record? ["lineNumber", "editColumn", "deleteCount", "insertText"] =
      some (Json.present f.fields) := rfl
  simp only [ofJson?, Option.bind_eq_bind, Option.bind_eq_some_iff, Option.pure_def]
  exact ⟨_, hrecord, _, hline, _, hcolumn, _, hremoval, _, hinsertion, rfl⟩

end Fix

theorem Violation.encodable_of_ofJson? {j : Json} {v : Violation} {f : Fix}
    (h : ofJson? j = some v) (hfix : v.fix = some f) : f.Encodable := by
  simp only [ofJson?, Option.bind_eq_bind, Option.bind_eq_some_iff, Option.pure_def,
    Option.some.injEq] at h
  obtain ⟨r, -, names, -, line, -, description, -, detail, -, context, -, span, -, information, -,
    fix, hread, rfl⟩ := h
  subst hfix
  obtain ⟨j', hj'⟩ := Json.exists_of_optional? hread
  exact Fix.encodable_of_ofJson? hj'

/-! ### Diagnostics -/

namespace DiagnosticData

/-- What is written of the data. -/
def fields (d : DiagnosticData) : List (String × Option Json) :=
  [("rule", some (.str d.rule)), ("ruleAlias", some (.str d.ruleAlias)),
    ("fixInfo", d.fix.map Fix.toJson)]

theorem ofJson?_toJson {d : DiagnosticData} (h : ∀ f ∈ d.fix, f.Encodable) :
    ofJson? d.toJson = some d := by
  have hkeys : (d.fields.map (·.1)).Nodup := by simp [fields]
  have hrule : Json.required? (Json.present d.fields) "rule" Json.string? = some d.rule := by
    rw [Json.required?_present hkeys (by simp [fields, Dict.find?]; rfl)]
    rfl
  have halias : Json.required? (Json.present d.fields) "ruleAlias" Json.string? =
      some d.ruleAlias := by
    rw [Json.required?_present hkeys (by simp [fields, Dict.find?]; rfl)]
    rfl
  have hfix : Json.optional? (Json.present d.fields) "fixInfo" Fix.ofJson? = some d.fix :=
    Json.optional?_present Fix.toJson hkeys (by simp [fields, Dict.find?]) fun f hf =>
      ⟨Fix.ofJson?_toJson (h f hf), by simp [Fix.toJson, Json.ofFields]⟩
  have hrecord : d.toJson.record? ["rule", "ruleAlias", "fixInfo"] =
      some (Json.present d.fields) := rfl
  simp only [ofJson?, Option.bind_eq_bind, Option.bind_eq_some_iff, Option.pure_def]
  exact ⟨_, hrecord, _, hrule, _, halias, _, hfix, rfl⟩

end DiagnosticData

namespace Position

/-- What is written of a place. -/
def fields (p : Position) : List (String × Option Json) :=
  [("line", some (.nat p.line)), ("character", some (.nat p.character))]

theorem ofJson?_toJson {p : Position} (hline : p.line ≤ maxWord32)
    (hcharacter : p.character ≤ maxWord32) : ofJson? p.toJson = some p := by
  have hkeys : (p.fields.map (·.1)).Nodup := by simp [fields]
  have hl : Json.required? (Json.present p.fields) "line" Json.nat32? = some p.line := by
    rw [Json.required?_present hkeys (by simp [fields, Dict.find?]; rfl)]
    exact Json.natBelow?_nat (Nat.lt_succ_of_le hline)
  have hc : Json.required? (Json.present p.fields) "character" Json.nat32? =
      some p.character := by
    rw [Json.required?_present hkeys (by simp [fields, Dict.find?]; rfl)]
    exact Json.natBelow?_nat (Nat.lt_succ_of_le hcharacter)
  have hrecord : p.toJson.record? ["line", "character"] = some (Json.present p.fields) := rfl
  simp only [ofJson?, Option.bind_eq_bind, Option.bind_eq_some_iff, Option.pure_def]
  exact ⟨_, hrecord, _, hl, _, hc, rfl⟩

theorem ofJson?_place (line character : Nat) :
    ofJson? (place line character).toJson = some (place line character) :=
  ofJson?_toJson (Nat.min_le_right _ _) (Nat.min_le_right _ _)

end Position

namespace Range

/-- What is written of a range. -/
def fields (r : Range) : List (String × Option Json) :=
  [("start", some r.start.toJson), ("end", some r.finish.toJson)]

theorem ofJson?_toJson {r : Range} (hstart : Position.ofJson? r.start.toJson = some r.start)
    (hfinish : Position.ofJson? r.finish.toJson = some r.finish) :
    ofJson? r.toJson = some r := by
  have hkeys : (r.fields.map (·.1)).Nodup := by simp [fields]
  have hs : Json.required? (Json.present r.fields) "start" Position.ofJson? = some r.start := by
    rw [Json.required?_present hkeys (by simp [fields, Dict.find?]; rfl)]
    exact hstart
  have hf : Json.required? (Json.present r.fields) "end" Position.ofJson? = some r.finish := by
    rw [Json.required?_present hkeys (by simp [fields, Dict.find?]; rfl)]
    exact hfinish
  have hrecord : r.toJson.record? ["start", "end"] = some (Json.present r.fields) := rfl
  simp only [ofJson?, Option.bind_eq_bind, Option.bind_eq_some_iff, Option.pure_def]
  exact ⟨_, hrecord, _, hs, _, hf, rfl⟩

end Range

end LintDesk
