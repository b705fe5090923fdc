import LintDesk.Proofs.Edit.Wire
import Mathlib.Algebra.Group.Int.Defs

/-! # Wire forms and their values

A violation, a fix and the data of a diagnostic have each a form on the wire. What was read from the
wire is read back after it is written, and the values that are read back are just those whose
numbers fit. A count of characters fits up to the largest signed word; beyond it, it is cut.
-/

namespace LintDesk

/-- Reading and writing of a kind of value: what was read is read back after it is written, the
values that are read back are those that fit, and of these no two are written alike. -/
structure RoundTrips {α : Type} (encode : α → Json) (decode : Json → Option α)
    (fits : α → Prop) : Prop where
  reread : ∀ {j a}, decode j = some a → decode (encode a) = some a
  written : ∀ {a}, decode (encode a) = some a ↔ fits a
  injective : ∀ {a b}, fits a → fits b → encode a = encode b → a = b

/-- It is enough that what is read fits, and that what fits is read back. -/
theorem RoundTrips.of_fits {α : Type} {encode : α → Json} {decode : Json → Option α}
    {fits : α → Prop} (hread : ∀ {j a}, decode j = some a → fits a)
    (hwritten : ∀ {a}, fits a → decode (encode a) = some a) : RoundTrips encode decode fits where
  reread h := hwritten (hread h)
  written := ⟨hread, hwritten⟩
  injective {a b} ha hb heq := by
    have hsome : some a = some b :=
      (hwritten ha).symm.trans ((congrArg decode heq).trans (hwritten hb))
    exact Option.some.inj hsome

namespace Json

theorem exists_of_required? {α : Type} {r : Dict Json} {key : String} {decode : Json → Option α}
    {a : α} (h : required? r key decode = some a) : ∃ v, decode v = some a := by
  obtain ⟨v, -, hv⟩ := Option.bind_eq_some_iff.mp h
  exact ⟨v, hv⟩

theorem strings?_strings (items : List String) : strings? (.strings items) = some items := by
  change (items.map Json.str).mapM string? = some items
  induction items with
  | nil => rfl
  | cons item items ih => simp [string?, ih]

end Json

/-! ### Counts -/

namespace Removal

theorem maxCount_eq : maxCount = 2 ^ 63 - 1 := rfl

/-- A number on the wire is a count if it is a signed word, and a negative one is the whole line. -/
theorem ofJson?_int (n : Int) :
    ofJson? (.int n) = if -2 ^ 63 ≤ n ∧ n ≤ 2 ^ 63 - 1 then some (ofInt n) else none := by
  change Option.map ofInt (if -0x8000_0000_0000_0000 ≤ n ∧ n ≤ 0x7FFF_FFFF_FFFF_FFFF then
    some n else none) = _
  by_cases hword : -2 ^ 63 ≤ n ∧ n ≤ 2 ^ 63 - 1
  · rw [if_pos hword, if_pos (by omega), Option.map_some]
  · rw [if_neg hword, if_neg (by omega), Option.map_none]

theorem ofInt_of_neg {n : Int} (h : n < 0) : ofInt n = wholeLine :=
  if_pos h

theorem ofInt_of_nonneg {n : Int} (h : 0 ≤ n) : ofInt n = chars n.toNat :=
  if_neg (by omega)

/-- A count in memory is read back just if it is not cut. -/
theorem ofJson?_toInt_iff (n : Nat) :
    ofJson? (.int (chars n).toInt) = some (chars n) ↔ n ≤ 2 ^ 63 - 1 :=
  ⟨fun h => count_le_of_ofJson? h, fun h => ofJson?_toInt (r := .chars n) h⟩

/-- A number on the wire is a count of characters that is written as it was read just if it is not
negative and a signed word. -/
theorem exists_ofJson?_int_iff (n : Int) :
    (∃ count, ofJson? (.int n) = some (chars count) ∧ (chars count).toInt = n) ↔
      0 ≤ n ∧ n ≤ 2 ^ 63 - 1 := by
  rw [ofJson?_int]
  constructor
  · rintro ⟨count, hread, hwritten⟩
    split at hread
    · next hword =>
        refine ⟨?_, hword.2⟩
        by_contra hneg
        rw [ofInt_of_neg (by omega)] at hread
        cases hread
    · cases hread
  · rintro ⟨hnonneg, hle⟩
    refine ⟨n.toNat, ?_, ?_⟩
    · rw [if_pos ⟨by omega, hle⟩, ofInt_of_nonneg hnonneg]
    · have hcount : ((n.toNat : Nat) : Int) ≤ (maxCount : Int) := by
        rw [maxCount_eq]
        omega
      simp only [toInt, Int.min_eq_left hcount]
      omega

end Removal

/-! ### Violations -/

theorem Fix.roundTrips : RoundTrips toJson ofJson? Encodable :=
  .of_fits encodable_of_ofJson? ofJson?_toJson

namespace Span

theorem lt_of_ofJson? {v : Json} {s : Span} (h : ofJson? v = some s) :
    s.column < 2 ^ 64 ∧ s.length < 2 ^ 64 := by
  unfold ofJson? at h
  split at h
  · simp only [Option.bind_eq_bind, Option.bind_eq_some_iff, Option.pure_def,
      Option.some.injEq] at h
    obtain ⟨column, hcolumn, length, hlength, rfl⟩ := h
    exact ⟨Json.lt_of_natBelow? hcolumn, Json.lt_of_natBelow? hlength⟩
  · cases h

theorem ofJson?_toJson {s : Span} (hcolumn : s.column < 2 ^ 64) (hlength : s.length < 2 ^ 64) :
    ofJson? s.toJson = some s := by
  have hc : Json.word? (.nat s.column) = some s.column := Json.natBelow?_nat hcolumn
  have hl : Json.word? (.nat s.length) = some s.length := Json.natBelow?_nat hlength
  simp [ofJson?, toJson, hc, hl]

end Span

namespace Violation

/-- The numbers of a violation fit the wire. -/
structure Encodable (v : Violation) : Prop where
  line : v.line < 2 ^ 64
  span : ∀ s ∈ v.span, s.column < 2 ^ 64 ∧ s.length < 2 ^ 64
  fix : ∀ f ∈ v.fix, f.Encodable

theorem fits_of_ofJson? {j : Json} {v : Violation} (h : ofJson? j = some v) : v.Encodable := by
  refine ⟨?_, ?_, fun f hf => encodable_of_ofJson? h hf⟩
  all_goals
    simp only [ofJson?, Option.bind_eq_bind, Option.bind_eq_some_iff, Option.pure_def,
      Option.some.injEq] at h
    obtain ⟨r, -, names, -, line, hline, description, -, detail, -, context, -, span, hspan,
      information, -, fix, -, rfl⟩ := h
  · obtain ⟨value, hvalue⟩ := Json.exists_of_required? hline
    exact Json.lt_of_natBelow? hvalue
  · rintro s rfl
    obtain ⟨value, hvalue⟩ := Json.exists_of_optional? hspan
    exact Span.lt_of_ofJson? hvalue

/-- What is written of a violation. -/
def fields (v : Violation) : List (String × Option Json) :=
  [("ruleNames", some (.strings v.names)), ("lineNumber", some (.nat v.line)),
    ("ruleDescription", some (.str v.description)), ("errorDetail", v.detail.map .str),
    ("errorContext", v.context.map .str), ("errorRange", v.span.map Span.toJson),
    ("ruleInformation", v.information.map .str), ("fixInfo", v.fix.map Fix.toJson)]

theorem ofJson?_toJson {v : Violation} (h : v.Encodable) : ofJson? v.toJson = some v := by
  have hkeys : (v.fields.map (·.1)).Nodup := by simp [fields]
  have hnames : Json.required? (Json.present v.fields) "ruleNames" Json.strings? =
      some v.names :=
    (Json.required?_present hkeys (by simp [fields, Dict.find?])).trans
      (Json.strings?_strings v.names)
  have hline : Json.required? (Json.present v.fields) "lineNumber" Json.word? = some v.line :=
    (Json.required?_present hkeys (by simp [fields, Dict.find?])).trans
      (Json.natBelow?_nat h.line)
  have hdescription : Json.required? (Json.present v.fields) "ruleDescription" Json.string? =
      some v.description := by
    rw [Json.required?_present hkeys (by simp [fields, Dict.find?]; rfl)]
    rfl
  have htext : ∀ (key : String) (text : Option String),
      Dict.find? key v.fields = some (text.map .str) →
      Json.optional? (Json.present v.fields) key Json.string? = some text := fun key text hfield =>
    Json.optional?_present .str hkeys hfield fun s _ => ⟨rfl, by simp⟩
  have hspan : Json.optional? (Json.present v.fields) "errorRange" Span.ofJson? = some v.span :=
    Json.optional?_present Span.toJson hkeys (by simp [fields, Dict.find?]) fun s hs =>
      ⟨Span.ofJson?_toJson (h.span s hs).1 (h.span s hs).2, by simp [Span.toJson]⟩
  have hfix : Json.optional? (Json.present v.fields) "fixInfo" Fix.ofJson? = some v.fix :=
    Json.optional?_present Fix.toJson hkeys (by simp [fields, Dict.find?]) fun f hf =>
      ⟨Fix.ofJson?_toJson (h.fix f hf), by simp [Fix.toJson, Json.ofFields]⟩
  have hrecord : v.toJson.record? ["ruleNames", "lineNumber", "ruleDescription", "errorDetail",
      "errorContext", "errorRange", "ruleInformation", "fixInfo"] =
      some (Json.present v.fields) := rfl
  simp only [ofJson?, Option.bind_eq_bind, Option.bind_eq_some_iff, Option.pure_def]
  exact ⟨_, hrecord, _, hnames, _, hline, _, hdescription,
    _, htext "errorDetail" v.detail (by simp [fields, Dict.find?]),
    _, htext "errorContext" v.context (by simp [fields, Dict.find?]), _, hspan,
    _, htext "ruleInformation" v.information (by simp [fields, Dict.find?]), _, hfix, rfl⟩

theorem roundTrips : RoundTrips toJson ofJson? Encodable :=
  .of_fits fits_of_ofJson? ofJson?_toJson

end Violation

/-! ### Data of diagnostics -/

namespace DiagnosticData

/-- The numbers in the data of a diagnostic fit the wire. -/
def Encodable (d : DiagnosticData) : Prop :=
  ∀ f ∈ d.fix, f.Encodable

theorem encodable_of_ofJson? {j : Json} {d : DiagnosticData} (h : ofJson? j = some d) :
    d.Encodable := by
  simp only [ofJson?, Option.bind_eq_bind, Option.bind_eq_some_iff, Option.pure_def,
    Option.some.injEq] at h
  obtain ⟨r, -, rule, -, ruleAlias, -, fix, hfix, rfl⟩ := h
  rintro f rfl
  obtain ⟨value, hvalue⟩ := Json.exists_of_optional? hfix
  exact Fix.encodable_of_ofJson? hvalue

theorem roundTrips : RoundTrips toJson ofJson? Encodable :=
  .of_fits encodable_of_ofJson? ofJson?_toJson

end DiagnosticData

/-- Violations, fixes and the data of diagnostics survive the wire. A count of characters does just
if it is at most the largest signed word; every negative number stands for the whole line, which is
written as `-1`. -/
theorem wire_forms_roundTrip :
    RoundTrips Violation.toJson Violation.ofJson? Violation.Encodable ∧
    RoundTrips Fix.toJson Fix.ofJson? Fix.Encodable ∧
    RoundTrips DiagnosticData.toJson DiagnosticData.ofJson? DiagnosticData.Encodable ∧
    (∀ n : Nat, Removal.ofJson? (.int (Removal.chars n).toInt) = some (.chars n) ↔
      n ≤ 2 ^ 63 - 1) ∧
    (∀ n : Int, (∃ count, Removal.ofJson? (.int n) = some (.chars count) ∧
      (Removal.chars count).toInt = n) ↔ 0 ≤ n ∧ n ≤ 2 ^ 63 - 1) ∧
    ∀ n : Int, n < 0 → Removal.ofInt n = .wholeLine ∧ (Removal.ofInt n).toInt = -1 ∧
      (Removal.ofJson? (.int n) = some .wholeLine ↔ -2 ^ 63 ≤ n) := by
  refine ⟨Violation.roundTrips, Fix.roundTrips, DiagnosticData.roundTrips,
    Removal.ofJson?_toInt_iff, Removal.exists_ofJson?_int_iff, fun n hneg => ?_⟩
  have hwhole := Removal.ofInt_of_neg hneg
  refine ⟨hwhole, by rw [hwhole]; rfl, ?_⟩
  rw [Removal.ofJson?_int, hwhole]
  simp only [Option.ite_none_right_eq_some, and_true]
  exact ⟨And.left, fun h => ⟨h, by omega⟩⟩

end LintDesk
