import LintDesk.Config.Parse
import LintDesk.Proofs.Json.Dict

/-! # What configuration files hold

Whichever format a configuration file is in, the objects that are read from it have their keys in
increasing order; so a configuration that is read is a map (`RuleConfig.parse_sorted`).
-/

namespace LintDesk

namespace Json

/-- If the value is an object, its keys increase. -/
def Ordered (v : Json) : Prop :=
  ∀ fields, v = .obj fields → Dict.Sorted fields

/-- The value and what is in it are in order. -/
structure OrderedWithin (v : Json) : Prop where
  ordered : v.Ordered
  fields : ∀ fields, v = .obj fields → ∀ e ∈ fields, e.2.Ordered

theorem ordered_mkObj (pairs : List (String × Json)) : (mkObj pairs).Ordered := by
  rintro _ ⟨⟩
  exact Dict.Sorted.override (by simp [Dict.Sorted]) pairs

theorem orderedWithin_mkObj {pairs : List (String × Json)} (h : ∀ e ∈ pairs, e.2.Ordered) :
    (mkObj pairs).OrderedWithin := by
  refine ⟨ordered_mkObj pairs, ?_⟩
  rintro _ ⟨⟩ e he
  exact h e ((Dict.mem_of_mem_override (by simp [Dict.Sorted]) he).resolve_left (by simp))

theorem orderedWithin_mkObj_nil : (mkObj []).OrderedWithin :=
  orderedWithin_mkObj (by simp)

theorem orderedWithin_of_ne {v : Json} (h : ∀ fields, v ≠ .obj fields) : v.OrderedWithin :=
  ⟨fun fields hv => absurd hv (h fields), fun fields hv => absurd hv (h fields)⟩

end Json

/-! ### JSON with comments -/

namespace Json.Lenient

theorem numberValue_ne_obj (text : String) (fields : Dict Json) :
    numberValue text ≠ .obj fields := by
  unfold numberValue numberValue.plain
  dsimp only
  repeat' split
  all_goals simp [Json.int]

/-- An object is made of the values that were read for its properties. -/
theorem exists_of_object {fuel : Nat} {acc : List (String × Json)} {ts rest : List Token} {v : Json}
    (h : object fuel acc ts = some (v, rest)) : ∃ pairs, v = mkObj pairs ∧
      ∀ e ∈ pairs, e ∈ acc ∨ ∃ fuel ts rest, value fuel ts = some (e.2, rest) := by
  induction fuel generalizing acc ts with
  | zero => simp [object] at h
  | succ fuel ih =>
      -- whichever token its name is, a property is read in the same way
      have hproperty : ∀ {name : String} {ts : List Token} {next : Json × List Token → List Token},
          ((value fuel ts).bind fun x => object fuel ((name, x.1) :: acc) (next x)) =
            some (v, rest) →
          ∃ pairs, v = mkObj pairs ∧
            ∀ e ∈ pairs, e ∈ acc ∨ ∃ fuel ts rest, value fuel ts = some (e.2, rest) := by
        intro name ts next h
        obtain ⟨⟨value', rest'⟩, hvalue, hrest⟩ := Option.bind_eq_some_iff.mp h
        obtain ⟨pairs, hpairs, hmem⟩ := ih hrest
        refine ⟨pairs, hpairs, fun e he => ?_⟩
        rcases hmem e he with hin | hread
        · rcases List.mem_cons.mp hin with rfl | hin
          · exact .inr ⟨fuel, ts, rest', hvalue⟩
          · exact .inl hin
        · exact .inr hread
      unfold object at h
      split at h
      · obtain ⟨rfl, -⟩ : mkObj acc.reverse = v ∧ _ := by simpa using h
        exact ⟨acc.reverse, rfl, fun e he => .inl (List.mem_reverse.mp he)⟩
      · exact hproperty h
      · exact hproperty h
      · exact hproperty h
      · cases h

theorem array_ne_obj {fuel : Nat} {acc : List Json} {ts rest : List Token} {v : Json}
    (h : array fuel acc ts = some (v, rest)) (fields : Dict Json) : v ≠ .obj fields := by
  induction fuel generalizing acc ts with
  | zero => simp [array] at h
  | succ fuel ih =>
      unfold array at h
      split at h
      · obtain ⟨rfl, -⟩ : Json.arr acc.reverse = v ∧ _ := by simpa using h
        simp
      · obtain ⟨⟨value', rest'⟩, -, hrest⟩ := Option.bind_eq_some_iff.mp h
        exact ih hrest

theorem value_cases {fuel : Nat} {ts rest : List Token} {v : Json}
    (h : value fuel ts = some (v, rest)) :
    (∃ fuel ts, object fuel [] ts = some (v, rest)) ∨ ∀ fields, v ≠ .obj fields := by
  cases fuel with
  | zero => simp [value] at h
  | succ fuel =>
      unfold value at h
      split at h
      · exact .inl ⟨fuel, _, h⟩
      · exact .inr (array_ne_obj h)
      · right
        cases h
        simp
      · right
        cases h
        simp
      · right
        cases h
        simp
      · right
        cases h
        exact numberValue_ne_obj _
      · cases h

theorem value_ordered {fuel : Nat} {ts rest : List Token} {v : Json}
    (h : value fuel ts = some (v, rest)) : v.Ordered := by
  rcases value_cases h with ⟨fuel, ts, hobject⟩ | hne
  · obtain ⟨pairs, rfl, -⟩ := exists_of_object hobject
    exact ordered_mkObj pairs
  · exact (orderedWithin_of_ne hne).ordered

theorem value_orderedWithin {fuel : Nat} {ts rest : List Token} {v : Json}
    (h : value fuel ts = some (v, rest)) : v.OrderedWithin := by
  rcases value_cases h with ⟨fuel, ts, hobject⟩ | hne
  · obtain ⟨pairs, rfl, hpairs⟩ := exists_of_object hobject
    refine orderedWithin_mkObj fun e he => ?_
    obtain ⟨_, _, _, hvalue⟩ := (hpairs e he).resolve_left (by simp)
    exact value_ordered hvalue
  · exact orderedWithin_of_ne hne

theorem parse?_orderedWithin {text : String} {v : Json} (h : parse? text = some v) :
    v.OrderedWithin := by
  unfold parse? at h
  obtain ⟨ts, -, h⟩ := Option.bind_eq_some_iff.mp h
  cases ts with
  | nil =>
      cases h
      exact orderedWithin_mkObj_nil
  | cons t ts =>
      obtain ⟨⟨value', rest⟩, hvalue, h⟩ := Option.bind_eq_some_iff.mp h
      cases rest with
      | nil =>
          cases h
          exact value_orderedWithin hvalue
      | cons t ts => cases h

end Json.Lenient

/-! ### YAML -/

namespace Yaml

theorem float?_ne_obj {s : String} {v : Json} (h : float? s = some v) (fields : Dict Json) :
    v ≠ .obj fields := by
  rintro rfl
  unfold float? at h
  dsimp only at h
  split at h
  · cases h
  · obtain ⟨bits, -, hv⟩ := Option.map_eq_some_iff.mp h
    cases hv

theorem plainValue?_ne_obj {s : String} {v : Json} (h : plainValue? s = some v)
    (fields : Dict Json) : v ≠ .obj fields := by
  unfold plainValue? at h
  split at h
  · cases h
    nofun
  · split at h
    · cases h
      nofun
    · split at h
      · cases h
        nofun
      · cases h
      · split at h
        · cases h
          nofun
        · cases hfloat : float? s with
          | some w =>
              rw [hfloat] at h
              cases h
              exact float?_ne_obj hfloat fields
          | none =>
              rw [hfloat] at h
              cases h
              nofun

theorem scalarValue?_ne_obj {tag : Option String} {s : String} {plain : Bool} {v : Json}
    (h : scalarValue? tag s plain = some v) (fields : Dict Json) : v ≠ .obj fields := by
  have hmap : ∀ {b : Option Bool}, b.map Json.bool = some v → v ≠ .obj fields := by
    rintro b hb rfl
    obtain ⟨_, -, hv⟩ := Option.map_eq_some_iff.mp hb
    cases hv
  unfold scalarValue? at h
  split at h
  · split at h
    · exact plainValue?_ne_obj h fields
    · cases h
      nofun
  · split at h
    · exact hmap h
    · split at h
      · split at h
        · cases h
          nofun
        · cases h
      · split at h
        · exact float?_ne_obj h fields
        · split at h
          · split at h
            · cases h
              nofun
            · cases h
          · split at h
            · cases h
            · cases h
              nofun

/-- What was read for the items of a list was read for each of them. -/
theorem exists_of_mapM {α β : Type} {f : α → Budget β} {items : List α} {results : List β}
    {left left' : Nat} (h : items.mapM f left = some (results, left')) :
    ∀ y ∈ results, ∃ x ∈ items, ∃ left left', f x left = some (y, left') := by
  induction items generalizing results left left' with
  | nil =>
      obtain rfl : [] = results := congrArg Prod.fst (Option.some.inj h)
      simp
  | cons x items ih =>
      rw [List.mapM_cons] at h
      obtain ⟨⟨y, middle⟩, hy, h⟩ := Option.bind_eq_some_iff.mp h
      obtain ⟨⟨ys, last⟩, hys, h⟩ := Option.bind_eq_some_iff.mp h
      obtain rfl : y :: ys = results := congrArg Prod.fst (Option.some.inj h)
      intro z hz
      rcases List.mem_cons.mp hz with rfl | hz
      · exact ⟨x, List.mem_cons_self, left, middle, hy⟩
      · obtain ⟨x', hx', hread⟩ := ih hys z hz
        exact ⟨x', List.mem_cons_of_mem x hx', hread⟩

theorem nodeValue_cases {slots : List (Nat × Node)} {depth : Nat} {n : Node} {v : Json}
    {left left' : Nat} (h : nodeValue slots depth n left = some (v, left')) :
    (∃ pairs, v = .mkObj pairs ∧
      ∀ e ∈ pairs, ∃ depth n left left', nodeValue slots depth n left = some (e.2, left')) ∨
    ∀ fields, v ≠ .obj fields := by
  unfold nodeValue at h
  obtain ⟨⟨node, middle⟩, -, h⟩ := Option.bind_eq_some_iff.mp h
  cases node with
  | reference slot => cases h
  | scalar mark text plain =>
      obtain ⟨w, hw, heq⟩ := Option.map_eq_some_iff.mp h
      cases heq
      exact .inr (scalarValue?_ne_obj hw)
  | sequence mark items =>
      right
      cases depth with
      | zero => cases h
      | succ depth =>
          dsimp only at h
          split at h
          · cases h
          · obtain ⟨⟨ys, last⟩, -, h⟩ := Option.bind_eq_some_iff.mp h
            cases h
            nofun
  | mapping mark entries =>
      cases depth with
      | zero => cases h
      | succ depth =>
          dsimp only at h
          split at h
          · cases h
          · obtain ⟨⟨pairs, last⟩, hpairs, h⟩ := Option.bind_eq_some_iff.mp h
            cases h
            refine .inl ⟨pairs, rfl, fun e he => ?_⟩
            obtain ⟨⟨k, x⟩, -, before, after, hentry⟩ := exists_of_mapM hpairs e he
            obtain ⟨⟨key, between⟩, -, hentry⟩ := Option.bind_eq_some_iff.mp hentry
            obtain ⟨⟨value, last'⟩, hvalue, hentry⟩ := Option.bind_eq_some_iff.mp hentry
            cases hentry
            exact ⟨depth, x, between, after, hvalue⟩

theorem nodeValue_orderedWithin {slots : List (Nat × Node)} {depth : Nat} {n : Node} {v : Json}
    {left left' : Nat} (h : nodeValue slots depth n left = some (v, left')) :
    v.OrderedWithin := by
  rcases nodeValue_cases h with ⟨pairs, rfl, hpairs⟩ | hne
  · refine Json.orderedWithin_mkObj fun e he => ?_
    obtain ⟨depth', n', before, after, hvalue⟩ := hpairs e he
    rcases nodeValue_cases hvalue with ⟨pairs', heq, -⟩ | hne
    · exact heq ▸ Json.ordered_mkObj pairs'
    · exact (Json.orderedWithin_of_ne hne).ordered
  · exact Json.orderedWithin_of_ne hne

theorem parse?_orderedWithin {text : String} {v : Json} (h : parse? text = some v) :
    v.OrderedWithin := by
  unfold parse? at h
  obtain ⟨root, -, h⟩ := Option.bind_eq_some_iff.mp h
  cases root with
  | none =>
      cases h
      exact Json.orderedWithin_of_ne nofun
  | some root =>
      obtain ⟨⟨value, left⟩, hvalue, h⟩ := Option.bind_eq_some_iff.mp h
      cases h
      exact nodeValue_orderedWithin hvalue

end Yaml

/-! ### Configurations -/

namespace RuleConfig

theorem readValue?_orderedWithin {content : String} {v : Json} (h : readValue? content = some v) :
    v.OrderedWithin := by
  unfold readValue? at h
  split at h
  · next value hlenient =>
      cases h
      exact Json.Lenient.parse?_orderedWithin hlenient
  · split at h
    · cases h
      exact Json.orderedWithin_mkObj_nil
    · exact Yaml.parse?_orderedWithin h

theorem rulesPart_ordered (path : Path) {value : Json} (h : value.OrderedWithin) :
    (rulesPart path value).Ordered := by
  unfold rulesPart
  split
  · next fields =>
      split
      · cases hfind : Dict.find? "config" fields with
        | some part => exact h.fields fields rfl _ (Dict.mem_of_find? hfind)
        | none => exact (Json.orderedWithin_of_ne (v := .null) nofun).ordered
      · exact h.ordered
  · exact h.ordered

/-- A configuration that is read from a file is a map. -/
theorem parse_sorted {path : Path} {content : String} {config : RuleConfig}
    (h : parse path content = .ok config) : Dict.Sorted config := by
  unfold parse at h
  split at h
  · cases h
  · next value hvalue =>
      have hordered := rulesPart_ordered path (readValue?_orderedWithin hvalue)
      split at h
      · next fields hpart =>
          cases h
          exact hordered config hpart
      · cases h
        simp [Dict.Sorted]
      · cases h

/-- An object with a text and a truth value, whose names stand in the other order. -/
theorem lenient_parse_pair {text first named second : String} {on : Bool}
    (htokens : Json.Lenient.tokens? (text.toList.length + 1) text.toList =
      some [.openBrace, .string first, .colon, .string named, .comma, .string second, .colon,
        .bool on, .closeBrace])
    (horder : second < first) :
    Json.Lenient.parse? text = some (.obj [(second, .bool on), (first, .str named)]) := by
  have hmake : Json.mkObj [(first, .str named), (second, .bool on)] =
      .obj [(second, .bool on), (first, .str named)] := by
    simp [Json.mkObj, Dict.ofPairs, Dict.override, Dict.insert, horder]
  rw [Json.Lenient.parse?, htokens, ← hmake]
  rfl

/-- A file whose text is an object holds that object. -/
theorem parse_of_lenient {path : Path} {text : String} {fields : Dict Json}
    (hnested : isNested path = false) (htext : Json.Lenient.parse? text = some (.obj fields)) :
    parse path text = .ok fields := by
  simp [parse, readValue?, htext, rulesPart, hnested]

end RuleConfig

end LintDesk
