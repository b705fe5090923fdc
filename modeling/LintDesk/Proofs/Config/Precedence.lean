import LintDesk.Proofs.Json.Dict
import LintDesk.Rule.Builtin

/-! # Which layer decides a rule

A configuration on top of another replaces the entries that have the very same keys. A rule has
several names, and keys count up to case, so both layers may have an entry for one rule under
different keys. The upper layer decides the rule unless the key of the lower layer comes first.
-/

namespace LintDesk

namespace RuleConfig

/-- The key under which a configuration has an entry for a name. -/
def keyFor? (config : RuleConfig) (name : String) : Option String :=
  (List.find? (fun entry => sameIgnoringCase entry.1 name) config).map (·.1)

/-- Whether the entry of `base` for a rule comes first: `base` has an earlier one of the names, or
the same name under a lesser key. -/
def outranks (base overrides : RuleConfig) : (names : List String) → Bool
  | [] => false
  | name :: rest =>
    match base.keyFor? name, overrides.keyFor? name with
    | some key, some other => key < other
    | some _, none => true
    | none, some _ => false
    | none, none => outranks base overrides rest

variable {base overrides : RuleConfig}

theorem lookup?_eq_none_iff {config : RuleConfig} {name : String} :
    config.lookup? name = none ↔ config.keyFor? name = none := by
  unfold lookup? keyFor?
  rw [Option.map_eq_none_iff, Option.map_eq_none_iff]

theorem lookup?_merge (hbase : Dict.Sorted base) (hover : Dict.Sorted overrides) (name : String) :
    (merge base overrides).lookup? name =
      match base.keyFor? name, overrides.keyFor? name with
      | some key, some other => if key < other then base.lookup? name else overrides.lookup? name
      | some _, none => base.lookup? name
      | none, _ => overrides.lookup? name := by
  unfold lookup? keyFor? merge
  rw [Dict.find?_override hbase hover fun key => sameIgnoringCase key name]
  cases List.find? (fun entry => sameIgnoringCase entry.1 name) base with
  | none => rfl
  | some a =>
      cases List.find? (fun entry => sameIgnoringCase entry.1 name) overrides with
      | none => rfl
      | some b =>
          dsimp only [Option.map_some]
          split <;> rfl

/-- The names of a rule are settled by the layer whose key comes first. -/
theorem findSome?_lookup?_merge (hbase : Dict.Sorted base) (hover : Dict.Sorted overrides)
    (names : List String) :
    names.findSome? (lookup? (merge base overrides)) =
      if outranks base overrides names then names.findSome? (lookup? base)
      else names.findSome? (lookup? overrides) := by
  induction names with
  | nil => rfl
  | cons name rest ih =>
      have hsome : ∀ {config : RuleConfig} {key : String}, config.keyFor? name = some key →
          ∃ value, config.lookup? name = some value := by
        intro config key hkey
        rw [← Option.isSome_iff_exists, Option.isSome_iff_ne_none, ne_eq, lookup?_eq_none_iff, hkey]
        simp
      rw [List.findSome?_cons, List.findSome?_cons, List.findSome?_cons, lookup?_merge hbase hover,
        outranks]
      cases hb : base.keyFor? name with
      | none =>
          rw [lookup?_eq_none_iff.mpr hb]
          cases ho : overrides.keyFor? name with
          | none =>
              rw [lookup?_eq_none_iff.mpr ho]
              exact ih
          | some other =>
              obtain ⟨value, hvalue⟩ := hsome ho
              rw [hvalue]
              rfl
      | some key =>
          obtain ⟨below, hbelow⟩ := hsome hb
          rw [hbelow]
          cases ho : overrides.keyFor? name with
          | none => rfl
          | some other =>
              obtain ⟨above, habove⟩ := hsome ho
              rw [habove]
              by_cases hlt : key < other <;> simp [hlt]

/-- A layer that has a key for a name of a rule has a setting for one of its names. -/
theorem exists_findSome? {config : RuleConfig} {names : List String}
    (h : ∃ entry ∈ config, ∃ name ∈ names, sameIgnoringCase entry.1 name = true) :
    ∃ value, names.findSome? (lookup? config) = some value := by
  obtain ⟨entry, hentry, name, hname, hsame⟩ := h
  rw [← Option.isSome_iff_exists, List.findSome?_isSome_iff]
  refine ⟨name, hname, ?_⟩
  rw [lookup?, Option.isSome_map, List.find?_isSome]
  exact ⟨entry, hentry, hsame⟩

/-- With a setting for one of its names, a rule has the same options under every configuration that
has this setting for them. -/
theorem options?_congr {config other : RuleConfig} {names : List String} {value : Json}
    (h : names.findSome? (lookup? config) = some value)
    (hother : names.findSome? (lookup? other) = some value) (tags : List String) :
    config.options? names tags = other.options? names tags := by
  unfold options? setting?
  rw [h, hother]
  cases value with
  | bool on => cases on <;> rfl
  | _ => rfl

end RuleConfig

namespace RuleHead

open RuleConfig

/-- If the upper layer has an entry for a rule, under any of its names and in any case, it decides
the rule, unless the entry of the lower layer comes first; then that one does. -/
theorem options?_merge_of_named {base overrides : RuleConfig} (hbase : Dict.Sorted base)
    (hover : Dict.Sorted overrides) (r : RuleHead)
    (hnamed : ∃ entry ∈ overrides, ∃ name ∈ r.names, sameIgnoringCase entry.1 name = true) :
    r.options? (merge base overrides) =
      if outranks base overrides r.names then r.options? base else r.options? overrides := by
  have hkept : ∃ entry ∈ merge base overrides, ∃ name ∈ r.names,
      sameIgnoringCase entry.1 name = true := by
    obtain ⟨entry, hentry, hname⟩ := hnamed
    exact ⟨entry, (Dict.mem_override hbase hover).mpr (.inl hentry), hname⟩
  obtain ⟨value, hvalue⟩ := exists_findSome? hkept
  have hlayer := hvalue
  rw [findSome?_lookup?_merge hbase hover] at hlayer
  split
  · next hrank => exact options?_congr hvalue (by rwa [if_pos hrank] at hlayer) r.tags
  · next hrank => exact options?_congr hvalue (by rwa [if_neg hrank] at hlayer) r.tags

/-- A limit for the line length under the rule's own name, over the default. -/
theorem options?_merge_of_limit :
    Rule.lineLength.options? (merge .default [("MD013", .obj [("line_length", .nat 90)])]) =
      some [("line_length", .nat 90)] := by
  rw [options?_merge_of_named (by decide) (by decide) Rule.lineLength
    ⟨("MD013", .obj [("line_length", .nat 90)]), by simp, "MD013",
      by simp [RuleHead.names, Rule.lineLength], rfl⟩]
  rfl

/-- The other name of the rule comes too late: the default keeps the rule off. -/
theorem alias_does_not_override :
    ¬∀ base overrides : RuleConfig, Dict.Sorted base → Dict.Sorted overrides →
      ∀ r ∈ Rule.builtin,
        (∃ entry ∈ overrides, ∃ name ∈ r.names, sameIgnoringCase entry.1 name = true) →
          r.options? (merge base overrides) = r.options? overrides := by
  intro hall
  have hsame := hall .default [("line-length", .bool true)] (by decide) (by decide)
    Rule.lineLength (by simp [Rule.builtin])
    ⟨("line-length", .bool true), by simp, "line-length", by simp [RuleHead.names, Rule.lineLength],
      rfl⟩
  have hoff : Rule.lineLength.options? (merge .default [("line-length", .bool true)]) = none := rfl
  have hon : Rule.lineLength.options? [("line-length", .bool true)] = some [] := rfl
  rw [hoff, hon] at hsame
  cases hsame

end RuleHead

end LintDesk
