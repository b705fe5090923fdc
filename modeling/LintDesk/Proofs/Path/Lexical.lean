import LintDesk.Proofs.Path
import Mathlib.Algebra.Group.Nat.Even

/-! # Taking `..` out of a path

By its text alone a path stands for the one in which every `..` has taken back the name before it;
the `..` without such a name stay in a relative path and are dropped at the root. Normalizing takes
back a `..` that has stayed as if it were a name, so that of the `..` that are left over only the
last one stays, and that only if their number is odd (`normalize_eq_by_parity`).
-/

namespace LintDesk.Path

/-- Resolves one more component by the text alone. -/
def resolveName (done : List Component) : Component → List Component
  | .here => done
  | .up =>
    match done.getLast? with
    | some (.name _) => done.dropLast
    | some .root => done
    | _ => done ++ [.up]
  | c => done ++ [c]

/-- The path that the text of a path stands for. -/
def lexical (p : Path) : Path :=
  ofComponents (p.components.foldl resolveName [])

/-- Where the components of a path lead: the `..` that have no name before them to take back, and
the names that are not taken back. -/
structure Climb where
  ups : Nat := 0
  names : List String := []
  deriving DecidableEq, Repr

namespace Climb

/-- Goes on by one component. -/
def step (c : Climb) : Component → Climb
  | .up =>
    if c.names = [] then { c with ups := c.ups + 1 } else { c with names := c.names.dropLast }
  | .name s => { c with names := c.names ++ [s] }
  | _ => c

/-- The components that a climb ends with, if `ups` of the steps up are kept. -/
def components (c : Climb) (ups : Nat) : List Component :=
  List.replicate ups .up ++ c.names.map .name

end Climb

/-- Where a path leads. -/
def climb (p : Path) : Climb :=
  p.components.foldl Climb.step {}

/-- The root, if the path starts there. -/
def stem (p : Path) : List Component :=
  if p.isAbsolute then [.root] else []

/-! ### One component -/

theorem AreParts.up_or_name {cs : List Component} (h : AreParts cs) {c : Component} (hc : c ∈ cs) :
    c = .up ∨ ∃ s, c = .name s := by
  have hpart := (h c hc).1
  cases c with
  | root => exact absurd hpart (component?_ne_root _)
  | here => exact absurd hpart (by decide)
  | up => exact .inl rfl
  | name s => exact .inr ⟨s, rfl⟩

theorem areParts_replicate_up (n : Nat) : AreParts (List.replicate n .up) := by
  intro c hc
  rw [List.eq_of_mem_replicate hc]
  decide

theorem AreParts.append {cs cs' : List Component} (h : AreParts cs) (h' : AreParts cs') :
    AreParts (cs ++ cs') := by
  intro c hc
  rcases List.mem_append.mp hc with hc | hc
  · exact h c hc
  · exact h' c hc

section Steps

variable {start : List Component} (hstart : start = [] ∨ start = [.root]) (c : Climb)

include hstart

/-- Normalizing keeps a step up that is left over if none is kept yet, and else drops both. -/
theorem resolveStep_components {b : Component} (hb : b = .up ∨ ∃ s, b = .name s) :
    resolveStep (start ++ c.components (c.ups % 2)) b =
      start ++ (c.step b).components ((c.step b).ups % 2) := by
  obtain ⟨ups, names⟩ := c
  rcases hb with rfl | ⟨s, rfl⟩
  · rcases List.eq_nil_or_concat' names with rfl | ⟨before, s, rfl⟩
    · rcases Nat.mod_two_eq_zero_or_one ups with hups | hups
      · have hnext : (ups + 1) % 2 = 1 := by omega
        rcases hstart with rfl | rfl <;>
          simp [Climb.components, Climb.step, resolveStep, dropLast?, hups, hnext]
      · have hnext : (ups + 1) % 2 = 0 := by omega
        simp [Climb.components, Climb.step, resolveStep, dropLast?, hups, hnext]
    · simp [Climb.components, Climb.step, resolveStep, dropLast?, ← List.append_assoc]
  · simp [Climb.components, Climb.step, resolveStep]

/-- By the text alone a step up that is left over stays, but not at the root. -/
theorem resolveName_components {b : Component} (hb : b = .up ∨ ∃ s, b = .name s) :
    resolveName (start ++ c.components (if start = [] then c.ups else 0)) b =
      start ++ (c.step b).components (if start = [] then (c.step b).ups else 0) := by
  obtain ⟨ups, names⟩ := c
  rcases hb with rfl | ⟨s, rfl⟩
  · rcases List.eq_nil_or_concat' names with rfl | ⟨before, s, rfl⟩
    · rcases hstart with rfl | rfl
      · cases ups with
        | zero => rfl
        | succ ups =>
            simp [Climb.components, Climb.step, resolveName, List.getLast?_replicate,
              List.replicate_succ']
      · simp [Climb.components, Climb.step, resolveName]
    · simp [Climb.components, Climb.step, resolveName, ← List.append_assoc]
  · simp [Climb.components, Climb.step, resolveName]

end Steps

/-! ### All components -/

/-- After its start a path has steps up and names only. -/
theorem exists_body (p : Path) : ∃ body, AreParts body ∧
    (∀ {α : Type} (f : α → Component → α) (a : α), (∀ a, f a .here = a) →
      p.components.foldl f a = body.foldl f (p.stem.foldl f a)) := by
  refine ⟨p.parts.filterMap component?, areParts_filterMap fun part hpart =>
    slash_not_mem_parts hpart, fun f a hhere => ?_⟩
  unfold components stem
  split
  · rfl
  · split
    · simp [hhere]
    · rfl

theorem foldl_components {body : List Component} (hbody : AreParts body)
    {start : List Component} (hstart : start = [] ∨ start = [.root]) (c : Climb) :
    body.foldl resolveStep (start ++ c.components (c.ups % 2)) =
        start ++ (body.foldl Climb.step c).components ((body.foldl Climb.step c).ups % 2) ∧
      body.foldl resolveName (start ++ c.components (if start = [] then c.ups else 0)) =
        start ++ (body.foldl Climb.step c).components
          (if start = [] then (body.foldl Climb.step c).ups else 0) := by
  induction body generalizing c with
  | nil => exact ⟨rfl, rfl⟩
  | cons b body ih =>
      have hb := hbody.up_or_name List.mem_cons_self
      have hrest : AreParts body := fun b hb => hbody b (List.mem_cons_of_mem _ hb)
      simp only [List.foldl_cons, resolveStep_components hstart c hb,
        resolveName_components hstart c hb]
      exact ih hrest (c.step b)

/-- The names on a climb are names of the path. -/
theorem Climb.mem_names_foldl {body : List Component} {c : Climb} {s : String}
    (h : s ∈ (body.foldl step c).names) : s ∈ c.names ∨ .name s ∈ body := by
  induction body generalizing c with
  | nil => exact .inl h
  | cons b body ih =>
      rcases ih h with hs | hs
      · cases b with
        | root => exact .inl hs
        | here => exact .inl hs
        | up =>
            rw [step] at hs
            split at hs
            · exact .inl hs
            · exact .inl (List.dropLast_subset _ hs)
        | name s' =>
            rw [step, List.mem_append, List.mem_singleton] at hs
            exact hs.imp id fun heq => by simp [heq]
      · exact .inr (List.mem_cons_of_mem b hs)

theorem stem_cases (p : Path) : p.stem = [] ∨ p.stem = [.root] := by
  unfold stem
  split
  · exact .inr rfl
  · exact .inl rfl

theorem foldl_resolve (p : Path) :
    p.components.foldl resolveStep [] = p.stem ++ p.climb.components (p.climb.ups % 2) ∧
      p.components.foldl resolveName [] =
        p.stem ++ p.climb.components (if p.isAbsolute then 0 else p.climb.ups) ∧
      AreParts (p.climb.names.map .name) := by
  obtain ⟨body, hbody, hfold⟩ := p.exists_body
  have hclimb : p.climb = body.foldl Climb.step {} := by
    rw [climb, hfold Climb.step {} fun _ => rfl]
    rcases p.stem_cases with hstem | hstem <;> rw [hstem] <;> rfl
  have hstart : p.stem.foldl resolveStep [] = p.stem ++ ({} : Climb).components 0 ∧
      p.stem.foldl resolveName [] = p.stem ++ ({} : Climb).components 0 := by
    rcases p.stem_cases with hstem | hstem <;> rw [hstem] <;> exact ⟨rfl, rfl⟩
  have hkept : ∀ ups, (if p.stem = [] then ups else 0) = if p.isAbsolute then 0 else ups := by
    intro ups
    unfold stem
    cases p.isAbsolute <;> simp
  obtain ⟨hnormal, hlexical⟩ := foldl_components hbody p.stem_cases {}
  rw [hfold resolveStep [] fun _ => rfl, hfold resolveName [] fun _ => rfl, hstart.1, hstart.2,
    hclimb]
  refine ⟨hnormal, by simpa only [hkept, ite_self] using hlexical, fun part hpart => ?_⟩
  obtain ⟨s, hs, rfl⟩ := List.mem_map.mp hpart
  exact hbody _ ((Climb.mem_names_foldl hs).resolve_left (by simp))

/-! ### Normal paths -/

theorem components_climb (p : Path) (ups : Nat) :
    (ofComponents (p.stem ++ p.climb.components ups)).components =
      p.stem ++ p.climb.components ups :=
  components_ofComponents p.stem_cases
    ((areParts_replicate_up ups).append p.foldl_resolve.2.2)

theorem normalize_eq (p : Path) :
    p.normalize = ofComponents (p.stem ++ p.climb.components (p.climb.ups % 2)) :=
  congrArg ofComponents p.foldl_resolve.1

theorem components_normalize (p : Path) :
    p.normalize.components = p.stem ++ p.climb.components (p.climb.ups % 2) := by
  rw [normalize_eq, components_climb]

/-- A normal path goes up at most once. -/
theorem count_up_normalize (p : Path) : p.normalize.components.count .up ≤ 1 := by
  have hstem : p.stem.count .up = 0 := by
    rcases p.stem_cases with hstem | hstem <;> rw [hstem] <;> rfl
  have hnames : (p.climb.names.map Component.name).count .up = 0 := by simp [List.count_eq_zero]
  rw [components_normalize, Climb.components, List.count_append, List.count_append, hstem, hnames,
    List.count_replicate_self]
  omega

theorem Climb.foldl_components (ups : Nat) (c : Climb) :
    (c.components ups).foldl step {} = { c with ups } := by
  have hups : ∀ m, (List.replicate ups Component.up).foldl step { ups := m } =
      { ups := m + ups } := by
    induction ups with
    | zero => exact fun _ => rfl
    | succ ups ih =>
        intro m
        rw [List.replicate_succ, List.foldl_cons, show step { ups := m } .up = { ups := m + 1 } from
          rfl, ih, Nat.add_assoc, Nat.add_comm 1]
  have hnames : ∀ (names : List String) (c : Climb), (names.map Component.name).foldl step c =
      { c with names := c.names ++ names } := by
    intro names
    induction names with
    | nil => simp
    | cons s names ih => simp [step, ih]
  rw [components, List.foldl_append, hups, hnames]
  simp

/-- What is normal stays as it is. -/
theorem normalize_normalize (p : Path) : p.normalize.normalize = p.normalize := by
  have hstem : p.normalize.stem = p.stem := by
    have habsolute : p.normalize.isAbsolute = p.isAbsolute := by
      rw [Bool.eq_iff_iff, isAbsolute_iff, components_normalize]
      unfold stem
      cases p.isAbsolute with
      | true => simp
      | false =>
          obtain ⟨ups, names⟩ := p.climb
          rcases Nat.mod_two_eq_zero_or_one ups with hups | hups <;>
            cases names <;> simp [Climb.components, hups]
    simp only [stem, habsolute]
  have hclimb : p.normalize.climb = { p.climb with ups := p.climb.ups % 2 } := by
    rw [climb, components_normalize, List.foldl_append]
    rcases p.stem_cases with hstart | hstart <;> rw [hstart] <;> exact Climb.foldl_components _ _
  rw [p.normalize.normalize_eq, hstem, hclimb, p.normalize_eq]
  simp only [Nat.mod_mod]
  rfl

/-- Paths are normalized as their text says up to the number of the `..` that have no name before
them: in a relative path the text keeps all of them, and in an absolute one none, but normalizing
keeps one just if that number is odd. -/
theorem normalize_eq_by_parity (p : Path) :
    p.normalize = ofComponents (p.stem ++ p.climb.components (p.climb.ups % 2)) ∧
      p.lexical =
        ofComponents (p.stem ++ p.climb.components (if p.isAbsolute then 0 else p.climb.ups)) ∧
      (p.normalize = p.lexical ↔
        if p.isAbsolute then Even p.climb.ups else p.climb.ups ≤ 1) := by
  have hlexical : p.lexical = _ := congrArg ofComponents p.foldl_resolve.2.1
  refine ⟨p.normalize_eq, hlexical, ?_⟩
  have hsame : ∀ m n, ofComponents (p.stem ++ p.climb.components m) =
      ofComponents (p.stem ++ p.climb.components n) ↔ m = n := by
    intro m n
    refine ⟨fun heq => ?_, fun heq => by rw [heq]⟩
    have hcomponents := congrArg Path.components heq
    rw [components_climb, components_climb] at hcomponents
    have hlength := congrArg List.length hcomponents
    simpa [Climb.components] using hlength
  rw [p.normalize_eq, hlexical, hsame]
  cases p.isAbsolute with
  | true => simp [Nat.even_iff]
  | false => simp only [Bool.false_eq_true, if_false]; omega

/-- Two steps up that the text keeps are lost. -/
theorem normalize_loses_up : ¬∀ p : Path, p.normalize = p.lexical := by
  intro hall
  have hnormal : normalize ⟨"../shared/../../base.json"⟩ = ⟨"base.json"⟩ := rfl
  have hlexical : lexical ⟨"../shared/../../base.json"⟩ = ⟨"../../base.json"⟩ := rfl
  have hsame := hall ⟨"../shared/../../base.json"⟩
  rw [hnormal, hlexical] at hsame
  exact absurd hsame (by decide)

end LintDesk.Path
