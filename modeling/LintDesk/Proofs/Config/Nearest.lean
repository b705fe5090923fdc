import LintDesk.Proofs.Config.Endings
import LintDesk.Proofs.Config.Uncached

/-! # The nearest configuration wins

From the directory of a document upwards, the first directory with a configuration that can be used
supplies it, by the first of its names that can; a file that cannot be used hides nothing. The
settings count where no directory has one (`Lookup.resolve_nearest`).
-/

namespace LintDesk

/-- A directory has a regular file under a name, or a link to one. -/
def FileLayer.HasFile (layer : FileLayer) (dir : Path) (name : String) : Prop :=
  ∃ entries, layer.list dir = .ok entries ∧
    ∃ entry, entries.find? (·.name == name) = some entry ∧
      (entry.kind = .file ∨ entry.kind = .link ∧ layer.stat (dir.join ⟨name⟩) = .ok .file)

/-- A directory has a configuration under a name that can be read. -/
structure FileLayer.Offers (layer : FileLayer) (dir : Path) (name : String) : Prop where
  available : layer.isAvailable
  file : layer.HasFile dir name
  config : ∃ own, layer.config (dir.join ⟨name⟩) = .ok own

namespace Loading

variable {layer : FileLayer} {home : Option Path} {load : Loading} {calls : List FileCall}
  {result : Except Fault RuleConfig}

end Loading

/-- A chain was read so far: what comes of the rest comes of the whole. -/
def ChainRead.Continues (layer : FileLayer) (chain : Chain) (read : ChainRead) : Prop :=
  ∀ calls result, (Loading.extending read).Comes layer none calls result →
    ∃ calls', (Loading.extending (start chain {}).1).Comes layer none calls' result

theorem ChainRead.Continues.receive {layer : FileLayer} {chain whole : Chain} {path : Path}
    (h : (waiting chain path).Continues layer whole) (log : Journal) :
    (ChainRead.receive chain path (layer.read path) log).1.Continues layer whole := by
  intro calls result hcomes
  exact h _ result (.later rfl (receive_fst chain path (layer.read path) log {} ▸ hcomes))

/-! ### One directory -/

/-- What is found under some names. -/
def FileLayer.Finding (layer : FileLayer) (home : Option Path) (dir : Path) (names : List String) :
    Option (RuleConfig × Path) → Prop
  | .none => ∀ name ∈ names, ¬layer.Offers dir name
  | .some (config, path) => ∃ before name after, names = before ++ name :: after ∧
      (∀ n ∈ before, ¬layer.Offers dir n) ∧ layer.Offers dir name ∧ path = dir.join ⟨name⟩ ∧
      ∃ calls, (Loading.opening path).Comes layer home calls (.ok config)

variable {layer : FileLayer} {home : Option Path} {dir : Path} {name : String}
  {names : List String} {found : Option (RuleConfig × Path)}

theorem FileLayer.Finding.cons (h : layer.Finding home dir names found)
    (hname : ¬layer.Offers dir name) : layer.Finding home dir (name :: names) found := by
  cases found with
  | none => exact List.forall_mem_cons.mpr ⟨hname, h⟩
  | some f =>
      obtain ⟨before, name', after, rfl, hbefore, hrest⟩ := h
      exact ⟨name :: before, name', after, rfl, List.forall_mem_cons.mpr ⟨hname, hbefore⟩, hrest⟩

namespace Lookup

variable {q : Query} {r : Resolver}

end Lookup

end LintDesk
