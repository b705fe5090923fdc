import LintDesk.Files.Disk
import LintDesk.Url.Percent

/-!
Whole trees: how one is built up, and how two of them differ.
-/

namespace LintDesk

def DiskNode.ofBytes (bytes : List UInt8) : DiskNode :=
  let isText := Url.isUtf8 bytes.length (bytes.map UInt8.toNat)
  .file (if isText then some (String.ofList (Url.textOfBytes bytes)) else none)

namespace Disk

/-- Puts a node at a place, and directories above it where nothing is. -/
def plant (d : Disk) (place : List String) (node : DiskNode) : Disk :=
  let ancestors := (List.range place.length).map place.take
  let d := ancestors.foldl (fun d above =>
    if (d.node? above).isNone then d.put above (some .directory) else d) d
  d.put place (some node)

def prune (d : Disk) (place : List String) : Disk :=
  { d with nodes := d.nodes.filter fun n => !place.isPrefixOf n.1 }

/-- The files below a place, by their names from there on, with their texts. -/
def textsBelow (d : Disk) (place : List String) : List (String × Option String) :=
  d.nodes.filterMap fun (p, node) =>
    match node with
    | .file text =>
      if place.isPrefixOf p then some (String.intercalate "/" (p.drop place.length), text)
      else none
    | _ => none

/-- The files below a place that are new or have another text, and those that are gone. -/
def changesSince (d before : Disk) (place : List String) : List (String × Option String) :=
  let old := before.textsBelow place
  let new := d.textsBelow place
  new.filter (fun f => old.lookup f.1 ≠ some f.2) ++
    (old.filter fun f => (new.lookup f.1).isNone).map fun f => (f.1, none)

end Disk

end LintDesk
