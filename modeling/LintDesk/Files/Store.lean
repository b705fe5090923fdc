import LintDesk.Files.Disk
import LintDesk.Files.Memory

/-!
The files a desk works on: held in memory by the host, or a directory tree.
-/

namespace LintDesk

inductive Files where
  | memory (files : MemoryFiles)
  | disk (tree : Disk)
  deriving Repr

namespace Files

def layer : Files → FileLayer
  | memory files => files.layer
  | disk tree => tree.layer

def delay (path : Path) : Files → Nat
  | memory files => files.delay path
  | disk _ => 0

end Files

end LintDesk
