import FlowTypes.Proofs.Json.WellFormed
import FlowTypes.Proofs.Ty.Parts
import FlowTypes.Ty.Tree

namespace FlowTypes.Ty

def namesFinite : Ty → Bool
  | .literal (.number x) => x.isFinite
  | _ => true

section

variable {go : Json → Option Ty} {late : Bool}

/-- A type is what the decoder makes of some tree that is a value as they are read. -/
def IsDecoded (go : Json → Option Ty) (t : Ty) : Prop := ∃ tree, tree.wellFormed ∧ go tree = some t

section

variable {data : Option Json} (hw : ∀ value ∈ data, value.wellFormed)
include hw

end

/-- A type that has been decoded names only finite numbers, and its parts have been decoded. -/
structure Decoded (go : Json → Option Ty) (t : Ty) : Prop where
  finite : t.namesFinite
  parts : ∀ s ∈ t.parts, IsDecoded go s

namespace Decoded

variable {t : Ty} (hf : t.namesFinite)
include hf

theorem bare (h : t.parts = []) : Decoded go t := ⟨hf, by simp [h]⟩

theorem unary {r : Ty} (h : t.parts = [r]) (hr : IsDecoded go r) : Decoded go t :=
  ⟨hf, by simpa [h] using hr⟩

theorem binary {l r : Ty} (h : t.parts = [l, r]) (hl : IsDecoded go l) (hr : IsDecoded go r) :
    Decoded go t := ⟨hf, by simpa [h] using ⟨hl, hr⟩⟩

end Decoded

end

end FlowTypes.Ty
