import FlowTypes.Proofs.Ty.Acyclic
import FlowTypes.Proofs.Ty.Reflexivity

namespace FlowTypes.Ty

variable {σ τ : Option Bindings} {n : Bool} {l b : Ty}

/-- A type that gains alternatives, or `null`, loses nothing that it accepts. -/
theorem accept?_wider (hσ : ∀ ρ ∈ σ, ρ.Acyclic)
    (h : accept? ⟨n, false⟩ l b σ = some (true, τ)) :
    (∀ r, accept? ⟨n, false⟩ (.union l r) b σ = some (true, σ) ∧
      accept? ⟨n, false⟩ (.union r l) b σ = some (true, σ)) ∧
    accept? ⟨n, false⟩ (.nullable l) b σ = some (true, σ) ∧
    accept? ⟨true, false⟩ l b σ = some (true, σ) := by
  have hl : Receives σ n l b := receives_of_acceptWithin h
  refine ⟨fun r ↦ ⟨?_, ?_⟩, ?_, ?_⟩
  · exact accept?_of_receives hσ (hl.inLeft r)
  · exact accept?_of_receives hσ (hl.inRight r)
  · exact accept?_of_receives hσ hl.inNullable
  · exact accept?_of_receives hσ hl.welcome

theorem accept?_wider_generic :
    let ρ : Bindings := [("T", .nullable (.list (.generic "S"))), ("S", .primitive .string)]
    let b : Ty := .union (.list (.literal (.string "x")))
      (.nullable (.inter (.list (.primitive .string)) (.tag "a")))
    accept? .reading (.generic "T") b (some ρ) = some (true, some ρ) ∧
      accept? .reading (.union (.primitive .int) (.generic "T")) b (some ρ) =
        some (true, some ρ) := by
  intro ρ b
  have hρ : ρ.Acyclic :=
    Bindings.acyclic_of_entries (fun name ↦ if name = "S" then 1 else 4) (by decide)
  have h : accept? .reading (.generic "T") b (some ρ) = some (true, some ρ) := rfl
  exact ⟨h, ((accept?_wider (by rintro _ ⟨⟩; exact hρ) h).1 (.primitive .int)).2⟩

end FlowTypes.Ty
