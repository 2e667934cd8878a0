import FlowTypes.Proofs.Ty.Plain
import FlowTypes.Proofs.Ty.Verdicts
import Mathlib.Data.List.Chain

namespace FlowTypes

namespace Ty

open Session

/-- What is bound stays bound, in its place, perhaps to a wider type. -/
structure Continues (ρ τ : Bindings) : Prop where
  names : ρ.names <+: τ.names
  widens (name : String) (t : Ty) : ρ.lookup name = some t →
    ∃ t', τ.lookup name = some t' ∧ Widens t t'

theorem Continues.refl (ρ : Bindings) : Continues ρ ρ :=
  ⟨List.prefix_rfl, fun _ t h ↦ ⟨t, h, .refl⟩⟩

theorem Continues.trans {ρ σ τ : Bindings} (h : Continues ρ σ) (h' : Continues σ τ) :
    Continues ρ τ where
  names := h.names.trans h'.names
  widens name t ht := by
    obtain ⟨t', ht', hw⟩ := h.widens name t ht
    obtain ⟨t'', ht'', hw'⟩ := h'.widens name t' ht'
    exact ⟨t'', ht'', hw.trans hw'⟩

theorem widens_widenedBy (b old : Ty) : Widens old (widenedBy b (some old)) := .union b .refl

theorem lasts_continues : Lasts (fun _ ↦ True) Continues where
  refl := .refl
  trans := .trans
  put {b ρ τ} name _ h := by
    refine ⟨h.names.trans (names_prefix_put name _ τ), fun other t ht ↦ ?_⟩
    by_cases he : other = name
    · subst he
      refine ⟨_, lookup_put_self other _ τ, ?_⟩
      rw [ht]
      exact widens_widenedBy b t
    · rw [lookup_put_of_ne name _ he]
      exact h.widens other t ht

instance : Trans Continues Continues Continues := ⟨.trans⟩

/-- Bindings go on from one moment of a session to all later ones, whatever is matched in between
and whether or not it is accepted. -/
theorem accept?_continues :
    (∀ fuel mode a b ρ c σ, acceptWithin fuel mode a b (some ρ) = some (c, σ) →
      ∃ τ, σ = some τ ∧ Continues ρ τ) ∧
    ∀ moments : List Bindings,
      moments.IsChain (fun ρ τ ↦ ∃ mode a b c, accept? mode a b (some ρ) = some (c, some τ)) →
        moments.Pairwise Continues := by
  have hmatch : ∀ fuel mode a b ρ c σ, acceptWithin fuel mode a b (some ρ) = some (c, σ) →
      ∃ τ, σ = some τ ∧ Continues ρ τ :=
    fun fuel mode a _ _ _ _ h ↦
      lasts_continues.acceptWithin hereditary_true fuel mode a trivial _ _ _ h
  refine ⟨hmatch, fun moments h ↦ List.isChain_iff_pairwise.1 (h.imp ?_)⟩
  rintro ρ τ ⟨mode, a, b, c, hc⟩
  obtain ⟨_, ⟨⟩, hτ⟩ := hmatch _ mode a b ρ c _ hc
  exact hτ

theorem accept?_continues_in_bound :
    let receiving : Ty := .bounded "T" (.struct [⟨"a", false, .generic "T"⟩])
    let received : Ty := .struct [⟨"a", false, .primitive .int⟩]
    let before : Bindings := [("T", .primitive .string)]
    let after : Bindings := [("T", .union (.primitive .string) received)]
    accept? .resolve receiving received (some before) = some (true, some after) ∧
      accept? .resolve (.generic "U") (.primitive .bool) (some after) =
        some (true, some (after ++ [("U", .primitive .bool)])) ∧
      Continues before (after ++ [("U", .primitive .bool)]) := by
  intro receiving received before after
  have h₁ : accept? .resolve receiving received (some before) = some (true, some after) := rfl
  have h₂ : accept? .resolve (.generic "U") (.primitive .bool) (some after) =
      some (true, some (after ++ [("U", .primitive .bool)])) := rfl
  have h := accept?_continues.2 [before, after, after ++ [("U", .primitive .bool)]]
    (.cons_cons ⟨_, _, _, _, h₁⟩ (.cons_cons ⟨_, _, _, _, h₂⟩ (.singleton _)))
  exact ⟨h₁, h₂, List.rel_of_pairwise_cons h (by simp)⟩

/-- Bindings go on from others, and no type with generics comes in. -/
structure Grows (ρ τ : Bindings) : Prop extends Continues ρ τ where
  closed : ρ.Closed → τ.Closed

theorem Grows.refl (ρ : Bindings) : Grows ρ ρ := ⟨.refl ρ, id⟩

theorem Grows.trans {ρ σ τ : Bindings} (h : Grows ρ σ) (h' : Grows σ τ) : Grows ρ τ :=
  ⟨h.toContinues.trans h'.toContinues, fun hc ↦ h'.closed (h.closed hc)⟩

theorem generics_widenedBy {b : Ty} (hb : b.generics = []) (old : Option Ty) :
    (widenedBy b old).generics = old.elim [] generics := by
  cases old <;> simp [widenedBy, generics, hb]

theorem lasts_grows : Lasts (fun t ↦ t.generics = []) Grows where
  refl := .refl
  trans := .trans
  put {b ρ τ} name hb h := by
    refine ⟨lasts_continues.put name trivial h.toContinues, fun hc ↦ ?_⟩
    refine (h.closed hc).put ?_ name
    rw [generics_widenedBy hb]
    cases hl : ρ.lookup name with
    | none => rfl
    | some old => exact hc _ (mem_of_lookup hl)

theorem Throughout.exists_bindings {R : Bindings → Bindings → Prop} {σ : Option Bindings}
    {τ : Bindings} (h : Throughout R σ (some τ)) : ∃ ρ, σ = some ρ ∧ R ρ τ := by
  cases σ with
  | none => simp [Throughout] at h
  | some ρ =>
    obtain ⟨_, he, hg⟩ := h
    obtain rfl := Option.some_inj.1 he
    exact ⟨ρ, rfl, hg⟩

abbrev GrowsTo : Option Bindings → Option Bindings → Prop := Throughout Grows

theorem along_growsTo : Along GrowsTo := lasts_grows.along

variable {go : Mode → Ty → Ty → Session Bool} {n : Bool} {name : String} {bound : Option Ty}
  {b : Ty}

theorem hereditary_ground : Hereditary fun t ↦ t.generics = [] where
  part := generics_eq_nil_of_mem_parts
  union := List.append_eq_nil_iff.1
  inter := List.append_eq_nil_iff.1
  generic h := by simp [generics] at h

section

variable {ρ final : Bindings} {σ τ : Option Bindings}

theorem receives_of_lookup {t : Ty} (hs : b.splits = false) (hl : final.lookup name = some t)
    (h : Receives (some final) n t b) :
    Receives (some final) n (bound.elim (.generic name) (.bounded name)) b := by
  cases bound with
  | none => exact .genericBinding hs hl h
  | some s => exact .boundedBinding hs hl h

theorem lookup_of_assigned {t : Ty} {c : Bool} (h : assign name t σ = some (c, τ))
    (hτ : GrowsTo τ (some final)) : ∃ t', final.lookup name = some t' ∧ Widens t t' := by
  simp only [assign_apply, Option.some.injEq, Prod.mk.injEq] at h
  rw [← h.2] at hτ
  obtain ⟨υ, he, hg⟩ := hτ.exists_bindings
  obtain ⟨ρ, rfl, rfl⟩ := Option.map_eq_some_iff.1 he
  exact hg.widens name t (lookup_put_self name t ρ)

theorem receives_of_resolved (hf : final.Closed)
    (hgo : ∀ {σ τ a}, a.generics = [] → GrowsTo τ (some final) →
      go ⟨n, true⟩ a b σ = some (true, τ) → Receives (some final) n a b)
    (hself : Receives (some final) n b b) (hs : b.splits = false) (hρ : Grows ρ final)
    (hτ : GrowsTo τ (some final))
    (h : receiveGeneric go ⟨n, true⟩ name bound b (some ρ) = some (true, τ)) :
    Receives (some final) n (bound.elim (.generic name) (.bounded name)) b := by
  cases hl : ρ.lookup name with
  | none =>
    rw [receiveGeneric_unbound n hl] at h
    obtain ⟨σ, -, h⟩ | ⟨-, h⟩ := both_eq_some.1 h
    · obtain ⟨t, ht, hw⟩ := lookup_of_assigned h hτ
      exact receives_of_lookup hs ht (hw.receives hself)
    · simp at h
  | some old =>
    rw [receiveGeneric_bound n hl] at h
    obtain ⟨σ, -, h⟩ | ⟨-, h⟩ := both_eq_some.1 h
    · obtain ⟨σ', -, h⟩ | ⟨h, -⟩ := either_eq_some.1 h
      · obtain ⟨t, ht, hw⟩ := lookup_of_assigned h hτ
        exact receives_of_lookup hs ht (hw.receives (hself.inRight old))
      · obtain ⟨t, ht, hw⟩ := hρ.widens name old hl
        have hold := hw.generics (hf _ (mem_of_lookup ht))
        exact receives_of_lookup hs ht (hw.receives (hgo hold hτ h))
    · simp at h

end

theorem grows_of_ground {fuel : Nat} {mode : Mode} {a b : Ty} (hb : b.generics = []) :
    Moves GrowsTo (acceptWithin fuel mode a b) :=
  lasts_grows.acceptWithin hereditary_ground fuel mode a hb

theorem grows_acceptWithin {fuel : Nat} {mode : Mode} {a b : Ty} (hb : b.every isPlain) :
    Moves GrowsTo (acceptWithin fuel mode a b) := grows_of_ground (generics_of_isPlain hb)

end Ty

end FlowTypes
