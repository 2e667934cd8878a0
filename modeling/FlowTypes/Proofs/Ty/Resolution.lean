import FlowTypes.Proofs.Ty.Growth

namespace FlowTypes

namespace Ty

open Session

/-- Is the generic not bound yet, but in the end? -/
def isEarly (final : Bindings) (σ : Option Bindings) (name : String) : Bool :=
  σ.any fun ρ ↦ (ρ.lookup name).isNone && (final.lookup name).isSome

def generic? : Ty → Option String
  | .generic name | .bounded name _ => some name
  | _ => none

/-- The check of a value against a type, without a verdict if a generic of the type is not bound yet
but in the end. -/
def checkSettled (final : Bindings) (fuel : Nat) (ty : Ty) (value : Json) : Session Bool := fun σ ↦
  if ty.generics.any (isEarly final σ) then none else checkInSession fuel ty value σ

/-- The match, without a verdict if it reads a generic that is not bound yet but in the end. -/
def acceptSettled (final : Bindings) : Nat → Mode → Ty → Ty → Session Bool
  | 0, _, _, _ => failure
  | fuel + 1, mode, receiving, received => fun σ ↦
    if !mode.resolving && receiving.generic?.any (isEarly final σ) then none
    else receiveParts (acceptSettled final fuel) (checkSettled final fuel) mode receiving received σ

theorem refines_acceptSettled (final : Bindings) (fuel : Nat) (mode : Mode) (a b : Ty) :
    Refines (acceptSettled final fuel mode a b) (acceptWithin fuel mode a b) := by
  induction fuel generalizing mode a b with
  | zero => exact .refl _
  | succ fuel ih =>
    intro σ x h
    simp only [acceptSettled] at h
    split at h
    · simp at h
    · refine refines_receiveParts ih (fun t v ↦ ?_) mode a b σ x h
      intro σ x hc
      unfold checkSettled at hc
      split at hc
      · simp at hc
      · exact hc

theorem shallow_of_grows {ρ final : Bindings} (h : Grows ρ final) (hf : final.Closed) :
    Shallow final.size (some ρ) := by
  intro name t ht
  obtain ⟨t', ht', hw⟩ := h.widens name t ht
  have hs : t.size ≤ t'.size := by
    clear ht ht'
    induction hw with
    | refl => exact Nat.le_refl _
    | union s _ ih => exact Nat.le_trans ih (by simp [size]; omega)
  exact ⟨hw.generics (hf _ (mem_of_lookup ht')),
    Nat.le_trans hs (Bindings.size_of_mem (mem_of_lookup ht'))⟩

theorem checkWithin_final {ρ final : Bindings} (hg : Grows ρ final) (hf : final.Closed) {a : Ty}
    (hs : a.generics.any (isEarly final (some ρ)) = false) {fuel : Nat} {v : Json}
    (h : checkWithin ρ [] fuel a (some v) = some true) :
    ∃ fuel, checkWithin final [] fuel a (some v) = some true := by
  have hρ := shallow_of_grows hg hf
  have hφ := shallow_of_closed hf
  have hc := checkWithin_eq_holds ρ (ρ.env []) final.size
    (fun name _ ↦ agrees_env hρ [] name) (Nat.le_refl (a.size + final.size)) (some v)
  have hc' := checkWithin_eq_holds final (final.env []) final.size
    (fun name _ ↦ agrees_env hφ [] name) (Nat.le_refl (a.size + final.size)) (some v)
  refine ⟨_, hc'.trans (congrArg some (holds_mono ?_ (checkWithin_unique hc h)))⟩
  intro name hn
  unfold WidensAt Bindings.env
  cases hl : ρ.lookup name with
  | none =>
    have he := List.any_eq_false.1 hs name hn
    simp only [isEarly, Option.any_some, hl, Option.isNone_none, Bool.true_and,
      Option.isSome_iff_ne_none, ne_eq, Decidable.not_not] at he
    simp [he]
  | some t =>
    obtain ⟨t', ht', hw⟩ := hg.widens name t hl
    simp only [ht', Option.map_some]
    exact fun value ↦ hw.holds

section

variable {go : Mode → Ty → Ty → Session Bool} {ρ final : Bindings} {τ : Option Bindings} {n : Bool}
  {name : String} {bound : Option Ty} {b : Ty}

theorem receives_of_read (hgo : ∀ {σ τ a}, GrowsTo τ (some final) →
      go ⟨n, false⟩ a b σ = some (true, τ) → Receives (some final) n a b)
    (hs : b.splits = false) (hρ : Grows ρ final) (hτ : GrowsTo τ (some final))
    (h : receiveGeneric go ⟨n, false⟩ name bound b (some ρ) = some (true, τ))
    (hearly : isEarly final (some ρ) name = false) :
    Receives (some final) n (bound.elim (.generic name) (.bounded name)) b := by
  rw [receiveGeneric_reading, Option.bind_some] at h
  cases hl : ρ.lookup name with
  | none =>
    have hf : final.lookup name = none := by simpa [isEarly, hl] using hearly
    rw [hl] at h
    cases bound with
    | none => exact .generic hs hf
    | some t => exact .bounded hs hf (hgo hτ h)
  | some old =>
    rw [hl] at h
    obtain ⟨t, ht, hw⟩ := hρ.widens name old hl
    exact receives_of_lookup hs ht (hw.receives (hgo hτ h))

end

theorem receives_of_acceptSettled {final : Bindings} (hf : final.Closed) {fuel : Nat}
    {n res : Bool} {a b : Ty} (hb : b.every isPlain) {σ τ : Option Bindings}
    (hτ : GrowsTo τ (some final))
    (h : acceptSettled final fuel ⟨n, res⟩ a b σ = some (true, τ)) :
    Receives (some final) n a b := by
  induction fuel generalizing n res a b σ τ with
  | zero => exact absurd h (by simp [acceptSettled, failure, StateT.failure])
  | succ fuel ih =>
    have hmove {mode : Mode} {a b : Ty} (hb : b.every isPlain) :
        Moves GrowsTo (acceptSettled final fuel mode a b) := fun σ c τ h ↦
      grows_acceptWithin hb _ _ _ (refines_acceptSettled final fuel _ _ _ _ _ h)
    have hd : Derives (acceptSettled final fuel) GrowsTo (fun _ _ ↦ True) (fun t ↦ t.every isPlain)
        (some final) res := {
      along := along_growsTo
      receptive := receptive_true
      hereditary := hereditary_isPlain
      moves := fun _ _ _ hb ↦ hmove hb
      movesReading := fun _ _ hb ↦ hmove hb
      receives := fun _ hb hτ h ↦ ih hb hτ h
      receivesReading := fun _ hb hτ h ↦ ih hb hτ h
      receivesIsolated := fun _ _ h ↦
        receives_of_acceptWithin (refines_acceptSettled final fuel _ _ _ _ _ h) }
    have hgrow := grows_acceptWithin hb _ _ _ (refines_acceptSettled final (fuel + 1) _ _ _ _ _ h)
    obtain ⟨ρ, rfl, hρ⟩ := (along_growsTo.trans hgrow hτ).exists_bindings
    simp only [acceptSettled] at h
    split at h
    · simp at h
    next hearly =>
    refine hd.step hτ ?_ trivial hb ?_ h
    · intro _ σ l hc
      unfold checkSettled at hc
      split at hc
      · simp at hc
      next hs =>
      obtain ⟨rfl, hc⟩ := checkInSession_eq_some.1 hc
      obtain ⟨υ, rfl, hg⟩ := hτ.exists_bindings
      exact checkWithin_final hg hf (by simpa using hs) hc
    · rintro name bound rfl hs hgen
      cases res with
      | true =>
        exact receives_of_resolved hf (fun _ hτ h ↦ ih hb hτ h) (.refl hb _ n) hs hρ hτ hgen
      | false =>
        refine receives_of_read (fun hτ h ↦ ih hb hτ h) hs hρ hτ hgen ?_
        cases bound <;> simpa [generic?] using hearly

/-- Resolution is sound: if a match that resolves generics accepts a plain type and reads no generic
before it is bound, a match that reads the bindings it leaves accepts that type too. -/
theorem accept?_reading_of_resolve {a b : Ty} {bindings final : Bindings} (hb : b.every isPlain)
    (hc : bindings.Closed) (h : accept? .resolve a b (some bindings) = some (true, some final))
    (hs : (acceptSettled final (acceptDepth a b (some bindings)) .resolve a b
      (some bindings)).isSome) :
    accept? .reading a b (some final) = some (true, some final) := by
  obtain ⟨_, he, hg⟩ := grows_acceptWithin hb _ _ _ h
  obtain rfl := Option.some_inj.1 he
  have hf := hg.closed hc
  obtain ⟨x, hx⟩ := Option.isSome_iff_exists.1 hs
  have hr := refines_acceptSettled final _ _ _ _ _ _ hx
  obtain rfl : x = (true, some final) := Option.some_inj.1 (hr.symm.trans h)
  refine (accept?_reading_iff ?_ false a b).2 ?_
  · rintro _ ⟨⟩
    exact hf
  · exact receives_of_acceptSettled hf hb (along_growsTo.refl _) hx

theorem accept?_reading_of_resolve_items :
    accept? .reading
      (.struct [⟨"a", false, .generic "T"⟩, ⟨"b", false, .generic "T"⟩,
        ⟨"c", false, .list (.generic "T")⟩])
      (.struct [⟨"a", false, .primitive .bool⟩, ⟨"b", false, .primitive .string⟩,
        ⟨"c", false, .list (.primitive .string)⟩])
      (some [("T", .union (.primitive .bool) (.primitive .string))]) =
    some (true, some [("T", .union (.primitive .bool) (.primitive .string))]) :=
  @accept?_reading_of_resolve _ _ [] _ rfl (by simp [Bindings.Closed]) rfl rfl

/-- The items of a list read a generic before it is bound, so the binding fits only what comes
later. -/
theorem resolve_reads_items_early :
    accept? .resolve
      (.struct [⟨"a", false, .list (.generic "T")⟩, ⟨"b", false, .generic "T"⟩])
      (.struct [⟨"a", false, .list (.primitive .int)⟩, ⟨"b", false, .primitive .string⟩])
      (some []) = some (true, some [("T", .primitive .string)]) ∧
    accept? .reading
      (.struct [⟨"a", false, .list (.generic "T")⟩, ⟨"b", false, .generic "T"⟩])
      (.struct [⟨"a", false, .list (.primitive .int)⟩, ⟨"b", false, .primitive .string⟩])
      (some [("T", .primitive .string)]) = some (false, some [("T", .primitive .string)]) :=
  ⟨rfl, rfl⟩

end Ty

end FlowTypes
