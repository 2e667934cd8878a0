import FlowTypes.Proofs.Ty.Acyclic

namespace FlowTypes.Ty

open Session

/-- Nodes behind which no generics are out of reach: generics are not resolved in the parts of
tuples, arrays, lists and maps, and those of named types are left out too. -/
def hidesNoGenerics (t : Ty) : Bool := !(t.readsParts || t.isNominal) || t.generics.isEmpty

/-- Receiving types by whether generics are resolved: they are all in reach, or there are none. -/
def InReach : Bool → Ty → Prop
  | true, t => t.every hidesNoGenerics
  | false, t => t.generics = []

theorem receptive_inReach : Receptive InReach where
  part {res s t} ht _ hs := by
    cases res with
    | false => exact generics_eq_nil_of_mem_parts ht hs
    | true => exact every_of_mem_parts ht hs
  reading {res s t} ht hr hs := by
    cases res with
    | false => exact generics_eq_nil_of_mem_parts ht hs
    | true =>
      have hg : t.generics = [] := by simpa [hidesNoGenerics, hr] using every_self ht
      exact generics_eq_nil_of_mem_parts hg hs

theorem generics_of_shape {t : Ty} (ht : t.every hidesNoGenerics) (hs : t.isShape) :
    t.generics = [] ∨ ∃ fs, t = .struct fs := by
  have h := every_self ht
  cases t with
  | struct fs => exact .inr ⟨fs, rfl⟩
  | generic | bounded | nullable | inter | union => simp [isShape] at hs
  | tuple | array | list | map | named =>
    exact .inl (by simpa [hidesNoGenerics, readsParts, isNominal] using h)
  | _ => exact .inl rfl

theorem checkWithin_struct_literal (ρ : Bindings) (fuel : Nat) (fs : List (Field Ty))
    (l : Literal) : checkWithin ρ [] (fuel + 1) (.struct fs) (some l.toJson) = some false := by
  cases l with
  | number x => cases hx : x.isFinite <;> simp [checkWithin, Literal.toJson, hx]
  | _ => simp [checkWithin, Literal.toJson]

theorem checkWithin_shape {ρ τ : Bindings} {fuel : Nat} {t : Ty} {l : Literal} {c : Bool}
    (ht : t.every hidesNoGenerics) (hs : t.isShape)
    (h : checkWithin ρ [] fuel t (some l.toJson) = some c) :
    checkWithin τ [] t.size t (some l.toJson) = some c := by
  rcases generics_of_shape ht hs with hg | ⟨fs, rfl⟩
  · exact checkWithin_rebind hg h
  · have hc := checkWithin_struct_literal ρ fuel fs l
    rw [checkWithin_succ h] at hc
    rw [hc]
    exact checkWithin_struct_literal τ _ fs l

section

variable {final : Bindings} {σ τ : Option Bindings} {n : Bool} {a b : Ty}

theorem receives_of_resolving (hf : final.Closed) {fuel : Nat} (ha : a.every hidesNoGenerics)
    (hb : b.every isSimple) (hτ : GrowsTo τ (some final))
    (h : acceptWithin fuel ⟨n, true⟩ a b σ = some (true, τ)) : Receives (some final) n a b := by
  induction fuel generalizing n a b σ τ with
  | zero => exact absurd h (by simp)
  | succ fuel ih =>
    have hd : Derives (acceptWithin fuel) GrowsTo InReach (fun t ↦ t.every isSimple) (some final)
        true := {
      along := along_growsTo
      receptive := receptive_inReach
      hereditary := hereditary_isSimple
      moves := fun _ _ _ hb ↦ grows_of_ground (generics_of_isSimple hb)
      movesReading := fun _ _ hb ↦ grows_of_ground (generics_of_isSimple hb)
      receives := fun ha hb hτ h ↦ ih ha hb hτ h
      receivesReading := fun ha _ _ h ↦ receives_of_ground ha h
      receivesIsolated := fun ha _ h ↦ receives_of_ground ha h }
    have hgrow := grows_of_ground (generics_of_isSimple hb) _ _ _ h
    obtain ⟨ρ, rfl, hρ⟩ := (along_growsTo.trans hgrow hτ).exists_bindings
    refine hd.step hτ ?_ ha hb ?_ h
    · intro hs υ l hc
      exact ⟨_, checkWithin_shape ha hs (checkInSession_eq_some.1 hc).2⟩
    · rintro name bound rfl hs hg
      exact receives_of_resolved hf (fun hg _ h ↦ receives_of_ground hg h)
        (.refl_of_isSimple hb _ n) hs hρ hτ hg

end

structure Request where
  nullable : Bool
  receiving : Ty
  received : Ty

/-- Resolves generics for one request after the other, with the bindings that the one before has
left. -/
def resolveAll (requests : List Request) : Session (List Bool) :=
  requests.mapM fun r ↦ accept? ⟨r.nullable, true⟩ r.receiving r.received

theorem resolveAll_derives {ρ : Bindings} (hρ : ρ.Closed) {requests : List Request}
    (h : ∀ r ∈ requests, r.receiving.every hidesNoGenerics ∧ r.received.every isSimple) :
    ∃ verdicts final, resolveAll requests (some ρ) = some (verdicts, some final) ∧
      Grows ρ final ∧ verdicts.length = requests.length ∧
      ∀ p ∈ requests.zip verdicts, p.2 = true →
        Receives (some final) p.1.nullable p.1.receiving p.1.received := by
  induction requests generalizing ρ with
  | nil => exact ⟨[], ρ, rfl, .refl ρ, rfl, by simp⟩
  | cons r rs ih =>
    obtain ⟨ha, hb⟩ := h r (by simp)
    obtain ⟨c, τ, hc, hgrow, -⟩ := accept?_resolving_of_acyclic hρ.acyclic r.nullable r.receiving
      (generics_of_isSimple hb)
    obtain ⟨cs, final, hcs, hgrows, hlength, hrest⟩ :=
      ih (hgrow.closed hρ) fun r hr ↦ h r (by simp [hr])
    refine ⟨c :: cs, final, mapM_cons hc hcs, hgrow.trans hgrows, by simp [hlength], ?_⟩
    intro p hp hv
    rcases List.mem_cons.1 hp with rfl | hp
    · have hf := hgrows.closed (hgrow.closed hρ)
      obtain rfl : c = true := hv
      have hτ : GrowsTo (some τ) (some final) := ⟨final, rfl, hgrows⟩
      exact receives_of_resolving hf ha hb hτ hc
    · exact hrest p hp hv

/-- Nothing that has been resolved is lost later in a session: what one of its matches has accepted,
whatever the others did, a match that reads the bindings in the end accepts too. -/
theorem resolveAll_keeps {ρ : Bindings} (hρ : ρ.Closed) {requests : List Request}
    (h : ∀ r ∈ requests, r.receiving.every hidesNoGenerics ∧ r.received.every isSimple) :
    ∃ verdicts final, resolveAll requests (some ρ) = some (verdicts, some final) ∧
      verdicts.length = requests.length ∧
      ∀ p ∈ requests.zip verdicts, p.2 = true →
        accept? ⟨p.1.nullable, false⟩ p.1.receiving p.1.received (some final) =
          some (true, some final) := by
  obtain ⟨verdicts, final, hrun, hgrow, hlength, hkept⟩ := resolveAll_derives hρ h
  refine ⟨verdicts, final, hrun, hlength, fun p hp hv ↦ ?_⟩
  refine (accept?_reading_iff ?_ _ _ _).2 (hkept p hp hv)
  rintro _ ⟨⟩
  exact hgrow.closed hρ

theorem resolveAll_keeps_first :
    let requests : List Request :=
      [⟨false, .generic "T", .primitive .int⟩,
        ⟨false, .inter (.generic "T") (.primitive .bool), .primitive .string⟩,
        ⟨true, .struct [⟨"a", false, .bounded "T" (.primitive .bool)⟩],
          .struct [⟨"a", false, .union (.primitive .bool) (.literal .null)⟩]⟩]
    let final : Bindings :=
      [("T", .union (.union (.primitive .int) (.primitive .string)) (.primitive .bool))]
    resolveAll requests (some []) = some ([true, false, true], some final) ∧
      accept? .reading (.generic "T") (.primitive .int) (some final) = some (true, some final) := by
  intro requests final
  have hrun : resolveAll requests (some []) = some ([true, false, true], some final) := rfl
  have hr : ∀ r ∈ requests, r.receiving.every hidesNoGenerics ∧ r.received.every isSimple := by
    simp only [requests]
    decide
  obtain ⟨verdicts, final', hrun', -, hkept⟩ :=
    resolveAll_keeps (show Bindings.Closed [] by simp [Bindings.Closed]) hr
  rw [hrun, Option.some_inj, Prod.mk.injEq, Option.some_inj] at hrun'
  obtain ⟨rfl, rfl⟩ := hrun'
  exact ⟨hrun, hkept (⟨false, .generic "T", .primitive .int⟩, true) List.mem_cons_self rfl⟩

end FlowTypes.Ty
