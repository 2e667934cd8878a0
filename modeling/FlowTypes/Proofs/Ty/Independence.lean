import FlowTypes.Proofs.Ty.Failure
import FlowTypes.Proofs.Ty.History

namespace FlowTypes.Ty

open Session

theorem receiveGeneric_none {go : Mode → Ty → Ty → Session Bool} (mode : Mode) (name : String)
    (bound : Option Ty) (b : Ty) :
    receiveGeneric go mode name bound b none = receiveBound go mode bound b none := by
  rw [receiveGeneric_apply, Option.map_none]

/-- A session in which a generic is as its bound: there are no bindings, or none yet and none are
put in. -/
def Bare (res : Bool) (σ : Option Bindings) : Prop := σ = none ∨ res = false ∧ σ = some []

theorem Bare.getD {res : Bool} {σ : Option Bindings} (h : Bare res σ) : σ.getD [] = [] := by
  obtain rfl | ⟨-, rfl⟩ := h <;> rfl

theorem receiveGeneric_bare {go : Mode → Ty → Ty → Session Bool} {res : Bool}
    {σ : Option Bindings} (h : Bare res σ) (n : Bool) (name : String) (bound : Option Ty) (b : Ty) :
    receiveGeneric go ⟨n, res⟩ name bound b σ = receiveBound go ⟨n, res⟩ bound b σ := by
  obtain rfl | ⟨rfl, rfl⟩ := h
  · exact receiveGeneric_none _ name bound b
  · exact receiveGeneric_reading n name bound b (some [])

theorem simulates_bare {res' : Bool} {σ₀ : Option Bindings} (h₀ : Bare res' σ₀) (fuel : Nat)
    (n res : Bool) (a b : Ty) :
    Simulates (fun σ σ' ↦ σ = none ∧ (σ' = none ∨ σ' = σ₀)) (acceptWithin fuel ⟨n, res⟩ a b)
      (acceptWithin fuel ⟨n, res'⟩ a b) := by
  induction fuel generalizing n res res' a b with
  | zero => exact simulates_exhausted _ _ _ _
  | succ fuel ih =>
    have hbare {σ : Option Bindings} (h : σ = none ∨ σ = σ₀) : Bare res' σ := by
      obtain rfl | rfl := h
      · exact .inl rfl
      · exact h₀
    have hgo (n : Bool) (a b : Ty) (_ : True) := ih h₀ n res a b
    apply simulates_receiveParts ⟨rfl, .inl rfl⟩ receptive_true hgo
    · exact fun a b _ ↦ ih (h₀.imp_right fun h ↦ ⟨rfl, h.2⟩) false false a b
    · rintro a - - l σ σ' ⟨rfl, hσ⟩ c τ h
      obtain ⟨rfl, hc⟩ := checkInSession_eq_some.1 h
      refine ⟨σ', checkInSession_eq_some.2 ⟨rfl, ?_⟩, rfl, hσ⟩
      rw [(hbare hσ).getD]
      exact hc
    · trivial
    · rintro n name bound b - σ σ' ⟨rfl, hσ⟩ c τ h
      rw [receiveGeneric_none] at h
      rw [receiveGeneric_bare (hbare hσ)]
      exact simulates_receiveBound receptive_true hgo n name trivial b _ _ ⟨rfl, hσ⟩ c τ h

theorem accept?_none (n : Bool) (a b : Ty) :
    ∃ c, ∀ res, accept? ⟨n, res⟩ a b none = some (c, none) := by
  obtain ⟨c, hc, -⟩ := accept?_reading_verdict (σ := none) (by simp) n a b
  refine ⟨c, fun res ↦ ?_⟩
  have hbare : Bare res none := .inl rfl
  obtain ⟨_, hc, -, hτ⟩ := simulates_bare hbare _ n false a b _ _ ⟨rfl, .inl rfl⟩ c none hc
  obtain rfl := or_self_iff.1 hτ
  exact hc

/-- No bindings and none to read lead to one verdict, and without bindings it does not matter
whether generics are resolved. It is what `accepts` says. -/
theorem accept?_without_bindings (a b : Ty) :
    (∀ n, ∃ c, (∀ res, accept? ⟨n, res⟩ a b none = some (c, none)) ∧
      accept? ⟨n, false⟩ a b (some []) = some (c, some [])) ∧
    accept? .reading a b (some []) = some (accepts a b, some []) := by
  have hempty {n c : Bool} (hc : accept? ⟨n, false⟩ a b none = some (c, none)) :
      accept? ⟨n, false⟩ a b (some []) = some (c, some []) := by
    obtain ⟨τ, h, -⟩ := simulates_bare (.inr ⟨rfl, rfl⟩) _ n false a b none (some [])
      ⟨rfl, .inr rfl⟩ c none hc
    obtain rfl := acceptWithin_readsOnly _ n a b _ _ _ h
    exact h
  constructor
  · intro n
    obtain ⟨c, hc⟩ := accept?_none n a b
    exact ⟨c, hc, hempty (hc false)⟩
  · obtain ⟨c, hc⟩ := accept?_none false a b
    have hnone : accept? .reading a b none = some (c, none) := hc false
    rw [accepts, hnone]
    exact hempty hnone

/-- Types up to a size whose generics are in reach. A check against one of them needs no more depth
than that. -/
def InReachWithin (k : Nat) (res : Bool) (t : Ty) : Prop := InReach res t ∧ t.size ≤ k

theorem receptive_inReachWithin (k : Nat) : Receptive (InReachWithin k) where
  part ht hr hs :=
    ⟨receptive_inReach.part ht.1 hr hs, Nat.le_trans (size_lt_of_mem_parts hs).le ht.2⟩
  reading ht hr hs :=
    ⟨receptive_inReach.reading ht.1 hr hs, Nat.le_trans (size_lt_of_mem_parts hs).le ht.2⟩

section

variable {n res : Bool} {a b : Ty} {fuel fuel' k : Nat}

theorem checkWithin_inReach {ρ τ : Bindings} {l : Literal} {c : Bool} (ha : InReachWithin k res a)
    (hs : a.isShape) (hf : k ≤ fuel') (h : checkWithin ρ [] fuel a (some l.toJson) = some c) :
    checkWithin τ [] fuel' a (some l.toJson) = some c := by
  obtain ⟨ha, hk⟩ := ha
  refine checkWithin_mono (Nat.le_trans hk hf) ?_
  cases res with
  | false => exact checkWithin_rebind ha h
  | true => exact checkWithin_shape ha hs h

theorem receiveBound_of_resolved {go : Mode → Ty → Ty → Session Bool} {name : String}
    {bound : Option Ty} {σ τ : Option Bindings} {c : Bool}
    (h : receiveGeneric go ⟨n, true⟩ name bound b σ = some (c, τ)) :
    ∃ τ, receiveBound go ⟨n, true⟩ bound b σ = some (c, τ) := by
  cases σ with
  | none =>
    rw [receiveGeneric_none] at h
    exact ⟨τ, h⟩
  | some ρ =>
    rw [receiveGeneric_resolving] at h
    obtain ⟨υ, h₁, h₂⟩ | ⟨h₁, rfl⟩ := both_eq_some.1 h
    · rw [affirms_bindOrWiden _ _ _ _ h₂]
      exact ⟨υ, h₁⟩
    · exact ⟨τ, h₁⟩

theorem simulates_unbound (hf : fuel + k ≤ fuel') (n res' : Bool) (ha : InReachWithin k res a)
    (b : Ty) : Simulates (fun _ σ' ↦ σ' = none) (acceptWithin fuel ⟨n, res⟩ a b)
      (acceptWithin fuel' ⟨n, res'⟩ a b) := by
  induction fuel generalizing fuel' n res res' a b with
  | zero => exact simulates_exhausted _ _ _ _
  | succ fuel ih =>
    obtain ⟨fuel', rfl⟩ : ∃ m, fuel' = m + 1 := ⟨fuel' - 1, by omega⟩
    have hgo (n : Bool) (a b : Ty) (ha : InReachWithin k res a) :
        Simulates _ (acceptWithin fuel ⟨n, res⟩ a b) (acceptWithin fuel' ⟨n, res'⟩ a b) :=
      ih (by omega) n res' ha b
    apply simulates_receiveParts ?_ (receptive_inReachWithin k) hgo
    · exact fun a b ha ↦ ih (by omega) false false ha b
    · rintro a ha hs l σ _ rfl c τ h
      have hk : k ≤ fuel' := by omega
      refine ⟨none, checkInSession_eq_some.2 ⟨rfl, ?_⟩, rfl⟩
      exact checkWithin_inReach ha hs hk (checkInSession_eq_some.1 h).2
    · exact ha
    · rintro n name bound b rfl σ _ rfl c τ h
      cases res with
      | false => cases bound <;> simp [InReachWithin, InReach, generics] at ha
      | true =>
        obtain ⟨_, h⟩ := receiveBound_of_resolved h
        rw [receiveGeneric_none]
        exact simulates_receiveBound (receptive_inReachWithin k) hgo n name ha b _ _ rfl _ _ h
    · rfl

end

/-- Resolving generics has the verdict that a match without bindings has: neither what is bound
before nor what is bound on the way matters to it. -/
theorem accept?_resolving_eq_none {ρ : Bindings} (hρ : ρ.Acyclic) {a b : Ty}
    (ha : a.every hidesNoGenerics) (hb : b.generics = []) (n : Bool) :
    ∃ c τ, accept? ⟨n, true⟩ a b (some ρ) = some (c, some τ) ∧
      ∀ res, accept? ⟨n, res⟩ a b none = some (c, none) := by
  obtain ⟨c, τ, hc, -⟩ := accept?_resolving_of_acyclic hρ n a hb
  refine ⟨c, τ, hc, fun res ↦ ?_⟩
  obtain ⟨c', hc'⟩ := accept?_none n a b
  have hreach : InReachWithin a.size true a := ⟨ha, Nat.le_refl _⟩
  obtain ⟨_, h, rfl⟩ := simulates_unbound (Nat.le_refl _) n res hreach b _ _ rfl _ _ hc
  rw [hc', acceptWithin_unique (hc' res) h]

theorem accept?_resolving_eq_none_chain :
    let twice : Ty := .inter (.generic "T") (.generic "T")
    let before : Bindings := [("S", twice), ("T", .primitive .string)]
    let after : Bindings := [("S", twice),
      ("T", .union (.union (.primitive .string) (.primitive .int)) (.primitive .bool))]
    let a : Ty := .struct
      [⟨"x", false, .bounded "T" (.primitive .int)⟩,
        ⟨"y", true, .union (.inter (.generic "S") (.primitive .bool)) (.nullable (.generic "T"))⟩]
    let b : Ty := .struct [⟨"y", false, .primitive .bool⟩, ⟨"x", false, .primitive .int⟩]
    accept? .resolve a b (some before) = some (true, some after) ∧
      ∀ res, accept? ⟨false, res⟩ a b none = some (true, none) := by
  intro twice before after a b
  have hbefore : before.Acyclic :=
    Bindings.acyclic_of_entries (fun name ↦ if name = "T" then 1 else 4) (by decide)
  have hrun : accept? .resolve a b (some before) = some (true, some after) := rfl
  have ha : a.every hidesNoGenerics := by decide
  have hb : b.generics = [] := rfl
  obtain ⟨c, τ, hrun', hnone⟩ := accept?_resolving_eq_none hbefore ha hb false
  obtain ⟨rfl, -⟩ := Prod.mk.inj (Option.some_inj.1 (hrun.symm.trans hrun'))
  exact ⟨hrun, hnone⟩

end FlowTypes.Ty
