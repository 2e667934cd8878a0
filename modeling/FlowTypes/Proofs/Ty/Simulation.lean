import FlowTypes.Proofs.Ty.Rules

namespace FlowTypes

namespace Session

/-- Where the first step has a verdict, the second one has the same in every related session, and
the sessions stay related. -/
def Simulates (rel : Option Bindings → Option Bindings → Prop) (step step' : Session Bool) : Prop :=
  ∀ σ σ', rel σ σ' → ∀ c τ, step σ = some (c, τ) → ∃ τ', step' σ' = some (c, τ') ∧ rel τ τ'

namespace Simulates

variable {rel : Option Bindings → Option Bindings → Prop}
  {first second first' second' : Session Bool}

theorem pure (b : Bool) : Simulates rel (pure b) (pure b) := by
  rintro σ σ' hσ c τ ⟨⟩
  exact ⟨σ', rfl, hσ⟩

theorem both (h : Simulates rel first first') (h' : Simulates rel second second') :
    Simulates rel (both first second) (both first' second') := by
  intro σ σ' hσ c τ hc
  obtain ⟨ρ, h₁, h₂⟩ | ⟨h₁, rfl⟩ := both_eq_some.1 hc
  · obtain ⟨ρ', h₁, hρ⟩ := h _ _ hσ _ _ h₁
    obtain ⟨τ', h₂, hτ⟩ := h' _ _ hρ _ _ h₂
    exact ⟨τ', both_eq_some.2 (.inl ⟨ρ', h₁, h₂⟩), hτ⟩
  · obtain ⟨τ', h₁, hτ⟩ := h _ _ hσ _ _ h₁
    exact ⟨τ', both_eq_some.2 (.inr ⟨h₁, rfl⟩), hτ⟩

theorem either (h : Simulates rel first first') (h' : Simulates rel second second') :
    Simulates rel (either first second) (either first' second') := by
  intro σ σ' hσ c τ hc
  obtain ⟨ρ, h₁, h₂⟩ | ⟨h₁, rfl⟩ := either_eq_some.1 hc
  · obtain ⟨ρ', h₁, hρ⟩ := h _ _ hσ _ _ h₁
    obtain ⟨τ', h₂, hτ⟩ := h' _ _ hρ _ _ h₂
    exact ⟨τ', either_eq_some.2 (.inl ⟨ρ', h₁, h₂⟩), hτ⟩
  · obtain ⟨τ', h₁, hτ⟩ := h _ _ hσ _ _ h₁
    exact ⟨τ', either_eq_some.2 (.inr ⟨h₁, rfl⟩), hτ⟩

theorem isolated (hnone : rel none none) (h : Simulates rel first first') :
    Simulates rel (isolated first) (isolated first') := by
  intro σ σ' hσ c τ hc
  obtain ⟨rfl, ρ, h₁⟩ := isolated_eq_some.1 hc
  obtain ⟨ρ', h₁, -⟩ := h _ _ hnone _ _ h₁
  exact ⟨σ', isolated_eq_some.2 ⟨rfl, ρ', h₁⟩, hσ⟩

theorem allM {α : Type} {f g : α → Session Bool} {xs : List α}
    (h : ∀ x ∈ xs, Simulates rel (f x) (g x)) : Simulates rel (xs.allM f) (xs.allM g) := by
  induction xs with
  | nil => exact .pure true
  | cons x xs ih =>
    rw [allM_cons, allM_cons]
    exact (h x (by simp)).both (ih fun y hy ↦ h y (by simp [hy]))

theorem ite {p : Prop} [Decidable p] (h : Simulates rel first first')
    (h' : Simulates rel second second') :
    Simulates rel (if p then first else second) (if p then first' else second') := by
  split
  · exact h
  · exact h'

end Simulates

end Session

namespace Ty

open Session

theorem simulates_exhausted {rel : Option Bindings → Option Bindings → Prop} (mode : Mode)
    (a b : Ty) (step : Session Bool) : Simulates rel (acceptWithin 0 mode a b) step := by
  intro σ σ' _ c τ h
  exact absurd h (by simp)

section

variable {rel : Option Bindings → Option Bindings → Prop} (hnone : rel none none)
  {P : Bool → Ty → Prop} (hP : Receptive P) {go go' : Mode → Ty → Ty → Session Bool}
  {check check' : Ty → Json → Session Bool} {res res' : Bool}
  (hgo : ∀ n a b, P res a → Simulates rel (go ⟨n, res⟩ a b) (go' ⟨n, res'⟩ a b))
  (hread : ∀ a b, P false a → Simulates rel (go .reading a b) (go' .reading a b))
  (hcheck : ∀ a, P res a → a.isShape → ∀ l : Literal,
    Simulates rel (check a l.toJson) (check' a l.toJson))
  {a : Ty} (ha : P res a)
include hgo

include hP in
theorem simulates_receiveBound (n : Bool) (name : String) {bound : Option Ty}
    (hb : P res (bound.elim (.generic name) (.bounded name))) (b : Ty) :
    Simulates rel (receiveBound go ⟨n, res⟩ bound b) (receiveBound go' ⟨n, res'⟩ bound b) := by
  cases bound with
  | none => exact .pure true
  | some t => exact hgo _ _ _ (hP.part hb rfl (by simp [parts]))

theorem simulates_receiveFields (n : Bool) {fs : List (Field Ty)} (hfs : ∀ f ∈ fs, P res f.type)
    (gs : List (Field Ty)) :
    Simulates rel (receiveFields go ⟨n, res⟩ fs gs) (receiveFields go' ⟨n, res'⟩ fs gs) := by
  refine .allM fun f hf ↦ ?_
  split
  · exact .ite (hgo _ _ _ (hfs f hf)) (.pure false)
  · exact .pure _

include hnone hP hread hcheck ha

theorem simulates_receiveByShape (n : Bool) (hs : a.isShape) (b : Ty) :
    Simulates rel (receiveByShape go check ⟨n, res⟩ a b)
      (receiveByShape go' check' ⟨n, res'⟩ a b) := by
  have hpart {s : Ty} (hr : a.readsParts) (hs : s ∈ a.parts) (t : Ty) :
      Simulates rel (go .reading s t) (go' .reading s t) := hread _ _ (hP.reading ha hr hs)
  cases b with
  | literal l =>
    cases hl : a.isLiteral with
    | true =>
      cases a with
      | literal k => exact .pure _
      | _ => simp [isLiteral] at hl
    | false =>
      rw [receiveByShape_literal hl, receiveByShape_literal hl]
      exact .ite (.pure true) (hcheck a ha hs l)
  | primitive | emptyTuple | tag | union => cases a <;> exact .pure _
  | generic | bounded => exact hgo _ _ _ ha
  | tuple ts =>
    cases a with
    | tuple ss =>
      refine .ite (.allM fun p hp ↦ .isolated hnone ?_) (.pure false)
      exact hpart rfl (List.of_mem_zip hp).1 _
    | _ => exact .pure _
  | array t m =>
    cases a with
    | array s k => exact .ite (hpart rfl (by simp [parts]) t) (.pure false)
    | _ => exact .pure _
  | list t =>
    cases a with
    | list s => exact hpart rfl (by simp [parts]) t
    | _ => exact .pure _
  | openStruct | struct =>
    cases a with
    | struct fs =>
      unfold receiveByShape
      exact simulates_receiveFields hgo n (fun f hf ↦ hP.part ha rfl (List.mem_map_of_mem hf)) _
    | _ => exact .pure _
  | map l t =>
    cases a with
    | map k s => exact .both (hpart rfl (by simp [parts]) l) (hpart rfl (by simp [parts]) t)
    | _ => exact .pure _
  | named name t =>
    cases a with
    | named name' s => exact .ite (hgo _ _ _ (hP.part ha rfl (by simp [parts]))) (.pure false)
    | tag _ => exact .pure _
    | _ => exact hgo _ _ _ ha
  | nullable t => exact .ite (hgo _ _ _ ha) (.pure false)
  | inter l r =>
    rw [receiveByShape_inter, receiveByShape_inter]
    exact .either (hgo _ _ _ ha) (hgo _ _ _ ha)

variable (hgen : ∀ n name bound b, a = bound.elim (.generic name) (.bounded name) →
  Simulates rel (receiveGeneric go ⟨n, res⟩ name bound b)
    (receiveGeneric go' ⟨n, res'⟩ name bound b))
include hgen

theorem simulates_receive (n : Bool) (b : Ty) :
    Simulates rel (receive go check ⟨n, res⟩ a b) (receive go' check' ⟨n, res'⟩ a b) := by
  have hpart {s : Ty} (hr : a.readsParts = false) (hs : s ∈ a.parts) (n : Bool) :
      Simulates rel (go ⟨n, res⟩ s b) (go' ⟨n, res'⟩ s b) := hgo _ _ _ (hP.part ha hr hs)
  have hshape (hs : a.isShape) := simulates_receiveByShape hnone hP hgo hread hcheck ha n hs b
  cases a with
  | primitive p =>
    cases p with
    | any => exact .ite (hshape rfl) (.pure true)
    | _ => exact hshape rfl
  | generic name => exact hgen n name none b rfl
  | bounded name t => exact hgen n name (some t) b rfl
  | nullable t => exact hpart rfl (by simp [parts]) true
  | inter l r => exact .both (hpart rfl (by simp [parts]) n) (hpart rfl (by simp [parts]) n)
  | union l r =>
    rw [receive_union, receive_union]
    exact .either (hpart rfl (by simp [parts]) _) (hpart rfl (by simp [parts]) _)
  | _ => exact hshape rfl

/-- One step of a match agrees with one of another run, if all that they go on with does. -/
theorem simulates_receiveParts (n : Bool) (b : Ty) :
    Simulates rel (receiveParts go check ⟨n, res⟩ a b)
      (receiveParts go' check' ⟨n, res'⟩ a b) := by
  unfold receiveParts
  split
  · exact .both (hgo _ _ _ ha) (hgo _ _ _ ha)
  · exact .either (hgo _ _ _ ha) (hgo _ _ _ ha)
  · exact .both (hgo _ _ _ ha) (hgo _ _ _ ha)
  · exact simulates_receive hnone hP hgo hread hcheck ha hgen n _

end

end Ty

end FlowTypes
