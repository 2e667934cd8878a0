import FlowTypes.Proofs.Ty.Parts
import FlowTypes.Ty.Matching

namespace FlowTypes

namespace Session

variable {first second : Session Bool} {σ τ : Option Bindings} {b : Bool}

@[simp] theorem pure_apply (b : Bool) (σ : Option Bindings) :
    (pure b : Session Bool) σ = some (b, σ) := rfl

theorem both_apply : both first second σ =
    (first σ).bind fun r ↦ if r.1 then second r.2 else some (false, r.2) := by
  change (first σ).bind _ = _
  congr 1
  funext r
  obtain ⟨_ | _, _⟩ := r <;> rfl

theorem either_apply : either first second σ =
    (first σ).bind fun r ↦ if r.1 then some (true, r.2) else second r.2 := by
  change (first σ).bind _ = _
  congr 1
  funext r
  obtain ⟨_ | _, _⟩ := r <;> rfl

theorem both_eq_some : both first second σ = some (b, τ) ↔
    (∃ ρ, first σ = some (true, ρ) ∧ second ρ = some (b, τ)) ∨
      first σ = some (false, τ) ∧ b = false := by
  rw [both_apply]
  cases h : first σ with
  | none => simp
  | some r =>
    obtain ⟨c, ρ⟩ := r
    cases c with
    | false => simp [and_comm]
    | true => simp

theorem either_eq_some : either first second σ = some (b, τ) ↔
    (∃ ρ, first σ = some (false, ρ) ∧ second ρ = some (b, τ)) ∨
      first σ = some (true, τ) ∧ b = true := by
  rw [either_apply]
  cases h : first σ with
  | none => simp
  | some r =>
    obtain ⟨c, ρ⟩ := r
    cases c with
    | false => simp
    | true => simp [and_comm]

theorem isolated_eq_some {step : Session Bool} : isolated step σ = some (b, τ) ↔
    τ = σ ∧ ∃ ρ, step none = some (b, ρ) := by
  change ((step none).bind fun r ↦ some (r.1, σ)) = _ ↔ _
  cases step none with
  | none => simp
  | some r =>
    obtain ⟨c, ρ⟩ := r
    simp
    grind

@[simp] theorem assign_apply (name : String) (t : Ty) (σ : Option Bindings) :
    assign name t σ = some (true, σ.map (Entries.put name t)) := rfl

theorem allM_cons {α : Type} (f : α → Session Bool) (x : α) (xs : List α) :
    List.allM f (x :: xs) = both (f x) (xs.allM f) := by
  funext σ
  rw [both_apply]
  change (f x σ).bind _ = _
  congr 1
  funext r
  obtain ⟨_ | _, _⟩ := r <;> rfl

theorem mapM_cons {α β : Type} {f : α → Session β} {x : α} {xs : List α} {y : β} {ys : List β}
    {υ : Option Bindings} (h : f x σ = some (y, τ)) (hs : xs.mapM f τ = some (ys, υ)) :
    (x :: xs).mapM f σ = some (y :: ys, υ) := by
  have hb : (x :: xs).mapM f σ =
      (f x σ).bind fun p ↦ (xs.mapM f p.2).bind fun q ↦ some (p.1 :: q.1, q.2) := by
    rw [List.mapM_cons]
    rfl
  rw [hb, h, Option.bind_some, hs, Option.bind_some]

/-- A relation between the bindings before and after any number of steps. -/
structure Along (rel : Option Bindings → Option Bindings → Prop) : Prop where
  refl (σ : Option Bindings) : rel σ σ
  trans {ρ σ τ : Option Bindings} : rel ρ σ → rel σ τ → rel ρ τ

/-- The step takes bindings to related ones. -/
def Moves (rel : Option Bindings → Option Bindings → Prop) (step : Session Bool) : Prop :=
  ∀ σ b τ, step σ = some (b, τ) → rel σ τ

namespace Moves

variable {rel : Option Bindings → Option Bindings → Prop} (hrel : Along rel)
include hrel

theorem pure (b : Bool) : Moves rel (pure b) := by
  intro σ c τ h
  simp only [pure_apply, Option.some.injEq, Prod.mk.injEq] at h
  exact h.2 ▸ hrel.refl σ

theorem both (h : Moves rel first) (h' : Moves rel second) : Moves rel (both first second) := by
  intro σ b τ hb
  obtain ⟨ρ, h₁, h₂⟩ | ⟨h₁, -⟩ := both_eq_some.1 hb
  · exact hrel.trans (h _ _ _ h₁) (h' _ _ _ h₂)
  · exact h _ _ _ h₁

theorem either (h : Moves rel first) (h' : Moves rel second) :
    Moves rel (either first second) := by
  intro σ b τ hb
  obtain ⟨ρ, h₁, h₂⟩ | ⟨h₁, -⟩ := either_eq_some.1 hb
  · exact hrel.trans (h _ _ _ h₁) (h' _ _ _ h₂)
  · exact h _ _ _ h₁

theorem isolated (step : Session Bool) : Moves rel (isolated step) := by
  intro σ b τ h
  rw [(isolated_eq_some.1 h).1]
  exact hrel.refl σ

theorem allM {α : Type} {f : α → Session Bool} {xs : List α} (h : ∀ x ∈ xs, Moves rel (f x)) :
    Moves rel (xs.allM f) := by
  induction xs with
  | nil => exact .pure hrel true
  | cons x xs ih =>
    rw [allM_cons]
    exact .both hrel (h x (by simp)) (ih fun y hy ↦ h y (by simp [hy]))

omit hrel in
theorem ite {p : Prop} [Decidable p] (h : p → Moves rel first) (h' : ¬p → Moves rel second) :
    Moves rel (if p then first else second) := by
  split
  · next hp => exact h hp
  · next hp => exact h' hp

end Moves

theorem along_eq : Along fun σ τ ↦ τ = σ where
  refl _ := rfl
  trans h h' := h'.trans h

abbrev ReadsOnly : Session Bool → Prop := Moves fun σ τ ↦ τ = σ

theorem Moves.of_readsOnly {rel : Option Bindings → Option Bindings → Prop} (hrel : Along rel)
    (h : ReadsOnly first) : Moves rel first := by
  intro σ b τ hb
  rw [h _ _ _ hb]
  exact hrel.refl σ

/-- If the step has a verdict in this session, it is positive. -/
def Affirms (step : Session Bool) (σ : Option Bindings) : Prop :=
  ∀ b τ, step σ = some (b, τ) → b = true

theorem Affirms.pure (σ : Option Bindings) : Affirms (pure true) σ := by
  intro b τ h
  simp only [pure_apply, Option.some.injEq, Prod.mk.injEq] at h
  exact h.1.symm

theorem Affirms.both (hr : ReadsOnly first) (h : Affirms first σ) (h' : Affirms second σ) :
    Affirms (both first second) σ := by
  intro b τ hb
  obtain ⟨ρ, h₁, h₂⟩ | ⟨h₁, -⟩ := both_eq_some.1 hb
  · obtain rfl := hr _ _ _ h₁
    exact h' _ _ h₂
  · exact absurd (h _ _ h₁) (by simp)

theorem Affirms.either_left (h : Affirms first σ) : Affirms (either first second) σ := by
  intro b τ hb
  obtain ⟨ρ, h₁, -⟩ | ⟨-, hb⟩ := either_eq_some.1 hb
  · exact absurd (h _ _ h₁) (by simp)
  · exact hb

theorem Affirms.either_right (hr : ReadsOnly first) (h : Affirms second σ) :
    Affirms (either first second) σ := by
  intro b τ hb
  obtain ⟨ρ, h₁, h₂⟩ | ⟨-, hb⟩ := either_eq_some.1 hb
  · obtain rfl := hr _ _ _ h₁
    exact h _ _ h₂
  · exact hb

theorem Affirms.isolated {step : Session Bool} (h : Affirms step none) (σ : Option Bindings) :
    Affirms (isolated step) σ := by
  intro b τ hb
  obtain ⟨-, ρ, hs⟩ := isolated_eq_some.1 hb
  exact h _ _ hs

theorem Affirms.allM {α : Type} {f : α → Session Bool} {xs : List α}
    (hr : ∀ x ∈ xs, ReadsOnly (f x)) (h : ∀ x ∈ xs, Affirms (f x) σ) : Affirms (xs.allM f) σ := by
  induction xs with
  | nil => exact .pure σ
  | cons x xs ih =>
    rw [allM_cons]
    exact .both (hr x (by simp)) (h x (by simp))
      (ih (fun y hy ↦ hr y (by simp [hy])) (fun y hy ↦ h y (by simp [hy])))

/-- The step has a verdict in this session and leaves the bindings as they are. -/
def Decides (step : Session Bool) (σ : Option Bindings) : Prop := ∃ b, step σ = some (b, σ)

theorem Decides.pure (b : Bool) (σ : Option Bindings) : Decides (pure b) σ := ⟨b, rfl⟩

theorem Decides.both (h : Decides first σ) (h' : Decides second σ) :
    Decides (both first second) σ := by
  obtain ⟨b, h⟩ := h
  obtain ⟨b', h'⟩ := h'
  cases b with
  | false => exact ⟨false, both_eq_some.2 (.inr ⟨h, rfl⟩)⟩
  | true => exact ⟨b', both_eq_some.2 (.inl ⟨σ, h, h'⟩)⟩

theorem Decides.either (h : Decides first σ) (h' : Decides second σ) :
    Decides (either first second) σ := by
  obtain ⟨b, h⟩ := h
  obtain ⟨b', h'⟩ := h'
  cases b with
  | false => exact ⟨b', either_eq_some.2 (.inl ⟨σ, h, h'⟩)⟩
  | true => exact ⟨true, either_eq_some.2 (.inr ⟨h, rfl⟩)⟩

theorem Decides.isolated {step : Session Bool} (h : Decides step none) (σ : Option Bindings) :
    Decides (isolated step) σ := by
  obtain ⟨b, h⟩ := h
  exact ⟨b, isolated_eq_some.2 ⟨rfl, none, h⟩⟩

theorem Decides.allM {α : Type} {f : α → Session Bool} {xs : List α}
    (h : ∀ x ∈ xs, Decides (f x) σ) : Decides (xs.allM f) σ := by
  induction xs with
  | nil => exact .pure true σ
  | cons x xs ih =>
    rw [allM_cons]
    exact (h x (by simp)).both (ih fun y hy ↦ h y (by simp [hy]))

theorem Decides.ite {p : Prop} [Decidable p] (h : p → Decides first σ)
    (h' : ¬p → Decides second σ) : Decides (if p then first else second) σ := by
  split
  · next hp => exact h hp
  · next hp => exact h' hp

end Session

namespace Ty

open Session

theorem checkInSession_eq_some {fuel : Nat} {t : Ty} {v : Json} {σ τ : Option Bindings} {b : Bool} :
    checkInSession fuel t v σ = some (b, τ) ↔
      τ = σ ∧ checkWithin (σ.getD []) [] fuel t (some v) = some b := by
  change ((checkWithin (σ.getD []) [] fuel t (some v)).bind fun c ↦ some (c, σ)) = _ ↔ _
  cases checkWithin (σ.getD []) [] fuel t (some v) with
  | none => simp
  | some c => simp [and_comm, eq_comm]

theorem checkInSession_readsOnly (fuel : Nat) (t : Ty) (v : Json) :
    ReadsOnly (checkInSession fuel t v) := fun _ _ _ h ↦ (checkInSession_eq_some.1 h).1

variable {go : Mode → Ty → Ty → Session Bool} {check : Ty → Json → Session Bool}

theorem receiveGeneric_apply (mode : Mode) (name : String) (bound : Option Ty) (b : Ty)
    (σ : Option Bindings) :
    receiveGeneric go mode name bound b σ =
      (match σ.map (List.lookup name), mode.resolving with
        | none, _ | some none, false => receiveBound go mode bound b
        | some none, true => both (receiveBound go mode bound b) (assign name b)
        | some (some old), false => go mode old b
        | some (some old), true => both (receiveBound go mode bound b)
            (either (go mode old b) (assign name (.union old b)))) σ := rfl

theorem receiveGeneric_reading (n : Bool) (name : String) (bound : Option Ty) (b : Ty)
    (σ : Option Bindings) :
    receiveGeneric go ⟨n, false⟩ name bound b σ =
      match σ.bind (·.lookup name) with
      | some old => go ⟨n, false⟩ old b σ
      | none => receiveBound go ⟨n, false⟩ bound b σ := by
  rw [receiveGeneric_apply]
  cases σ with
  | none => rfl
  | some ρ =>
    rw [Option.map_some, Option.bind_some]
    cases ρ.lookup name <;> rfl

theorem receiveGeneric_unbound (n : Bool) {name : String} {ρ : Bindings}
    (h : ρ.lookup name = none) (bound : Option Ty) (b : Ty) :
    receiveGeneric go ⟨n, true⟩ name bound b (some ρ) =
      both (receiveBound go ⟨n, true⟩ bound b) (assign name b) (some ρ) := by
  rw [receiveGeneric_apply, Option.map_some, h]

theorem receiveGeneric_bound (n : Bool) {name : String} {ρ : Bindings} {old : Ty}
    (h : ρ.lookup name = some old) (bound : Option Ty) (b : Ty) :
    receiveGeneric go ⟨n, true⟩ name bound b (some ρ) =
      both (receiveBound go ⟨n, true⟩ bound b)
        (either (go ⟨n, true⟩ old b) (assign name (.union old b))) (some ρ) := by
  rw [receiveGeneric_apply, Option.map_some, h]

theorem moves_receiveBound {rel : Option Bindings → Option Bindings → Prop} (hrel : Along rel)
    {mode : Mode} {b : Ty} {bound : Option Ty} (hgo : ∀ a ∈ bound, Moves rel (go mode a b)) :
    Moves rel (receiveBound go mode bound b) := by
  cases bound with
  | none => exact .pure hrel true
  | some t => exact hgo t rfl

/-- A property of received types that passes on to what a match goes on with. -/
structure Hereditary (Q : Ty → Prop) : Prop where
  part {s t : Ty} : Q t → s ∈ t.parts → Q s
  union {l r : Ty} : Q (.nullable (.union l r)) → Q (.nullable l) ∧ Q (.nullable r)
  inter {l r : Ty} : Q (.nullable (.inter l r)) → Q (.nullable l) ∧ Q (.nullable r)
  generic {name : String} : Q (.generic name) → Q anything

theorem hereditary_true : Hereditary fun _ ↦ True :=
  ⟨fun _ _ ↦ trivial, fun _ ↦ ⟨trivial, trivial⟩, fun _ ↦ ⟨trivial, trivial⟩, id⟩

/-- Types whose parts are matched by themselves, without resolving generics. -/
def readsParts : Ty → Bool
  | .tuple _ | .array .. | .list _ | .map .. => true
  | _ => false

/-- A property of receiving types, by whether generics are resolved, that passes on to what a match
goes on with. -/
structure Receptive (P : Bool → Ty → Prop) : Prop where
  part {res : Bool} {s t : Ty} : P res t → t.readsParts = false → s ∈ t.parts → P res s
  reading {res : Bool} {s t : Ty} : P res t → t.readsParts → s ∈ t.parts → P false s

theorem receptive_true : Receptive fun _ _ ↦ True := ⟨fun _ _ _ ↦ trivial, fun _ _ _ ↦ trivial⟩

section

variable {rel : Option Bindings → Option Bindings → Prop} (hrel : Along rel)
  {P : Bool → Ty → Prop} (hP : Receptive P) {Q : Ty → Prop} (hQ : Hereditary Q) {res : Bool}
  (hgo : ∀ n a b, P res a → Q b → Moves rel (go ⟨n, res⟩ a b))
  (hread : ∀ a b, P false a → Q b → Moves rel (go .reading a b))
  (hcheck : ∀ t v, Moves rel (check t v)) {a b : Ty} (ha : P res a) (hb : Q b)
include hrel hgo

theorem moves_receiveFields (n : Bool) {fs gs : List (Field Ty)} (hfs : ∀ f ∈ fs, P res f.type)
    (hgs : ∀ g ∈ gs, Q g.type) : Moves rel (receiveFields go ⟨n, res⟩ fs gs) := by
  apply Moves.allM hrel
  intro f hf
  split
  · next g hg =>
    have hgo := hgo n _ _ (hfs f hf) (hgs g (List.mem_of_find?_eq_some hg))
    exact .ite (fun _ ↦ hgo) fun _ ↦ .pure hrel false
  · exact .pure hrel _

include hP hQ hread hcheck ha hb

theorem moves_receiveByShape (n : Bool) : Moves rel (receiveByShape go check ⟨n, res⟩ a b) := by
  have hpart {n : Bool} {s : Ty} (hs : s ∈ b.parts) : Moves rel (go ⟨n, res⟩ a s) :=
    hgo _ _ _ ha (hQ.part hb hs)
  have hpart' {s t : Ty} (hr : a.readsParts) (hs : s ∈ a.parts) (ht : t ∈ b.parts) :
      Moves rel (go .reading s t) := hread _ _ (hP.reading ha hr hs) (hQ.part hb ht)
  have hfields {fs gs : List (Field Ty)} (hf : a = .struct fs) (hgs : ∀ g ∈ gs, Q g.type) :
      Moves rel (receiveFields go ⟨n, res⟩ fs gs) := by
    subst hf
    exact moves_receiveFields hrel hgo n (fun f hf ↦ hP.part ha rfl (List.mem_map_of_mem hf)) hgs
  cases b with
  | literal l =>
    unfold receiveByShape
    dsimp only
    split
    · exact .pure hrel _
    · exact .ite (fun _ ↦ .pure hrel _) fun _ ↦ hcheck _ _
  | primitive q | emptyTuple | tag name =>
    unfold receiveByShape
    dsimp only
    split <;> exact .pure hrel _
  | union l r => exact .pure hrel _
  | generic name => exact hgo _ _ _ ha (hQ.generic hb)
  | bounded name t => exact hpart (by simp [parts])
  | tuple ts =>
    unfold receiveByShape
    dsimp only
    split
    · exact .ite (fun _ ↦ .allM hrel fun _ _ ↦ .isolated hrel _) fun _ ↦ .pure hrel _
    · exact .pure hrel _
  | array t m =>
    unfold receiveByShape
    dsimp only
    split
    · exact .ite (fun _ ↦ hpart' rfl (by simp [parts]) (by simp [parts])) fun _ ↦ .pure hrel _
    · exact .pure hrel _
  | list t =>
    unfold receiveByShape
    dsimp only
    split
    · exact hpart' rfl (by simp [parts]) (by simp [parts])
    · exact .pure hrel _
  | openStruct =>
    unfold receiveByShape
    dsimp only
    split
    · exact .pure hrel _
    · exact hfields rfl (by simp)
    · exact .pure hrel _
  | struct gs =>
    unfold receiveByShape
    dsimp only
    split
    · exact .pure hrel _
    · exact hfields rfl fun g hg ↦ hQ.part hb (List.mem_map_of_mem hg)
    · exact .pure hrel _
  | map l t =>
    unfold receiveByShape
    dsimp only
    split
    · exact .both hrel (hpart' rfl (by simp [parts]) (by simp [parts]))
        (hpart' rfl (by simp [parts]) (by simp [parts]))
    · exact .pure hrel _
  | named name t =>
    unfold receiveByShape
    dsimp only
    split
    · have hinner := hP.part ha rfl (List.mem_singleton_self _)
      exact .ite (fun _ ↦ hgo _ _ _ hinner (hQ.part hb (by simp [parts]))) fun _ ↦ .pure hrel _
    · exact .pure hrel _
    · exact hpart (by simp [parts])
  | nullable t => exact .ite (fun _ ↦ hpart (by simp [parts])) fun _ ↦ .pure hrel _
  | inter l r =>
    unfold receiveByShape
    dsimp only [Mode.welcomeNull]
    split <;> exact .either hrel (hpart (by simp [parts])) (hpart (by simp [parts]))

variable (hgen : ∀ n name bound, a = bound.elim (.generic name) (.bounded name) →
  Moves rel (receiveGeneric go ⟨n, res⟩ name bound b))
include hgen

theorem moves_receive (n : Bool) : Moves rel (receive go check ⟨n, res⟩ a b) := by
  have hpart {n : Bool} {s : Ty} (hr : a.readsParts = false) (hs : s ∈ a.parts) :
      Moves rel (go ⟨n, res⟩ s b) := hgo _ _ _ (hP.part ha hr hs) hb
  have hshape := moves_receiveByShape hrel hP hQ hgo hread hcheck ha hb n
  unfold receive
  split
  · exact .ite (fun _ ↦ hshape) fun _ ↦ .pure hrel true
  · next name => exact hgen n name none rfl
  · next name t => exact hgen n name (some t) rfl
  · exact hpart rfl (by simp [parts])
  · exact .both hrel (hpart rfl (by simp [parts])) (hpart rfl (by simp [parts]))
  · dsimp only [Mode.welcomeNull]
    split <;> exact .either hrel (hpart rfl (by simp [parts])) (hpart rfl (by simp [parts]))
  · exact hshape

theorem moves_receiveParts (n : Bool) : Moves rel (receiveParts go check ⟨n, res⟩ a b) := by
  unfold receiveParts
  split
  · exact .both hrel (hgo _ _ _ ha (hQ.union hb).1) (hgo _ _ _ ha (hQ.union hb).2)
  · exact .either hrel (hgo _ _ _ ha (hQ.inter hb).1) (hgo _ _ _ ha (hQ.inter hb).2)
  · exact .both hrel (hgo _ _ _ ha (hQ.part hb (by simp [parts])))
      (hgo _ _ _ ha (hQ.part hb (by simp [parts])))
  · exact moves_receive hrel hP hQ hgo hread hcheck ha hb hgen n

end

@[simp] theorem acceptWithin_zero (mode : Mode) (a b : Ty) (σ : Option Bindings) :
    acceptWithin 0 mode a b σ = none := rfl

theorem receiveGeneric_readsOnly (hgo : ∀ n a b, ReadsOnly (go ⟨n, false⟩ a b)) (n : Bool)
    (name : String) (bound : Option Ty) (b : Ty) :
    ReadsOnly (receiveGeneric go ⟨n, false⟩ name bound b) := by
  intro σ c τ h
  rw [receiveGeneric_reading] at h
  split at h
  · exact hgo _ _ _ _ _ _ h
  · exact moves_receiveBound along_eq (fun a _ ↦ hgo n a b) _ _ _ h

theorem acceptWithin_readsOnly (fuel : Nat) (n : Bool) (a b : Ty) :
    ReadsOnly (acceptWithin fuel ⟨n, false⟩ a b) := by
  induction fuel generalizing n a b with
  | zero =>
    intro σ c τ h
    exact absurd h (by simp)
  | succ fuel ih =>
    exact moves_receiveParts along_eq receptive_true hereditary_true (fun n a b _ _ ↦ ih n a b)
      (fun a b _ _ ↦ ih false a b) (checkInSession_readsOnly fuel) trivial trivial
      (fun n name bound _ ↦ receiveGeneric_readsOnly ih n name bound b) n

/-- A match that resolves generics does to the bindings no more than its generics do. -/
theorem moves_acceptWithin {rel : Option Bindings → Option Bindings → Prop} (hrel : Along rel)
    {P : Bool → Ty → Prop} (hP : Receptive P) {Q : Ty → Prop} (hQ : Hereditary Q)
    (hgen : ∀ {go : Mode → Ty → Ty → Session Bool} {b : Ty}, Q b →
      (∀ n a, P true a → Moves rel (go ⟨n, true⟩ a b)) →
      ∀ n name bound, P true (bound.elim (.generic name) (.bounded name)) →
        Moves rel (receiveGeneric go ⟨n, true⟩ name bound b))
    (fuel : Nat) (mode : Mode) {a b : Ty} (ha : P mode.resolving a) (hb : Q b) :
    Moves rel (acceptWithin fuel mode a b) := by
  obtain ⟨n, res⟩ := mode
  cases res with
  | false => exact .of_readsOnly hrel (acceptWithin_readsOnly fuel n a b)
  | true =>
    induction fuel generalizing n a b with
    | zero =>
      intro σ c τ h
      exact absurd h (by simp)
    | succ fuel ih =>
      apply moves_receiveParts hrel hP hQ (fun n a b ha hb ↦ ih hb n ha)
        (fun a b _ _ ↦ .of_readsOnly hrel (acceptWithin_readsOnly fuel false a b))
        (fun t v ↦ .of_readsOnly hrel (checkInSession_readsOnly fuel t v)) ha hb
      rintro n name bound rfl
      exact hgen hb (fun n a ha ↦ ih hb n ha) n name bound ha

/-- What a generic is bound to once it has received a type. -/
def widenedBy (b : Ty) : Option Ty → Ty
  | none => b
  | some old => .union old b

/-- A relation between the bindings before and after a match. Whatever has been bound meanwhile, a
name is bound to what it was bound to before, widened by a received type. -/
structure Lasts (Q : Ty → Prop) (R : Bindings → Bindings → Prop) : Prop where
  refl (ρ : Bindings) : R ρ ρ
  trans {ρ σ τ : Bindings} : R ρ σ → R σ τ → R ρ τ
  put {b : Ty} {ρ τ : Bindings} (name : String) : Q b → R ρ τ →
    R ρ (Entries.put name (widenedBy b (ρ.lookup name)) τ)

def Throughout (R : Bindings → Bindings → Prop) : Option Bindings → Option Bindings → Prop
  | none, τ => τ = none
  | some ρ, τ => ∃ τ', τ = some τ' ∧ R ρ τ'

namespace Lasts

variable {Q : Ty → Prop} {R : Bindings → Bindings → Prop} (h : Lasts Q R)
include h

theorem along : Along (Throughout R) where
  refl σ := by
    cases σ with
    | none => rfl
    | some ρ => exact ⟨ρ, rfl, h.refl ρ⟩
  trans {ρ σ τ} h₁ h₂ := by
    cases ρ with
    | none =>
      obtain rfl : σ = none := h₁
      exact h₂
    | some ρ =>
      obtain ⟨σ, rfl, h₁⟩ := h₁
      obtain ⟨τ, rfl, h₂⟩ := h₂
      exact ⟨τ, rfl, h.trans h₁ h₂⟩

theorem assign {b : Ty} (hb : Q b) (name : String) {ρ : Bindings} {σ τ : Option Bindings} {c : Bool}
    (hσ : Throughout R (some ρ) σ)
    (hτ : assign name (widenedBy b (ρ.lookup name)) σ = some (c, τ)) :
    Throughout R (some ρ) τ := by
  obtain ⟨σ, rfl, hσ⟩ := hσ
  simp only [assign_apply, Option.map_some, Option.some.injEq, Prod.mk.injEq] at hτ
  exact ⟨_, hτ.2.symm, h.put name hb hσ⟩

/-- The binding that a generic is given was read before its bound and the old binding received the
type, and either of them may have bound the generic anew. -/
theorem receiveGeneric {b : Ty} (hb : Q b) (hgo : ∀ n a, Moves (Throughout R) (go ⟨n, true⟩ a b))
    (n : Bool) (name : String) (bound : Option Ty) :
    Moves (Throughout R) (receiveGeneric go ⟨n, true⟩ name bound b) := by
  have hbound : Moves (Throughout R) (receiveBound go ⟨n, true⟩ bound b) :=
    moves_receiveBound h.along fun a _ ↦ hgo n a
  intro σ c τ hs
  cases σ with
  | none => exact hbound _ _ _ hs
  | some ρ =>
    cases hl : ρ.lookup name with
    | none =>
      rw [receiveGeneric_unbound n hl] at hs
      obtain ⟨τ', h₁, h₂⟩ | ⟨h₁, -⟩ := both_eq_some.1 hs
      · exact h.assign hb name (hbound _ _ _ h₁) (by rw [hl]; exact h₂)
      · exact hbound _ _ _ h₁
    | some old =>
      rw [receiveGeneric_bound n hl] at hs
      obtain ⟨τ', h₁, h₂⟩ | ⟨h₁, -⟩ := both_eq_some.1 hs
      · have hm := hbound _ _ _ h₁
        obtain ⟨τ'', h₃, h₄⟩ | ⟨h₃, -⟩ := either_eq_some.1 h₂
        · exact h.assign hb name (h.along.trans hm (hgo _ _ _ _ _ h₃)) (by rw [hl]; exact h₄)
        · exact h.along.trans hm (hgo _ _ _ _ _ h₃)
      · exact hbound _ _ _ h₁

theorem acceptWithin (hQ : Hereditary Q) (fuel : Nat) (mode : Mode) (a : Ty) {b : Ty} (hb : Q b) :
    Moves (Throughout R) (acceptWithin fuel mode a b) :=
  moves_acceptWithin h.along receptive_true hQ
    (fun hb hgo n name bound _ ↦ h.receiveGeneric hb (fun n a ↦ hgo n a trivial) n name bound)
    fuel mode trivial hb

end Lasts

end Ty

end FlowTypes
