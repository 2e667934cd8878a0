import FlowTypes.Proofs.Ty.Meaning
import FlowTypes.Proofs.Ty.Session

namespace FlowTypes.Ty

open Session

/-- Types that are taken apart when they are received, before the receiving type is looked at. -/
def splits : Ty → Bool
  | .union .. | .nullable (.union ..) | .nullable (.inter ..) => true
  | _ => false

/-- Types that the received type is compared with by its shape. -/
def isShape : Ty → Bool
  | .generic _ | .bounded .. | .nullable _ | .inter .. | .union .. => false
  | _ => true

def isLiteral : Ty → Bool
  | .literal _ => true
  | _ => false

def isNominal : Ty → Bool
  | .tag _ | .named .. => true
  | _ => false

def fields? : Ty → Option (List (Field Ty))
  | .openStruct => some []
  | .struct fs => some fs
  | _ => none

/-- The receiving type, first, accepts the received one. The session may hold bindings; the flag
tells whether `null` is welcome. -/
inductive Receives : Option Bindings → Bool → Ty → Ty → Prop
  | union {σ n a l r} : Receives σ n a l → Receives σ n a r → Receives σ n a (.union l r)
  | nullableUnion {σ n a l r} : Receives σ n a (.nullable l) → Receives σ n a (.nullable r) →
      Receives σ n a (.nullable (.union l r))
  | nullableInterLeft {σ n a l} (r : Ty) : Receives σ n a (.nullable l) →
      Receives σ n a (.nullable (.inter l r))
  | nullableInterRight {σ n a r} (l : Ty) : Receives σ n a (.nullable r) →
      Receives σ n a (.nullable (.inter l r))
  | any {σ n b} : b.splits = false → b.mayHideNull = false → Receives σ n (.primitive .any) b
  | generic {σ n name b} : b.splits = false → σ.bind (·.lookup name) = none →
      Receives σ n (.generic name) b
  | genericBinding {σ n name t b} : b.splits = false → σ.bind (·.lookup name) = some t →
      Receives σ n t b → Receives σ n (.generic name) b
  | bounded {σ n name t b} : b.splits = false → σ.bind (·.lookup name) = none →
      Receives σ n t b → Receives σ n (.bounded name t) b
  | boundedBinding {σ n name s t b} : b.splits = false → σ.bind (·.lookup name) = some s →
      Receives σ n s b → Receives σ n (.bounded name t) b
  | nullable {σ n a b} : b.splits = false → Receives σ true a b → Receives σ n (.nullable a) b
  | inter {σ n l r b} : b.splits = false → Receives σ n l b → Receives σ n r b →
      Receives σ n (.inter l r) b
  | unionLeft {σ n l r b} : b.splits = false →
      Receives σ (n || (l.isNullable || r.isNullable)) l b → Receives σ n (.union l r) b
  | unionRight {σ n l r b} : b.splits = false →
      Receives σ (n || (l.isNullable || r.isNullable)) r b → Receives σ n (.union l r) b
  | literal {σ n k l} : Literal.same k l → Receives σ n (.literal k) (.literal l)
  | null {σ a} : a.isShape → a.isLiteral = false → Receives σ true a (.literal .null)
  | checked {σ n a l} (fuel : Nat) : a.isShape → a.isLiteral = false →
      checkWithin (σ.getD []) [] fuel a (some l.toJson) = some true → Receives σ n a (.literal l)
  | primitive {σ n} (p : Primitive) : Receives σ n (.primitive p) (.primitive p)
  | ofGeneric {σ n a name} : a.isShape → Receives σ n a anything → Receives σ n a (.generic name)
  | ofBounded {σ n a name t} : a.isShape → Receives σ n a t → Receives σ n a (.bounded name t)
  | emptyTuple {σ n} : Receives σ n .emptyTuple .emptyTuple
  | tuple {σ n ss ts} : ss.length = ts.length →
      (∀ p ∈ ss.zip ts, Receives none false p.1 p.2) → Receives σ n (.tuple ss) (.tuple ts)
  | array {σ n s t m} : Receives σ false s t → Receives σ n (.array s m) (.array t m)
  | list {σ n s t} : Receives σ false s t → Receives σ n (.list s) (.list t)
  | openStruct {σ n b} : b.fields?.isSome → Receives σ n .openStruct b
  | struct {σ n fs b gs} : b.fields? = some gs →
      (∀ f ∈ fs, field? f.name gs = none → f.optional) →
      (∀ f ∈ fs, ∀ g, field? f.name gs = some g → f.optional || !g.optional) →
      (∀ f ∈ fs, ∀ g, field? f.name gs = some g → Receives σ n f.type g.type) →
      Receives σ n (.struct fs) b
  | map {σ n k l s t} : Receives σ false k l → Receives σ false s t →
      Receives σ n (.map k s) (.map l t)
  | tag {σ n} (name : String) : Receives σ n (.tag name) (.tag name)
  | named {σ n s t} (name : String) : Receives σ n s t →
      Receives σ n (.named name s) (.named name t)
  | unnamed {σ n a name t} : a.isShape → a.isNominal = false → Receives σ n a t →
      Receives σ n a (.named name t)
  | ofNullable {σ a t} : a.isShape → (Ty.nullable t).splits = false → Receives σ true a t →
      Receives σ true a (.nullable t)
  | ofInterLeft {σ n a l r} : a.isShape →
      Receives σ (n || (l.isNullable != r.isNullable)) a l → Receives σ n a (.inter l r)
  | ofInterRight {σ n a l r} : a.isShape →
      Receives σ (n || (l.isNullable != r.isNullable)) a r → Receives σ n a (.inter l r)

theorem welcomeNull_ite (n c res : Bool) :
    (if c = true then Mode.welcomeNull ⟨n, res⟩ else ⟨n, res⟩) = ⟨n || c, res⟩ := by
  cases n <;> cases c <;> rfl

section

variable {go : Mode → Ty → Ty → Session Bool} {check : Ty → Json → Session Bool}

theorem receiveParts_of_not_splits {b : Ty} (hb : b.splits = false) (mode : Mode) (a : Ty) :
    receiveParts go check mode a b = receive go check mode a b := by
  unfold receiveParts
  split <;> simp_all [splits]

theorem receive_of_isShape {a : Ty} (ha : a.isShape) (mode : Mode) (b : Ty) :
    receive go check mode a b = receiveByShape go check mode a b ∨
      a = .primitive .any ∧ b.mayHideNull = false ∧ receive go check mode a b = pure true := by
  cases a with
  | generic name | bounded name t | nullable t | inter l r | union l r => simp [isShape] at ha
  | primitive p =>
    cases p with
    | any =>
      cases hb : b.mayHideNull with
      | false => exact .inr ⟨rfl, rfl, by simp [receive, hb]⟩
      | true => exact .inl (by simp [receive, hb])
    | _ => exact .inl rfl
  | _ => exact .inl rfl

theorem receiveByShape_literal {a : Ty} (ha : a.isLiteral = false) (mode : Mode) (l : Literal) :
    receiveByShape go check mode a (.literal l) =
      if mode.nullable && l == .null then pure true else check a l.toJson := by
  cases a with
  | literal k => simp [isLiteral] at ha
  | _ => rfl

theorem receiveByShape_named {a : Ty} (ha : a.isNominal = false) (mode : Mode) (name : String)
    (t : Ty) : receiveByShape go check mode a (.named name t) = go mode a t := by
  cases a with
  | tag _ | named _ _ => simp [isNominal] at ha
  | _ => rfl

theorem receiveByShape_inter (n res : Bool) (a l r : Ty) :
    receiveByShape go check ⟨n, res⟩ a (.inter l r) =
      either (go ⟨n || (l.isNullable != r.isNullable), res⟩ a l)
        (go ⟨n || (l.isNullable != r.isNullable), res⟩ a r) := by
  rw [← welcomeNull_ite]
  rfl

theorem receive_union (n res : Bool) (l r b : Ty) :
    receive go check ⟨n, res⟩ (.union l r) b =
      either (go ⟨n || (l.isNullable || r.isNullable), res⟩ l b)
        (go ⟨n || (l.isNullable || r.isNullable), res⟩ r b) := by
  rw [← welcomeNull_ite]
  rfl

/-- What is known of the steps that a match goes on with. They take bindings only to related ones,
and what they accept, the rules derive under all bindings `φ` that are related to those left. -/
structure Derives (go : Mode → Ty → Ty → Session Bool)
    (rel : Option Bindings → Option Bindings → Prop) (P : Bool → Ty → Prop) (Q : Ty → Prop)
    (φ : Option Bindings) (res : Bool) : Prop where
  along : Along rel
  receptive : Receptive P
  hereditary : Hereditary Q
  moves (n : Bool) (a b : Ty) : Q b → Moves rel (go ⟨n, res⟩ a b)
  movesReading (a b : Ty) : Q b → Moves rel (go .reading a b)
  receives {σ τ : Option Bindings} {n : Bool} {a b : Ty} : P res a → Q b → rel τ φ →
    go ⟨n, res⟩ a b σ = some (true, τ) → Receives φ n a b
  receivesReading {σ τ : Option Bindings} {a b : Ty} : P false a → Q b → rel τ φ →
    go .reading a b σ = some (true, τ) → Receives φ false a b
  receivesIsolated {τ : Option Bindings} {a b : Ty} : P false a → Q b →
    go .reading a b none = some (true, τ) → Receives none false a b

namespace Derives

variable {rel : Option Bindings → Option Bindings → Prop} {P : Bool → Ty → Prop} {Q : Ty → Prop}
  {φ σ τ : Option Bindings} {res n : Bool} {a b : Ty} (hd : Derives go rel P Q φ res)
  (hτ : rel τ φ)
include hd hτ

theorem both {m : Bool} {c d : Ty} (ha : P res a) (hb : Q b) (hc : P res c) (hd' : Q d)
    (h : both (go ⟨n, res⟩ a b) (go ⟨m, res⟩ c d) σ = some (true, τ)) :
    Receives φ n a b ∧ Receives φ m c d := by
  obtain ⟨ρ, h₁, h₂⟩ | ⟨-, h⟩ := both_eq_some.1 h
  · have hρ := hd.along.trans (hd.moves _ _ _ hd' _ _ _ h₂) hτ
    exact ⟨hd.receives ha hb hρ h₁, hd.receives hc hd' hτ h₂⟩
  · simp at h

theorem either {m : Bool} {c d : Ty} (ha : P res a) (hb : Q b) (hc : P res c) (hd' : Q d)
    (h : either (go ⟨n, res⟩ a b) (go ⟨m, res⟩ c d) σ = some (true, τ)) :
    Receives φ n a b ∨ Receives φ m c d := by
  obtain ⟨ρ, -, h₂⟩ | ⟨h₁, -⟩ := either_eq_some.1 h
  · exact .inr (hd.receives hc hd' hτ h₂)
  · exact .inl (hd.receives ha hb hτ h₁)

omit hτ in
theorem items {ps : List (Ty × Ty)} (hps : ∀ p ∈ ps, P false p.1 ∧ Q p.2)
    (h : ps.allM (fun p ↦ isolated (go .reading p.1 p.2)) σ = some (true, τ)) :
    ∀ p ∈ ps, Receives none false p.1 p.2 := by
  induction ps generalizing σ with
  | nil => simp
  | cons p ps ih =>
    rw [allM_cons] at h
    obtain ⟨ρ, h₁, h₂⟩ | ⟨-, h⟩ := both_eq_some.1 h
    · intro q hq
      obtain ⟨-, _, hp⟩ := isolated_eq_some.1 h₁
      cases hq with
      | head =>
        obtain ⟨ha, hb⟩ := hps p (by simp)
        exact hd.receivesIsolated ha hb hp
      | tail _ hq => exact ih (fun q hq ↦ hps q (by simp [hq])) h₂ q hq
    · simp at h

theorem fields {fs gs : List (Field Ty)} (hfs : ∀ f ∈ fs, P res f.type)
    (hgs : ∀ g ∈ gs, Q g.type) (h : receiveFields go ⟨n, res⟩ fs gs σ = some (true, τ)) :
    ∀ f ∈ fs, (field? f.name gs = none → f.optional) ∧
      ∀ g, field? f.name gs = some g → (f.optional || !g.optional) ∧ Receives φ n f.type g.type := by
  induction fs generalizing σ with
  | nil => simp
  | cons f fs ih =>
    rw [receiveFields, allM_cons] at h
    obtain ⟨ρ, h₁, h₂⟩ | ⟨-, h⟩ := both_eq_some.1 h
    · intro f' hf'
      cases hf' with
      | head =>
        refine ⟨fun hg ↦ by simpa [hg] using congrArg (Option.map Prod.fst) h₁, fun g hg ↦ ?_⟩
        have hρ := moves_receiveFields hd.along (fun n a b (_ : P res a) ↦ hd.moves n a b) n
          (fun f hf ↦ hfs f (by simp [hf])) hgs _ _ _ h₂
        simp only [hg] at h₁
        split at h₁
        · next ho =>
          have hQg := hgs g (List.mem_of_find?_eq_some hg)
          exact ⟨ho, hd.receives (hfs f (by simp)) hQg (hd.along.trans hρ hτ) h₁⟩
        · simp at h₁
      | tail _ hf' => exact ih (fun f hf ↦ hfs f (by simp [hf])) h₂ f' hf'
    · simp at h

theorem struct {fs gs : List (Field Ty)} (ha : P res (.struct fs)) (hb : b.fields? = some gs)
    (hgs : ∀ g ∈ gs, Q g.type) (h : receiveFields go ⟨n, res⟩ fs gs σ = some (true, τ)) :
    Receives φ n (.struct fs) b := by
  have hfs : ∀ f ∈ fs, P res f.type := fun f hf ↦
    hd.receptive.part ha rfl (List.mem_map_of_mem hf)
  have hf := hd.fields hτ hfs hgs h
  exact .struct hb (fun f hm ↦ (hf f hm).1) (fun f hm g hg ↦ ((hf f hm).2 g hg).1)
    (fun f hm g hg ↦ ((hf f hm).2 g hg).2)

variable (hcheck : a.isShape → ∀ {σ l}, check a (Literal.toJson l) σ = some (true, τ) →
    ∃ fuel, checkWithin (φ.getD []) [] fuel a (some l.toJson) = some true) (ha : P res a) (hb : Q b)
include hcheck ha hb

theorem byShape (hshape : a.isShape) (hs : b.splits = false)
    (h : receiveByShape go check ⟨n, res⟩ a b σ = some (true, τ)) : Receives φ n a b := by
  have hpart {s : Ty} (hm : s ∈ b.parts) : Q s := hd.hereditary.part hb hm
  have hread {s : Ty} (hr : a.readsParts) (hm : s ∈ a.parts) : P false s :=
    hd.receptive.reading ha hr hm
  cases b with
  | literal l =>
    cases hl : a.isLiteral with
    | true =>
      cases a with
      | literal k =>
        have h : k.same l = true := by simpa [receiveByShape] using congrArg (Option.map Prod.fst) h
        exact .literal h
      | _ => simp [isLiteral] at hl
    | false =>
      rw [receiveByShape_literal hl] at h
      split at h
      · next hn =>
        simp only [Bool.and_eq_true, beq_iff_eq] at hn
        obtain ⟨rfl, rfl⟩ := hn
        exact .null hshape hl
      · obtain ⟨fuel, hc⟩ := hcheck hshape h
        exact .checked fuel hshape hl hc
  | primitive q =>
    cases a with
    | primitive p =>
      have h : p = q := by simpa [receiveByShape] using congrArg (Option.map Prod.fst) h
      exact h ▸ .primitive p
    | _ => simp [receiveByShape] at h
  | generic name => exact .ofGeneric hshape (hd.receives ha (hd.hereditary.generic hb) hτ h)
  | bounded name t => exact .ofBounded hshape (hd.receives ha (hpart (by simp [parts])) hτ h)
  | emptyTuple =>
    cases a with
    | emptyTuple => exact .emptyTuple
    | _ => simp [receiveByShape] at h
  | tuple ts =>
    cases a with
    | tuple ss =>
      unfold receiveByShape at h
      dsimp only at h
      split at h
      · next hl =>
        refine .tuple hl (hd.items (fun p hp ↦ ?_) h)
        obtain ⟨hs, ht⟩ := List.of_mem_zip hp
        exact ⟨hread rfl hs, hpart ht⟩
      · simp at h
    | _ => simp [receiveByShape] at h
  | array t m =>
    cases a with
    | array s k =>
      unfold receiveByShape at h
      dsimp only at h
      split at h
      · next hm =>
        have hp := hread rfl (show s ∈ _ by simp [parts])
        exact hm ▸ .array (hd.receivesReading hp (hpart (by simp [parts])) hτ h)
      · simp at h
    | _ => simp [receiveByShape] at h
  | list t =>
    cases a with
    | list s =>
      have hp := hread rfl (show s ∈ _ by simp [parts])
      exact .list (hd.receivesReading hp (hpart (by simp [parts])) hτ h)
    | _ => simp [receiveByShape] at h
  | openStruct =>
    cases a with
    | openStruct => exact .openStruct rfl
    | struct fs =>
      have hb : Ty.openStruct.fields? = some [] := rfl
      exact hd.struct hτ ha hb (by simp) h
    | _ => simp [receiveByShape] at h
  | struct gs =>
    cases a with
    | openStruct => exact .openStruct rfl
    | struct fs => exact hd.struct hτ ha rfl (fun g hg ↦ hpart (List.mem_map_of_mem hg)) h
    | _ => simp [receiveByShape] at h
  | map l t =>
    cases a with
    | map k s =>
      obtain ⟨ρ, h₁, h₂⟩ | ⟨-, h⟩ := both_eq_some.1 h
      · have hl := hpart (show l ∈ _ by simp [parts])
        have ht := hpart (show t ∈ _ by simp [parts])
        have hρ := hd.along.trans (hd.movesReading _ _ ht _ _ _ h₂) hτ
        exact .map (hd.receivesReading (hread rfl (by simp [parts])) hl hρ h₁)
          (hd.receivesReading (hread rfl (by simp [parts])) ht hτ h₂)
      · simp at h
    | _ => simp [receiveByShape] at h
  | tag name =>
    cases a with
    | tag name' =>
      have h : name' = name := by simpa [receiveByShape] using congrArg (Option.map Prod.fst) h
      exact h ▸ .tag name'
    | _ => simp [receiveByShape] at h
  | named name t =>
    cases hn : a.isNominal with
    | false =>
      rw [receiveByShape_named hn] at h
      exact .unnamed hshape hn (hd.receives ha (hpart (by simp [parts])) hτ h)
    | true =>
      cases a with
      | named name' s =>
        unfold receiveByShape at h
        dsimp only at h
        split at h
        · next hname =>
          have hp := hd.receptive.part ha rfl (show s ∈ _ by simp [parts])
          exact hname ▸ .named name' (hd.receives hp (hpart (by simp [parts])) hτ h)
        · simp at h
      | tag _ => simp [receiveByShape] at h
      | _ => simp [isNominal] at hn
  | nullable t =>
    cases n with
    | true => exact .ofNullable hshape hs (hd.receives ha (hpart (by simp [parts])) hτ h)
    | false => simp [receiveByShape] at h
  | inter l r =>
    rw [receiveByShape_inter] at h
    rcases hd.either hτ ha (hpart (by simp [parts])) ha (hpart (by simp [parts])) h with h | h
    · exact .ofInterLeft hshape h
    · exact .ofInterRight hshape h
  | union l r => simp [splits] at hs

variable (hgen : ∀ name bound, a = bound.elim (.generic name) (.bounded name) → b.splits = false →
    receiveGeneric go ⟨n, res⟩ name bound b σ = some (true, τ) → Receives φ n a b)
include hgen

theorem whole (hs : b.splits = false) (h : receive go check ⟨n, res⟩ a b σ = some (true, τ)) :
    Receives φ n a b := by
  have hpart {s : Ty} (hr : a.readsParts = false) (hm : s ∈ a.parts) : P res s :=
    hd.receptive.part ha hr hm
  cases hshape : a.isShape with
  | true =>
    have he : receive go check ⟨n, res⟩ a b = _ ∨ _ := receive_of_isShape hshape _ b
    obtain he | ⟨rfl, hm, -⟩ := he
    · rw [he] at h
      exact hd.byShape hτ hcheck ha hb hshape hs h
    · exact .any hs hm
  | false =>
    cases a with
    | generic name => exact hgen name none rfl hs h
    | bounded name t => exact hgen name (some t) rfl hs h
    | nullable t => exact .nullable hs (hd.receives (hpart rfl (by simp [parts])) hb hτ h)
    | inter l r =>
      have hl : P res l := hpart rfl (by simp [parts])
      have hr : P res r := hpart rfl (by simp [parts])
      obtain ⟨hl, hr⟩ := hd.both hτ hl hb hr hb h
      exact .inter hs hl hr
    | union l r =>
      rw [receive_union] at h
      have hl : P res l := hpart rfl (by simp [parts])
      have hr : P res r := hpart rfl (by simp [parts])
      rcases hd.either hτ hl hb hr hb h with h | h
      · exact .unionLeft hs h
      · exact .unionRight hs h
    | _ => simp [isShape] at hshape

theorem step (h : receiveParts go check ⟨n, res⟩ a b σ = some (true, τ)) : Receives φ n a b := by
  cases hs : b.splits with
  | false =>
    rw [receiveParts_of_not_splits hs] at h
    exact hd.whole hτ hcheck ha hb hgen hs h
  | true =>
    have hpart {s : Ty} (hm : s ∈ b.parts) : Q s := hd.hereditary.part hb hm
    unfold receiveParts at h
    split at h
    · obtain ⟨hQl, hQr⟩ := hd.hereditary.union hb
      obtain ⟨hl, hr⟩ := hd.both hτ ha hQl ha hQr h
      exact .nullableUnion hl hr
    · obtain ⟨hQl, hQr⟩ := hd.hereditary.inter hb
      rcases hd.either hτ ha hQl ha hQr h with h | h
      · exact .nullableInterLeft _ h
      · exact .nullableInterRight _ h
    · obtain ⟨hl, hr⟩ := hd.both hτ ha (hpart (by simp [parts])) ha (hpart (by simp [parts])) h
      exact .union hl hr
    · simp_all [splits]

end Derives

end

theorem receives_of_acceptWithin {fuel : Nat} {σ τ : Option Bindings} {n : Bool} {a b : Ty}
    (h : acceptWithin fuel ⟨n, false⟩ a b σ = some (true, τ)) : Receives σ n a b := by
  induction fuel generalizing σ τ n a b with
  | zero => exact absurd h (by simp)
  | succ fuel ih =>
    have hr := acceptWithin_readsOnly fuel
    have hd : Derives (acceptWithin fuel) (fun σ τ ↦ τ = σ) (fun _ _ ↦ True) (fun _ ↦ True) σ
        false := {
      along := along_eq
      receptive := receptive_true
      hereditary := hereditary_true
      moves := fun n a b _ ↦ hr n a b
      movesReading := fun a b _ ↦ hr false a b
      receives := fun _ _ he h ↦ by
        obtain rfl := hr _ _ _ _ _ _ h
        exact he ▸ ih h
      receivesReading := fun _ _ he h ↦ by
        obtain rfl := hr _ _ _ _ _ _ h
        exact he ▸ ih h
      receivesIsolated := fun _ _ h ↦ ih h }
    obtain rfl := acceptWithin_readsOnly (fuel + 1) _ _ _ _ _ _ h
    refine hd.step rfl ?_ trivial trivial ?_ h
    · intro _ ρ l hc
      obtain ⟨rfl, hc⟩ := checkInSession_eq_some.1 hc
      exact ⟨fuel, hc⟩
    · rintro name bound rfl hs hg
      rw [receiveGeneric_reading] at hg
      split at hg
      · next old hl =>
        cases bound with
        | none => exact .genericBinding hs hl (ih hg)
        | some s => exact .boundedBinding hs hl (ih hg)
      · next hl =>
        cases bound with
        | none => exact .generic hs hl
        | some s => exact .bounded hs hl (ih hg)

section

variable {σ : Option Bindings} {n : Bool} {a b : Ty}

theorem affirms_of_receive {fuel : Nat} (hb : b.splits = false)
    (h : Affirms (receive (acceptWithin fuel) (checkInSession fuel) ⟨n, false⟩ a b) σ) :
    Affirms (acceptWithin (fuel + 1) ⟨n, false⟩ a b) σ := by
  rw [acceptWithin, receiveParts_of_not_splits hb]
  exact h

theorem affirms_of_receiveByShape {fuel : Nat} (ha : a.isShape) (hb : b.splits = false)
    (h : Affirms (receiveByShape (acceptWithin fuel) (checkInSession fuel) ⟨n, false⟩ a b) σ) :
    Affirms (acceptWithin (fuel + 1) ⟨n, false⟩ a b) σ := by
  apply affirms_of_receive hb
  obtain he | ⟨-, -, he⟩ := receive_of_isShape ha _ b
  · rw [he]
    exact h
  · rw [he]
    exact .pure σ

theorem affirms_receiveFields {fuel : Nat} {fs gs : List (Field Ty)}
    (hnone : ∀ f ∈ fs, field? f.name gs = none → f.optional)
    (hopt : ∀ f ∈ fs, ∀ g, field? f.name gs = some g → f.optional || !g.optional)
    (h : ∀ f ∈ fs, ∀ g, field? f.name gs = some g →
      Affirms (acceptWithin fuel ⟨n, false⟩ f.type g.type) σ) :
    Affirms (receiveFields (acceptWithin fuel) ⟨n, false⟩ fs gs) σ := by
  apply Affirms.allM
  · intro f _
    split
    · exact .ite (fun _ ↦ acceptWithin_readsOnly _ _ _ _) fun _ ↦ .pure along_eq false
    · exact .pure along_eq _
  · intro f hf
    split
    · next g hg =>
      rw [if_pos (hopt f hf g hg)]
      exact h f hf g hg
    · next hg =>
      rw [hnone f hf hg]
      exact .pure σ

end

theorem affirms_of_succ {σ : Option Bindings} {mode : Mode} {a b : Ty}
    (h : ∀ fuel, Affirms (acceptWithin (fuel + 1) mode a b) σ) (fuel : Nat) :
    Affirms (acceptWithin fuel mode a b) σ := by
  cases fuel with
  | zero =>
    intro c τ hc
    exact absurd hc (by simp)
  | succ fuel => exact h fuel

theorem splits_of_fields? {b : Ty} (hb : b.fields?.isSome) : b.splits = false := by
  cases b <;> simp_all [fields?, splits]

theorem mem_parts_of_fields? {b : Ty} {gs : List (Field Ty)} (hb : b.fields? = some gs)
    {g : Field Ty} (hg : g ∈ gs) : g.type ∈ b.parts := by
  cases b with
  | openStruct => simp_all [fields?]
  | struct gs' =>
    cases hb
    exact List.mem_map_of_mem hg
  | _ => simp [fields?] at hb

theorem affirms_of_receives {σ : Option Bindings} {n : Bool} {a b : Ty} (h : Receives σ n a b) :
    ∀ fuel, Affirms (acceptWithin fuel ⟨n, false⟩ a b) σ := by
  induction h with
  | union _ _ ihl ihr | nullableUnion _ _ ihl ihr =>
    exact affirms_of_succ fun fuel ↦ .both (acceptWithin_readsOnly _ _ _ _) (ihl fuel) (ihr fuel)
  | nullableInterLeft r _ ih => exact affirms_of_succ fun fuel ↦ .either_left (ih fuel)
  | nullableInterRight l _ ih =>
    exact affirms_of_succ fun fuel ↦ .either_right (acceptWithin_readsOnly _ _ _ _) (ih fuel)
  | any hb hm =>
    refine affirms_of_succ fun fuel ↦ affirms_of_receive hb ?_
    simp only [receive, hm, Bool.false_eq_true, if_false]
    exact .pure _
  | generic hb hl =>
    refine affirms_of_succ fun fuel ↦ affirms_of_receive hb ?_
    intro c τ hc
    rw [receive, receiveGeneric_reading, hl] at hc
    exact Affirms.pure _ _ _ hc
  | bounded hb hl _ ih | genericBinding hb hl _ ih | boundedBinding hb hl _ ih =>
    refine affirms_of_succ fun fuel ↦ affirms_of_receive hb ?_
    intro c τ hc
    rw [receive, receiveGeneric_reading, hl] at hc
    exact ih fuel _ _ hc
  | nullable hb _ ih => exact affirms_of_succ fun fuel ↦ affirms_of_receive hb (ih fuel)
  | inter hb _ _ ihl ihr =>
    exact affirms_of_succ fun fuel ↦ affirms_of_receive hb
      (.both (acceptWithin_readsOnly _ _ _ _) (ihl fuel) (ihr fuel))
  | unionLeft hb _ ih =>
    refine affirms_of_succ fun fuel ↦ affirms_of_receive hb ?_
    rw [receive_union]
    exact .either_left (ih fuel)
  | unionRight hb _ ih =>
    refine affirms_of_succ fun fuel ↦ affirms_of_receive hb ?_
    rw [receive_union]
    exact .either_right (acceptWithin_readsOnly _ _ _ _) (ih fuel)
  | literal hs =>
    refine affirms_of_succ fun fuel ↦ affirms_of_receiveByShape rfl rfl ?_
    simp only [receiveByShape, hs]
    exact .pure _
  | null ha hl =>
    refine affirms_of_succ fun fuel ↦ affirms_of_receiveByShape ha rfl ?_
    rw [receiveByShape_literal hl]
    exact .pure _
  | checked k ha hl hc =>
    refine affirms_of_succ fun fuel ↦ affirms_of_receiveByShape ha rfl ?_
    rw [receiveByShape_literal hl]
    split
    · exact .pure _
    · intro c τ h
      exact checkWithin_unique (checkInSession_eq_some.1 h).2 hc
  | primitive p =>
    refine affirms_of_succ fun fuel ↦ affirms_of_receiveByShape rfl rfl ?_
    simp only [receiveByShape, beq_self_eq_true]
    exact .pure _
  | ofGeneric ha _ ih | ofBounded ha _ ih =>
    exact affirms_of_succ fun fuel ↦ affirms_of_receiveByShape ha rfl (ih fuel)
  | emptyTuple => exact affirms_of_succ fun fuel ↦ affirms_of_receiveByShape rfl rfl (.pure _)
  | tuple hl _ ih =>
    refine affirms_of_succ fun fuel ↦ affirms_of_receiveByShape rfl rfl ?_
    simp only [receiveByShape, hl, if_true]
    exact .allM (fun _ _ ↦ .isolated along_eq _) fun p hp ↦ .isolated (ih p hp fuel) _
  | array _ ih =>
    refine affirms_of_succ fun fuel ↦ affirms_of_receiveByShape rfl rfl ?_
    simp only [receiveByShape, if_true]
    exact ih fuel
  | list _ ih => exact affirms_of_succ fun fuel ↦ affirms_of_receiveByShape rfl rfl (ih fuel)
  | @openStruct _ _ b hb =>
    refine affirms_of_succ fun fuel ↦ affirms_of_receiveByShape rfl (splits_of_fields? hb) ?_
    cases b with
    | openStruct | struct gs => exact .pure _
    | _ => simp [fields?] at hb
  | @struct _ _ _ b gs hb hnone hopt _ ih =>
    refine affirms_of_succ fun fuel ↦
      affirms_of_receiveByShape rfl (splits_of_fields? (by rw [hb]; rfl)) ?_
    have hf := affirms_receiveFields hnone hopt fun f hf g hg ↦ ih f hf g hg fuel
    cases b with
    | openStruct | struct gs' =>
      cases hb
      exact hf
    | _ => simp [fields?] at hb
  | map _ _ ihk iht =>
    exact affirms_of_succ fun fuel ↦ affirms_of_receiveByShape rfl rfl
      (.both (acceptWithin_readsOnly _ _ _ _) (ihk fuel) (iht fuel))
  | tag name =>
    refine affirms_of_succ fun fuel ↦ affirms_of_receiveByShape rfl rfl ?_
    simp only [receiveByShape, beq_self_eq_true]
    exact .pure _
  | named name _ ih =>
    refine affirms_of_succ fun fuel ↦ affirms_of_receiveByShape rfl rfl ?_
    simp only [receiveByShape, if_true]
    exact ih fuel
  | unnamed ha hn _ ih =>
    refine affirms_of_succ fun fuel ↦ affirms_of_receiveByShape ha rfl ?_
    rw [receiveByShape_named hn]
    exact ih fuel
  | ofNullable ha hb _ ih =>
    exact affirms_of_succ fun fuel ↦ affirms_of_receiveByShape ha hb (ih fuel)
  | ofInterLeft ha _ ih =>
    refine affirms_of_succ fun fuel ↦ affirms_of_receiveByShape ha rfl ?_
    rw [receiveByShape_inter]
    exact .either_left (ih fuel)
  | ofInterRight ha _ ih =>
    refine affirms_of_succ fun fuel ↦ affirms_of_receiveByShape ha rfl ?_
    rw [receiveByShape_inter]
    exact .either_right (acceptWithin_readsOnly _ _ _ _) (ih fuel)

end FlowTypes.Ty
