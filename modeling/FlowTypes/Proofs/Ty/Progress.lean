import FlowTypes.Proofs.Ty.Growth
import FlowTypes.Proofs.Ty.Ground

namespace FlowTypes.Ty

open Session

variable {depth weight : String → Nat} {σ : Option Bindings} {n : Bool} {a b l r s t : Ty}
  {room room' fuel : Nat}

/-- How often generics are resolved while a type receives another in one piece, if what is bound to
a name does so no more often than its weight. -/
def strain (weight : String → Nat) (t : Ty) : Nat :=
  t.generics.foldr (fun name n ↦ weight name + 1 + n) 0

theorem strain_of_ground (h : t.generics = []) : t.strain weight = 0 := by simp [strain, h]

theorem strain_append (h : t.generics = l.generics ++ r.generics) :
    t.strain weight = l.strain weight + r.strain weight := by
  unfold strain
  rw [h, List.foldr_append]
  generalize l.generics = names
  induction names with
  | nil => simp
  | cons name names ih =>
    rw [List.foldr_cons, ih, List.foldr_cons]
    exact (Nat.add_assoc ..).symm

theorem strain_le_of_mem_parts (h : s ∈ t.parts) : s.strain weight ≤ t.strain weight := by
  have hsub := generics_sublist_of_mem_parts h
  unfold strain
  generalize s.generics = names, t.generics = names' at hsub
  induction hsub with
  | slnil => exact Nat.le_refl _
  | cons _ _ ih => exact Nat.le_trans ih (Nat.le_add_left _ _)
  | cons_cons _ _ ih => exact Nat.add_le_add_left ih _

/-- What is bound to each name leads so deep that `room` more is still within its depth, and has no
more strain than its weight. -/
structure Roomy (depth weight : String → Nat) (room : Nat) (σ : Option Bindings) : Prop where
  depth (name : String) : (σ.bind (·.lookup name)).elim 0 (reach depth) + room ≤ depth name
  weight (name : String) : (σ.bind (·.lookup name)).elim 0 (strain weight) ≤ weight name

theorem Roomy.mono (h : Roomy depth weight room σ) (hr : room' ≤ room) :
    Roomy depth weight room' σ where
  depth name := Nat.le_trans (by omega) (h.depth name)
  weight := h.weight

theorem Roomy.layered (h : Roomy depth weight room σ) : Layered depth σ := by
  intro name t ht
  have hd := h.depth name
  rw [ht, Option.elim_some] at hd
  omega

theorem Roomy.put {ρ : Bindings} (h : Roomy depth weight room (some ρ)) {name : String}
    (hd : t.reach depth + room ≤ depth name) (hw : t.strain weight ≤ weight name) :
    Roomy depth weight room (some (Entries.put name t ρ)) := by
  have hlookup (other : String) :
      other = name ∧ (Entries.put name t ρ).lookup other = some t ∨
        (Entries.put name t ρ).lookup other = ρ.lookup other := by
    by_cases he : other = name
    · subst he
      exact .inl ⟨rfl, lookup_put_self other t ρ⟩
    · exact .inr (lookup_put_of_ne name t he ρ)
  constructor <;> intro other <;> rw [Option.bind_some] <;> obtain ⟨rfl, hl⟩ | hl := hlookup other
  · rwa [hl]
  · rw [hl]
    exact h.depth other
  · rwa [hl]
  · rw [hl]
    exact h.weight other

/-- The step has a verdict, and leaves this much room. -/
def Finishes (depth weight : String → Nat) (step : Session Bool) (σ : Option Bindings)
    (room : Nat) : Prop := ∃ c τ, step σ = some (c, τ) ∧ Roomy depth weight room τ

namespace Finishes

variable {first second : Session Bool}

theorem of_decides (h : Decides first σ) (hσ : Roomy depth weight room σ) :
    Finishes depth weight first σ room := by
  obtain ⟨c, hc⟩ := h
  exact ⟨c, σ, hc, hσ⟩

theorem mono (h : Finishes depth weight first σ room) (hr : room' ≤ room) :
    Finishes depth weight first σ room' := by
  obtain ⟨c, τ, hc, hτ⟩ := h
  exact ⟨c, τ, hc, hτ.mono hr⟩

theorem both (h : Finishes depth weight first σ room) (hr : room' ≤ room)
    (h' : ∀ τ, Roomy depth weight room τ → Finishes depth weight second τ room') :
    Finishes depth weight (both first second) σ room' := by
  obtain ⟨c, τ, hc, hτ⟩ := h
  cases c with
  | false => exact ⟨false, τ, both_eq_some.2 (.inr ⟨hc, rfl⟩), hτ.mono hr⟩
  | true =>
    obtain ⟨c', τ', hc', hτ'⟩ := h' τ hτ
    exact ⟨c', τ', both_eq_some.2 (.inl ⟨τ, hc, hc'⟩), hτ'⟩

theorem either (h : Finishes depth weight first σ room) (hr : room' ≤ room)
    (h' : ∀ τ, Roomy depth weight room τ → Finishes depth weight second τ room') :
    Finishes depth weight (either first second) σ room' := by
  obtain ⟨c, τ, hc, hτ⟩ := h
  cases c with
  | false =>
    obtain ⟨c', τ', hc', hτ'⟩ := h' τ hτ
    exact ⟨c', τ', either_eq_some.2 (.inl ⟨τ, hc, hc'⟩), hτ'⟩
  | true => exact ⟨true, τ, either_eq_some.2 (.inr ⟨hc, rfl⟩), hτ.mono hr⟩

theorem assign {name : String} (hσ : Roomy depth weight room σ)
    (hd : t.reach depth + room ≤ depth name) (hw : t.strain weight ≤ weight name) :
    Finishes depth weight (assign name t) σ room := by
  refine ⟨true, _, assign_apply .., ?_⟩
  cases σ with
  | none => exact hσ
  | some ρ => exact hσ.put hd hw

end Finishes

/-- How much wider one generic can get by all parts of a received type. -/
def spread (b : Ty) : Nat := b.size * (b.size + 1)

theorem spread_add (h : l.size + r.size ≤ b.size) : l.spread + r.spread ≤ b.spread := by
  have hsum : l.spread + r.spread ≤ (l.size + r.size) * (l.size + r.size + 1) := by
    simp only [spread, Nat.mul_add, Nat.add_mul]
    omega
  exact Nat.le_trans hsum (Nat.mul_le_mul h (by omega))

theorem spread_mono (h : s.size ≤ b.size) : s.spread ≤ b.spread :=
  Nat.mul_le_mul h (by omega)

theorem size_lt_spread (b : Ty) : b.size < b.spread := by
  have h := Nat.mul_le_mul_right (b.size + 1) b.size_pos
  unfold spread
  omega

/-- How much deeper bindings can lead after a match. -/
def growth (weight : String → Nat) (a b : Ty) : Nat := a.strain weight * b.spread

theorem growth_add (weight : String → Nat) (h : l.size + r.size ≤ b.size) :
    growth weight a l + growth weight a r ≤ growth weight a b := by
  rw [growth, growth, ← Nat.mul_add]
  exact Nat.mul_le_mul_left _ (spread_add h)

theorem growth_parts (weight : String → Nat) (ha : s ∈ a.parts) (hb : t.size ≤ b.size) :
    growth weight s t ≤ growth weight a b :=
  Nat.mul_le_mul (strain_le_of_mem_parts ha) (spread_mono hb)

theorem growth_append (weight : String → Nat) (h : a.generics = l.generics ++ r.generics) :
    growth weight l b + growth weight r b = growth weight a b := by
  rw [growth, growth, growth, strain_append h, Nat.add_mul]

theorem reach_union_of_ground (hb : b.generics = []) :
    (Ty.union a b).reach depth = a.reach depth + b.size + 1 := by
  simp only [reach, beyond, size, generics, hb, List.append_nil]
  omega

section

variable {go : Mode → Ty → Ty → Session Bool} {check : Ty → Json → Session Bool}
  (hb : b.generics = [])
  (hread : ∀ {τ a' b'}, Layered depth τ → b'.generics = [] →
    a'.reach depth + b'.size < a.reach depth + b.size → Decides (go .reading a' b') τ)
  (hgo : ∀ {τ n' a' b' room'}, Roomy depth weight (room' + growth weight a' b') τ →
    b'.generics = [] → a'.reach depth + b'.size < a.reach depth + b.size →
    Finishes depth weight (go ⟨n', true⟩ a' b') τ room')
include hgo

theorem finishes_receiveBound (hb : b.generics = []) {bound : Option Ty}
    (hlt : ∀ t ∈ bound, t.reach depth < a.reach depth)
    (hσ : Roomy depth weight (room + bound.elim 0 (growth weight · b)) σ) :
    Finishes depth weight (receiveBound go ⟨n, true⟩ bound b) σ room := by
  cases bound with
  | none => exact .of_decides (.pure true σ) hσ
  | some t =>
    have ht := hlt t rfl
    exact hgo hσ hb (by omega)

theorem finishes_receiveGeneric (hb : b.generics = []) {name : String} {bound : Option Ty}
    (ha : a = bound.elim (.generic name) (.bounded name))
    (hσ : Roomy depth weight (room + growth weight a b) σ) :
    Finishes depth weight (receiveGeneric go ⟨n, true⟩ name bound b) σ room := by
  have hgrowth : growth weight a b =
      weight name * b.spread + b.spread + bound.elim 0 (growth weight · b) := by
    cases bound <;> simp [ha, growth, strain, generics, Nat.add_mul]
  have hlt : ∀ t ∈ bound, t.reach depth < a.reach depth := by
    rintro t rfl
    exact reach_lt depth (by simp [ha, parts])
  have hname : depth name < a.reach depth := ha ▸ depth_lt_reach depth name bound
  have hspread := size_lt_spread b
  have hbound : Finishes depth weight (receiveBound go ⟨n, true⟩ bound b) σ
      (room + weight name * b.spread + b.spread) :=
    finishes_receiveBound hgo hb hlt (hσ.mono (by omega))
  cases σ with
  | none => exact hbound.mono (by omega)
  | some ρ =>
    have hdepth := hσ.depth name
    have hweight := hσ.weight name
    rw [Option.bind_some] at hdepth hweight
    cases hl : ρ.lookup name with
    | none =>
      obtain ⟨c, τ, hc, hτ⟩ : Finishes depth weight
          (both (receiveBound go ⟨n, true⟩ bound b) (assign name b)) (some ρ) room := by
        refine hbound.both (by omega) fun τ hτ ↦ .assign (hτ.mono (by omega)) ?_ ?_
        · rw [reach_of_ground hb]
          omega
        · rw [strain_of_ground hb]
          exact Nat.zero_le _
      exact ⟨c, τ, (receiveGeneric_unbound n hl bound b).trans hc, hτ⟩
    | some old =>
      rw [hl, Option.elim_some] at hdepth hweight
      have hold : growth weight old b ≤ weight name * b.spread := Nat.mul_le_mul_right _ hweight
      obtain ⟨c, τ, hc, hτ⟩ : Finishes depth weight
          (both (receiveBound go ⟨n, true⟩ bound b)
            (either (go ⟨n, true⟩ old b) (assign name (.union old b)))) (some ρ) room := by
        refine hbound.both (by omega) fun τ hτ ↦ ?_
        have hfirst : Finishes depth weight (go ⟨n, true⟩ old b) τ (room + b.spread) :=
          hgo (hτ.mono (by omega)) hb (by omega)
        -- the binding is the one read at the start, which has room for the received type
        refine hfirst.either (by omega) fun τ hτ ↦ .assign (hτ.mono (by omega)) ?_ ?_
        · rw [reach_union_of_ground hb]
          omega
        · rwa [strain_append (l := old) (r := b) rfl, strain_of_ground hb]
      exact ⟨c, τ, (receiveGeneric_bound n hl bound b).trans hc, hτ⟩

theorem finishes_receiveFields (n : Bool) {fs : List (Field Ty)} (gs : List (Field Ty))
    (hfs : ∀ f ∈ fs, f.type.reach depth < a.reach depth)
    (hgs : ∀ g ∈ gs, g.type.size < b.size ∧ g.type.generics = [])
    (hσ : Roomy depth weight (room + growth weight (.struct fs) b) σ) :
    Finishes depth weight (receiveFields go ⟨n, true⟩ fs gs) σ room := by
  induction fs generalizing σ with
  | nil => exact .of_decides (.pure true σ) (hσ.mono (Nat.le_add_right _ _))
  | cons f fs ih =>
    rw [receiveFields, allM_cons]
    have hgrowth : growth weight f.type b + growth weight (.struct fs) b =
        growth weight (.struct (f :: fs)) b := growth_append weight (by simp [generics_struct])
    have hpure (c : Bool) : Finishes depth weight (pure c) σ
        (room + growth weight (.struct fs) b) := .of_decides (.pure c σ) (hσ.mono (by omega))
    refine Finishes.both ?_ (Nat.le_add_right _ _) fun τ hτ ↦
      ih (fun f hf ↦ hfs f (by simp [hf])) hτ
    split
    · next g hg =>
      obtain ⟨hs, hground⟩ := hgs g (List.mem_of_find?_eq_some hg)
      have hf := hfs f (by simp)
      have hle : growth weight f.type g.type ≤ growth weight f.type b :=
        Nat.mul_le_mul_left _ (spread_mono (by omega))
      split
      · exact hgo (hσ.mono (by omega)) hground (by omega)
      · exact hpure false
    · exact hpure f.optional

include hb hread

theorem finishes_receiveByShape (hσ : Roomy depth weight (room + growth weight a b) σ)
    (hcheck : ∀ v, Decides (check a v) σ) :
    Finishes depth weight (receiveByShape go check ⟨n, true⟩ a b) σ room := by
  have hdecides {step : Session Bool} (h : Decides step σ) : Finishes depth weight step σ room :=
    .of_decides h (hσ.mono (by omega))
  have hpure (c : Bool) : Finishes depth weight (pure c) σ room := hdecides (.pure c σ)
  have hreading {a' b' : Ty} (ha : a' ∈ a.parts) (hm : b' ∈ b.parts) {τ : Option Bindings}
      (hτ : Layered depth τ) : Decides (go .reading a' b') τ := by
    have hra := reach_lt depth ha
    have hsb := size_lt_of_mem_parts hm
    exact hread hτ (generics_eq_nil_of_mem_parts hb hm) (by omega)
  have hpart {n' : Bool} {b' : Ty} (hm : b' ∈ b.parts) {τ : Option Bindings} {room' : Nat}
      (hτ : Roomy depth weight (room' + growth weight a b') τ) :
      Finishes depth weight (go ⟨n', true⟩ a b') τ room' := by
    have hsb := size_lt_of_mem_parts hm
    exact hgo hτ (generics_eq_nil_of_mem_parts hb hm) (by omega)
  have hgrowth {b' : Ty} (hm : b' ∈ b.parts) : growth weight a b' ≤ growth weight a b :=
    Nat.mul_le_mul_left _ (spread_mono (Nat.le_of_lt (size_lt_of_mem_parts hm)))
  cases b with
  | literal l =>
    unfold receiveByShape
    dsimp only
    split
    · exact hpure _
    · split
      · exact hpure _
      · exact hdecides (hcheck _)
  | primitive q | emptyTuple | tag name =>
    unfold receiveByShape
    dsimp only
    split <;> exact hpure _
  | union l r => exact hpure _
  | generic | bounded => simp [generics] at hb
  | tuple ts =>
    cases a with
    | tuple ss =>
      refine hdecides (.ite (fun _ ↦ .allM fun p hp ↦ .isolated ?_ σ) fun _ ↦ .pure _ σ)
      obtain ⟨hs, ht⟩ := List.of_mem_zip hp
      exact hreading hs ht (layered_none depth)
    | _ => exact hpure _
  | array t m =>
    cases a with
    | array s k =>
      exact hdecides (.ite (fun _ ↦ hreading (by simp [parts]) (by simp [parts]) hσ.layered)
        fun _ ↦ .pure _ σ)
    | _ => exact hpure _
  | list t =>
    cases a with
    | list s => exact hdecides (hreading (by simp [parts]) (by simp [parts]) hσ.layered)
    | _ => exact hpure _
  | openStruct =>
    cases a with
    | openStruct => exact hpure _
    | struct fs =>
      refine finishes_receiveFields hgo n [] (fun f hf ↦ ?_) (by simp) hσ
      exact reach_lt depth (List.mem_map_of_mem hf)
    | _ => exact hpure _
  | struct gs =>
    cases a with
    | openStruct => exact hpure _
    | struct fs =>
      refine finishes_receiveFields hgo n gs (fun f hf ↦ ?_) (fun g hg ↦ ?_) hσ
      · exact reach_lt depth (List.mem_map_of_mem hf)
      · exact ⟨size_mem_struct hg, generics_eq_nil_of_mem_parts hb (List.mem_map_of_mem hg)⟩
    | _ => exact hpure _
  | map l t =>
    cases a with
    | map k s =>
      exact hdecides (.both (hreading (by simp [parts]) (by simp [parts]) hσ.layered)
        (hreading (by simp [parts]) (by simp [parts]) hσ.layered))
    | _ => exact hpure _
  | named name t =>
    have hg := hgrowth (show t ∈ _ by simp [parts])
    cases hn : a.isNominal with
    | false =>
      rw [receiveByShape_named hn]
      exact hpart (by simp [parts]) (hσ.mono (by omega))
    | true =>
      cases a with
      | named name' s =>
        have hmem : s ∈ (Ty.named name' s).parts := by simp [parts]
        have hlt := reach_lt depth hmem
        have hs := growth_parts weight hmem
          (show t.size ≤ (Ty.named name t).size by simp [size])
        unfold receiveByShape
        dsimp only
        split
        · exact hgo (hσ.mono (by omega)) hb (by simp only [size]; omega)
        · exact hpure _
      | tag _ => exact hpure _
      | _ => simp [isNominal] at hn
  | nullable t =>
    have hg := hgrowth (show t ∈ _ by simp [parts])
    unfold receiveByShape
    dsimp only
    split
    · exact hpart (by simp [parts]) (hσ.mono (by omega))
    · exact hpure _
  | inter l r =>
    have hg := growth_add weight (a := a)
      (show l.size + r.size ≤ (Ty.inter l r).size by simp [size])
    rw [receiveByShape_inter]
    have hl : Finishes depth weight (go ⟨n || (l.isNullable != r.isNullable), true⟩ a l) σ
        (room + growth weight a r) := hpart (by simp [parts]) (hσ.mono (by omega))
    exact hl.either (Nat.le_add_right _ _) fun τ hτ ↦ hpart (by simp [parts]) hτ

theorem finishes_receive (hσ : Roomy depth weight (room + growth weight a b) σ)
    (hcheck : ∀ v, Decides (check a v) σ) :
    Finishes depth weight (receive go check ⟨n, true⟩ a b) σ room := by
  have hpart {n' : Bool} {a' : Ty} (hm : a' ∈ a.parts) {τ : Option Bindings} {room' : Nat}
      (hτ : Roomy depth weight (room' + growth weight a' b) τ) :
      Finishes depth weight (go ⟨n', true⟩ a' b) τ room' := by
    have hra := reach_lt depth hm
    exact hgo hτ hb (by omega)
  cases hshape : a.isShape with
  | true =>
    have he : receive go check ⟨n, true⟩ a b = _ ∨ _ := receive_of_isShape hshape _ b
    rcases he with he | ⟨-, -, he⟩
    · rw [he]
      exact finishes_receiveByShape hb hread hgo hσ hcheck
    · rw [he]
      exact .of_decides (.pure true σ) (hσ.mono (by omega))
  | false =>
    cases a with
    | generic name => exact finishes_receiveGeneric hgo hb rfl hσ
    | bounded name t => exact finishes_receiveGeneric hgo hb rfl hσ
    | nullable t => exact hpart (by simp [parts]) hσ
    | inter l r =>
      have hg := growth_append weight (b := b)
        (show (Ty.inter l r).generics = _ from rfl)
      have hl : Finishes depth weight (go ⟨n, true⟩ l b) σ (room + growth weight r b) :=
        hpart (by simp [parts]) (hσ.mono (by omega))
      exact hl.both (Nat.le_add_right _ _) fun τ hτ ↦ hpart (by simp [parts]) hτ
    | union l r =>
      have hg := growth_append weight (b := b)
        (show (Ty.union l r).generics = _ from rfl)
      rw [receive_union]
      have hl : Finishes depth weight (go ⟨n || (l.isNullable || r.isNullable), true⟩ l b) σ
          (room + growth weight r b) := hpart (by simp [parts]) (hσ.mono (by omega))
      exact hl.either (Nat.le_add_right _ _) fun τ hτ ↦ hpart (by simp [parts]) hτ
    | _ => simp [isShape] at hshape

theorem finishes_receiveParts (hσ : Roomy depth weight (room + growth weight a b) σ)
    (hcheck : ∀ v, Decides (check a v) σ) :
    Finishes depth weight (receiveParts go check ⟨n, true⟩ a b) σ room := by
  have hparts {b₁ b₂ : Ty} (hs : b₁.size + b₂.size ≤ b.size) (h₁ : b₁.generics = [])
      (h₂ : b₂.generics = []) :
      Finishes depth weight (go ⟨n, true⟩ a b₁) σ (room + growth weight a b₂) ∧
        ∀ τ, Roomy depth weight (room + growth weight a b₂) τ →
          Finishes depth weight (go ⟨n, true⟩ a b₂) τ room := by
    have hg := growth_add weight (a := a) hs
    have hpos₁ := b₁.size_pos
    have hpos₂ := b₂.size_pos
    exact ⟨hgo (hσ.mono (by omega)) h₁ (by omega), fun τ hτ ↦ hgo hτ h₂ (by omega)⟩
  unfold receiveParts
  split
  · next l r =>
    obtain ⟨hl, hr⟩ := hereditary_ground.union hb
    have hs : (nullable l).size + (nullable r).size ≤ (Ty.nullable (.union l r)).size := by
      simp only [size]
      omega
    obtain ⟨hfirst, hsecond⟩ := hparts hs hl hr
    exact hfirst.both (Nat.le_add_right _ _) hsecond
  · next l r =>
    obtain ⟨hl, hr⟩ := hereditary_ground.inter hb
    have hs : (nullable l).size + (nullable r).size ≤ (Ty.nullable (.inter l r)).size := by
      simp only [size]
      omega
    obtain ⟨hfirst, hsecond⟩ := hparts hs hl hr
    exact hfirst.either (Nat.le_add_right _ _) hsecond
  · next l r =>
    have hs : l.size + r.size ≤ (Ty.union l r).size := by simp [size]
    obtain ⟨hfirst, hsecond⟩ := hparts hs (generics_eq_nil_of_mem_parts hb (by simp [parts]))
      (generics_eq_nil_of_mem_parts hb (by simp [parts]))
    exact hfirst.both (Nat.le_add_right _ _) hsecond
  · exact finishes_receive hb hread hgo hσ hcheck

end

/-- A match has a verdict, if there is room for its growth and the fuel covers what both types lead
to. -/
theorem finishes_acceptWithin (hσ : Roomy depth weight (room + growth weight a b) σ)
    (hb : b.generics = []) (hf : a.reach depth + b.size ≤ fuel) :
    Finishes depth weight (acceptWithin fuel ⟨n, true⟩ a b) σ room := by
  induction fuel generalizing σ n a b room with
  | zero =>
    have := b.size_pos
    omega
  | succ fuel ih =>
    apply finishes_receiveParts hb ?_ ?_ hσ
    · have := b.size_pos
      exact decides_checkInSession hσ.layered (by omega)
    · intro τ a' b' hτ hb' hless
      have hload : b'.load = b'.size := by simp [load, hb']
      exact decides_acceptWithin hτ (by omega)
    · intro τ n' a' b' room' hτ hb' hless
      exact ih hτ hb' (by omega)

end FlowTypes.Ty
