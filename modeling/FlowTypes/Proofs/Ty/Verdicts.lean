import FlowTypes.Proofs.Entries
import FlowTypes.Proofs.Number.Rounding
import FlowTypes.Proofs.Ty.Simulation

namespace FlowTypes

/-- What is bound to generics has no generics. -/
def Bindings.Closed (bindings : Bindings) : Prop := ∀ entry ∈ bindings, entry.2.generics = []

theorem Bindings.Closed.put {bindings : Bindings} (h : bindings.Closed) {t : Ty}
    (ht : t.generics = []) (name : String) : Bindings.Closed (Entries.put name t bindings) := by
  intro entry hm
  obtain he | hm := mem_put name t hm
  · rw [he, ht]
  · exact h entry hm

theorem Bindings.size_of_mem {bindings : Bindings} {entry : String × Ty} (h : entry ∈ bindings) :
    entry.2.size ≤ bindings.size := by
  induction h with
  | head rest => simp [Bindings.size]
  | tail other _ ih =>
    simp only [Bindings.size, List.foldr_cons] at ih ⊢
    omega

/-- What the names of generics stand for, where what is bound to them has no generics. -/
def Bindings.env (bindings : Bindings) (validators : Validators) : Env :=
  fun name ↦ (bindings.lookup name).map fun t ↦ t.holds validators .empty

namespace Session

def Refines (step step' : Session Bool) : Prop := ∀ σ x, step σ = some x → step' σ = some x

theorem Refines.refl (step : Session Bool) : Refines step step := fun _ _ h ↦ h

theorem refines_iff_simulates {step step' : Session Bool} :
    Refines step step' ↔ Simulates Eq step step' := by
  constructor
  · rintro h σ _ rfl c τ hc
    exact ⟨τ, h _ _ hc, rfl⟩
  · intro h σ ⟨c, τ⟩ hc
    obtain ⟨_, hc', rfl⟩ := h _ _ rfl _ _ hc
    exact hc'

end Session

namespace Ty

open Session

section

variable {go go' : Mode → Ty → Ty → Session Bool} {check check' : Ty → Json → Session Bool}
  (hgo : ∀ mode a b, Refines (go mode a b) (go' mode a b))
  (hcheck : ∀ t v, Refines (check t v) (check' t v)) (mode : Mode)
include hgo

theorem refines_receiveGeneric (name : String) (bound : Option Ty) (b : Ty) :
    Refines (receiveGeneric go mode name bound b) (receiveGeneric go' mode name bound b) := by
  have hold (t : Ty) : Simulates Eq (go mode t b) (go' mode t b) :=
    refines_iff_simulates.1 (hgo mode t b)
  have hbound : Simulates Eq (receiveBound go mode bound b) (receiveBound go' mode bound b) := by
    cases bound with
    | none => exact .pure true
    | some t => exact hold t
  have hassign (t : Ty) : Simulates Eq (assign name t) (assign name t) :=
    refines_iff_simulates.1 (.refl _)
  rw [refines_iff_simulates]
  rintro σ _ rfl c τ h
  rw [receiveGeneric_apply] at h ⊢
  generalize σ.map (List.lookup name) = found at h ⊢
  generalize mode.resolving = res at h ⊢
  match found, res with
  | none, _ | some none, false => exact hbound _ _ rfl _ _ h
  | some none, true => exact hbound.both (hassign _) _ _ rfl _ _ h
  | some (some old), false => exact hold old _ _ rfl _ _ h
  | some (some old), true => exact hbound.both ((hold old).either (hassign _)) _ _ rfl _ _ h

include hcheck

theorem refines_receiveParts (a b : Ty) :
    Refines (receiveParts go check mode a b) (receiveParts go' check' mode a b) := by
  obtain ⟨n, res⟩ := mode
  rw [refines_iff_simulates]
  apply simulates_receiveParts rfl receptive_true
  · exact fun n a b _ ↦ refines_iff_simulates.1 (hgo _ a b)
  · exact fun a b _ ↦ refines_iff_simulates.1 (hgo _ a b)
  · exact fun a _ _ l ↦ refines_iff_simulates.1 (hcheck a _)
  · trivial
  · exact fun n name bound b _ ↦ refines_iff_simulates.1 (refines_receiveGeneric hgo _ name bound b)

end

/-- A verdict that is found within some depth is found within any greater one. -/
theorem acceptWithin_mono {fuel fuel' : Nat} (hf : fuel ≤ fuel') (mode : Mode) (a b : Ty) :
    Refines (acceptWithin fuel mode a b) (acceptWithin fuel' mode a b) := by
  induction fuel generalizing fuel' mode a b with
  | zero => exact refines_iff_simulates.2 (simulates_exhausted mode a b _)
  | succ fuel ih =>
    obtain ⟨fuel', rfl⟩ : ∃ k, fuel' = k + 1 := ⟨fuel' - 1, by omega⟩
    refine refines_receiveParts (ih (by omega)) (fun t v σ x h ↦ ?_) mode a b
    obtain ⟨hσ, hc⟩ := checkInSession_eq_some.1 h
    exact checkInSession_eq_some.2 ⟨hσ, checkWithin_mono (by omega) hc⟩

theorem acceptWithin_unique {fuel fuel' : Nat} {mode : Mode} {a b : Ty} {σ : Option Bindings}
    {x x' : Bool × Option Bindings} (h : acceptWithin fuel mode a b σ = some x)
    (h' : acceptWithin fuel' mode a b σ = some x') : x = x' := by
  have h₁ := acceptWithin_mono (Nat.le_max_left fuel fuel') mode a b σ x h
  have h₂ := acceptWithin_mono (Nat.le_max_right fuel fuel') mode a b σ x' h'
  rwa [h₁, Option.some_inj] at h₂

variable {σ : Option Bindings} {n : Bool} {a b s t : Ty}

def Shallow (depth : Nat) (σ : Option Bindings) : Prop :=
  ∀ name t, σ.bind (·.lookup name) = some t → t.generics = [] ∧ t.size ≤ depth

theorem shallow_none (depth : Nat) : Shallow depth none := by
  intro name t h
  simp at h

theorem shallow_of_closed {bindings : Bindings} (hc : bindings.Closed) :
    Shallow bindings.size (some bindings) := by
  intro name t h
  have hm := mem_of_lookup h
  exact ⟨hc _ hm, Bindings.size_of_mem hm⟩

theorem agrees_env {depth : Nat} (hσ : Shallow depth σ) (validators : Validators) (name : String) :
    Agrees (σ.getD []) validators ((σ.getD []).env validators) depth name := by
  unfold Agrees Bindings.env
  split
  · next hl => simp [hl]
  · next t hl =>
    obtain ⟨hg, hs⟩ := hσ name t (by cases σ <;> simp_all)
    refine ⟨t.holds validators .empty, by simp [hl], fun fuel value hf ↦ ?_⟩
    exact checkWithin_of_generics_eq_nil hg _ .empty (Nat.le_trans hs hf) value

section

variable {depth : String → Nat} {k fuel : Nat}

/-- How deep what is bound to the generics of a type leads, if what is bound to a name leads no
deeper than its depth. -/
def beyond (depth : String → Nat) (t : Ty) : Nat := (t.generics.map depth).foldr max 0

/-- How deep a receiving type leads. -/
def reach (depth : String → Nat) (t : Ty) : Nat := t.size + t.beyond depth

theorem beyond_le_iff : t.beyond depth ≤ k ↔ ∀ name ∈ t.generics, depth name ≤ k := by
  unfold beyond
  generalize t.generics = names
  induction names with
  | nil => simp
  | cons name names ih =>
    rw [List.map_cons, List.foldr_cons, Nat.max_le, ih, List.forall_mem_cons]

theorem le_beyond (depth : String → Nat) {name : String} (h : name ∈ t.generics) :
    depth name ≤ t.beyond depth :=
  beyond_le_iff.1 (Nat.le_refl _) name h

theorem reach_of_ground (h : t.generics = []) : t.reach depth = t.size := by
  simp [reach, beyond, h]

theorem reach_lt (depth : String → Nat) (h : s ∈ t.parts) : s.reach depth < t.reach depth := by
  have hs := size_lt_of_mem_parts h
  have hb : s.beyond depth ≤ t.beyond depth :=
    beyond_le_iff.2 fun name hn ↦ le_beyond depth ((generics_sublist_of_mem_parts h).subset hn)
  unfold reach
  omega

theorem depth_lt_reach (depth : String → Nat) (name : String) (bound : Option Ty) :
    depth name < (bound.elim (Ty.generic name) (.bounded name)).reach depth := by
  have hmem : name ∈ (bound.elim (Ty.generic name) (.bounded name)).generics := by
    cases bound <;> simp [generics]
  have hb := le_beyond depth hmem
  have hs := (bound.elim (Ty.generic name) (.bounded name)).size_pos
  unfold reach
  omega

/-- The binding of each name leads no deeper than the depth of that name. -/
def Layered (depth : String → Nat) (σ : Option Bindings) : Prop :=
  ∀ name t, σ.bind (·.lookup name) = some t → t.reach depth ≤ depth name

theorem layered_none (depth : String → Nat) : Layered depth none := by
  intro name t h
  simp at h

theorem Shallow.layered (h : Shallow k σ) : Layered (fun _ ↦ k) σ := by
  intro name t ht
  obtain ⟨hg, hs⟩ := h name t ht
  rwa [reach_of_ground hg]

theorem Agrees.mono {bindings : Bindings} {validators : Validators} {env : Env} {k' : Nat}
    {name : String} (h : Agrees bindings validators env k name) (hk : k ≤ k') :
    Agrees bindings validators env k' name := by
  unfold Agrees at h ⊢
  split
  · next hl => simpa [hl] using h
  · next t hl =>
    simp only [hl] at h
    obtain ⟨q, hq, hc⟩ := h
    exact ⟨q, hq, fun fuel value hf ↦ hc fuel value (Nat.le_trans hk hf)⟩

def envWithin (bindings : Bindings) (validators : Validators) (depth : String → Nat) : Env :=
  fun name ↦ (bindings.lookup name).map fun t value ↦
    (checkWithin bindings validators (depth name) t value).getD false

theorem agrees_of_layered {bindings : Bindings} (h : Layered depth (some bindings))
    (validators : Validators) (name : String) :
    Agrees bindings validators (envWithin bindings validators depth) (depth name) name := by
  induction hd : depth name using Nat.strongRecOn generalizing name with
  | _ d ih =>
    subst hd
    unfold Agrees
    split
    · next hl => simp [envWithin, hl]
    · next t hl =>
      have hr : t.reach depth ≤ depth name := h name t hl
      have hc {fuel : Nat} (hf : depth name ≤ fuel) (value : Option Json) :
          checkWithin bindings validators fuel t value =
            some (holds validators (envWithin bindings validators depth) t value) := by
        refine checkWithin_eq_holds bindings _ (t.beyond depth) (fun m hm ↦ ?_)
          (Nat.le_trans hr hf) value
        have hm' := le_beyond depth hm
        have hs := t.size_pos
        exact (ih (depth m) (by unfold reach at hr; omega) m rfl).mono hm'
      refine ⟨holds validators (envWithin bindings validators depth) t, ?_, fun fuel value hf ↦
        hc hf value⟩
      simp [envWithin, hl, hc (Nat.le_refl _)]

theorem checkWithin_of_layered {bindings : Bindings} (h : Layered depth (some bindings))
    (validators : Validators) (hf : t.reach depth ≤ fuel) (value : Option Json) :
    checkWithin bindings validators fuel t value =
      some (holds validators (envWithin bindings validators depth) t value) :=
  checkWithin_eq_holds bindings _ (t.beyond depth)
    (fun name hn ↦ (agrees_of_layered h validators name).mono (le_beyond depth hn)) hf value

theorem decides_checkInSession (hσ : Layered depth σ) (hf : a.reach depth ≤ fuel) (v : Json) :
    Decides (checkInSession fuel a v) σ := by
  have h : Layered depth (some (σ.getD [])) := by
    cases σ with
    | none =>
      intro name t ht
      simp at ht
    | some bindings => exact hσ
  exact ⟨_, checkInSession_eq_some.2 ⟨rfl, checkWithin_of_layered h [] hf (some v)⟩⟩

end

/-- How deep a received type leads. A generic may turn out to be `anything`, which has two nodes. -/
def load (t : Ty) : Nat := t.size + 2 * t.generics.length

theorem load_lt (h : s ∈ t.parts) : s.load < t.load := by
  have hs := size_lt_of_mem_parts h
  have hg := (generics_sublist_of_mem_parts h).length_le
  unfold load
  omega

theorem load_nullable (t : Ty) : (Ty.nullable t).load = t.load + 1 := by
  simp [load, size, generics]
  omega

section

variable {go : Mode → Ty → Ty → Session Bool} {check : Ty → Json → Session Bool}
  {depth : String → Nat} (hσ : Layered depth σ)
  (hgo : ∀ {τ}, Layered depth τ → ∀ {n' a' b'},
    a'.reach depth + b'.load < a.reach depth + b.load → Decides (go ⟨n', false⟩ a' b') τ)
include hσ hgo

theorem decides_receiveGeneric {name : String} {bound : Option Ty}
    (ha : a = bound.elim (.generic name) (.bounded name)) :
    Decides (receiveGeneric go ⟨n, false⟩ name bound b) σ := by
  unfold Decides
  rw [receiveGeneric_reading]
  split
  · next old hl =>
    have hold := hσ name old hl
    have hname := depth_lt_reach depth name bound
    rw [← ha] at hname
    exact hgo hσ (by omega)
  · cases bound with
    | none => exact Decides.pure true σ
    | some t =>
      have hr := reach_lt depth (show t ∈ a.parts by simp [ha, parts])
      exact hgo hσ (by omega)

theorem decides_receiveFields (n : Bool) {fs gs : List (Field Ty)} (ha : a = .struct fs)
    (hb : b.fields? = some gs) : Decides (receiveFields go ⟨n, false⟩ fs gs) σ := by
  apply Decides.allM
  intro f hf
  split
  · next g hg =>
    have hr := reach_lt depth (show f.type ∈ a.parts by rw [ha]; exact List.mem_map_of_mem hf)
    have hl := load_lt (mem_parts_of_fields? hb (List.mem_of_find?_eq_some hg))
    exact .ite (fun _ ↦ hgo hσ (by omega)) (fun _ ↦ .pure false σ)
  · exact .pure _ σ

theorem decides_receiveByShape (hcheck : ∀ v, Decides (check a v) σ) :
    Decides (receiveByShape go check ⟨n, false⟩ a b) σ := by
  have hparts {τ : Option Bindings} (hτ : Layered depth τ) {n' : Bool} {a' b' : Ty}
      (ha : a' ∈ a.parts) (hb : b' ∈ b.parts) : Decides (go ⟨n', false⟩ a' b') τ := by
    have hr := reach_lt depth ha
    have hl := load_lt hb
    exact hgo hτ (by omega)
  have hpart {n' : Bool} {b' : Ty} (hb : b' ∈ b.parts) : Decides (go ⟨n', false⟩ a b') σ := by
    have hl := load_lt hb
    exact hgo hσ (by omega)
  cases b with
  | literal l =>
    unfold receiveByShape
    dsimp only
    split
    · exact .pure _ σ
    · exact .ite (fun _ ↦ .pure _ σ) (fun _ ↦ hcheck _)
  | primitive q | emptyTuple | tag name =>
    unfold receiveByShape
    dsimp only
    split <;> exact .pure _ σ
  | union l r => exact .pure _ σ
  | generic name => exact hgo hσ (by simp [load, anything, size, generics])
  | bounded name t => exact hpart (by simp [parts])
  | tuple ts =>
    cases a with
    | tuple ss =>
      refine .ite (fun _ ↦ .allM fun p hp ↦ .isolated ?_ σ) (fun _ ↦ .pure _ σ)
      obtain ⟨hs, ht⟩ := List.of_mem_zip hp
      exact hparts (layered_none depth) hs ht
    | _ => exact .pure _ σ
  | array t m =>
    cases a with
    | array s k =>
      exact .ite (fun _ ↦ hparts hσ (by simp [parts]) (by simp [parts])) (fun _ ↦ .pure _ σ)
    | _ => exact .pure _ σ
  | list t =>
    cases a with
    | list s => exact hparts hσ (by simp [parts]) (by simp [parts])
    | _ => exact .pure _ σ
  | openStruct | struct gs =>
    cases a with
    | openStruct => exact .pure _ σ
    | struct fs => exact decides_receiveFields hσ hgo n rfl rfl
    | _ => exact .pure _ σ
  | map l t =>
    cases a with
    | map k s =>
      exact .both (hparts hσ (by simp [parts]) (by simp [parts]))
        (hparts hσ (by simp [parts]) (by simp [parts]))
    | _ => exact .pure _ σ
  | named name t =>
    cases hn : a.isNominal with
    | false =>
      rw [receiveByShape_named hn]
      exact hpart (by simp [parts])
    | true =>
      cases a with
      | named name' s =>
        exact .ite (fun _ ↦ hparts hσ (by simp [parts]) (by simp [parts])) (fun _ ↦ .pure _ σ)
      | tag _ => exact .pure _ σ
      | _ => simp [isNominal] at hn
  | nullable t => exact .ite (fun _ ↦ hpart (by simp [parts])) (fun _ ↦ .pure _ σ)
  | inter l r =>
    rw [receiveByShape_inter]
    exact .either (hpart (by simp [parts])) (hpart (by simp [parts]))

theorem decides_receive (hcheck : ∀ v, Decides (check a v) σ) :
    Decides (receive go check ⟨n, false⟩ a b) σ := by
  have hpart {n' : Bool} {a' : Ty} (ha : a' ∈ a.parts) : Decides (go ⟨n', false⟩ a' b) σ := by
    have hr := reach_lt depth ha
    exact hgo hσ (by omega)
  cases ha : a.isShape with
  | true =>
    have he : receive go check ⟨n, false⟩ a b = _ ∨ _ := receive_of_isShape ha _ b
    obtain he | ⟨-, -, he⟩ := he
    · rw [he]
      exact decides_receiveByShape hσ hgo hcheck
    · rw [he]
      exact .pure true σ
  | false =>
    cases a with
    | generic name => exact decides_receiveGeneric hσ hgo rfl
    | bounded name t => exact decides_receiveGeneric hσ hgo rfl
    | nullable t => exact hpart (by simp [parts])
    | inter l r => exact .both (hpart (by simp [parts])) (hpart (by simp [parts]))
    | union l r =>
      rw [receive_union]
      exact .either (hpart (by simp [parts])) (hpart (by simp [parts]))
    | _ => simp [isShape] at ha

theorem decides_receiveParts (hcheck : ∀ v, Decides (check a v) σ) :
    Decides (receiveParts go check ⟨n, false⟩ a b) σ := by
  have hless {n' : Bool} {b' : Ty} (hb : b'.load < b.load) : Decides (go ⟨n', false⟩ a b') σ :=
    hgo hσ (by omega)
  unfold receiveParts
  split
  · next l r =>
    have hl := load_lt (show l ∈ (Ty.union l r).parts by simp [parts])
    have hr := load_lt (show r ∈ (Ty.union l r).parts by simp [parts])
    simp only [load_nullable] at hless
    exact .both (hless (by rw [load_nullable]; omega)) (hless (by rw [load_nullable]; omega))
  · next l r =>
    have hl := load_lt (show l ∈ (Ty.inter l r).parts by simp [parts])
    have hr := load_lt (show r ∈ (Ty.inter l r).parts by simp [parts])
    simp only [load_nullable] at hless
    exact .either (hless (by rw [load_nullable]; omega)) (hless (by rw [load_nullable]; omega))
  · exact .both (hless (load_lt (by simp [parts]))) (hless (load_lt (by simp [parts])))
  · exact decides_receive hσ hgo hcheck

end

/-- A match that only reads has a verdict, if the fuel covers what both types lead to. -/
theorem decides_acceptWithin {depth : String → Nat} (hσ : Layered depth σ) {fuel : Nat}
    (hf : a.reach depth + b.load ≤ fuel) : Decides (acceptWithin fuel ⟨n, false⟩ a b) σ := by
  induction fuel generalizing σ n a b with
  | zero =>
    have := b.size_pos
    simp only [load] at hf
    omega
  | succ fuel ih =>
    apply decides_receiveParts hσ
    · intro τ hτ n' a' b' hless
      exact ih hτ (by omega)
    · have := b.size_pos
      have hb : 0 < b.load := by simp only [load]; omega
      exact decides_checkInSession hσ (by omega)

theorem generics_length_le (t : Ty) : t.generics.length ≤ t.size := by
  induction t with
  | tuple ts ih =>
    rw [generics_tuple, size]
    induction ts with
    | nil => simp
    | cons t ts ihs =>
      have ht := ih t (by simp)
      have hts := ihs fun s hs ↦ ih s (by simp [hs])
      simp only [List.flatMap_cons, List.length_append, sizeItems]
      omega
  | struct fs ih =>
    rw [generics_struct, size]
    induction fs with
    | nil => simp
    | cons f fs ihs =>
      have hf := ih f (by simp)
      have hfs := ihs fun g hg ↦ ih g (by simp [hg])
      simp only [List.flatMap_cons, List.length_append, sizeFields]
      omega
  | _ => simp [generics, size] <;> omega

theorem le_acceptDepth (a b : Ty) (σ : Option Bindings) {depth : String → Nat}
    (hd : ∀ name, depth name ≤ (σ.getD []).size) :
    a.reach depth + b.load ≤ acceptDepth a b σ := by
  have ha : a.beyond depth ≤ (σ.getD []).size := beyond_le_iff.2 fun name _ ↦ hd name
  have hb : b.load ≤ 3 * b.size := by
    have := b.generics_length_le
    unfold load
    omega
  unfold acceptDepth reach
  dsimp only
  generalize hn : a.size + b.size + (σ.getD []).size = n
  have h : 3 * (n + 4) ≤ (n + 4) * (n + 4) * (n + 4) := by
    apply Nat.mul_le_mul_right
    calc 3 ≤ n + 4 := by omega
      _ ≤ (n + 4) * (n + 4) := Nat.le_mul_self _
  have hpow := Nat.le_mul_of_pos_right ((n + 4) * (n + 4) * (n + 4))
    (Double.twoPow_pos (2 * (σ.getD []).size))
  omega

/-- Where what is bound leads no deeper than its size, a match that only reads has a verdict, and
accepts exactly what the rules derive. -/
theorem accept?_reading_iff_of_layered {depth : String → Nat} (hσ : Layered depth σ)
    (hd : ∀ name, depth name ≤ (σ.getD []).size) (n : Bool) (a b : Ty) :
    accept? ⟨n, false⟩ a b σ = some (true, σ) ↔ Receives σ n a b := by
  refine ⟨receives_of_acceptWithin, fun h ↦ ?_⟩
  obtain ⟨c, hc⟩ := decides_acceptWithin hσ (le_acceptDepth a b σ hd) (n := n)
  obtain rfl := affirms_of_receives h _ _ _ hc
  exact hc

theorem accept?_reading_iff {σ : Option Bindings} (hσ : ∀ bindings ∈ σ, bindings.Closed) (n : Bool)
    (a b : Ty) : accept? ⟨n, false⟩ a b σ = some (true, σ) ↔ Receives σ n a b := by
  have hs : Shallow (σ.getD []).size σ := by
    cases σ with
    | none => exact shallow_none _
    | some bindings => exact shallow_of_closed (hσ bindings rfl)
  exact accept?_reading_iff_of_layered hs.layered (fun _ ↦ Nat.le_refl _) n a b

end Ty

end FlowTypes
