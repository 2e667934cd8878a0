import FlowTypes.Proofs.Ty.Progress
import Mathlib.Logic.Relation

namespace FlowTypes

namespace Bindings

open Relation

variable {bindings : Bindings}

/-- What is bound to the one name has the other among its generics. -/
def Mentions (bindings : Bindings) (name other : String) : Prop :=
  ∃ t, bindings.lookup name = some t ∧ other ∈ t.generics

def Acyclic (bindings : Bindings) : Prop := ∀ name, ¬TransGen bindings.Mentions name name

theorem acyclic_of_layered (depth : String → Nat) (h : Ty.Layered depth (some bindings)) :
    bindings.Acyclic := by
  have hstep {name other : String} (hm : bindings.Mentions name other) :
      depth other < depth name := by
    obtain ⟨t, ht, hm⟩ := hm
    have hle : t.size + t.beyond depth ≤ depth name := h name t ht
    have hb := Ty.le_beyond depth hm
    have hs := t.size_pos
    omega
  have hless {name other : String} (hc : TransGen bindings.Mentions name other) :
      depth other < depth name := by
    induction hc with
    | single hm => exact hstep hm
    | tail _ hm ih => exact Nat.lt_trans (hstep hm) ih
  exact fun name hc ↦ Nat.lt_irrefl _ (hless hc)

theorem acyclic_of_entries (depth : String → Nat)
    (h : ∀ entry ∈ bindings, entry.2.reach depth ≤ depth entry.1) : bindings.Acyclic :=
  acyclic_of_layered depth fun _ _ ht ↦ h _ (mem_of_lookup ht)

theorem Closed.acyclic (h : bindings.Closed) : bindings.Acyclic :=
  acyclic_of_layered _ (Ty.shallow_of_closed h).layered

open Classical in
/-- The size of all bindings that a name leads to. -/
noncomputable def depth (bindings : Bindings) (name : String) : Nat :=
  Bindings.size (bindings.filter fun entry ↦ ReflTransGen bindings.Mentions name entry.1)

theorem size_cons (entry : String × Ty) (bindings : Bindings) :
    Bindings.size (entry :: bindings) = entry.2.size + bindings.size := rfl

theorem size_filter_add {p q r : String × Ty → Bool} (hp : ∀ entry, p entry → r entry)
    (hq : ∀ entry, q entry → r entry ∧ ¬p entry) (bindings : Bindings) :
    Bindings.size (bindings.filter p) + Bindings.size (bindings.filter q) ≤
      Bindings.size (bindings.filter r) := by
  induction bindings with
  | nil => exact Nat.le_refl _
  | cons entry rest ih =>
    by_cases h₁ : p entry
    · have h₂ : ¬q entry := fun h ↦ (hq entry h).2 h₁
      rw [List.filter_cons_of_pos h₁, List.filter_cons_of_neg h₂,
        List.filter_cons_of_pos (hp entry h₁), size_cons, size_cons]
      omega
    · rw [List.filter_cons_of_neg h₁]
      by_cases h₂ : q entry
      · rw [List.filter_cons_of_pos h₂, List.filter_cons_of_pos (hq entry h₂).1, size_cons,
          size_cons]
        omega
      · rw [List.filter_cons_of_neg h₂]
        by_cases h₃ : r entry
        · rw [List.filter_cons_of_pos h₃, size_cons]
          omega
        · rwa [List.filter_cons_of_neg h₃]

theorem depth_le_size (bindings : Bindings) (name : String) :
    bindings.depth name ≤ bindings.size := by
  unfold depth
  generalize hl : bindings.filter _ = reached
  have hsub : reached.Sublist bindings := hl ▸ List.filter_sublist
  clear hl
  induction hsub with
  | slnil => exact Nat.le_refl _
  | cons entry _ ih => exact Nat.le_trans ih (Nat.le_add_left _ _)
  | cons_cons entry _ ih => exact Nat.add_le_add_left ih _

/-- A name leads to its own binding, and to all that the generics of that lead to. -/
theorem Acyclic.layered (h : bindings.Acyclic) : Ty.Layered bindings.depth (some bindings) := by
  classical
  intro name t ht
  have hmem : (name, t) ∈ bindings := mem_of_lookup ht
  have hname : t.size ≤ bindings.depth name :=
    size_of_mem (List.mem_filter.2 ⟨hmem, decide_eq_true .refl⟩)
  have hself : t.size ≤ Bindings.size (bindings.filter fun entry ↦ decide (entry = (name, t))) :=
    size_of_mem (List.mem_filter.2 ⟨hmem, decide_eq_true rfl⟩)
  have hless (other : String) (hm : other ∈ t.generics) :
      bindings.depth other + t.size ≤ bindings.depth name := by
    have hstep : bindings.Mentions name other := ⟨t, ht, hm⟩
    refine Nat.le_trans (Nat.add_le_add_left hself _) (size_filter_add ?_ ?_ bindings)
    · intro entry he
      exact decide_eq_true (ReflTransGen.head hstep (of_decide_eq_true he))
    · intro entry he
      obtain rfl := of_decide_eq_true he
      refine ⟨decide_eq_true .refl, fun hc ↦ h name ?_⟩
      -- the generic would lead back to the name
      exact TransGen.head' hstep (of_decide_eq_true hc)
  have hbeyond : t.beyond bindings.depth ≤ bindings.depth name - t.size :=
    Ty.beyond_le_iff.2 fun other hm ↦ Nat.le_sub_of_add_le (hless other hm)
  unfold Ty.reach
  omega

end Bindings

namespace Ty

open Double (twoPow_add twoPow_pos)

variable {depth : String → Nat} {ρ : Bindings} {a b t : Ty} {k : Nat}

theorem lt_twoPow (n : Nat) : n < twoPow n := Nat.lt_two_pow_self

theorem twoPow_mono {m n : Nat} (h : m ≤ n) : twoPow m ≤ twoPow n :=
  Nat.pow_le_pow_right (by omega) h

/-- In how many ways what is bound to a name may lead to generics that are resolved. -/
def ways (depth : String → Nat) (name : String) : Nat := twoPow (depth name) - 1

theorem strain_ways_le (h : t.beyond depth ≤ k) : t.strain (ways depth) ≤ t.size * twoPow k := by
  refine Nat.le_trans ?_ (Nat.mul_le_mul_right _ t.generics_length_le)
  rw [beyond_le_iff] at h
  unfold strain
  generalize t.generics = names at h
  induction names with
  | nil => simp
  | cons name names ih =>
    have hname : ways depth name + 1 ≤ twoPow k := by
      have hpos := twoPow_pos (depth name)
      have hle := twoPow_mono (h name (by simp))
      unfold ways
      omega
    have hrest := ih fun other ho ↦ h other (by simp [ho])
    simp only [List.foldr_cons, List.length_cons, Nat.add_mul, Nat.one_mul]
    omega

theorem strain_ways_lt (h : t.reach depth ≤ k) : t.strain (ways depth) < twoPow k := by
  have hpos := twoPow_pos (t.beyond depth)
  calc t.strain (ways depth) ≤ t.size * twoPow (t.beyond depth) := strain_ways_le (Nat.le_refl _)
    _ < twoPow t.size * twoPow (t.beyond depth) := Nat.mul_lt_mul_of_pos_right (lt_twoPow _) hpos
    _ = twoPow (t.reach depth) := (twoPow_add ..).symm
    _ ≤ twoPow k := twoPow_mono h

/-- Each name is given the room once for itself, and once for each step that it leads on. -/
def roomFor (depth : String → Nat) (room : Nat) (name : String) : Nat :=
  depth name + room * (depth name + 1)

theorem beyond_roomFor_le (room : Nat) (h : t.beyond depth ≤ k) :
    t.beyond (roomFor depth room) ≤ k + room * (k + 1) := by
  rw [beyond_le_iff] at h ⊢
  intro name hn
  have hle := h name hn
  have hmul := Nat.mul_le_mul_left room (show depth name + 1 ≤ k + 1 by omega)
  unfold roomFor
  omega

theorem reach_roomFor_le (room : Nat) (h : t.reach depth ≤ k) :
    t.reach (roomFor depth room) + room ≤ k + room * (k + 1) := by
  have hb := beyond_roomFor_le (t := t) room (Nat.le_refl (t.beyond depth))
  have hs := t.size_pos
  unfold reach at h ⊢
  have hmul := Nat.mul_le_mul_left room (show t.beyond depth + 1 ≤ k by omega)
  rw [Nat.mul_add room k 1]
  omega

theorem roomy_of_layered (h : Layered depth (some ρ)) (room : Nat) :
    Roomy (roomFor depth room) (ways depth) room (some ρ) where
  depth name := by
    rw [Option.bind_some]
    cases ht : ρ.lookup name with
    | none =>
      have := Nat.le_mul_of_pos_right room (show 0 < depth name + 1 by omega)
      rw [Option.elim_none, roomFor]
      omega
    | some t => exact reach_roomFor_le room (h name t ht)
  weight name := by
    rw [Option.bind_some]
    cases ht : ρ.lookup name with
    | none => exact Nat.zero_le _
    | some t => exact Nat.le_sub_one_of_lt (strain_ways_lt (h name t ht))

theorem growth_ways_le (a b : Ty) (hd : a.beyond depth ≤ k) :
    growth (ways depth) a b * (k + 1) ≤ a.size * b.spread * twoPow (2 * k) := by
  calc growth (ways depth) a b * (k + 1)
      ≤ a.size * twoPow k * b.spread * twoPow k :=
        Nat.mul_le_mul (Nat.mul_le_mul_right _ (strain_ways_le hd)) (lt_twoPow k)
    _ = a.size * b.spread * twoPow (2 * k) := by
        rw [Nat.two_mul, twoPow_add]
        ac_rfl

theorem reach_roomFor_le_acceptDepth (a b : Ty) (hd : ∀ name, depth name ≤ ρ.size) :
    a.reach (roomFor depth (growth (ways depth) a b)) + b.size ≤ acceptDepth a b (some ρ) := by
  have hbeyond : a.beyond depth ≤ ρ.size := beyond_le_iff.2 fun name _ ↦ hd name
  have hreach := beyond_roomFor_le (growth (ways depth) a b) hbeyond
  have hgrowth := growth_ways_le a b hbeyond
  rw [reach, acceptDepth, Option.getD_some]
  generalize hn : a.size + b.size + ρ.size + 4 = n
  have hspread : a.size * b.spread + n ≤ n * n * n := by
    have hb : b.spread ≤ n * n := Nat.mul_le_mul (by omega) (by omega)
    calc a.size * b.spread + n ≤ a.size * (n * n) + n * n :=
          Nat.add_le_add (Nat.mul_le_mul_left _ hb) (Nat.le_mul_self n)
      _ = (a.size + 1) * (n * n) := (Nat.succ_mul ..).symm
      _ ≤ n * (n * n) := Nat.mul_le_mul_right _ (by omega)
      _ = n * n * n := (Nat.mul_assoc ..).symm
  have hfuel := Nat.mul_le_mul_right (twoPow (2 * ρ.size)) hspread
  have hn' := Nat.le_mul_of_pos_right n (twoPow_pos (2 * ρ.size))
  rw [Nat.add_mul] at hfuel
  omega

theorem lasts_mentions : Lasts (fun t ↦ t.generics = [])
    fun ρ τ ↦ ∀ name other, τ.Mentions name other → ρ.Mentions name other where
  refl ρ _ _ h := h
  trans h h' _ _ hm := h _ _ (h' _ _ hm)
  put {b ρ τ} name hb h other m hm := by
    obtain ⟨t, ht, hm⟩ := hm
    by_cases he : other = name
    · subst he
      rw [lookup_put_self, Option.some_inj] at ht
      rw [← ht, generics_widenedBy hb] at hm
      cases hl : ρ.lookup other with
      | none => simp [hl] at hm
      | some old => exact ⟨old, hl, by simpa [hl] using hm⟩
    · rw [lookup_put_of_ne name _ he] at ht
      exact h _ _ ⟨t, ht, hm⟩

theorem check?_of_acyclic (hρ : ρ.Acyclic) (validators : Validators) (t : Ty)
    (value : Option Json) : check? ρ validators t value =
      some (holds validators (envWithin ρ validators ρ.depth) t value) := by
  apply checkWithin_of_layered hρ.layered
  have hbeyond : t.beyond ρ.depth ≤ ρ.size := beyond_le_iff.2 fun name _ ↦ ρ.depth_le_size name
  have hdepth := le_checkDepth ρ t value
  unfold reach
  omega

theorem acyclic_getD {σ : Option Bindings} (hσ : ∀ ρ ∈ σ, ρ.Acyclic) : (σ.getD []).Acyclic := by
  cases σ with
  | none => exact Bindings.Closed.acyclic (by simp [Bindings.Closed])
  | some ρ => exact hσ ρ rfl

theorem accept?_reading_verdict {σ : Option Bindings} (hσ : ∀ ρ ∈ σ, ρ.Acyclic) (n : Bool)
    (a b : Ty) : ∃ c, accept? ⟨n, false⟩ a b σ = some (c, σ) ∧ (c = true ↔ Receives σ n a b) := by
  have hlayered : Layered (σ.getD []).depth σ := by
    cases σ with
    | none => exact layered_none _
    | some ρ => exact (hσ ρ rfl).layered
  have hdepth := (σ.getD []).depth_le_size
  obtain ⟨c, hc⟩ := decides_acceptWithin (n := n) hlayered (le_acceptDepth a b σ hdepth)
  have hc : accept? ⟨n, false⟩ a b σ = some (c, σ) := hc
  refine ⟨c, hc, ?_⟩
  rw [← accept?_reading_iff_of_layered hlayered hdepth, hc]
  simp

theorem accept?_reading_eq {σ : Option Bindings} (hσ : ∀ ρ ∈ σ, ρ.Acyclic) {n c : Bool} {a b : Ty}
    (h : Receives σ n a b ↔ c) : accept? ⟨n, false⟩ a b σ = some (c, σ) := by
  obtain ⟨c', hc, hr⟩ := accept?_reading_verdict hσ n a b
  obtain rfl : c' = c := Bool.eq_iff_iff.2 (hr.trans h)
  exact hc

theorem accept?_of_receives {σ : Option Bindings} (hσ : ∀ ρ ∈ σ, ρ.Acyclic) {n : Bool} {a b : Ty}
    (h : Receives σ n a b) : accept? ⟨n, false⟩ a b σ = some (true, σ) :=
  accept?_reading_eq hσ (iff_of_true h rfl)

theorem accept?_reading_of_acyclic (hρ : ρ.Acyclic) (n : Bool) (a b : Ty) :
    ∃ c, accept? ⟨n, false⟩ a b (some ρ) = some (c, some ρ) := by
  obtain ⟨c, hc, -⟩ := accept?_reading_verdict (σ := some ρ) (by rintro _ ⟨⟩; exact hρ) n a b
  exact ⟨c, hc⟩

theorem accept?_resolving_of_acyclic (hρ : ρ.Acyclic) (n : Bool) (a : Ty) (hb : b.generics = []) :
    ∃ c τ, accept? ⟨n, true⟩ a b (some ρ) = some (c, some τ) ∧ Grows ρ τ ∧ τ.Acyclic := by
  have hroom := roomy_of_layered hρ.layered (growth (ways ρ.depth) a b)
  have hdepth := reach_roomFor_le_acceptDepth a b ρ.depth_le_size
  obtain ⟨c, τ, hc, -⟩ : Finishes _ _ (acceptWithin _ ⟨n, true⟩ a b) (some ρ) 0 :=
    finishes_acceptWithin (hroom.mono (by omega)) hb hdepth
  obtain ⟨τ, rfl, hg⟩ := grows_of_ground hb _ _ _ hc
  obtain ⟨_, ⟨⟩, hm⟩ := lasts_mentions.acceptWithin hereditary_ground _ _ a hb _ _ _ hc
  exact ⟨c, τ, hc, hg, fun name hcycle ↦ hρ name (Relation.TransGen.mono hm _ _ hcycle)⟩

/-- What may be asked in a session. -/
inductive Question where
  | check (validators : Validators) (ty : Ty) (value : Option Json)
  | accept (mode : Mode) (receiving received : Ty)

namespace Question

def answer : Question → Session Bool
  | .check validators ty value => fun σ ↦ (check? (σ.getD []) validators ty value).map (·, σ)
  | .accept mode receiving received => accept? mode receiving received

def ResolvesGround : Question → Prop
  | .check .. => True
  | .accept mode _ received => mode.resolving → received.generics = []

theorem answer_of_acyclic (hρ : ρ.Acyclic) {q : Question} (hq : q.ResolvesGround) :
    ∃ c τ, q.answer (some ρ) = some (c, some τ) ∧ τ.Acyclic := by
  cases q with
  | check validators ty value =>
    have hc := check?_of_acyclic hρ validators ty value
    exact ⟨_, ρ, congrArg (Option.map (·, some ρ)) hc, hρ⟩
  | accept mode a b =>
    obtain ⟨n, res⟩ := mode
    cases res with
    | false =>
      obtain ⟨c, hc⟩ := accept?_reading_of_acyclic hρ n a b
      exact ⟨c, ρ, hc, hρ⟩
    | true =>
      obtain ⟨c, τ, hc, -, hτ⟩ := accept?_resolving_of_acyclic hρ n a (hq rfl)
      exact ⟨c, τ, hc, hτ⟩

theorem answers_of_acyclic (hρ : ρ.Acyclic) {qs : List Question}
    (hqs : ∀ q ∈ qs, q.ResolvesGround) :
    ∃ cs τ, qs.mapM answer (some ρ) = some (cs, some τ) ∧ cs.length = qs.length ∧ τ.Acyclic := by
  induction qs generalizing ρ with
  | nil => exact ⟨[], ρ, rfl, rfl, hρ⟩
  | cons q qs ih =>
    obtain ⟨c, τ, hc, hτ⟩ := answer_of_acyclic hρ (hqs q (by simp))
    obtain ⟨cs, υ, hcs, hlength, hυ⟩ := ih hτ fun q hq ↦ hqs q (by simp [hq])
    exact ⟨c :: cs, υ, Session.mapM_cons hc hcs, by simp [hlength], hυ⟩

end Question

/-- Where no binding leads back to itself, checks and matches have a verdict, which more depth does
not change. Resolving generics by types that have none leaves it so, however often it is done. -/
theorem verdicts_of_acyclic (hρ : ρ.Acyclic) :
    (∀ validators t value, ∃ c, ∀ fuel, checkDepth ρ t value ≤ fuel →
      checkWithin ρ validators fuel t value = some c) ∧
    (∀ n a b, ∃ c, ∀ fuel, acceptDepth a b (some ρ) ≤ fuel →
      acceptWithin fuel ⟨n, false⟩ a b (some ρ) = some (c, some ρ)) ∧
    (∀ n a b, b.generics = [] → ∃ c τ, τ.Acyclic ∧ ∀ fuel, acceptDepth a b (some ρ) ≤ fuel →
      acceptWithin fuel ⟨n, true⟩ a b (some ρ) = some (c, some τ)) ∧
    ∀ qs : List Question, (∀ q ∈ qs, q.ResolvesGround) →
      ∃ cs τ, qs.mapM Question.answer (some ρ) = some (cs, some τ) ∧ cs.length = qs.length ∧
        τ.Acyclic := by
  refine ⟨fun validators t value ↦ ?_, fun n a b ↦ ?_, fun n a b hb ↦ ?_, fun qs hqs ↦ ?_⟩
  · exact ⟨_, fun fuel hf ↦ checkWithin_mono hf (check?_of_acyclic hρ validators t value)⟩
  · obtain ⟨c, hc⟩ := accept?_reading_of_acyclic hρ n a b
    exact ⟨c, fun fuel hf ↦ acceptWithin_mono hf _ a b _ _ hc⟩
  · obtain ⟨c, τ, hc, -, hτ⟩ := accept?_resolving_of_acyclic hρ n a hb
    exact ⟨c, τ, hτ, fun fuel hf ↦ acceptWithin_mono hf _ a b _ _ hc⟩
  · exact Question.answers_of_acyclic hρ hqs

theorem verdicts_of_acyclic_twice :
    let twice : Ty := .inter (.generic "T") (.generic "T")
    let before : Bindings := [("S", twice), ("T", .primitive .string)]
    let after : Bindings := [("S", twice), ("T", .union (.primitive .string) (.primitive .int))]
    let qs : List Question :=
      [.accept .resolve (.generic "S") (.primitive .int),
        .accept .reading (.generic "S") (.primitive .string),
        .check [] (.generic "S") (some (.string "x"))]
    qs.mapM Question.answer (some before) = some ([true, true, true], some after) ∧
      after.Acyclic := by
  intro twice before after qs
  have hbefore : before.Acyclic := by
    refine Bindings.acyclic_of_layered (fun name ↦ if name = "T" then 1 else 4) fun name t ht ↦ ?_
    have hm : (name, t) ∈ before := mem_of_lookup ht
    simp only [before, List.mem_cons, Prod.mk.injEq, List.not_mem_nil, or_false] at hm
    obtain ⟨rfl, rfl⟩ | ⟨rfl, rfl⟩ := hm <;> decide
  have hrun : qs.mapM Question.answer (some before) = some ([true, true, true], some after) := rfl
  have hqs : ∀ q ∈ qs, q.ResolvesGround := by
    simp [qs, Question.ResolvesGround, generics, Mode.reading]
  obtain ⟨cs, τ, hrun', -, hτ⟩ := (verdicts_of_acyclic hbefore).2.2.2 qs hqs
  rw [hrun, Option.some_inj, Prod.mk.injEq, Option.some_inj] at hrun'
  obtain ⟨rfl, rfl⟩ := hrun'
  exact ⟨hrun, hτ⟩

end Ty

end FlowTypes
