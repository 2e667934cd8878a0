import FlowTypes.Proofs.Ty.Rules

namespace FlowTypes

namespace Session

variable {first second : Session Bool} {quiet quiet' : Prop} {σ : Option Bindings}

theorem Affirms.both_of_all (h : Affirms first σ) (h' : ∀ σ, Affirms second σ) :
    Affirms (Session.both first second) σ := by
  intro c τ hc
  obtain ⟨ρ, -, h₂⟩ | ⟨h₁, -⟩ := both_eq_some.1 hc
  · exact h' _ _ _ h₂
  · exact absurd (h _ _ h₁) (by simp)

theorem Affirms.either_of_all (h : ∀ σ, Affirms second σ) : Affirms (either first second) σ := by
  intro c τ hc
  obtain ⟨ρ, -, h₂⟩ | ⟨-, hc⟩ := either_eq_some.1 hc
  · exact h _ _ _ h₂
  · exact hc

theorem Affirms.assign (name : String) (t : Ty) (σ : Option Bindings) :
    Affirms (assign name t) σ := by
  intro c τ hc
  simp only [assign_apply, Option.some.injEq, Prod.mk.injEq] at hc
  exact hc.1.symm

/-- The step leaves the bindings as they are if it fails, and in any case if it is quiet. -/
def Steady (quiet : Prop) (step : Session Bool) : Prop :=
  ∀ σ c τ, step σ = some (c, τ) → c = false ∨ quiet → τ = σ

namespace Steady

theorem of_readsOnly (h : ReadsOnly first) : Steady quiet first := fun σ c τ hc _ ↦ h σ c τ hc

theorem readsOnly (h : Steady quiet first) (hq : quiet) : ReadsOnly first :=
  fun σ c τ hc ↦ h σ c τ hc (.inr hq)

theorem mono (h : Steady quiet' first) (hq : quiet → quiet') : Steady quiet first :=
  fun σ c τ hc hv ↦ h σ c τ hc (hv.imp_right hq)

theorem of_affirms (h : ∀ σ, Affirms first σ) (hq : ¬quiet) : Steady quiet first := by
  intro σ c τ hc hv
  obtain rfl := h _ _ _ hc
  exact absurd hv (by simpa using hq)

theorem pure (c : Bool) : Steady quiet (pure c) := of_readsOnly (.pure along_eq c)

theorem both (h : ReadsOnly first) (h' : Steady quiet second) :
    Steady quiet (both first second) := by
  intro σ c τ hc hv
  obtain ⟨ρ, h₁, h₂⟩ | ⟨h₁, -⟩ := both_eq_some.1 hc
  · obtain rfl := h _ _ _ h₁
    exact h' _ _ _ h₂ hv
  · exact h _ _ _ h₁

theorem both_of_affirms (h : Steady quiet first) (h' : Steady quiet second)
    (ha : ∀ σ, Affirms second σ) : Steady quiet (Session.both first second) := by
  intro σ c τ hc hv
  obtain ⟨ρ, h₁, h₂⟩ | ⟨h₁, -⟩ := both_eq_some.1 hc
  · obtain rfl := ha _ _ _ h₂
    have hq : quiet := by simpa using hv
    obtain rfl := h.readsOnly hq _ _ _ h₁
    exact h'.readsOnly hq _ _ _ h₂
  · exact h _ _ _ h₁ (.inl rfl)

theorem either (h : Steady quiet first) (h' : Steady quiet second) :
    Steady quiet (either first second) := by
  intro σ c τ hc hv
  obtain ⟨ρ, h₁, h₂⟩ | ⟨h₁, rfl⟩ := either_eq_some.1 hc
  · obtain rfl := h _ _ _ h₁ (.inl rfl)
    exact h' _ _ _ h₂ hv
  · exact h _ _ _ h₁ hv

theorem ite {p : Prop} [Decidable p] (h : p → Steady quiet first) (h' : ¬p → Steady quiet second) :
    Steady quiet (if p then first else second) := by
  split
  · next hp => exact h hp
  · next hp => exact h' hp

end Steady

end Session

namespace Ty

open Session

mutual

/-- Has a type no generic in reach of a match that resolves generics? Such a match only reads the
parts of tuples, arrays, lists and maps. -/
def isQuiet : Ty → Bool
  | .generic _ | .bounded .. => false
  | .named _ t | .nullable t => isQuiet t
  | .struct fs => areQuiet fs
  | .inter l r | .union l r => isQuiet l && isQuiet r
  | _ => true

def areQuiet : List (Field Ty) → Bool
  | [] => true
  | ⟨_, _, t⟩ :: fs => isQuiet t && areQuiet fs

end

def takesAll : Ty → Bool
  | .generic _ => true
  | .bounded _ t | .nullable t => takesAll t
  | .inter l r => takesAll l && takesAll r
  | .union l r => takesAll l || takesAll r
  | _ => false

/-- Does a field take everything that a received struct has for it? -/
def takesAllOf (gs : List (Field Ty)) (f : Field Ty) : Bool :=
  match field? f.name gs with
  | some g => (f.optional || !g.optional) && f.type.takesAll
  | none => f.optional

def isUnion : Ty → Bool
  | .union .. => true
  | _ => false

/-- What a received type may turn out to be when it is compared with a shape, and the unions on the
way. -/
def faces : Ty → List Ty
  | .bounded _ t | .nullable t => faces t
  | .inter l r => faces l ++ faces r
  | .named name t => .named name t :: faces t
  | .union l r => .union l r :: (faces l ++ faces r)
  | t => [t]

mutual

/-- Does a match bind no generics before a part of the same conjunction that may fail? The operands
of an intersection, the fields of a struct and the alternatives of a received union come in turn. -/
def isTame (a b : Ty) : Bool :=
  a.isQuiet || a.takesAll || !b.faces.any isUnion && match a with
    | .bounded _ t | .nullable t => isTame t b
    | .inter l r => (l.isQuiet || r.takesAll) && (isTame l b && isTame r b)
    | .union l r => isTame l b && isTame r b
    | .struct fs => b.faces.all fun t ↦ t.fields?.all fun gs ↦ areTame fs gs
    | .named name s => b.faces.all fun
      | .named name' t => name != name' || isTame s t
      | _ => true
    | _ => true

def areTame (fs gs : List (Field Ty)) : Bool :=
  match fs with
  | [] => true
  | ⟨name, _, s⟩ :: fs =>
    (field? name gs).all (fun g ↦ (s.isQuiet || fs.all (takesAllOf gs)) && isTame s g.type) &&
      areTame fs gs

end

variable {a b l r s t : Ty} {fs gs : List (Field Ty)}

theorem areQuiet_eq (fs : List (Field Ty)) : areQuiet fs = fs.all fun f ↦ f.type.isQuiet := by
  induction fs with
  | nil => rfl
  | cons f fs ih => exact congrArg (f.type.isQuiet && ·) ih

theorem isQuiet_of_mem_parts (ht : t.readsParts = false) (hs : s ∈ t.parts) (h : t.isQuiet) :
    s.isQuiet := by
  cases t with
  | struct fs =>
    obtain ⟨f, hf, rfl⟩ := List.mem_map.1 hs
    have hall : areQuiet fs := h
    rw [areQuiet_eq, List.all_eq_true] at hall
    exact hall f hf
  | tuple | array | list | map => simp [readsParts] at ht
  | _ => simp_all [parts, isQuiet] <;> grind

theorem isQuiet_of_takesAll (h : t.takesAll) : t.isQuiet = false := by
  induction t with
  | generic | bounded => rfl
  | nullable t ih => exact ih h
  | inter l r ihl _ => exact Bool.and_eq_false_iff.2 (.inl (ihl (Bool.and_eq_true_iff.1 h).1))
  | union l r ihl ihr =>
    rcases Bool.or_eq_true_iff.1 h with h | h
    · exact Bool.and_eq_false_iff.2 (.inl (ihl h))
    · exact Bool.and_eq_false_iff.2 (.inr (ihr h))
  | _ => simp [takesAll] at h

theorem isTame_of_isQuiet (h : a.isQuiet) (b : Ty) : isTame a b := by
  unfold isTame
  simp [h]

theorem areTame_of_areQuiet (h : areQuiet fs) (gs : List (Field Ty)) : areTame fs gs := by
  induction fs with
  | nil => rfl
  | cons f fs ih =>
    obtain ⟨hf, hfs⟩ := Bool.and_eq_true_iff.1 h
    simp [areTame, ih hfs, hf, isTame_of_isQuiet hf]

theorem isQuiet_of_isTame (ha : a.takesAll = false) (h : isTame a b) (hb : b.faces.any isUnion) :
    a.isQuiet := by
  unfold isTame at h
  simpa [ha, hb] using h

/-- A match that does not take everything is tame if it is quiet, or else if it meets no union and
each part of it is tame. -/
theorem of_tame {quiet all union parts : Bool} (ha : all = false)
    (h : (quiet || all || !union && parts) = true) : quiet ∨ union = false ∧ parts := by
  simpa [ha] using h

theorem isTame_part (ht : a = .nullable t ∨ ∃ name, a = .bounded name t)
    (ha : a.takesAll = false) (h : isTame a b) : isTame t b := by
  rcases ht with rfl | ⟨name, rfl⟩
  · exact (of_tame ha h).elim (isTame_of_isQuiet (a := t) · b) (·.2)
  · exact (of_tame ha h).elim (fun hq ↦ by cases hq) (·.2)

theorem isTame_inter (ha : (Ty.inter l r).takesAll = false) (h : isTame (.inter l r) b) :
    (l.isQuiet ∨ r.takesAll) ∧ isTame l b ∧ isTame r b := by
  rcases of_tame ha h with h | ⟨-, h⟩
  · obtain ⟨hl, hr⟩ := Bool.and_eq_true_iff.1 h
    exact ⟨.inl hl, isTame_of_isQuiet hl b, isTame_of_isQuiet hr b⟩
  · simpa only [Bool.and_eq_true, Bool.or_eq_true] using h

theorem isTame_union (ha : (Ty.union l r).takesAll = false) (h : isTame (.union l r) b) :
    isTame l b ∧ isTame r b := by
  rcases of_tame ha h with h | ⟨-, h⟩
  · obtain ⟨hl, hr⟩ := Bool.and_eq_true_iff.1 h
    exact ⟨isTame_of_isQuiet hl b, isTame_of_isQuiet hr b⟩
  · exact Bool.and_eq_true_iff.1 h

theorem isTame_struct (h : isTame (.struct fs) b) (hb : b.fields? = some gs) : areTame fs gs := by
  rcases of_tame (show (Ty.struct fs).takesAll = false from rfl) h with h | ⟨-, h⟩
  · exact areTame_of_areQuiet h gs
  · have hm : b ∈ b.faces := by cases b <;> simp_all [fields?, faces]
    simpa [hb] using List.all_eq_true.1 h b hm

theorem isTame_named {name : String} (h : isTame (.named name s) (.named name t)) :
    isTame s t := by
  rcases of_tame (show (Ty.named name s).takesAll = false from rfl) h with h | ⟨-, h⟩
  · exact isTame_of_isQuiet (a := s) h t
  · simpa using List.all_eq_true.1 h _ List.mem_cons_self

theorem isTame_anything {name : String} (ha : a.isShape) (h : isTame a (.generic name)) :
    isTame a anything := by
  cases a <;> simp_all [isTame, isShape, faces, anything, isUnion, fields?]

theorem tame_mono {quiet all union union' parts parts' : Bool}
    (hu : union = false → union' = false) (hp : parts → parts')
    (h : (quiet || all || !union && parts) = true) :
    (quiet || all || !union' && parts') = true := by
  simp only [Bool.or_eq_true, Bool.and_eq_true, Bool.not_eq_true'] at h ⊢
  exact h.imp_right fun h ↦ ⟨hu h.1, hp h.2⟩

theorem isTame_mono (hf : ∀ t ∈ s.faces, t ∈ b.faces) (h : isTame a b) : isTame a s := by
  have hall {q : Ty → Bool} (hq : b.faces.all q) : s.faces.all q :=
    List.all_eq_true.2 fun t ht ↦ List.all_eq_true.1 hq t (hf t ht)
  have hunion (hu : b.faces.any isUnion = false) : s.faces.any isUnion = false :=
    List.any_eq_false.2 fun t ht ↦ List.any_eq_false.1 hu t (hf t ht)
  induction a with
  | bounded _ t ih | nullable t ih => exact tame_mono hunion ih h
  | inter l r ihl ihr =>
    refine tame_mono hunion (fun hp ↦ ?_) h
    simp only [Bool.and_eq_true] at hp ⊢
    exact ⟨hp.1, ihl hp.2.1, ihr hp.2.2⟩
  | union l r ihl ihr =>
    refine tame_mono hunion (fun hp ↦ ?_) h
    simp only [Bool.and_eq_true] at hp ⊢
    exact ⟨ihl hp.1, ihr hp.2⟩
  | struct fs | named name t => exact tame_mono hunion hall h
  | _ => exact tame_mono hunion id h

section

variable {go : Mode → Ty → Ty → Session Bool} {n : Bool} {name : String} {bound : Option Ty}
  {σ : Option Bindings}

def bindOrWiden (go : Mode → Ty → Ty → Session Bool) (n : Bool) (name : String) (b : Ty) :
    Option Ty → Session Bool
  | none => assign name b
  | some old => either (go ⟨n, true⟩ old b) (assign name (.union old b))

theorem affirms_bindOrWiden (old : Option Ty) (σ : Option Bindings) :
    Affirms (bindOrWiden go n name b old) σ := by
  cases old with
  | none => exact .assign name b σ
  | some old => exact .either_of_all (.assign name _)

theorem receiveGeneric_resolving (ρ : Bindings) :
    receiveGeneric go ⟨n, true⟩ name bound b (some ρ) =
      both (receiveBound go ⟨n, true⟩ bound b) (bindOrWiden go n name b (ρ.lookup name))
        (some ρ) := by
  cases hl : ρ.lookup name with
  | none => exact receiveGeneric_unbound n hl bound b
  | some old => exact receiveGeneric_bound n hl bound b

theorem affirms_receiveGeneric (h : Affirms (receiveBound go ⟨n, true⟩ bound b) σ) :
    Affirms (receiveGeneric go ⟨n, true⟩ name bound b) σ := by
  intro c τ hc
  cases σ with
  | none => exact h _ _ hc
  | some ρ =>
    rw [receiveGeneric_resolving] at hc
    exact h.both_of_all (affirms_bindOrWiden _) c τ hc

theorem steady_receiveGeneric (h : Steady False (receiveBound go ⟨n, true⟩ bound b)) :
    Steady False (receiveGeneric go ⟨n, true⟩ name bound b) := by
  intro σ c τ hc hv
  cases σ with
  | none => exact h _ _ _ hc hv
  | some ρ =>
    rw [receiveGeneric_resolving] at hc
    have hs : Steady False (bindOrWiden go n name b (ρ.lookup name)) :=
      .of_affirms (affirms_bindOrWiden _) not_false
    exact h.both_of_affirms hs (affirms_bindOrWiden _) _ c τ hc hv

end

theorem affirms_of_takesAll (ha : a.takesAll) (fuel : Nat) (n : Bool) (b : Ty)
    (σ : Option Bindings) : Affirms (acceptWithin fuel ⟨n, true⟩ a b) σ := by
  induction fuel generalizing n a b σ with
  | zero =>
    intro c τ hc
    exact absurd hc (by simp)
  | succ fuel ih =>
    rw [acceptWithin]
    unfold receiveParts
    split
    · exact (ih ha n _ σ).both_of_all (ih ha n _)
    · exact (ih ha n _ σ).either_left
    · exact (ih ha n _ σ).both_of_all (ih ha n _)
    · cases a with
      | generic name => exact affirms_receiveGeneric (.pure σ)
      | bounded name t => exact affirms_receiveGeneric (ih (a := t) ha n b σ)
      | nullable t => exact ih (a := t) ha true b σ
      | inter l r =>
        simp only [takesAll, Bool.and_eq_true] at ha
        exact (ih ha.1 n b σ).both_of_all (ih ha.2 n b)
      | union l r =>
        simp only [takesAll, Bool.or_eq_true] at ha
        rw [receive_union]
        rcases ha with ha | ha
        · exact (ih ha _ b σ).either_left
        · exact .either_of_all (ih ha _ b)
      | _ => simp [takesAll] at ha

section

variable {go : Mode → Ty → Ty → Session Bool} {check : Ty → Json → Session Bool}
  (hgo : ∀ {n a b}, isTame a b → Steady a.isQuiet (go ⟨n, true⟩ a b))
  (hall : ∀ {n a b}, a.takesAll → ∀ σ, Affirms (go ⟨n, true⟩ a b) σ)

include hall in
theorem affirms_takenFields (n : Bool) (h : fs.all (takesAllOf gs)) (σ : Option Bindings) :
    Affirms (receiveFields go ⟨n, true⟩ fs gs) σ := by
  induction fs generalizing σ with
  | nil => exact .pure σ
  | cons f fs ih =>
    simp only [List.all_cons, Bool.and_eq_true] at h
    rw [receiveFields, allM_cons]
    refine Affirms.both_of_all ?_ (ih h.2)
    have hf := h.1
    unfold takesAllOf at hf
    split
    · next g hg =>
      simp only [hg, Bool.and_eq_true] at hf
      rw [if_pos hf.1]
      exact hall hf.2 σ
    · next hg =>
      simp only [hg] at hf
      rw [hf]
      exact .pure σ

include hgo hall

theorem steady_receiveFields (n : Bool) {quiet : Prop} (h : areTame fs gs)
    (hquiet : quiet → ∀ f ∈ fs, f.type.isQuiet) :
    Steady quiet (receiveFields go ⟨n, true⟩ fs gs) := by
  induction fs with
  | nil => exact .pure true
  | cons f fs ih =>
    simp only [areTame, Bool.and_eq_true] at h
    obtain ⟨hf, hfs⟩ := h
    have hrest := ih hfs fun hq f hf ↦ hquiet hq f (by simp [hf])
    rw [receiveFields, allM_cons]
    split
    · next g hg =>
      simp only [hg, Option.all_some, Bool.and_eq_true, Bool.or_eq_true] at hf
      have hfirst : Steady f.type.isQuiet
          (if f.optional || !g.optional then go ⟨n, true⟩ f.type g.type else pure false) :=
        .ite (fun _ ↦ hgo hf.2) fun _ ↦ .pure false
      rcases hf.1 with hq | ha
      · exact .both (hfirst.readsOnly hq) hrest
      · have hmono := hfirst.mono fun hq ↦ hquiet hq f (by simp)
        exact hmono.both_of_affirms hrest (affirms_takenFields hall n ha)
    · exact .both (.pure along_eq _) hrest

variable (hread : ∀ a b, ReadsOnly (go .reading a b)) (hcheck : ∀ t v, ReadsOnly (check t v))
include hread hcheck

theorem steady_receiveByShape (n : Bool) (ha : a.isShape) (h : isTame a b) :
    Steady a.isQuiet (receiveByShape go check ⟨n, true⟩ a b) := by
  have hface {n : Bool} {t : Ty} (ht : ∀ s ∈ t.faces, s ∈ b.faces) :
      Steady a.isQuiet (go ⟨n, true⟩ a t) := hgo (isTame_mono ht h)
  have hfields {fs gs : List (Field Ty)} (hs : a = .struct fs) (hgs : b.fields? = some gs) :
      Steady a.isQuiet (receiveFields go ⟨n, true⟩ fs gs) := by
    subst hs
    refine steady_receiveFields hgo hall n (isTame_struct h hgs) fun hq f hf ↦ ?_
    exact isQuiet_of_mem_parts rfl (List.mem_map_of_mem hf) hq
  cases b with
  | literal l =>
    unfold receiveByShape
    dsimp only
    split
    · exact .pure _
    · exact .ite (fun _ ↦ .pure _) fun _ ↦ .of_readsOnly (hcheck _ _)
  | primitive q | emptyTuple | tag name =>
    unfold receiveByShape
    dsimp only
    split <;> exact .pure _
  | union l r => exact .pure _
  | generic name => exact hgo (isTame_anything ha h)
  | bounded name t => exact hface (by simp [faces])
  | tuple ts =>
    cases a with
    | tuple ss =>
      exact .ite (fun _ ↦ .of_readsOnly (.allM along_eq fun _ _ ↦ .isolated along_eq _))
        fun _ ↦ .pure _
    | _ => exact .pure _
  | array t m =>
    cases a with
    | array s k => exact .ite (fun _ ↦ .of_readsOnly (hread _ _)) fun _ ↦ .pure _
    | _ => exact .pure _
  | list t =>
    cases a with
    | list s => exact .of_readsOnly (hread _ _)
    | _ => exact .pure _
  | openStruct | struct gs =>
    cases a with
    | openStruct => exact .pure _
    | struct fs => exact hfields rfl rfl
    | _ => exact .pure _
  | map l t =>
    cases a with
    | map k s => exact .of_readsOnly (.both along_eq (hread _ _) (hread _ _))
    | _ => exact .pure _
  | named name t =>
    cases hn : a.isNominal with
    | false =>
      rw [receiveByShape_named hn]
      exact hface fun s hs ↦ List.mem_cons_of_mem _ hs
    | true =>
      cases a with
      | named name' s =>
        refine .ite (fun he ↦ ?_) fun _ ↦ .pure _
        subst he
        exact (hgo (isTame_named h)).mono (isQuiet_of_mem_parts rfl (by simp [parts]))
      | tag _ => exact .pure _
      | _ => simp [isNominal] at hn
  | nullable t => exact .ite (fun _ ↦ hface (by simp [faces])) fun _ ↦ .pure _
  | inter l r =>
    rw [receiveByShape_inter]
    exact .either (hface fun s hs ↦ List.mem_append_left _ hs)
      (hface fun s hs ↦ List.mem_append_right _ hs)

theorem steady_receive (n : Bool) (ha : a.takesAll = false) (h : isTame a b) :
    Steady a.isQuiet (receive go check ⟨n, true⟩ a b) := by
  cases hshape : a.isShape with
  | true =>
    have he : receive go check ⟨n, true⟩ a b = _ ∨ _ := receive_of_isShape hshape _ b
    rcases he with he | ⟨-, -, he⟩
    · rw [he]
      exact steady_receiveByShape hgo hall hread hcheck n hshape h
    · rw [he]
      exact .pure true
  | false =>
    have hpart {n : Bool} {s : Ty} (ha : a.readsParts = false) (hs : s ∈ a.parts)
        (ht : isTame s b) : Steady a.isQuiet (go ⟨n, true⟩ s b) :=
      (hgo ht).mono (isQuiet_of_mem_parts ha hs)
    cases a with
    | generic name => simp [takesAll] at ha
    | bounded name t =>
      have ht : Steady False (receiveBound go ⟨n, true⟩ (some t) b) :=
        (hgo (isTame_part (.inr ⟨name, rfl⟩) ha h)).mono False.elim
      exact (steady_receiveGeneric ht).mono (by simp [isQuiet])
    | nullable t => exact hpart rfl (by simp [parts]) (isTame_part (.inl rfl) ha h)
    | inter l r =>
      obtain ⟨ho, hl, hr⟩ := isTame_inter ha h
      rcases ho with hq | hw
      · exact .both ((hgo hl).readsOnly hq) (hpart rfl (by simp [parts]) hr)
      · exact (hpart rfl (by simp [parts]) hl).both_of_affirms (hpart rfl (by simp [parts]) hr)
          (hall hw)
    | union l r =>
      obtain ⟨hl, hr⟩ := isTame_union ha h
      rw [receive_union]
      exact .either (hpart rfl (by simp [parts]) hl) (hpart rfl (by simp [parts]) hr)
    | _ => simp [isShape] at hshape

theorem steady_receiveParts (n : Bool) (ha : a.takesAll = false) (h : isTame a b) :
    Steady a.isQuiet (receiveParts go check ⟨n, true⟩ a b) := by
  have hboth {l r : Ty} (hb : b.faces.any isUnion) :
      Steady a.isQuiet (both (go ⟨n, true⟩ a l) (go ⟨n, true⟩ a r)) := by
    have hq := isQuiet_of_isTame ha h hb
    exact .both ((hgo (isTame_of_isQuiet hq l)).readsOnly hq) (hgo (isTame_of_isQuiet hq r))
  unfold receiveParts
  split
  · exact hboth rfl
  · exact .either (hgo (isTame_mono (fun s hs ↦ List.mem_append_left _ hs) h))
      (hgo (isTame_mono (fun s hs ↦ List.mem_append_right _ hs) h))
  · exact hboth rfl
  · exact steady_receive hgo hall hread hcheck n ha h

end

theorem steady_acceptWithin (h : isTame a b) (fuel : Nat) (n : Bool) :
    Steady a.isQuiet (acceptWithin fuel ⟨n, true⟩ a b) := by
  induction fuel generalizing n a b with
  | zero =>
    intro σ c τ hc
    exact absurd hc (by simp)
  | succ fuel ih =>
    cases ha : a.takesAll with
    | true =>
      exact .of_affirms (affirms_of_takesAll ha (fuel + 1) n b) (by simp [isQuiet_of_takesAll ha])
    | false =>
      exact steady_receiveParts (fun h ↦ ih h _) (fun ha ↦ affirms_of_takesAll ha fuel _ _)
        (acceptWithin_readsOnly fuel false) (checkInSession_readsOnly fuel) n ha h

/-- A failed match leaves the bindings intact, if it binds no generics before a part of the same
conjunction that may fail. -/
theorem accept?_failed {n : Bool} {σ τ : Option Bindings} (ht : isTame a b)
    (h : accept? ⟨n, true⟩ a b σ = some (false, τ)) : τ = σ :=
  steady_acceptWithin ht _ n σ false τ h (.inl rfl)

theorem accept?_failed_bound :
    let a : Ty := .struct [⟨"a", false, .list (.generic "T")⟩,
      ⟨"b", false, .bounded "T" (.union (.primitive .int) (.primitive .string))⟩,
      ⟨"c", true, .generic "U"⟩]
    let b : Ty := .struct [⟨"a", false, .list (.primitive .int)⟩, ⟨"b", false, .primitive .bool⟩,
      ⟨"c", false, .union (.primitive .int) (.primitive .bool)⟩]
    ∃ τ, accept? .resolve a b (some [("T", .primitive .int)]) = some (false, τ) ∧
      τ = some [("T", .primitive .int)] := by
  intro a b
  have h : accept? .resolve a b (some [("T", .primitive .int)]) =
      some (false, some [("T", .primitive .int)]) := rfl
  exact ⟨_, h, accept?_failed (a := a) (b := b) rfl h⟩

/-- A field, an operand of an intersection and an alternative of a received union bind a generic
before the match fails. -/
theorem accept?_failed_binds :
    accept? .resolve
      (.struct [⟨"a", false, .generic "T"⟩, ⟨"b", false, .primitive .int⟩])
      (.struct [⟨"a", false, .primitive .string⟩, ⟨"b", false, .primitive .bool⟩]) (some []) =
        some (false, some [("T", .primitive .string)]) ∧
    accept? .resolve (.inter (.generic "T") (.primitive .int)) (.primitive .bool) (some []) =
      some (false, some [("T", .primitive .bool)]) ∧
    accept? .resolve (.bounded "T" (.union (.primitive .int) (.primitive .string)))
      (.union (.primitive .int) (.primitive .bool)) (some []) =
        some (false, some [("T", .primitive .int)]) :=
  ⟨rfl, rfl, rfl⟩

end Ty

end FlowTypes
