namespace FlowTypes.Steps

variable {ε σ α β : Type}

/-- A step that changes a state and may fail. -/
abbrev Step (ε σ α : Type) := ExceptT ε (StateM σ) α

variable {step : Step ε σ α} {next : α → Step ε σ β} {s t : σ}

@[simp] theorem pure_apply (a : α) (s : σ) : (pure a : Step ε σ α) s = (.ok a, s) := rfl

@[simp] theorem get_apply (s : σ) : (get : Step ε σ σ) s = (.ok s, s) := rfl

@[simp] theorem modify_apply (f : σ → σ) (s : σ) :
    (modify f : Step ε σ PUnit) s = (.ok .unit, f s) := rfl

@[simp] theorem lift_apply (result : Except ε α) (s : σ) :
    (liftM result : Step ε σ α) s = (result, s) := rfl

theorem bind_of_ok {a : α} (h : step s = (.ok a, t)) : (step >>= next) s = next a t := by
  change (match step s with | (r, t) => ExceptT.bindCont next r t) = _
  rw [h]
  rfl

theorem bind_of_error {e : ε} (h : step s = (.error e, t)) :
    (step >>= next) s = (.error e, t) := by
  change (match step s with | (r, t) => ExceptT.bindCont next r t) = _
  rw [h]
  rfl

theorem forM_of_ok {f : α → Step ε σ PUnit} {a : α} {u : PUnit} (h : f a s = (.ok u, t))
    (as : List α) : (a :: as).forM f s = as.forM f t :=
  bind_of_ok h

def Reads (step : Step ε σ α) : Prop := ∀ s, (step s).2 = s

theorem Reads.lift (result : Except ε α) : Reads (liftM result : Step ε σ α) := fun _ ↦ rfl

theorem Reads.get : Reads (get : Step ε σ σ) := fun _ ↦ rfl

def Succeeds (step : Step ε σ α) : Prop := ∀ s, ∃ a t, step s = (.ok a, t)

namespace Succeeds

theorem pure (a : α) : Succeeds (pure a : Step ε σ α) := fun s ↦ ⟨a, s, rfl⟩

theorem modify (f : σ → σ) : Succeeds (modify f : Step ε σ PUnit) := fun s ↦ ⟨.unit, f s, rfl⟩

theorem bind (h : Succeeds step) (hn : ∀ a, Succeeds (next a)) : Succeeds (step >>= next) := by
  intro s
  obtain ⟨a, t, hs⟩ := h s
  rw [bind_of_ok hs]
  exact hn a t

theorem foldlM {f : β → α → Step ε σ β} (h : ∀ b a, Succeeds (f b a)) (as : List α) (b : β) :
    Succeeds (as.foldlM f b) := by
  induction as generalizing b with
  | nil => exact .pure b
  | cons a as ih =>
    rw [List.foldlM_cons]
    exact (h b a).bind ih

theorem forM {f : α → Step ε σ PUnit} (h : ∀ a, Succeeds (f a)) (as : List α) :
    Succeeds (as.forM f) := by
  induction as with
  | nil => exact .pure _
  | cons a as ih => exact (h a).bind fun _ ↦ ih

end Succeeds

/-- The state before, the error and the state after are so related if the step fails. -/
def Fails (post : σ → ε → σ → Prop) (step : Step ε σ α) : Prop :=
  ∀ s e t, step s = (.error e, t) → post s e t

namespace Fails

variable {post : σ → ε → σ → Prop}

theorem of_succeeds (h : Succeeds step) : Fails post step := by
  intro s e t hs
  obtain ⟨a, u, ha⟩ := h s
  cases ha.symm.trans hs

theorem throw (hpost : ∀ s e, post s e s) (e : ε) : Fails post (throw e : Step ε σ α) := by
  intro s e' t hs
  cases hs
  exact hpost s e

theorem bind (hpost : ∀ s e, post s e s) (h : Reads step) (hn : ∀ a, Fails post (next a)) :
    Fails post (step >>= next) := by
  intro s e t hs
  have hread := h s
  cases hstep : step s with
  | mk result u =>
    obtain rfl : u = s := by simpa [hstep] using hread
    cases result with
    | ok a =>
      rw [bind_of_ok hstep] at hs
      exact hn a _ _ _ hs
    | error e' =>
      rw [bind_of_error hstep] at hs
      cases hs
      exact hpost _ _

theorem bind_succeeds (h : Fails post step) (hn : ∀ a, Succeeds (next a)) :
    Fails post (step >>= next) := by
  intro s e t hs
  cases hstep : step s with
  | mk result u =>
    cases result with
    | ok a =>
      obtain ⟨b, v, hb⟩ := hn a u
      cases ((bind_of_ok hstep).trans hb).symm.trans hs
    | error e' =>
      cases (bind_of_error hstep).symm.trans hs
      exact h _ _ _ hstep

end Fails

end FlowTypes.Steps
