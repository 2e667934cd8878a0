import Mathlib.Data.List.Forall2

namespace FlowTypes

variable {ε ε' α β : Type}

theorem ok_bind (a : α) (f : α → Except ε β) : (Except.ok a >>= f) = f a := rfl

theorem ok_of_bind {x : Except ε α} {f : α → Except ε β} {b : β} (h : x >>= f = .ok b) :
    ∃ a, x = .ok a ∧ f a = .ok b := by
  cases x with
  | error e => simp [bind, Except.bind] at h
  | ok a => exact ⟨a, rfl, h⟩

theorem error_of_bind {x : Except ε α} {f : α → Except ε β} {e : ε} (h : x >>= f = .error e) :
    x = .error e ∨ ∃ a, x = .ok a ∧ f a = .error e := by
  cases x with
  | error e' =>
    cases h
    exact .inl rfl
  | ok a => exact .inr ⟨a, rfl, h⟩

theorem error_of_mapError {x : Except ε α} {f : ε → ε'} {e : ε'} (h : x.mapError f = .error e) :
    ∃ e', x = .error e' ∧ f e' = e := by
  cases x with
  | error e' => exact ⟨e', rfl, Except.error.inj h⟩
  | ok a => cases h

theorem ok_of_mapError {x : Except ε α} {f : ε → ε'} {a : α} (h : x.mapError f = .ok a) :
    x = .ok a := by
  cases x with
  | error e => cases h
  | ok b => exact congrArg Except.ok (Except.ok.inj h)

theorem toOption_eq_some_iff {x : Except ε α} {a : α} : x.toOption = some a ↔ x = .ok a := by
  cases x with
  | error e => simp [Except.toOption]
  | ok b => simp [Except.toOption]

theorem mapM_eq_ok_iff {f : α → Except ε β} {as : List α} {bs : List β} :
    as.mapM f = .ok bs ↔ List.Forall₂ (fun a b ↦ f a = .ok b) as bs := by
  induction as generalizing bs with
  | nil =>
    constructor
    · intro h
      cases h
      exact .nil
    · rintro ⟨⟩
      rfl
  | cons a as ih =>
    rw [List.mapM_cons]
    constructor
    · intro h
      obtain ⟨b, hb, h⟩ := ok_of_bind h
      obtain ⟨bs, hbs, h⟩ := ok_of_bind h
      cases h
      exact .cons hb (ih.1 hbs)
    · rintro (_ | ⟨hb, hbs⟩)
      rw [hb, ih.2 hbs]
      rfl

theorem mapM_eq_error_iff {f : α → Except ε β} {as : List α} {e : ε} :
    as.mapM f = .error e ↔ ∃ before a after, as = before ++ a :: after ∧
      (∀ x ∈ before, ∃ y, f x = .ok y) ∧ f a = .error e := by
  induction as with
  | nil =>
    constructor
    · intro h
      cases h
    · rintro ⟨before, a, after, h, -⟩
      simp at h
  | cons a as ih =>
    rw [List.mapM_cons]
    constructor
    · intro h
      cases hfirst : f a with
      | error e' =>
        rw [hfirst] at h
        cases h
        exact ⟨[], a, as, rfl, by simp, hfirst⟩
      | ok b =>
        rw [hfirst, ok_bind] at h
        cases hrest : as.mapM f with
        | error e' =>
          rw [hrest] at h
          cases h
          obtain ⟨before, x, after, rfl, hbefore, hx⟩ := ih.1 hrest
          exact ⟨a :: before, x, after, rfl, List.forall_mem_cons.2 ⟨⟨b, hfirst⟩, hbefore⟩, hx⟩
        | ok bs =>
          rw [hrest] at h
          cases h
    · rintro ⟨_ | ⟨x, before⟩, b, after, heq, hbefore, hb⟩
      · obtain ⟨rfl, rfl⟩ := List.cons.inj heq
        rw [hb]
        rfl
      · obtain ⟨rfl, rfl⟩ := List.cons.inj heq
        obtain ⟨⟨y, hy⟩, hbefore⟩ := List.forall_mem_cons.1 hbefore
        rw [hy, ok_bind, ih.2 ⟨before, b, after, rfl, hbefore, hb⟩]
        rfl

theorem eq_map_of_mapM {f : α → Except ε β} {g : α → β} {as : List α} {bs : List β}
    (h : as.mapM f = .ok bs) (hg : ∀ a ∈ as, ∀ b, f a = .ok b → b = g a) : bs = as.map g := by
  induction mapM_eq_ok_iff.1 h with
  | nil => rfl
  | cons hab hrest ih =>
    rw [List.map_cons, hg _ List.mem_cons_self _ hab,
      ih (mapM_eq_ok_iff.2 hrest) fun a ha ↦ hg a (List.mem_cons_of_mem _ ha)]

theorem getElem?_of_mapM {f : α → Except ε β} {as : List α} {bs : List β} (h : as.mapM f = .ok bs)
    (n : Nat) : as[n]? = none ∧ bs[n]? = none ∨
      ∃ a b, as[n]? = some a ∧ bs[n]? = some b ∧ f a = .ok b := by
  induction mapM_eq_ok_iff.1 h generalizing n with
  | nil => exact .inl ⟨rfl, rfl⟩
  | cons hab hrest ih =>
    cases n with
    | zero => exact .inr ⟨_, _, rfl, rfl, hab⟩
    | succ n => exact ih (mapM_eq_ok_iff.2 hrest) n

theorem forall₂_of_mapM {f : α → Option β} {as : List α} {bs : List β} (h : as.mapM f = some bs) :
    List.Forall₂ (fun a b ↦ f a = some b) as bs := by
  induction as generalizing bs with
  | nil =>
    cases h
    exact .nil
  | cons a as ih =>
    rw [List.mapM_cons] at h
    obtain ⟨b, hb, h⟩ := Option.bind_eq_some_iff.1 h
    obtain ⟨bs, hbs, h⟩ := Option.bind_eq_some_iff.1 h
    cases h
    exact .cons hb (ih hbs)

end FlowTypes
