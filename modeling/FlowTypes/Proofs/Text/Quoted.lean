import FlowTypes.Proofs.Results
import FlowTypes.Text.Quoted

namespace FlowTypes.Text.Quoted

theorem hexValue?_hexDigit : ∀ n < 16, hexValue? (hexDigit n) = some n := by decide

theorem readScalar_control {c : Char} (hc : c.toNat < 32) (rest : List Char) :
    readScalar ('0' :: '0' :: hexDigit (c.toNat / 16) :: hexDigit (c.toNat % 16) :: rest) =
      .ok (c, rest) := by
  have hz : hexValue? '0' = some 0 := rfl
  have h₁ := hexValue?_hexDigit (c.toNat / 16) (by omega)
  have h₂ := hexValue?_hexDigit (c.toNat % 16) (by omega)
  have hn : ((0 * 16 + 0) * 16 + c.toNat / 16) * 16 + c.toNat % 16 = c.toNat := by omega
  have hu : readUnit ('0' :: '0' :: hexDigit (c.toNat / 16) :: hexDigit (c.toNat % 16) :: rest) =
      .ok (c.toNat, rest) := by
    simp only [readUnit, hz, h₁, h₂, hn]
  simp only [readScalar, hu, bind, Except.bind]
  rw [if_pos (by omega), Char.ofNat_toNat]
  rfl

/-- A character that is written as itself. -/
def isPlain (c : Char) : Prop := c ≠ '"' ∧ c ≠ '\\' ∧ ¬c.toNat < 32

theorem isPlain_hexDigit : ∀ n < 16, isPlain (hexDigit n) := by
  unfold isPlain
  decide

theorem escape_cases (c : Char) : escape c = [c] ∧ isPlain c ∨
    ∃ d ds, escape c = '\\' :: d :: ds ∧ (∀ x ∈ ds, isPlain x) ∧
      ∀ rest, readEscape (d :: ds ++ rest) = .ok (c, rest) := by
  have hsimple (d : Char) (he : escape c = ['\\', d])
      (hr : ∀ rest, readEscape (d :: rest) = .ok (c, rest)) : ∃ d ds, escape c = '\\' :: d :: ds ∧
        (∀ x ∈ ds, isPlain x) ∧ ∀ rest, readEscape (d :: ds ++ rest) = .ok (c, rest) :=
    ⟨d, [], he, by simp, hr⟩
  by_cases h₁ : c = '"'
  · subst h₁
    exact .inr (hsimple '"' rfl fun _ ↦ rfl)
  by_cases h₂ : c = '\\'
  · subst h₂
    exact .inr (hsimple '\\' rfl fun _ ↦ rfl)
  by_cases h₃ : c = '\x08'
  · subst h₃
    exact .inr (hsimple 'b' rfl fun _ ↦ rfl)
  by_cases h₄ : c = '\x0c'
  · subst h₄
    exact .inr (hsimple 'f' rfl fun _ ↦ rfl)
  by_cases h₅ : c = '\n'
  · subst h₅
    exact .inr (hsimple 'n' rfl fun _ ↦ rfl)
  by_cases h₆ : c = '\r'
  · subst h₆
    exact .inr (hsimple 'r' rfl fun _ ↦ rfl)
  by_cases h₇ : c = '\t'
  · subst h₇
    exact .inr (hsimple 't' rfl fun _ ↦ rfl)
  by_cases h₈ : c.toNat < 32
  · refine .inr ⟨'u', ['0', '0', hexDigit (c.toNat / 16), hexDigit (c.toNat % 16)], ?_, ?_, ?_⟩
    · simp [escape, h₁, h₂, h₃, h₄, h₅, h₆, h₇, h₈]
    · have hzero : isPlain '0' := isPlain_hexDigit 0 (by omega)
      have hhigh := isPlain_hexDigit (c.toNat / 16) (by omega)
      have hlow := isPlain_hexDigit (c.toNat % 16) (by omega)
      simp [hzero, hhigh, hlow]
    · exact readScalar_control h₈
  · exact .inl ⟨by simp [escape, h₁, h₂, h₃, h₄, h₅, h₆, h₇, h₈], h₁, h₂, h₈⟩

theorem readUpTo_escape (text rest : List Char) {fuel : List Char}
    (hf : text.length < fuel.length) :
    readUpTo fuel (text.flatMap escape ++ '"' :: rest) = .ok (text, rest) := by
  induction text generalizing fuel with
  | nil =>
    obtain ⟨f, fuel, rfl⟩ := List.exists_cons_of_length_pos hf
    simp [readUpTo]
  | cons c text ih =>
    obtain ⟨f, fuel, rfl⟩ := List.exists_cons_of_length_pos (Nat.lt_of_le_of_lt (Nat.zero_le _) hf)
    have hi : readUpTo fuel (text.flatMap escape ++ '"' :: rest) = _ := ih (by simpa using hf)
    rw [List.flatMap_cons, List.append_assoc]
    obtain ⟨he, h₁, h₂, h₃⟩ | ⟨d, ds, he, -, hr⟩ := escape_cases c
    · rw [he, List.singleton_append, readUpTo, if_neg h₁, if_neg h₂, if_neg h₃, hi]
      rfl
    · have hr := hr (text.flatMap escape ++ '"' :: rest)
      rw [List.cons_append] at hr
      rw [he, List.cons_append, List.cons_append, readUpTo, if_neg (by decide), if_pos rfl, hr]
      simp only [bind, Except.bind, hi]
      rfl

theorem length_le_flatMap_escape (text : List Char) :
    text.length ≤ (text.flatMap escape).length := by
  induction text with
  | nil => simp
  | cons c text ih =>
    have hc : 0 < (escape c).length := by
      obtain ⟨he, -⟩ | ⟨d, ds, he, -⟩ := escape_cases c <;> simp [he]
    simp only [List.flatMap_cons, List.length_append, List.length_cons]
    omega

theorem read_escape (text : String) :
    read (text.toList.flatMap escape ++ ['"']) = .ok (text, []) := by
  unfold read
  have hl : text.toList.length < (text.toList.flatMap escape ++ ['"']).length := by
    have := length_le_flatMap_escape text.toList
    rw [List.length_append, List.length_singleton]
    omega
  rw [readUpTo_escape text.toList [] hl]
  simp [bind, Except.bind, pure, Except.pure]

section

variable {text rest : List Char}

theorem length_of_readUnit {n : Nat} (h : readUnit text = .ok (n, rest)) :
    rest.length < text.length := by
  unfold readUnit at h
  split at h
  · split at h
    · obtain ⟨-, rfl⟩ := Prod.mk.inj (Except.ok.inj h)
      simp only [List.length_cons]
      omega
    · cases h
  · cases h

theorem length_of_readChar {c : Char} (h : readChar c text = .ok rest) :
    rest.length < text.length := by
  cases text with
  | nil => cases h
  | cons d text =>
    rw [readChar] at h
    split at h
    · obtain rfl := Except.ok.inj h
      exact Nat.lt_succ_self _
    · cases h

theorem length_of_readScalar {c : Char} (h : readScalar text = .ok (c, rest)) :
    rest.length < text.length := by
  obtain ⟨⟨high, rest₁⟩, hhigh, h⟩ := ok_of_bind h
  have h₁ := length_of_readUnit hhigh
  dsimp only at h
  split at h
  · obtain ⟨-, rfl⟩ := Prod.mk.inj (Except.ok.inj h)
    exact h₁
  · split at h
    · simp [throw, throwThe, MonadExceptOf.throw, bind, Except.bind] at h
    · obtain ⟨rest₂, hslash, h⟩ := ok_of_bind h
      obtain ⟨rest₃, hu, h⟩ := ok_of_bind h
      obtain ⟨⟨low, rest₄⟩, hlow, h⟩ := ok_of_bind h
      have h₂ := length_of_readChar hslash
      have h₃ := length_of_readChar hu
      have h₄ := length_of_readUnit hlow
      dsimp only at h
      split at h
      · simp [throw, throwThe, MonadExceptOf.throw, bind, Except.bind] at h
      · obtain ⟨-, rfl⟩ := Prod.mk.inj (Except.ok.inj h)
        omega

theorem length_of_readEscape {c : Char} (h : readEscape text = .ok (c, rest)) :
    rest.length < text.length := by
  unfold readEscape at h
  split at h
  case h_10 => exact Nat.lt_succ_of_lt (length_of_readScalar h)
  case h_1 | h_11 => cases h
  all_goals
    obtain ⟨-, rfl⟩ := Prod.mk.inj (Except.ok.inj h)
    exact Nat.lt_succ_self _

theorem length_of_readUpTo {fuel cs : List Char} (h : readUpTo fuel text = .ok (cs, rest)) :
    rest.length < text.length := by
  induction fuel generalizing text cs with
  | nil => cases text <;> cases h
  | cons f fuel ih =>
    cases text with
    | nil => cases h
    | cons c text =>
      rw [readUpTo] at h
      split at h
      · obtain ⟨-, rfl⟩ := Prod.mk.inj (Except.ok.inj h)
        exact Nat.lt_succ_self _
      split at h
      · obtain ⟨⟨d, rest₁⟩, hescape, h⟩ := ok_of_bind h
        obtain ⟨⟨ds, rest₂⟩, hmore, h⟩ := ok_of_bind h
        obtain ⟨-, rfl⟩ := Prod.mk.inj (Except.ok.inj h)
        have h₁ := length_of_readEscape hescape
        have h₂ := ih hmore
        simp only [List.length_cons]
        omega
      split at h
      · cases h
      · obtain ⟨⟨ds, rest₁⟩, hmore, h⟩ := ok_of_bind h
        obtain ⟨-, rfl⟩ := Prod.mk.inj (Except.ok.inj h)
        exact Nat.lt_succ_of_lt (ih hmore)

theorem length_of_read {s : String} (h : read text = .ok (s, rest)) :
    rest.length < text.length := by
  obtain ⟨⟨cs, rest₁⟩, hread, h⟩ := ok_of_bind h
  obtain ⟨-, rfl⟩ := Prod.mk.inj (Except.ok.inj h)
  exact length_of_readUpTo hread

end

end FlowTypes.Text.Quoted
