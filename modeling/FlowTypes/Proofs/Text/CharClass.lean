import FlowTypes.Text.CharClass

namespace FlowTypes.Text

theorem inRanges_iff {ranges : List (Nat × Nat)} {c : Char} :
    inRanges ranges c ↔ ∃ r ∈ ranges, r.1 ≤ c.toNat ∧ c.toNat ≤ r.2 := by
  simp [inRanges]

theorem alphabeticRanges_disjoint_blankRanges :
    ∀ r ∈ alphabeticRanges, ∀ s ∈ blankRanges, r.2 < s.1 ∨ s.2 < r.1 := by decide +kernel

theorem toNat_of_startsWord {c : Char} (h : startsWord c) :
    65 ≤ c.toNat ∧ c.toNat ≤ 122 ∨ 128 ≤ c.toNat ∧ inRanges alphabeticRanges c := by
  simp only [startsWord, isAlphabetic, Bool.or_eq_true, Bool.and_eq_true, Bool.not_eq_true',
    beq_iff_eq] at h
  obtain (h | ⟨ha, h⟩) | rfl := h
  · refine .inl ?_
    rcases Bool.or_eq_true_iff.1 h with h | h
    · have hupper : 'A'.val ≤ c.val ∧ c.val ≤ 'Z'.val := of_decide_eq_true h
      rw [UInt32.le_iff_toNat_le, UInt32.le_iff_toNat_le] at hupper
      exact ⟨hupper.1, Nat.le_trans hupper.2 (by decide)⟩
    · obtain ⟨hl, hu⟩ := Bool.and_eq_true_iff.1 h
      have hlower : 'a'.val ≤ c.val ∧ c.val ≤ 'z'.val := ⟨of_decide_eq_true hl, of_decide_eq_true hu⟩
      rw [UInt32.le_iff_toNat_le, UInt32.le_iff_toNat_le] at hlower
      exact ⟨Nat.le_trans (by decide) hlower.1, hlower.2⟩
  · refine .inr ⟨?_, h⟩
    simpa [isAscii] using ha
  · exact .inl (by decide)

theorem isBlank_of_startsWord {c : Char} (h : startsWord c) : isBlank c = false := by
  rw [← Bool.not_eq_true]
  intro hb
  obtain ⟨s, hs, hs₁, hs₂⟩ := inRanges_iff.1 hb
  obtain ⟨h₁, h₂⟩ | ⟨-, hr⟩ := toNat_of_startsWord h
  · have hout : ∀ s ∈ blankRanges, s.2 < 65 ∨ 122 < s.1 := by decide
    have := hout s hs
    omega
  · obtain ⟨r, hr, hr₁, hr₂⟩ := inRanges_iff.1 hr
    have := alphabeticRanges_disjoint_blankRanges r hr s hs
    omega

theorem isDigit_of_startsWord {c : Char} (h : startsWord c) : c.isDigit = false := by
  rw [← Bool.not_eq_true]
  intro hd
  have hle : c.toNat ≤ 57 := by
    simp only [Char.isDigit, Bool.and_eq_true, decide_eq_true_eq, UInt32.le_iff_toNat_le] at hd
    exact hd.2
  obtain ⟨h₁, -⟩ | ⟨h₁, -⟩ := toNat_of_startsWord h <;> omega

end FlowTypes.Text
