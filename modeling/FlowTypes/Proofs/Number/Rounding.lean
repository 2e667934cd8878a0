import FlowTypes.Number.Double

namespace FlowTypes.Double

theorem twoPow_pos (n : Nat) : 0 < twoPow n := Nat.pow_pos (by omega)

theorem fivePow_pos (n : Nat) : 0 < Nat.pow 5 n := Nat.pow_pos (by omega)

theorem twoPow_add (m n : Nat) : twoPow (m + n) = twoPow m * twoPow n := Nat.pow_add 2 m n

theorem tenPow_add (m n : Nat) : tenPow (m + n) = tenPow m * tenPow n := Nat.pow_add 10 m n

theorem tenPow_eq (n : Nat) : tenPow n = twoPow n * Nat.pow 5 n := Nat.mul_pow 2 5 n

theorem le_log2_iff {m k : Nat} (hm : m ≠ 0) : k ≤ m.log2 ↔ twoPow k ≤ m := Nat.le_log2 hm

theorem log2_lt_iff {m k : Nat} (hm : m ≠ 0) : m.log2 < k ↔ m < twoPow k := Nat.log2_lt hm

theorem roundDiv_le (num den : Nat) : roundDiv num den ≤ num / den + 1 := by
  unfold roundDiv
  dsimp only
  split
  · omega
  · split <;> omega

theorem roundDiv_mul (q : Nat) {den : Nat} (h : 0 < den) : roundDiv (q * den) den = q := by
  unfold roundDiv
  simp only [Nat.mul_mod_left, Nat.mul_div_cancel _ h]
  simp [h]

theorem roundDiv_mul_right (num den : Nat) {k : Nat} (hk : 0 < k) :
    roundDiv (num * k) (den * k) = roundDiv num den := by
  unfold roundDiv
  rw [Nat.mul_div_mul_right _ _ hk, Nat.mul_mod_mul_right]
  have hlt (x y : Nat) : x * k < y * k ↔ x < y := Nat.mul_lt_mul_right hk
  simp only [← Nat.mul_assoc, hlt]

theorem ofRatio_mul_right (negative : Bool) (num den : Nat) {k : Nat} (hk : 0 < k) :
    ofRatio negative (num * k) (den * k) = ofRatio negative num den := by
  unfold ofRatio
  have hs : num * k * twoPow 1074 = num * twoPow 1074 * k := Nat.mul_right_comm _ _ _
  have hd (e : Nat) : den * k * twoPow e = den * twoPow e * k := Nat.mul_right_comm _ _ _
  simp only [hs, hd, Nat.mul_div_mul_right _ _ hk, roundDiv_mul_right _ _ hk]

theorem div_twoPow_lt {m e : Nat} (h : m.log2 ≤ e + 52) : m / twoPow e < twoPow 53 := by
  apply Nat.div_lt_of_lt_mul
  have hm : m < 2 ^ (m.log2 + 1) := Nat.lt_log2_self
  have hp : 2 ^ (m.log2 + 1) ≤ twoPow (e + 53) := Nat.pow_le_pow_right (by omega) (by omega)
  rw [← twoPow_add]
  omega

theorem ofInt_isFinite {n : Int} (h : n.natAbs < twoPow 65) : (ofInt n).isFinite := by
  unfold ofInt ofRatio isFinite
  simp only [Nat.div_one, Nat.one_mul, decide_eq_true_eq]
  have hlog : (n.natAbs * twoPow 1074).log2 ≤ 1138 := by
    by_cases hz : n.natAbs = 0
    · simp [hz]
    · have hlt : n.natAbs * twoPow 1074 < twoPow (65 + 1074) := by
        rw [twoPow_add]
        exact Nat.mul_lt_mul_of_pos_right h (twoPow_pos 1074)
      have hne : n.natAbs * twoPow 1074 ≠ 0 := Nat.mul_ne_zero hz (Nat.ne_of_gt (twoPow_pos 1074))
      have := (log2_lt_iff hne).2 hlt
      omega
  generalize n.natAbs * twoPow 1074 = m at hlog
  have hr := roundDiv_le m (twoPow (m.log2 - 52))
  have hq := div_twoPow_lt (m := m) (e := m.log2 - 52) (by omega)
  apply Nat.lt_of_le_of_lt (Nat.min_le_right _ _)
  have he : (m.log2 - 52) * twoPow 52 ≤ 1086 * twoPow 52 := Nat.mul_le_mul_right _ (by omega)
  have h53 : twoPow 53 = 2 * twoPow 52 := rfl
  have hlimit : limit = 2047 * twoPow 52 := rfl
  have hpos := twoPow_pos 52
  omega

end FlowTypes.Double
