import FlowTypes.Number.Decimal
import FlowTypes.Proofs.Number.Rounding
import FlowTypes.Proofs.Text.Digits

namespace FlowTypes

namespace Double

variable {x : Double}

theorem exponent_mul_le (x : Double) : x.exponent * twoPow 52 ≤ x.magnitude := by
  unfold exponent
  have h := Nat.div_mul_le_self x.magnitude (twoPow 52)
  exact Nat.le_trans (Nat.mul_le_mul_right _ (Nat.sub_le _ _)) h

theorem significand_pos (hz : x.magnitude ≠ 0) : 0 < x.significand := by
  have hpos := twoPow_pos 52
  have hle := Nat.div_mul_le_self x.magnitude (twoPow 52)
  unfold significand exponent
  rw [Nat.sub_mul, Nat.one_mul]
  by_cases hq : x.magnitude / twoPow 52 = 0
  · rw [hq]
    omega
  · have := Nat.le_mul_of_pos_left (twoPow 52) (Nat.pos_of_ne_zero hq)
    omega

theorem log2_units (x : Double) : x.units.log2 - 52 = x.exponent := by
  have hpos := twoPow_pos 52
  have h53 : twoPow 53 = 2 * twoPow 52 := rfl
  have hdiv := Nat.div_add_mod x.magnitude (twoPow 52)
  have hmod := Nat.mod_lt x.magnitude hpos
  by_cases hq : x.magnitude / twoPow 52 ≤ 1
  · have he : x.exponent = 0 := by
      unfold exponent
      omega
    have hm : x.magnitude < twoPow 53 := by
      have := Nat.mul_le_mul_left (twoPow 52) hq
      omega
    have hu : x.units = x.magnitude := by
      unfold units significand
      rw [he]
      simp [twoPow]
    rw [hu, he]
    by_cases hz : x.magnitude = 0
    · simp [hz]
    · have := (log2_lt_iff hz).2 hm
      omega
  · have hs : x.significand = twoPow 52 + x.magnitude % twoPow 52 := by
      unfold significand exponent
      rw [Nat.sub_mul]
      have := Nat.mul_comm (twoPow 52) (x.magnitude / twoPow 52)
      have hle : twoPow 52 ≤ x.magnitude / twoPow 52 * twoPow 52 :=
        Nat.le_mul_of_pos_left _ (by omega)
      omega
    have hlow : twoPow (52 + x.exponent) ≤ x.units := by
      unfold units
      rw [twoPow_add, hs]
      exact Nat.mul_le_mul_right _ (by omega)
    have hhigh : x.units < twoPow (53 + x.exponent) := by
      unfold units
      rw [twoPow_add, hs]
      exact Nat.mul_lt_mul_of_pos_right (by omega) (twoPow_pos _)
    have hne : x.units ≠ 0 := by
      have := twoPow_pos (52 + x.exponent)
      omega
    have h₁ : 52 + x.exponent ≤ x.units.log2 := (le_log2_iff hne).2 hlow
    have h₂ : x.units.log2 < 53 + x.exponent := (log2_lt_iff hne).2 hhigh
    omega

/-- A finite double is the double nearest to its own value. -/
theorem ofRatio_units (negative : Bool) (hx : x.isFinite) :
    ofRatio negative x.units (twoPow 1074) = ⟨negative, x.magnitude⟩ := by
  unfold ofRatio
  dsimp only
  rw [Nat.mul_div_cancel _ (twoPow_pos 1074), log2_units]
  have hunits : x.units * twoPow 1074 = x.significand * (twoPow 1074 * twoPow x.exponent) := by
    unfold units
    rw [Nat.mul_assoc, Nat.mul_comm (twoPow x.exponent)]
  rw [hunits, roundDiv_mul _ (Nat.mul_pos (twoPow_pos _) (twoPow_pos _))]
  have hm : x.exponent * twoPow 52 + x.significand = x.magnitude := by
    have := exponent_mul_le x
    unfold significand
    omega
  rw [hm, Nat.min_eq_right]
  have : x.magnitude < limit := by simpa [isFinite] using hx
  omega

theorem ofRatio_magnitude_of_le (negative : Bool) {num : Nat} (h : twoPow 1024 ≤ num) :
    (ofRatio negative num 1).magnitude = limit := by
  unfold ofRatio
  dsimp only
  rw [Nat.div_one, Nat.one_mul]
  generalize hm : num * twoPow 1074 = m
  have hlow : twoPow 2098 ≤ m := by
    have hsum : twoPow 2098 = twoPow 1024 * twoPow 1074 := twoPow_add 1024 1074
    rw [← hm, hsum]
    exact Nat.mul_le_mul_right _ h
  have hne : m ≠ 0 := by
    have := twoPow_pos 2098
    omega
  have hlog : 2098 ≤ m.log2 := (le_log2_iff hne).2 hlow
  have hq : twoPow 52 ≤ m / twoPow (m.log2 - 52) := by
    rw [Nat.le_div_iff_mul_le (twoPow_pos _), ← twoPow_add]
    have hself : twoPow m.log2 ≤ m := Nat.log2_self_le hne
    rwa [show 52 + (m.log2 - 52) = m.log2 by omega]
  have hr : m / twoPow (m.log2 - 52) ≤ roundDiv m (twoPow (m.log2 - 52)) := by
    unfold roundDiv
    dsimp only
    split
    · omega
    · split <;> omega
  have he : 2046 * twoPow 52 ≤ (m.log2 - 52) * twoPow 52 := Nat.mul_le_mul_right _ (by omega)
  have hlimit : limit = 2047 * twoPow 52 := rfl
  apply Nat.min_eq_left
  omega

theorem ofDecimal_negative (negative : Bool) (digits : Nat) (scale : Int) :
    ofDecimal negative digits scale = { ofDecimal false digits scale with negative } := by
  unfold ofDecimal ofRatio
  split
  · rfl
  · split <;> split <;> rfl

theorem ofDecimal_of_lt {digits k : Nat} (hd : digits ≠ 0) (hk : k ≤ 310) :
    ofDecimal false digits (.ofNat k) = ofRatio false (digits * tenPow k) 1 := by
  unfold ofDecimal
  rw [if_neg hd]
  exact if_neg (by omega)

theorem ofDecimal_negSucc {digits k : Nat} (hd : digits ≠ 0)
    (hk : k + 1 ≤ (Nat.toDigits 10 digits).length + 330) :
    ofDecimal false digits (.negSucc k) = ofRatio false digits (tenPow (k + 1)) := by
  unfold ofDecimal
  rw [if_neg hd]
  exact if_neg (by omega)

theorem scale_le_of_isFinite {digits k : Nat} (hd : digits ≠ 0)
    (hf : (ofDecimal false digits (.ofNat k)).isFinite) : digits * tenPow k < tenPow 309 := by
  have hten : twoPow 1024 ≤ tenPow 309 := by decide +kernel
  have hinf : ¬(⟨false, limit⟩ : Double).isFinite := by simp [isFinite]
  by_cases hk : k ≤ 310
  · rw [ofDecimal_of_lt hd hk] at hf
    apply Nat.lt_of_not_le
    intro hle
    have hm := ofRatio_magnitude_of_le false (Nat.le_trans hten hle)
    simp [isFinite, hm] at hf
  · unfold ofDecimal at hf
    rw [if_neg hd] at hf
    dsimp only at hf
    rw [if_pos (by omega)] at hf
    exact absurd hf hinf

theorem le_of_tenPow_le {digits k m : Nat} (hd : digits ≠ 0) (h : digits * tenPow k < tenPow m) :
    k < m := by
  apply Nat.lt_of_not_le
  intro hle
  have h₁ : tenPow m ≤ tenPow k := Nat.pow_le_pow_right (by omega) hle
  have h₂ : tenPow k ≤ digits * tenPow k := Nat.le_mul_of_pos_left _ (by omega)
  omega

theorem lt_length_toDigits {n k : Nat} (h : tenPow k ≤ n) : k < (Nat.toDigits 10 n).length := by
  by_cases hk : k = 0
  · subst hk
    exact Nat.length_toDigits_pos
  · apply Nat.lt_of_not_le
    rw [Nat.length_toDigits_le_iff (by omega) (by omega)]
    exact Nat.not_lt.2 h

theorem length_toDigits_div {digits : Nat} (h : 10 ≤ digits) :
    (Nat.toDigits 10 digits).length = (Nat.toDigits 10 (digits / 10)).length + 1 := by
  rw [Nat.toDigits_of_base_le (by omega) h]
  simp

theorem ofDecimal_div_ten {digits : Nat} {scale : Int} (hz : digits % 10 = 0) (hd : digits ≠ 0)
    (hf : (ofDecimal false digits scale).isFinite) :
    ofDecimal false (digits / 10) (scale + 1) = ofDecimal false digits scale := by
  have hq : digits / 10 ≠ 0 := by omega
  have hten : digits = digits / 10 * 10 := by omega
  cases scale with
  | ofNat k =>
    have hlt := le_of_tenPow_le hd (scale_le_of_isFinite hd hf)
    rw [show Int.ofNat k + 1 = Int.ofNat (k + 1) from rfl, ofDecimal_of_lt hd (by omega),
      ofDecimal_of_lt hq (by omega), Nat.add_comm, tenPow_add, ← Nat.mul_assoc]
    congr 2
    exact hten.symm
  | negSucc k =>
    have hlen := length_toDigits_div (show 10 ≤ digits by omega)
    have hratio (j : Nat) : ofRatio false digits (tenPow (j + 1)) =
        ofRatio false (digits / 10) (tenPow j) := by
      rw [tenPow_add, show tenPow 1 = 10 from rfl]
      have h := ofRatio_mul_right false (digits / 10) (tenPow j) (show 0 < 10 by omega)
      rwa [← hten] at h
    cases k with
    | zero =>
      rw [ofDecimal_negSucc hd (by omega), hratio 0, show Int.negSucc 0 + 1 = Int.ofNat 0 from rfl,
        ofDecimal_of_lt hq (by omega)]
      simp [tenPow]
    | succ k =>
      rw [show Int.negSucc (k + 1) + 1 = Int.negSucc k from rfl]
      unfold ofDecimal
      rw [if_neg hd, if_neg hq]
      dsimp only
      rw [hlen, hratio (k + 1)]
      simp only [Nat.add_right_comm _ 1 330, Nat.add_lt_add_iff_right]

end Double

namespace Decimal

open Double

variable {x : Double}

theorem ofDecimal_trim (fuel : Nat) {d : Decimal} (hf : (ofDecimal false d.digits d.scale).isFinite) :
    ofDecimal false (trim fuel d).digits (trim fuel d).scale =
      ofDecimal false d.digits d.scale := by
  induction fuel generalizing d with
  | zero => rfl
  | succ fuel ih =>
    rw [trim]
    split
    · next h =>
      have hs := ofDecimal_div_ten h.1 h.2 hf
      rw [ih (by rw [hs]; exact hf), hs]
    · rfl

theorem ofDecimal_mul_fivePow {units k l m : Nat} (hm : m = k + 1) (hu : 0 < units)
    (hpow : tenPow l ≤ Nat.pow 5 m) (hl : m ≤ l + 331) :
    ofDecimal false (units * Nat.pow 5 m) (.negSucc k) = ofRatio false units (twoPow m) := by
  subst hm
  have hlen := lt_length_toDigits (Nat.le_trans hpow (Nat.le_mul_of_pos_left _ hu))
  have hd : units * Nat.pow 5 (k + 1) ≠ 0 := Nat.ne_of_gt (Nat.mul_pos hu (fivePow_pos _))
  rw [ofDecimal_negSucc hd (by omega), tenPow_eq, ofRatio_mul_right _ _ _ (fivePow_pos _)]

theorem ofDecimal_exact (hx : x.isFinite) (hz : x.magnitude ≠ 0) :
    ofDecimal false (exact x).digits (exact x).scale = x.abs := by
  have hu : 0 < x.units := Nat.mul_pos (significand_pos hz) (twoPow_pos _)
  have hread := ofDecimal_mul_fivePow (l := 743) (m := 1074) rfl hu (by decide +kernel)
    (Nat.le_refl 1074)
  rw [ofRatio_units false hx] at hread
  exact hread

theorem ofDecimal_withDigits? {tie : Tie} {n : Nat} {d : Decimal}
    (h : withDigits? tie x n = some d) : ofDecimal false d.digits d.scale = x.abs := by
  unfold withDigits? at h
  dsimp only at h
  split at h
  · next hh =>
    obtain rfl := Option.some_inj.1 h
    simp only [Bool.and_eq_true, beq_iff_eq] at hh
    exact hh.1
  · split at h
    · next hh =>
      obtain rfl := Option.some_inj.1 h
      exact beq_iff_eq.1 hh
    · simp at h

/-- The fewest digits of a finite double read back to its absolute value. -/
theorem ofDecimal_shortest (tie : Tie) (hx : x.isFinite) :
    ofDecimal false (shortest tie x).digits (shortest tie x).scale = x.abs := by
  unfold shortest
  split
  · next hz =>
    have hm : x.magnitude = 0 := by simpa [isZero] using hz
    simp [ofDecimal, Double.abs, hm]
  · next hz =>
    have hm : x.magnitude ≠ 0 := by simpa [isZero] using hz
    generalize hd : ((List.range 17).findSome? fun n ↦ withDigits? tie x (n + 1)).getD (exact x) = d
    have hread : ofDecimal false d.digits d.scale = x.abs := by
      cases hs : (List.range 17).findSome? fun n ↦ withDigits? tie x (n + 1) with
      | none =>
        rw [← hd, hs]
        exact ofDecimal_exact hx hm
      | some d' =>
        obtain ⟨n, -, hn⟩ := List.exists_of_findSome?_eq_some hs
        rw [← hd, hs]
        exact ofDecimal_withDigits? hn
    rw [ofDecimal_trim 20 (by rw [hread]; exact hx), hread]

end Decimal

end FlowTypes
