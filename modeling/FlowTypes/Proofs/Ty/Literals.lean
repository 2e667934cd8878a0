import FlowTypes.Proofs.Json.WellFormed
import FlowTypes.Proofs.Ty.Nullability

namespace FlowTypes

namespace Double

variable {x y z : Double}

theorem equal_iff : x.equal y ↔ x.isNaN = false ∧ y.isNaN = false ∧
    (x = y ∨ x.magnitude = 0 ∧ y.magnitude = 0) := by
  simp [equal, isZero, and_assoc]

theorem equal_trans (h : x.equal y) (h' : y.equal z) : x.equal z := by
  rw [equal_iff] at h h' ⊢
  obtain ⟨hx, -, h⟩ := h
  obtain ⟨-, hz, h'⟩ := h'
  refine ⟨hx, hz, ?_⟩
  obtain rfl | ⟨hx, hy⟩ := h
  · exact h'
  · obtain rfl | ⟨-, hz⟩ := h'
    · exact .inr ⟨hx, hy⟩
    · exact .inr ⟨hx, hz⟩

theorem same_trans_equal (h : x.same y) (h' : y.equal z) : x.equal z := by
  simp only [same, Bool.or_eq_true, Bool.and_eq_true] at h
  obtain ⟨-, hy⟩ | h := h
  · simp [(equal_iff.1 h').1] at hy
  · exact equal_trans h h'

theorem isFinite_of_equal (h : x.equal y) (hy : y.isFinite) : x.isFinite := by
  obtain ⟨-, -, rfl | ⟨hx, -⟩⟩ := equal_iff.1 h
  · exact hy
  · simp [isFinite, hx, limit, twoPow]

theorem isInt32_of_magnitude_eq_zero (h : x.magnitude = 0) : x.isInt32 := by
  have hu : x.units = 0 := by simp [units, significand, exponent, h]
  have hf : x.isFinite := by simp [isFinite, h, limit, twoPow]
  simp [isInt32, hf, hu]

theorem isInt32_of_equal (h : x.equal y) (hx : x.isInt32) : y.isInt32 := by
  obtain ⟨-, -, rfl | ⟨-, hy⟩⟩ := equal_iff.1 h
  · exact hx
  · exact isInt32_of_magnitude_eq_zero hy

end Double

namespace Literal

variable {k l : Literal} {v : Json}

theorem is_number {x : Double} (h : (Literal.number x).is v) :
    ∃ y, v.toDouble? = some y ∧ x.equal y := by
  cases v <;> simp_all [is, Json.toDouble?]

theorem is_of_same (h : k.same l) (hl : l.is v) : k.is v := by
  cases k <;> cases l <;> simp only [same, Bool.false_eq_true] at h
  case null.null => exact hl
  case number.number x y =>
    obtain ⟨z, hz, hy⟩ := is_number hl
    have hx := Double.same_trans_equal h hy
    cases v <;> simp_all [is, Json.toDouble?]
  all_goals
    obtain rfl := beq_iff_eq.1 h
    exact hl

theorem eq_toJson_of_is (h : l.is v) (hn : v.toDouble? = none) : v = l.toJson := by
  cases l <;> cases v <;> simp_all [is, toJson, Json.toDouble?]

end Literal

namespace Ty

variable {env : Env} {t : Ty}

/-- Numbers that compare as equal conform to the same types. -/
theorem holds_number (hg : t.generics = []) {x y : Double} {v : Json} (hv : v.toDouble? = some y)
    (hxy : x.equal y) (h : holds [] env t (some (.double x))) : holds [] env t (some v) := by
  induction t with
  | literal l =>
    cases l with
    | number z =>
      have hz : z.equal x := by simpa [holds, Literal.is, Json.toDouble?] using h
      have hzy := Double.equal_trans hz hxy
      cases v <;> simp_all [holds, Literal.is, Json.toDouble?]
    | _ => simp [holds, Literal.is] at h
  | primitive p =>
    cases p with
    | int =>
      have hx : x.isInt32 := by simpa [holds, Primitive.admits, Json.toDouble?] using h
      have hy := Double.isInt32_of_equal hxy hx
      cases v <;> simp_all [holds, Primitive.admits, Json.toDouble?]
    | any | float => cases v <;> simp_all [holds, Primitive.admits, Json.toDouble?]
    | _ => simp [holds, Primitive.admits] at h
  | generic name | bounded name t ih => simp [generics] at hg
  | tag name => simp [holds]
  | named name t ih => simpa [holds] using ih hg (by simpa [holds] using h)
  | nullable t ih =>
    have ht := ih hg (by simpa [holds, Json.isNull] using h)
    simp [holds, ht]
  | inter s t ihs iht =>
    simp only [generics, List.append_eq_nil_iff] at hg
    simp only [holds, Bool.and_eq_true] at h ⊢
    exact ⟨ihs hg.1 h.1, iht hg.2 h.2⟩
  | union s t ihs iht =>
    simp only [generics, List.append_eq_nil_iff] at hg
    simp only [holds, Bool.or_eq_true] at h ⊢
    exact h.imp (ihs hg.1) (iht hg.2)
  | _ => simp [holds, Json.isArrayWith, Json.isObjectWith] at h

/-- What equals a literal conforms to the types that the literal's value conforms to. -/
theorem holds_of_is (hg : t.generics = []) {l : Literal} {v : Json} (hv : v.wellFormed)
    (hl : l.is v) (h : holds [] env t (some l.toJson)) : holds [] env t (some v) := by
  cases hy : v.toDouble? with
  | none => exact Literal.eq_toJson_of_is hl hy ▸ h
  | some y =>
    cases l with
    | number x =>
      obtain ⟨z, hz, hxz⟩ := Literal.is_number hl
      obtain rfl : y = z := by simpa [hy] using hz
      have hx := Double.isFinite_of_equal hxz (Json.toDouble?_isFinite hv hy)
      simp only [Literal.toJson, hx, if_true] at h
      exact holds_number hg hy hxz h
    | _ => cases v <;> simp_all [Literal.is, Json.toDouble?]

end Ty

end FlowTypes
