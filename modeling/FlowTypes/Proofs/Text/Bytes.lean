import FlowTypes.Text.Quoted

namespace FlowTypes.Text

open Quoted (byteCount)

/-- The bytes of a text. -/
def bytesOf (text : List Char) : List UInt8 := text.flatMap String.utf8EncodeChar

theorem bytesOf_cons (c : Char) (text : List Char) :
    bytesOf (c :: text) = String.utf8EncodeChar c ++ bytesOf text := List.flatMap_cons

theorem byteCount_cons (c : Char) (text : List Char) :
    byteCount (c :: text) = c.utf8Size + byteCount text := rfl

theorem byteCount_append (text more : List Char) :
    byteCount (text ++ more) = byteCount text + byteCount more := by
  induction text with
  | nil => exact (Nat.zero_add _).symm
  | cons c text ih =>
    rw [List.cons_append, byteCount_cons, byteCount_cons, ih, Nat.add_assoc]

theorem byteCount_le_append (text more : List Char) :
    byteCount text ≤ byteCount (text ++ more) := by
  rw [byteCount_append]
  exact Nat.le_add_right _ _

theorem byteCount_pos {text : List Char} (h : text ≠ []) : 0 < byteCount text := by
  obtain ⟨c, cs, rfl⟩ := List.exists_cons_of_ne_nil h
  rw [byteCount_cons]
  exact Nat.add_pos_left c.utf8Size_pos _

theorem utf8ByteSize_ofList (text : List Char) :
    (String.ofList text).utf8ByteSize = byteCount text := by
  induction text with
  | nil => rfl
  | cons c text ih =>
    have hone : (String.ofList [c]).utf8ByteSize = c.utf8Size := by
      rw [← String.singleton_eq_ofList, String.utf8ByteSize_singleton]
    rw [← List.singleton_append, String.ofList_append, String.utf8ByteSize_append, hone, ih,
      List.singleton_append, byteCount_cons]

theorem utf8EncodeChar_of_lt {c : Char} (h : c.toNat < 128) :
    String.utf8EncodeChar c = [UInt8.ofNat c.toNat] := by
  have hle : c.val.toNat ≤ 127 := Nat.le_of_lt_succ h
  simp only [String.utf8EncodeChar, if_pos hle]
  rfl

theorem le_of_mem_utf8EncodeChar {c : Char} (h : 128 ≤ c.toNat) {b : UInt8}
    (hb : b ∈ String.utf8EncodeChar c) : 128 ≤ b.toNat := by
  have hlt : ¬c.val.toNat ≤ 127 := Nat.not_le.2 h
  have hbyte {n m : Nat} (hm : 128 ≤ m) (hsum : n + m < 256) :
      128 ≤ (UInt8.ofNat (n + m)).toNat := by
    rw [UInt8.toNat_ofNat', Nat.mod_eq_of_lt hsum]
    omega
  simp only [String.utf8EncodeChar, if_neg hlt] at hb
  split at hb
  · simp only [List.mem_cons, List.not_mem_nil, or_false] at hb
    rcases hb with rfl | rfl <;> exact hbyte (by decide) (by omega)
  · split at hb
    · simp only [List.mem_cons, List.not_mem_nil, or_false] at hb
      rcases hb with rfl | rfl | rfl <;> exact hbyte (by decide) (by omega)
    · simp only [List.mem_cons, List.not_mem_nil, or_false] at hb
      rcases hb with rfl | rfl | rfl | rfl <;> exact hbyte (by decide) (by omega)

/-- The bytes of a character after its first are none of ASCII. -/
theorem exists_utf8EncodeChar (c : Char) :
    ∃ b bs, String.utf8EncodeChar c = b :: bs ∧ ∀ x ∈ bs, 128 ≤ x.toNat := by
  by_cases h : c.toNat < 128
  · exact ⟨_, [], utf8EncodeChar_of_lt h, by simp⟩
  · obtain ⟨b, bs, he⟩ := List.exists_cons_of_ne_nil (String.utf8EncodeChar_ne_nil (c := c))
    refine ⟨b, bs, he, fun x hx ↦ le_of_mem_utf8EncodeChar (Nat.le_of_not_lt h) ?_⟩
    rw [he]
    exact List.mem_cons_of_mem _ hx

end FlowTypes.Text
