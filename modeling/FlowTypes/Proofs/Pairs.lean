import Mathlib.Data.List.Forall2
import Mathlib.Data.List.Zip

namespace FlowTypes

variable {α β γ : Type} {xs : List α} {ys : List β} {zs : List γ} {R : α → β → Prop}

theorem mem_zip_comm {x : α} {y : β} : (x, y) ∈ xs.zip ys ↔ (y, x) ∈ ys.zip xs := by
  rw [← List.zip_swap ys xs, List.mem_map]
  simp [Prod.ext_iff]

theorem exists_mem_zip (hl : xs.length = ys.length) {x : α} {z : γ} (h : (x, z) ∈ xs.zip zs) :
    ∃ y, (x, y) ∈ xs.zip ys ∧ (y, z) ∈ ys.zip zs := by
  induction xs generalizing ys zs with
  | nil => simp at h
  | cons x' xs ih =>
    obtain _ | ⟨y, ys⟩ := ys
    · simp at hl
    obtain _ | ⟨z', zs⟩ := zs
    · simp at h
    simp only [List.zip_cons_cons, List.mem_cons] at h ⊢
    obtain h | h := h
    · exact ⟨y, by simp_all⟩
    · obtain ⟨y', hx, hz⟩ := ih (by simpa using hl) h
      exact ⟨y', .inr hx, .inr hz⟩

theorem exists_mem_zip_left (h : List.Forall₂ R xs ys) {y : β} {z : γ} (hm : (y, z) ∈ ys.zip zs) :
    ∃ x, (x, z) ∈ xs.zip zs ∧ R x y := by
  obtain ⟨hl, hr⟩ := List.forall₂_iff_zip.1 h
  obtain ⟨x, hx, hz⟩ := exists_mem_zip hl.symm hm
  exact ⟨x, hz, hr (mem_zip_comm.1 hx)⟩

theorem exists_mem_zip_right (h : List.Forall₂ R xs ys) {y : β} {z : γ} (hm : (z, y) ∈ zs.zip ys) :
    ∃ x, (z, x) ∈ zs.zip xs ∧ R x y := by
  obtain ⟨x, hx, hr⟩ := exists_mem_zip_left h (mem_zip_comm.1 hm)
  exact ⟨x, mem_zip_comm.1 hx, hr⟩

theorem exists_of_mem_forall₂ (h : List.Forall₂ R xs ys) {y : β} (hy : y ∈ ys) :
    ∃ x ∈ xs, R x y := by
  induction h with
  | nil => cases hy
  | cons hfirst hrest ih =>
    rcases List.mem_cons.1 hy with rfl | hy
    · exact ⟨_, List.mem_cons_self, hfirst⟩
    · obtain ⟨x, hx, hR⟩ := ih hy
      exact ⟨x, List.mem_cons_of_mem _ hx, hR⟩

end FlowTypes
