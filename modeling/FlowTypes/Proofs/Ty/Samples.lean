import FlowTypes.Proofs.Ty.Coverage

namespace FlowTypes

namespace Ty

variable {t u : Ty} {v : Json} {vs ws : List Json}

theorem widens_widen (t : Ty) (v : Json) : Widens t (widen t v) := by
  unfold widen
  split
  · exact .refl
  · exact .union _ .refl

theorem widens_foldl_widen (t : Ty) (vs : List Json) : Widens t (vs.foldl widen t) := by
  induction vs generalizing t with
  | nil => exact .refl
  | cons v vs ih => exact (widens_widen t v).trans (ih _)

/-- A sample is accepted from then on. -/
theorem receives_widen (hv : v.wellFormed) : Receives none false (widen t v) (ofJson v) := by
  unfold widen
  split
  · next h => exact accepts_iff.1 h
  · have hself := Receives.refl (isPlain_of_isInferred (isInferred_ofJson hv)) none false
    exact hself.inRight t

theorem receives_foldl_widen (hvs : ∀ v ∈ vs, v.wellFormed) (hv : v ∈ vs) :
    Receives none false (vs.foldl widen t) (ofJson v) := by
  induction vs generalizing t with
  | nil => simp at hv
  | cons w vs ih =>
    rw [List.foldl_cons]
    obtain rfl | hv := List.mem_cons.1 hv
    · exact (widens_foldl_widen _ vs).receives (receives_widen (hvs v (by simp)))
    · exact ih (fun v hv ↦ hvs v (by simp [hv])) hv

theorem foldl_widen_of_accepted (h : ∀ w ∈ ws, accepts t (ofJson w)) : ws.foldl widen t = t := by
  induction ws with
  | nil => rfl
  | cons w ws ih =>
    have hw : widen t w = t := if_pos (h w (by simp))
    rw [List.foldl_cons, hw]
    exact ih fun w hw ↦ h w (by simp [hw])

/-- A type widened by samples is a union with the types of some of them, in their order, each of
which the union of those before it does not accept. -/
theorem foldl_widen_eq_union (t : Ty) (vs : List Json) :
    ∃ kept : List Json, kept.Sublist vs ∧
      vs.foldl widen t = (kept.map ofJson).foldl .union t ∧
      ∀ before w after, kept = before ++ w :: after →
        accepts ((before.map ofJson).foldl .union t) (ofJson w) = false := by
  induction vs generalizing t with
  | nil => exact ⟨[], .slnil, rfl, by simp⟩
  | cons v vs ih =>
    obtain ⟨kept, hsub, he, hnew⟩ := ih (widen t v)
    cases ha : accepts t (ofJson v) with
    | true =>
      have hw : widen t v = t := if_pos ha
      rw [hw] at he hnew
      exact ⟨kept, hsub.cons v, by rw [List.foldl_cons, hw, he], hnew⟩
    | false =>
      have hw : widen t v = .union t (ofJson v) := if_neg (by simp [ha])
      rw [hw] at he hnew
      refine ⟨v :: kept, hsub.cons_cons v, by rw [List.foldl_cons, hw, he]; rfl, ?_⟩
      intro before w after hs
      cases before with
      | nil =>
        obtain ⟨rfl, -⟩ := List.cons.inj hs
        exact ha
      | cons _ before =>
        obtain ⟨rfl, hrest⟩ := List.cons.inj hs
        exact hnew before w after hrest

end Ty

namespace Inference

open Ty

variable {vs : List Json}

/-- What a run of inference has found, whatever the samples. There is a type once there is a sample:
the union of the types of the first one and of some later ones, each of which the union of those
before it does not accept. It accepts the types of all samples, and samples that come again, in any
order and number, leave it as it is. -/
theorem ofValues_arms (hvs : ∀ v ∈ vs, v.wellFormed) :
    (ofValues vs = none ↔ vs = []) ∧
    (∀ v rest, vs = v :: rest → ∃ kept : List Json, kept.Sublist rest ∧
      ofValues vs = some ((kept.map ofJson).foldl .union (ofJson v)) ∧
      ∀ before w after, kept = before ++ w :: after →
        accept? .reading ((before.map ofJson).foldl .union (ofJson v)) (ofJson w) none =
          some (false, none)) ∧
    (∀ t, ofValues vs = some t → ∀ v ∈ vs,
      accept? .reading t (ofJson v) none = some (true, none)) ∧
    ∀ again, again ⊆ vs → ofValues (vs ++ again) = ofValues vs := by
  cases vs with
  | nil => exact ⟨by simp [ofValues, solve, start], by simp, by simp, by simp⟩
  | cons v rest =>
    have hv := hvs v (by simp)
    have hrest : ∀ w ∈ rest, w.wellFormed := fun w hw ↦ hvs w (by simp [hw])
    have hsolve := ofValues_cons hv hrest
    have haccepts : ∀ w ∈ v :: rest, accepts (rest.foldl widen (ofJson v)) (ofJson w) := by
      intro w hw
      rw [accepts_iff]
      obtain rfl | hw := List.mem_cons.1 hw
      · have hself := Receives.refl (isPlain_of_isInferred (isInferred_ofJson hv)) none false
        exact (widens_foldl_widen _ rest).receives hself
      · exact receives_foldl_widen hrest hw
    refine ⟨by simp [hsolve], ?_, ?_, ?_⟩
    · rintro _ _ ⟨⟩
      obtain ⟨kept, hsub, he, hnew⟩ := foldl_widen_eq_union (ofJson v) rest
      refine ⟨kept, hsub, by rw [hsolve, he], fun before w after hs ↦ ?_⟩
      rw [accept?_eq_accepts, hnew before w after hs]
    · intro t ht w hw
      rw [hsolve, Option.some_inj] at ht
      rw [accept?_eq_accepts, ← ht, haccepts w hw]
    · intro again hagain
      have hall : ∀ w ∈ rest ++ again, w.wellFormed := by grind
      rw [List.cons_append, ofValues_cons hv hall, hsolve, List.foldl_append,
        foldl_widen_of_accepted fun w hw ↦ haccepts w (hagain hw)]

theorem ofValues_arms_again :
    ofValues [.object [("a", .int 1)], .null, .object [("a", .null)]] =
        some (.union (.struct [⟨"a", false, .primitive .float⟩]) (.literal .null)) ∧
      accept? .reading (.union (.struct [⟨"a", false, .primitive .float⟩]) (.literal .null))
        (ofJson (.object [("a", .null)])) none = some (true, none) ∧
      ofValues ([.object [("a", .int 1)], .null, .object [("a", .null)]] ++
          [.null, .object [("a", .int 1)], .null]) =
        some (.union (.struct [⟨"a", false, .primitive .float⟩]) (.literal .null)) := by
  have ht : ofValues [.object [("a", .int 1)], .null, .object [("a", .null)]] =
    some (.union (.struct [⟨"a", false, .primitive .float⟩]) (.literal .null)) := rfl
  obtain ⟨-, -, haccepts, hagain⟩ :=
    @ofValues_arms [.object [("a", .int 1)], .null, .object [("a", .null)]] (by decide)
  exact ⟨ht, haccepts _ ht _ (by simp), (hagain _ (by simp)).trans ht⟩

end Inference

end FlowTypes
