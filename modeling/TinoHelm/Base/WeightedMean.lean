import Mathlib.Algebra.Field.Basic
import Mathlib.Algebra.Order.BigOperators.Group.List
import Mathlib.Tactic.Linarith

/-! Weighted means of lists of pairs `(weight, value)`. A mean with positive weights lies
between the extreme values. -/

namespace Base

variable {𝕜 : Type*} [Field 𝕜]

def weight (ws : List (𝕜 × 𝕜)) : 𝕜 := (ws.map Prod.fst).sum

def weighted (ws : List (𝕜 × 𝕜)) : 𝕜 := (ws.map fun w => w.1 * w.2).sum

/-- A list without weight has no mean. -/
def IsWeightedMean (m : 𝕜) (ws : List (𝕜 × 𝕜)) : Prop := weight ws ≠ 0 ∧ m * weight ws = weighted ws

@[simp] theorem weight_nil : weight ([] : List (𝕜 × 𝕜)) = 0 := rfl

@[simp] theorem weight_cons (w : 𝕜 × 𝕜) (ws : List (𝕜 × 𝕜)) :
    weight (w :: ws) = w.1 + weight ws := by
  simp [weight]

@[simp] theorem weighted_nil : weighted ([] : List (𝕜 × 𝕜)) = 0 := rfl

@[simp] theorem weighted_cons (w : 𝕜 × 𝕜) (ws : List (𝕜 × 𝕜)) :
    weighted (w :: ws) = w.1 * w.2 + weighted ws := by
  simp [weighted]

theorem weighted_neg (ws : List (𝕜 × 𝕜)) :
    weighted (ws.map fun w => (w.1, -w.2)) = -weighted ws := by
  induction ws with
  | nil => simp
  | cons w ws ih => rw [List.map_cons, weighted_cons, ih, weighted_cons, neg_add, mul_neg]

theorem IsWeightedMean.neg {m : 𝕜} {ws : List (𝕜 × 𝕜)} (h : IsWeightedMean m ws) :
    IsWeightedMean (-m) (ws.map fun w => (w.1, -w.2)) := by
  have hweight : weight (ws.map fun w => (w.1, -w.2)) = weight ws := by
    simp [weight, Function.comp_def]
  exact ⟨hweight ▸ h.1, by rw [hweight, weighted_neg, neg_mul, h.2]⟩

theorem isWeightedMean_div {n : 𝕜} {ws : List (𝕜 × 𝕜)} (hn : n ≠ 0) :
    IsWeightedMean (weighted ws / n) ws ↔ weight ws ≠ 0 ∧ (n = weight ws ∨ weighted ws = 0) := by
  refine and_congr_right fun _ => ?_
  rw [div_mul_eq_mul_div, div_eq_iff hn, mul_comm (weighted ws) n, mul_comm (weighted ws) (weight ws)]
  rw [mul_eq_mul_right_iff]
  exact or_congr_left eq_comm

variable [LinearOrder 𝕜] [IsStrictOrderedRing 𝕜]

theorem mul_weight_lt_weighted {m : 𝕜} {ws : List (𝕜 × 𝕜)} (hne : ws ≠ [])
    (h : ∀ w ∈ ws, 0 < w.1 ∧ m < w.2) : m * weight ws < weighted ws := by
  have hle : ∀ vs : List (𝕜 × 𝕜), (∀ w ∈ vs, 0 < w.1 ∧ m < w.2) → m * weight vs ≤ weighted vs := by
    intro vs hvs
    induction vs with
    | nil => simp
    | cons w vs ih =>
      have hw := hvs w List.mem_cons_self
      have hmul : w.1 * m ≤ w.1 * w.2 := mul_le_mul_of_nonneg_left hw.2.le hw.1.le
      have hrest := ih fun v hv => hvs v (List.mem_cons_of_mem w hv)
      rw [weight_cons, weighted_cons, mul_add, mul_comm m w.1]
      exact add_le_add hmul hrest
  obtain ⟨w, vs, rfl⟩ := List.exists_cons_of_ne_nil hne
  have hw := h w List.mem_cons_self
  have hmul : w.1 * m < w.1 * w.2 := mul_lt_mul_of_pos_left hw.2 hw.1
  rw [weight_cons, weighted_cons, mul_add, mul_comm m w.1]
  exact add_lt_add_of_lt_of_le hmul (hle vs fun v hv => h v (List.mem_cons_of_mem w hv))

theorem IsWeightedMean.exists_le {m : 𝕜} {ws : List (𝕜 × 𝕜)} (h : IsWeightedMean m ws)
    (hpos : ∀ w ∈ ws, 0 < w.1) : ∃ w ∈ ws, w.2 ≤ m := by
  by_contra hno
  push Not at hno
  have hne : ws ≠ [] := by
    rintro rfl
    exact h.1 weight_nil
  exact (mul_weight_lt_weighted hne fun w hw => ⟨hpos w hw, hno w hw⟩).ne h.2

theorem IsWeightedMean.exists_ge {m : 𝕜} {ws : List (𝕜 × 𝕜)} (h : IsWeightedMean m ws)
    (hpos : ∀ w ∈ ws, 0 < w.1) : ∃ w ∈ ws, m ≤ w.2 := by
  have hpos' : ∀ v ∈ ws.map fun w => (w.1, -w.2), 0 < v.1 := by
    intro v hv
    obtain ⟨w, hw, rfl⟩ := List.mem_map.1 hv
    exact hpos w hw
  obtain ⟨v, hv, hle⟩ := h.neg.exists_le hpos'
  obtain ⟨w, hw, rfl⟩ := List.mem_map.1 hv
  exact ⟨w, hw, neg_le_neg_iff.1 hle⟩

end Base
