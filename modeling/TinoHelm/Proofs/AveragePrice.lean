import TinoHelm.Base.WeightedMean
import TinoHelm.Proofs.OwnEmbed
import TinoHelm.Spec.TrackerRuns

/-! The average price of an order. The slot sums the quantities of all fills and the
notional of those with a price, so the quotient is their weighted mean only if the other
fills weigh nothing. -/

namespace TinoHelm
open Base OrderProgressTracker
open scoped Exact

def StaysTracked (maxOrders : ℕ) (k : HashKey) (ops : List TrackerOp) : Prop :=
  ∀ pre, pre <+: ops → eventsOf k pre ≠ [] → (trackerRun maxOrders pre).slot k ≠ none

/-- The fills of the order in exact numbers: a quantity each, and a price where there is one. -/
def ExactFills (events : List Value) (fills : List (ℚ × Option ℚ)) : Prop :=
  fillsOf events = fills.map fun f => (.fin f.1, f.2.map .fin)

def totalQuantity (fills : List (ℚ × Option ℚ)) : ℚ := (fills.map Prod.fst).sum

instance (events : List Value) (fills : List (ℚ × Option ℚ)) : Decidable (ExactFills events fills) :=
  inferInstanceAs (Decidable (_ = _))

def pricedFills (fills : List (ℚ × Option ℚ)) : List (ℚ × ℚ) :=
  fills.filterMap fun f => f.2.map fun px => (f.1, px)

/-- The numbers of a slot are those of the fills, and its average is their weighted mean. -/
def TrueVwap (p : OrderProgress) (fills : List (ℚ × Option ℚ)) : Prop :=
  p.qtyFilled = .fin (totalQuantity fills) ∧ p.fillCount = fills.length ∧
    ∀ v, p.vwap = some v → ∃ m, v = .fin m ∧ IsWeightedMean m (pricedFills fills) ∧
      ((∀ f ∈ fills, 0 < f.1) →
        (∃ w ∈ pricedFills fills, w.2 ≤ m) ∧ ∃ w ∈ pricedFills fills, m ≤ w.2)

/-- The fills without a price weigh nothing, or those with one are worth nothing. -/
def PricedInFull (fills : List (ℚ × Option ℚ)) : Prop :=
  totalQuantity fills = 0 ∨ weight (pricedFills fills) ≠ 0 ∧
    (totalQuantity fills = weight (pricedFills fills) ∨ weighted (pricedFills fills) = 0)

variable {maxOrders : ℕ} {k : HashKey}

/-- One call on the slot of an order: its own event is recorded, and all else keeps the
slot or drops it. -/
theorem trackerStep_slot (t : OrderProgressTracker) (op : TrackerOp) (k : HashKey) :
    (trackerStep t op).slot k = none ∨
      (trackerStep t op).slot k =
        match op.eventOf k with
        | some body => some (((t.slot k).getD {}).record body).1
        | none => t.slot k := by
  cases op with
  | forgetIfTerminal body => exact t.forgetIfTerminal_slot body k
  | observe body =>
    simp only [trackerStep, TrackerOp.eventOf]
    by_cases hk : ∃ j, orderKey body = .ok (some j)
    · obtain ⟨j, hj⟩ := hk
      refine (observe_slot hj k).imp_right fun h => h.trans ?_
      by_cases hkj : k = j
      · simp [hj, hkj]
      · simp [hj, hkj, Ne.symm hkj]
    · have hnone : ∀ j, orderKey body ≠ .ok (some j) := fun j h => hk ⟨j, h⟩
      rw [observe_of_orderKey_none hnone, if_neg (hnone k)]
      exact Or.inr rfl

theorem numbers_trackerRun {ops : List TrackerOp} (h : StaysTracked maxOrders k ops) :
    (((trackerRun maxOrders ops).slot k).getD {}).numbers = ownNumbers (eventsOf k ops) := by
  induction ops using List.reverseRecOn with
  | nil => rfl
  | append_singleton pre op ih =>
    have hpre := ih fun p hp => h p (hp.trans (List.prefix_append pre [op]))
    rw [trackerRun_snoc, eventsOf_snoc]
    rcases trackerStep_slot (trackerRun maxOrders pre) op k with hgone | hstep
    · -- a slot that is gone now was never there
      have hnil : eventsOf k (pre ++ [op]) = [] := by
        by_contra hne
        refine h _ List.prefix_rfl hne ?_
        rw [trackerRun_snoc, hgone]
      rw [eventsOf_snoc] at hnil
      rw [hgone, hnil]
      rfl
    · rw [hstep]
      cases op.eventOf k with
      | none => simpa using hpre
      | some body => exact numbers_record _ _ body hpre

theorem foldl_add_fin (fills : List (ℚ × Option ℚ)) (a : ℚ) :
    (fills.map fun f => (PyFloat.fin f.1, f.2.map PyFloat.fin)).foldl (fun s f => s + f.1) (.fin a) =
      .fin (a + totalQuantity fills) := by
  induction fills generalizing a with
  | nil => simp [totalQuantity]
  | cons f fills ih =>
    rw [List.map_cons, List.foldl_cons, PyFloat.fin_add, ih, totalQuantity, totalQuantity,
      List.map_cons, List.sum_cons, add_assoc]

theorem foldl_notional_fin (fills : List (ℚ × Option ℚ)) (a : ℚ) :
    (fills.map fun f => (PyFloat.fin f.1, f.2.map PyFloat.fin)).foldl
        (fun s f => ((f.2.map fun px => s + f.1 * px)).getD s) (.fin a) =
      .fin (a + weighted (pricedFills fills)) := by
  induction fills generalizing a with
  | nil => simp [pricedFills]
  | cons f fills ih =>
    obtain ⟨q, px⟩ := f
    rw [List.map_cons, List.foldl_cons]
    cases px with
    | none => exact ih a
    | some px =>
      have hstep := ih (a + q * px)
      rw [add_assoc] at hstep
      have hcons : pricedFills ((q, some px) :: fills) = (q, px) :: pricedFills fills := rfl
      have hsum : PyFloat.fin a + .fin q * .fin px = .fin (a + q * px) := by
        rw [PyFloat.fin_mul, PyFloat.fin_add]
      rw [hcons, weighted_cons, ← hstep, ← hsum]
      rfl

theorem numbers_of_exact {events : List Value} {fills : List (ℚ × Option ℚ)}
    (h : ExactFills events fills) :
    (ownNumbers events).qtyFilled = .fin (totalQuantity fills) ∧
      (ownNumbers events).fillCount = fills.length ∧
      (ownNumbers events).notional = .fin (weighted (pricedFills fills)) := by
  refine ⟨?_, ?_, ?_⟩
  · have hsum := foldl_add_fin fills 0
    rw [zero_add, ← h] at hsum
    exact (filledQuantity_eq_foldl events).trans hsum
  · change (fillsOf events).length = _
    rw [h, List.length_map]
  · have hsum := foldl_notional_fin fills 0
    rw [zero_add, ← h] at hsum
    exact hsum

theorem vwap_of_exact {p : OrderProgress} {fills : List (ℚ × Option ℚ)}
    (hq : p.qtyFilled = .fin (totalQuantity fills))
    (hn : p.notional = .fin (weighted (pricedFills fills))) :
    p.vwap = if totalQuantity fills = 0 then none
      else some (.fin (weighted (pricedFills fills) / totalQuantity fills)) := by
  have hzero : (PyFloat.fin (totalQuantity fills)).isZero = decide (totalQuantity fills = 0) := rfl
  rw [OrderProgress.vwap, hq, hn, PyFloat.fin_div, hzero]
  simp only [decide_eq_true_eq]

/-- The average of a slot that is never lost is the true one exactly if the fills without
a price do not count. -/
theorem true_vwap_iff {ops : List TrackerOp} {fills : List (ℚ × Option ℚ)}
    (hkept : StaysTracked maxOrders k ops) (hexact : ExactFills (eventsOf k ops) fills) :
    TrueVwap (((trackerRun maxOrders ops).slot k).getD {}) fills ↔ PricedInFull fills := by
  set p := ((trackerRun maxOrders ops).slot k).getD {}
  have hnum : p.numbers = ownNumbers (eventsOf k ops) := numbers_trackerRun hkept
  obtain ⟨hq, hc, hn⟩ := numbers_of_exact hexact
  rw [← hnum] at hq hc hn
  change p.qtyFilled = _ at hq
  change p.fillCount = _ at hc
  change p.notional = _ at hn
  rw [TrueVwap, and_iff_right hq, and_iff_right hc, vwap_of_exact hq hn, PricedInFull]
  by_cases hzero : totalQuantity fills = 0
  · simp [hzero]
  · rw [if_neg hzero, or_iff_right hzero, ← isWeightedMean_div hzero]
    constructor
    · intro h
      obtain ⟨m, hm, hmean, -⟩ := h _ rfl
      rwa [PyFloat.fin.inj hm]
    · intro hmean v hv
      refine ⟨_, (Option.some.inj hv).symm, hmean, fun hpos => ?_⟩
      have hweights : ∀ w ∈ pricedFills fills, 0 < w.1 := by
        intro w hw
        obtain ⟨f, hf, hw⟩ := List.mem_filterMap.1 hw
        obtain ⟨px, -, rfl⟩ := Option.map_eq_some_iff.1 hw
        exact hpos f hf
      exact ⟨hmean.exists_le hweights, hmean.exists_ge hweights⟩

def fillEvent (id quantity : String) (price : Value) : TrackerOp :=
  .observe (.dict [(.str "type", .str "OrderFilled"), (.str "client_order_id", .str id),
    (.str "last_qty", .str quantity), (.str "last_px", price)])

def interleavedFills : List TrackerOp :=
  [fillEvent "A" "4" (.str "1"), fillEvent "B" "7" .none, fillEvent "A" "2" (.str "4")]

theorem staysTracked_interleaved : StaysTracked 2000 (.str "A") interleavedFills := by
  intro pre hpre hne
  have hall : ∀ pre ∈ interleavedFills.inits, (eventsOf (.str "A") pre).isEmpty ||
      ((trackerRun 2000 pre).slot (.str "A")).isSome := by decide +kernel
  have h := hall pre ((List.mem_inits _ _).2 hpre)
  rw [Bool.or_eq_true, List.isEmpty_iff] at h
  exact Option.isSome_iff_ne_none.1 (h.resolve_left hne)

theorem true_vwap_iff_interleaved :
    TrueVwap (((trackerRun 2000 interleavedFills).slot (.str "A")).getD {})
      [(4, some 1), (2, some 4)] :=
  (true_vwap_iff staysTracked_interleaved (by decide +kernel)).2
    (Or.inr ⟨by decide +kernel, Or.inl (by decide +kernel)⟩)

/-- One of two equal fills has no price: the average shown is half the only price. -/
theorem unpriced_fill_lowers_vwap :
    ¬TrueVwap (((trackerRun 2000 [fillEvent "A" "1" (.str "100"), fillEvent "A" "1" .none]).slot
      (.str "A")).getD {}) [(1, some 100), (1, none)] := by
  rintro ⟨-, -, h⟩
  obtain ⟨m, hm, ⟨-, hmean⟩, -⟩ := h (.fin 50) (by decide +kernel)
  obtain rfl := PyFloat.fin.inj hm
  revert hmean
  decide +kernel

end TinoHelm
