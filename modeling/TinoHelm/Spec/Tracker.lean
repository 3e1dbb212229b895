import TinoHelm.Base.Dict
import TinoHelm.Base.Value

/-! Per-order fill progress: `OrderProgress` and the LRU-bounded
`OrderProgressTracker` of `notifier/handlers.py`. A method that can raise returns
the tracker as the exception leaves it, together with the exception. -/

namespace TinoHelm
open Base

/-- Aggregated fill state for one `client_order_id`. The latched fields keep the
value of the event; `str()` is applied where they are shown. -/
structure OrderProgress where
  qtyTotal : Option PyFloat := none
  qtyFilled : PyFloat := 0
  timeInForce : Option Value := none
  orderSide : Option Value := none
  orderType : Option Value := none
  fillCount : ℕ := 0
  notional : PyFloat := 0

namespace OrderProgress

variable [FloatArith]

def remainder (p : OrderProgress) : Option PyFloat := p.qtyTotal.map fun t => t - p.qtyFilled

/-- `qty_filled >= qty_total - 1e-9`; an unknown total counts as complete. -/
def isComplete (p : OrderProgress) : Bool :=
  match p.qtyTotal with
  | none => true
  | some t => t - FloatArith.round (1 / 10 ^ 9) ≤ p.qtyFilled

/-- Latch a field: a known value is never overwritten, an absent one is ignored. -/
def latch (known : Option Value) (x : Value) : Option Value :=
  if known.isNone && x.truthy then some x else known

def latchIdentity (p : OrderProgress) (body : Value) : OrderProgress :=
  { p with
    orderSide := latch p.orderSide (body.get "order_side")
    orderType := latch p.orderType (body.get "order_type") }

def recordInitialized (p : OrderProgress) (body : Value) : OrderProgress × Option PyError :=
  match (body.get "quantity").toFloat with
  | .error e => (p, some e)
  | .ok total =>
    let tif := body.get "time_in_force"
    ({ p with
        qtyTotal := total.or p.qtyTotal
        timeInForce := if tif.truthy then some tif else p.timeInForce }, none)

def recordFilled (p : OrderProgress) (body : Value) : OrderProgress × Option PyError :=
  match (body.get "last_qty").toFloat with
  | .error e => (p, some e)
  | .ok none => (p, none)
  | .ok (some last) =>
    let p := { p with qtyFilled := p.qtyFilled + last, fillCount := p.fillCount + 1 }
    match (body.get "last_px").toFloat with
    | .error e => (p, some e)
    | .ok none => (p, none)
    | .ok (some px) => ({ p with notional := p.notional + last * px }, none)

/-- The part of `observe` that works on the slot of the order. -/
def record (p : OrderProgress) (body : Value) : OrderProgress × Option PyError :=
  let p := p.latchIdentity body
  if (body.get "type").isStr "OrderInitialized" then p.recordInitialized body
  else if (body.get "type").isStr "OrderFilled" then p.recordFilled body
  else (p, none)

end OrderProgress

def terminalOrderEvents : List String :=
  ["OrderCanceled", "OrderRejected", "OrderDenied", "OrderExpired"]

/-- The slots in order of last observation, oldest first. -/
structure OrderProgressTracker where
  orders : Dict HashKey OrderProgress := .empty
  maxOrders : ℕ := 2000

namespace OrderProgressTracker

variable [FloatArith]

def slot (t : OrderProgressTracker) (k : HashKey) : Option OrderProgress := t.orders.get? k

/-- Evict oldest beyond the cap. -/
def evict (t : OrderProgressTracker) : OrderProgressTracker :=
  { t with orders := t.orders.dropFirst (t.orders.size - t.maxOrders) }

/-- The key of the slot `body` is about, `none` when the event is ignored. -/
def orderKey (body : Value) : Except PyError (Option HashKey) :=
  let coid := body.get "client_order_id"
  if body.isDict && coid.truthy then coid.hash.map some else .ok none

def observe (t : OrderProgressTracker) (body : Value) : OrderProgressTracker × Option PyError :=
  match orderKey body with
  | .error e => (t, some e)
  | .ok none => (t, none)
  | .ok (some k) =>
    let orders := (t.orders.setdefault k {}).moveToEnd k
    let (prog, err) := ((orders.get? k).getD {}).record body
    let t := { t with orders := orders.set k prog }
    match err with
    | some e => (t, some e)
    | none => (t.evict, none)

def snapshot (t : OrderProgressTracker) (coid : Value) : Except PyError (Option OrderProgress) :=
  coid.hash.map t.slot

/-- Release the slot once the order reaches a terminal state. -/
def forgetIfTerminal (t : OrderProgressTracker) (body : Value) :
    OrderProgressTracker × Option PyError :=
  let coid := body.get "client_order_id"
  let isFill := (body.get "type").isStr "OrderFilled"
  if !(body.isDict && coid.truthy) then (t, none)
  else
    match (body.get "type").inNames terminalOrderEvents with
    | .error e => (t, some e)
    | .ok terminal =>
      if !(terminal || isFill) then (t, none)
      else
        match coid.hash with
        | .error e => (t, some e)
        | .ok k =>
          let filled := isFill && ((t.slot k).bind OrderProgress.remainder).any (· ≤ 0)
          (if terminal || filled then { t with orders := t.orders.erase k } else t, none)

def size (t : OrderProgressTracker) : ℕ := t.orders.size

/-! What one call does to the slots: `observe` records in the slot of its order, and
every other slot is kept or dropped whole. -/

/-- The number under a field, as `_to_float` parses it. -/
def numField (body : Value) (field : String) : Option PyFloat :=
  (body.get field).toFloat.toOption.join

theorem numField_of_ok {body : Value} {field : String} {x : Option PyFloat}
    (h : (body.get field).toFloat = .ok x) : numField body field = x := by
  simp [numField, h, Except.toOption]

theorem numField_of_error {body : Value} {field : String} {e : PyError}
    (h : (body.get field).toFloat = .error e) : numField body field = none := by
  simp [numField, h, Except.toOption]

theorem recordInitialized_fst (p : OrderProgress) (body : Value) :
    (p.recordInitialized body).1.qtyTotal = (numField body "quantity").or p.qtyTotal ∧
      (p.recordInitialized body).1.qtyFilled = p.qtyFilled := by
  unfold OrderProgress.recordInitialized
  cases h : (body.get "quantity").toFloat with
  | error e => simp [numField_of_error h]
  | ok x => simp [numField_of_ok h]

theorem recordFilled_fst (p : OrderProgress) (body : Value) :
    (p.recordFilled body).1.qtyTotal = p.qtyTotal ∧
      (p.recordFilled body).1.qtyFilled =
        ((numField body "last_qty").map (p.qtyFilled + ·)).getD p.qtyFilled := by
  unfold OrderProgress.recordFilled
  cases h : (body.get "last_qty").toFloat with
  | error e => simp [numField_of_error h]
  | ok x =>
    rw [numField_of_ok h]
    cases x with
    | none => simp
    | some last =>
      cases (body.get "last_px").toFloat with
      | error e => simp
      | ok px => cases px <;> simp

theorem recordFilled_snd (p : OrderProgress) (body : Value) {last : PyFloat}
    (hq : numField body "last_qty" = some last) :
    (p.recordFilled body).2 = none ↔ ∃ px, (body.get "last_px").toFloat = .ok px := by
  unfold OrderProgress.recordFilled
  cases h : (body.get "last_qty").toFloat with
  | error e => simp [numField_of_error h] at hq
  | ok x =>
    rw [numField_of_ok h] at hq
    subst hq
    cases (body.get "last_px").toFloat with
    | error e => simp
    | ok px => cases px <;> simp

theorem record_of_filled (p : OrderProgress) {body : Value} (h : body.get "type" = .str "OrderFilled") :
    p.record body = (p.latchIdentity body).recordFilled body := by
  simp [OrderProgress.record, h]

theorem record_of_initialized (p : OrderProgress) {body : Value}
    (h : body.get "type" = .str "OrderInitialized") :
    p.record body = (p.latchIdentity body).recordInitialized body := by
  simp [OrderProgress.record, h]

theorem record_of_other (p : OrderProgress) {body : Value}
    (hi : body.get "type" ≠ .str "OrderInitialized") (hf : body.get "type" ≠ .str "OrderFilled") :
    p.record body = (p.latchIdentity body, none) := by
  rw [Ne, ← Value.isStr_iff] at hi hf
  simp [OrderProgress.record, hi, hf]

/-- `float(x)` raises `OverflowError` on an integer beyond the range of a double. -/
def TooLarge : Value → Prop
  | .int n => PyFloat.overflowBound ≤ |(n : ℚ)|
  | _ => False

instance : DecidablePred TooLarge
  | .int n => inferInstanceAs (Decidable (PyFloat.overflowBound ≤ |(n : ℚ)|))
  | .none | .bool _ | .float _ | .str _ | .bytes _ | .datetime _ | .list _ | .dict _ =>
    inferInstanceAs (Decidable False)

def numberFields (body : Value) : List String :=
  if (body.get "type").isStr "OrderInitialized" then ["quantity"]
  else if (body.get "type").isStr "OrderFilled" then
    "last_qty" :: if (numField body "last_qty").isSome then ["last_px"] else []
  else []

theorem toFloat_error_iff (x : Value) : (∃ e, x.toFloat = .error e) ↔ TooLarge x := by
  cases x with
  | int n =>
    by_cases h : PyFloat.overflowBound ≤ |(n : ℚ)| <;> simp [Value.toFloat, TooLarge, h]
  | _ => simp [Value.toFloat, TooLarge]

theorem toFloat_ok_iff (x : Value) : (∃ y, x.toFloat = .ok y) ↔ ¬TooLarge x := by
  rw [← toFloat_error_iff]
  cases x.toFloat <;> simp

theorem record_snd (p : OrderProgress) (body : Value) :
    (p.record body).2 = none ↔ ∀ field ∈ numberFields body, ¬TooLarge (body.get field) := by
  by_cases hi : body.get "type" = .str "OrderInitialized"
  · rw [record_of_initialized p hi, OrderProgress.recordInitialized, numberFields, hi,
      if_pos (by simp)]
    simp only [List.mem_singleton, forall_eq, ← toFloat_ok_iff]
    cases (body.get "quantity").toFloat <;> simp
  · by_cases hf : body.get "type" = .str "OrderFilled"
    · rw [record_of_filled p hf, numberFields, hf, if_neg (by simp), if_pos (by simp)]
      cases hq : numField body "last_qty" with
      | some last =>
        have hok : ¬TooLarge (body.get "last_qty") := by
          rw [← toFloat_error_iff]
          rintro ⟨e, he⟩
          rw [numField_of_error he] at hq
          cases hq
        rw [recordFilled_snd _ body hq, toFloat_ok_iff]
        simp [hok]
      | none =>
        simp only [Option.isSome_none, Bool.false_eq_true, if_false, List.mem_singleton, forall_eq,
          ← toFloat_ok_iff, OrderProgress.recordFilled]
        cases h : (body.get "last_qty").toFloat with
        | error e => simp
        | ok x =>
          rw [numField_of_ok h] at hq
          simp [hq]
    · have hi' := hi
      have hf' := hf
      rw [← Value.isStr_iff] at hi' hf'
      simp [record_of_other p hi hf, numberFields, hi', hf']

omit [FloatArith] in
theorem slot_evict (t : OrderProgressTracker) (j : HashKey) :
    t.evict.slot j = none ∨ t.evict.slot j = t.slot j :=
  t.orders.get?_dropFirst _ j

theorem observe_of_orderKey_none {t : OrderProgressTracker} {body : Value}
    (h : ∀ k, orderKey body ≠ .ok (some k)) : (t.observe body).1 = t := by
  unfold observe
  cases hk : orderKey body with
  | error e => rfl
  | ok k =>
    cases k with
    | none => rfl
    | some k => exact absurd hk (h k)

omit [FloatArith] in
theorem orderKey_eq_some {body : Value} {k : HashKey} (h : orderKey body = .ok (some k)) :
    body.isDict = true ∧ (body.get "client_order_id").truthy = true ∧
      (body.get "client_order_id").hash = .ok k := by
  unfold orderKey at h
  dsimp only at h
  split_ifs at h with hc
  · rw [Bool.and_eq_true] at hc
    obtain ⟨j, hj, hk⟩ := map_eq_ok.1 h
    exact ⟨hc.1, hc.2, by rw [hj, Option.some.inj hk]⟩
  · simp at h

omit [FloatArith] in
theorem touch_get? (t : OrderProgressTracker) (k : HashKey) :
    (((t.orders.setdefault k {}).moveToEnd k).get? k).getD {} = (t.slot k).getD {} := by
  rw [Dict.get?_moveToEnd, Dict.get?_setdefault, if_pos rfl]
  rfl

/-- The slots after `observe`: the slot of the order is last, and the oldest ones are
evicted unless an exception got in the way. -/
theorem observe_orders {t : OrderProgressTracker} {body : Value} {k : HashKey}
    (h : orderKey body = .ok (some k)) :
    let progress := ((t.slot k).getD {}).record body
    let orders := ((t.orders.setdefault k {}).moveToEnd k).set k progress.1
    (t.observe body).1.orders =
      if progress.2.isSome then orders else orders.dropFirst (orders.size - t.maxOrders) := by
  simp only [observe, h, touch_get?]
  cases (((t.slot k).getD {}).record body).2 <;> rfl

/-- The tracker after `observe`, up to eviction. -/
theorem observe_slot {t : OrderProgressTracker} {body : Value} {k : HashKey}
    (h : orderKey body = .ok (some k)) (j : HashKey) :
    (t.observe body).1.slot j = none ∨
      (t.observe body).1.slot j =
        if j = k then some (((t.slot k).getD {}).record body).1 else t.slot j := by
  have hset (orders : Dict HashKey OrderProgress) (p : OrderProgress)
      (ho : orders = ((t.orders.setdefault k {}).moveToEnd k).set k p) :
      ({ t with orders := orders } : OrderProgressTracker).slot j =
        if j = k then some p else t.slot j := by
    rw [slot, ho, Dict.get?_set, Dict.get?_moveToEnd, Dict.get?_setdefault]
    by_cases hj : j = k
    · simp [hj]
    · simp [hj, slot]
  simp only [observe, h, touch_get?]
  cases he : (((t.slot k).getD {}).record body).2 with
  | some e => exact Or.inr (hset _ _ rfl)
  | none =>
    rw [← hset _ (((t.slot k).getD {}).record body).1 rfl]
    exact slot_evict _ j

theorem observe_slot_of_room {t : OrderProgressTracker} {body : Value} {k : HashKey}
    (h : orderKey body = .ok (some k)) {seen : Finset HashKey} (hs : ∀ j ∈ t.orders.keys, j ∈ seen)
    (hk : k ∈ seen) (hc : seen.card ≤ t.maxOrders) (j : HashKey) :
    (t.observe body).1.slot j =
      if j = k then some (((t.slot k).getD {}).record body).1 else t.slot j := by
  set orders := ((t.orders.setdefault k {}).moveToEnd k).set k (((t.slot k).getD {}).record body).1
    with ho
  have hslot : orders.get? j =
      if j = k then some (((t.slot k).getD {}).record body).1 else t.slot j := by
    rw [ho, Dict.get?_set, Dict.get?_moveToEnd, Dict.get?_setdefault]
    by_cases hj : j = k
    · simp [hj]
    · simp [hj, slot]
  have hmem : ∀ i ∈ orders.keys, i ∈ seen := by
    intro i hi
    rw [ho, Dict.mem_keys_set, ← Dict.get?_isSome_iff, Dict.get?_moveToEnd, Dict.get?_isSome_iff,
      Dict.mem_keys_setdefault] at hi
    rcases hi with rfl | rfl | hi
    · exact hk
    · exact hk
    · exact hs i hi
  have hsize : orders.size ≤ t.maxOrders :=
    (orders.size_le_card hmem).trans hc
  simp only [observe, h, touch_get?]
  cases he : (((t.slot k).getD {}).record body).2 with
  | some e => exact hslot
  | none =>
    change (orders.dropFirst (orders.size - t.maxOrders)).get? j = _
    rw [Nat.sub_eq_zero_of_le hsize, Dict.dropFirst_zero, hslot]

/-- The slot just written is the youngest one, so it is not the one evicted. -/
theorem observe_slot_self {t : OrderProgressTracker} {body : Value} {k : HashKey}
    (h : orderKey body = .ok (some k)) (hm : 0 < t.maxOrders) :
    (t.observe body).1.slot k = some (((t.slot k).getD {}).record body).1 := by
  simp only [observe, h, touch_get?]
  have hk : k ∈ (t.orders.setdefault k {}).keys := (t.orders.mem_keys_setdefault k k {}).2 (.inl rfl)
  cases he : (((t.slot k).getD {}).record body).2 with
  | some e => exact Dict.get?_set_self _ k _
  | none => exact Dict.get?_moveToEnd_set_dropFirst hk _ hm

@[simp] theorem observe_maxOrders (t : OrderProgressTracker) (body : Value) :
    (t.observe body).1.maxOrders = t.maxOrders := by
  unfold observe
  cases orderKey body with
  | error e => rfl
  | ok k =>
    cases k with
    | none => rfl
    | some k =>
      dsimp only
      split <;> rfl

theorem observe_snd {t : OrderProgressTracker} {body : Value} {k : HashKey}
    (h : orderKey body = .ok (some k)) :
    (t.observe body).2 = (((t.slot k).getD {}).record body).2 := by
  simp only [observe, h, touch_get?]
  cases he : (((t.slot k).getD {}).record body).2 <;> rfl

/-- A release takes one slot out, that of its own order, or does nothing. -/
theorem forgetIfTerminal_cases (t : OrderProgressTracker) (body : Value) :
    (t.forgetIfTerminal body).1 = t ∨ ∃ k, orderKey body = .ok (some k) ∧
      (t.forgetIfTerminal body).1 = { t with orders := t.orders.erase k } := by
  unfold forgetIfTerminal
  dsimp only
  split_ifs with hc
  · exact Or.inl rfl
  · cases (body.get "type").inNames terminalOrderEvents with
    | error e => exact Or.inl rfl
    | ok terminal =>
      dsimp only
      split_ifs
      · exact Or.inl rfl
      · cases hh : (body.get "client_order_id").hash with
        | error e => exact Or.inl rfl
        | ok k =>
          dsimp only
          split_ifs
          · refine Or.inr ⟨k, ?_, rfl⟩
            rw [Bool.not_eq_true, Bool.not_eq_false'] at hc
            simp only [orderKey, hc, if_true, hh, Except.map]
          · exact Or.inl rfl

@[simp] theorem forgetIfTerminal_maxOrders (t : OrderProgressTracker) (body : Value) :
    (t.forgetIfTerminal body).1.maxOrders = t.maxOrders := by
  rcases t.forgetIfTerminal_cases body with h | ⟨k, -, h⟩
  · rw [h]
  · rw [h]

theorem forgetIfTerminal_slot (t : OrderProgressTracker) (body : Value) (j : HashKey) :
    (t.forgetIfTerminal body).1.slot j = none ∨
      (t.forgetIfTerminal body).1.slot j = t.slot j := by
  rcases t.forgetIfTerminal_cases body with h | ⟨k, -, h⟩
  · exact Or.inr (by rw [h])
  · rw [h, slot, Dict.get?_erase]
    split_ifs
    · exact Or.inl rfl
    · exact Or.inr rfl

theorem forgetIfTerminal_slot_ne {t : OrderProgressTracker} {body : Value} {k : HashKey}
    (h : orderKey body ≠ .ok (some k)) : (t.forgetIfTerminal body).1.slot k = t.slot k := by
  rcases t.forgetIfTerminal_cases body with ht | ⟨j, hj, ht⟩
  · rw [ht]
  · have hne : k ≠ j := by
      rintro rfl
      exact h hj
    rw [ht, slot, slot, Dict.get?_erase, if_neg hne]

/-- Whether the slot of an ended order is gone: the two ways `_send` releases it. -/
theorem forgetIfTerminal_slot_self {t : OrderProgressTracker} {body : Value} {k : HashKey}
    {eventType : String} (h : orderKey body = .ok (some k))
    (htype : body.get "type" = .str eventType) :
    (t.forgetIfTerminal body).1.slot k = none ↔
      t.slot k = none ∨ eventType ∈ terminalOrderEvents ∨
        eventType = "OrderFilled" ∧ ∃ p r, t.slot k = some p ∧ p.remainder = some r ∧ r ≤ 0 := by
  obtain ⟨hd, hc, hh⟩ := orderKey_eq_some h
  have hforget : (t.forgetIfTerminal body).1 =
      if terminalOrderEvents.contains eventType || (decide (eventType = "OrderFilled") &&
          ((t.slot k).bind OrderProgress.remainder).any (· ≤ 0))
      then { t with orders := t.orders.erase k } else t := by
    simp only [forgetIfTerminal, hd, hc, htype, hh, Value.inNames_str, Value.isStr_str]
    cases terminalOrderEvents.contains eventType <;>
      cases decide (eventType = "OrderFilled") <;> simp
  rw [hforget]
  have hany : ((t.slot k).bind OrderProgress.remainder).any (· ≤ 0) = true ↔
      ∃ p r, t.slot k = some p ∧ p.remainder = some r ∧ r ≤ 0 := by
    simp only [Option.any_eq_true, Option.bind_eq_some_iff, decide_eq_true_eq]
    constructor
    · rintro ⟨r, ⟨p, hp, hr⟩, hle⟩
      exact ⟨p, r, hp, hr, hle⟩
    · rintro ⟨p, r, hp, hr, hle⟩
      exact ⟨r, ⟨p, hp, hr⟩, hle⟩
  split_ifs with hrel
  · rw [Bool.or_eq_true, Bool.and_eq_true, hany, decide_eq_true_eq, List.contains_iff_mem] at hrel
    exact iff_of_true (Dict.get?_erase_self _ _) (Or.inr hrel)
  · rw [Bool.or_eq_true, Bool.and_eq_true, hany, decide_eq_true_eq, List.contains_iff_mem] at hrel
    exact (or_iff_left hrel).symm

end OrderProgressTracker
end TinoHelm
