import TinoHelm.Base.Lru
import TinoHelm.Base.Machine
import TinoHelm.Spec.Tracker

/-! The tracker on its own: any sequence of `observe` and `forget_if_terminal` calls from
an empty one. The orders it keeps are those of an LRU list. -/

namespace TinoHelm
open Base OrderProgressTracker

variable [FloatArith]

inductive TrackerOp where
  | observe (body : Value)
  | forgetIfTerminal (body : Value)

def trackerStep (t : OrderProgressTracker) : TrackerOp → OrderProgressTracker
  | .observe body => (t.observe body).1
  | .forgetIfTerminal body => (t.forgetIfTerminal body).1

def trackerRun (maxOrders : ℕ) (ops : List TrackerOp) : OrderProgressTracker :=
  run trackerStep { maxOrders } ops

namespace TrackerOp

def body : TrackerOp → Value
  | observe body | forgetIfTerminal body => body

def order (op : TrackerOp) : Option HashKey := (orderKey op.body).toOption.join

def observedOrder : TrackerOp → Option HashKey
  | op@(observe _) => op.order
  | forgetIfTerminal _ => none

def eventOf (k : HashKey) : TrackerOp → Option Value
  | observe body => if orderKey body = .ok (some k) then some body else none
  | forgetIfTerminal _ => none

end TrackerOp

def observedOrders (ops : List TrackerOp) : List HashKey := ops.filterMap TrackerOp.observedOrder

def eventsOf (k : HashKey) (ops : List TrackerOp) : List Value := ops.filterMap (TrackerOp.eventOf k)

def ReleasesSlot (t : OrderProgressTracker) (op : TrackerOp) (k : HashKey) : Prop :=
  ∃ body, op = .forgetIfTerminal body ∧ op.order = some k ∧ t.slot k ≠ none ∧
    (t.forgetIfTerminal body).1.slot k = none

/-- What a call means to the list of orders. -/
def useOf (t : OrderProgressTracker) : TrackerOp → Option (Lru.Use HashKey)
  | op@(.observe _) => op.order.map .touch
  | op@(.forgetIfTerminal body) =>
    op.order.bind fun k =>
      if (t.slot k).isSome && ((t.forgetIfTerminal body).1.slot k).isNone then some (.release k)
      else none

def usesOf (maxOrders : ℕ) (ops : List TrackerOp) : List (Lru.Use HashKey) :=
  trace trackerStep (fun t op => (useOf t op).toList) { maxOrders } ops

/-- A new order arrives at a full tracker, with a number that makes `float` raise: the
slot is created and the eviction is not reached. -/
def Overfills (t : OrderProgressTracker) (body : Value) : Prop :=
  ∃ k, orderKey body = .ok (some k) ∧ t.slot k = none ∧ t.maxOrders ≤ t.size ∧
    ∃ field ∈ numberFields body, TooLarge (body.get field)

variable {maxOrders : ℕ}

theorem trackerRun_snoc (pre : List TrackerOp) (op : TrackerOp) :
    trackerRun maxOrders (pre ++ [op]) = trackerStep (trackerRun maxOrders pre) op :=
  run_snoc _ _ pre op

@[simp] theorem trackerRun_maxOrders (ops : List TrackerOp) :
    (trackerRun maxOrders ops).maxOrders = maxOrders := by
  refine run_invariant (I := fun t : OrderProgressTracker => t.maxOrders = maxOrders) rfl
    (fun t op h => ?_) ops
  cases op with
  | observe body => exact (t.observe_maxOrders body).trans h
  | forgetIfTerminal body => exact (t.forgetIfTerminal_maxOrders body).trans h

omit [FloatArith] in
theorem eventsOf_snoc (k : HashKey) (ops : List TrackerOp) (op : TrackerOp) :
    eventsOf k (ops ++ [op]) = eventsOf k ops ++ (op.eventOf k).toList := by
  cases h : op.eventOf k <;> simp [eventsOf, h]

theorem usesOf_snoc (pre : List TrackerOp) (op : TrackerOp) :
    usesOf maxOrders (pre ++ [op]) =
      usesOf maxOrders pre ++ (useOf (trackerRun maxOrders pre) op).toList :=
  trace_snoc _ _ _ pre op

omit [FloatArith] in
theorem order_eq_some {op : TrackerOp} {k : HashKey} :
    op.order = some k ↔ orderKey op.body = .ok (some k) := by
  unfold TrackerOp.order
  rcases orderKey op.body with e | _ | j <;> simp [Except.toOption]

/-- What raises in `observe` was not crowded: the slot is there, or there is room for it. -/
theorem room_of_raising {t : OrderProgressTracker} (hsize : t.size ≤ t.maxOrders) {body : Value}
    (h : ¬Overfills t body) {k : HashKey} (hkey : orderKey body = .ok (some k))
    (hraise : (((t.slot k).getD {}).record body).2 ≠ none) :
    (t.orders.keys.filter (· ≠ k) ++ [k]).length ≤ t.maxOrders := by
  have hfilter : (t.orders.keys.filter (· ≠ k)).length ≤ t.orders.keys.length :=
    List.length_filter_le _ _
  have hkl : t.orders.keys.length = t.size := t.orders.length_keys
  rw [List.length_append, List.length_singleton]
  by_contra hfull
  have hnew : k ∉ t.orders.keys := by
    intro hmem
    have hfewer : (t.orders.keys.filter (· ≠ k)).length < t.orders.keys.length :=
      List.length_filter_lt_length_iff_exists.2 ⟨k, hmem, by simp⟩
    omega
  have hread : ∃ field ∈ numberFields body, TooLarge (body.get field) := by
    simpa using (record_snd ((t.slot k).getD {}) body).not.1 hraise
  exact h ⟨k, hkey, (Dict.get?_eq_none_iff _ _).2 hnew, by omega, hread⟩

theorem keys_observe {t : OrderProgressTracker} (hsize : t.size ≤ t.maxOrders) {body : Value}
    (h : ¬Overfills t body) {k : HashKey} (hkey : orderKey body = .ok (some k)) :
    (t.observe body).1.orders.keys = Lru.step t.maxOrders t.orders.keys (.touch k) := by
  set progress := ((t.slot k).getD {}).record body
  set orders := ((t.orders.setdefault k {}).moveToEnd k).set k progress.1
  have hkeys : orders.keys = t.orders.keys.filter (· ≠ k) ++ [k] :=
    Dict.keys_set_moveToEnd_setdefault _ _ _ _
  have horders : (t.observe body).1.orders =
      if progress.2.isSome then orders else orders.dropFirst (orders.size - t.maxOrders) :=
    observe_orders hkey
  rw [horders, Lru.step]
  by_cases he : progress.2 = none
  · rw [he, Option.isSome_none, if_neg (by simp), Dict.keys_dropFirst, ← Dict.length_keys, hkeys]
  · rw [if_pos (Option.isSome_iff_ne_none.2 he), hkeys,
      Nat.sub_eq_zero_of_le (room_of_raising hsize h hkey he), List.drop_zero]

theorem keys_forgetIfTerminal (t : OrderProgressTracker) (body : Value) :
    (t.forgetIfTerminal body).1.orders.keys =
      match useOf t (.forgetIfTerminal body) with
      | some u => Lru.step t.maxOrders t.orders.keys u
      | none => t.orders.keys := by
  simp only [useOf]
  rcases t.forgetIfTerminal_cases body with hsame | ⟨k, hkey, herase⟩
  · rw [hsame]
    cases (TrackerOp.forgetIfTerminal body).order with
    | none => rfl
    | some k => cases hs : t.slot k <;> simp [hs]
  · have hk : (TrackerOp.forgetIfTerminal body).order = some k := order_eq_some.2 hkey
    have hgone : (t.forgetIfTerminal body).1.slot k = none := by
      rw [herase, slot, Dict.get?_erase_self]
    rw [hk, Option.bind_some, hgone, herase]
    change (t.orders.erase k).keys = _
    rw [Dict.keys_erase]
    cases hs : t.slot k with
    | some p => simp [Lru.step]
    | none =>
      have hnew : k ∉ t.orders.keys := (Dict.get?_eq_none_iff _ _).1 hs
      simp only [Option.isSome_none, Bool.false_and, Bool.false_eq_true, if_false]
      exact List.filter_eq_self.2 fun j hj => decide_eq_true (ne_of_mem_of_not_mem hj hnew)

/-- The keys of the slots behave like an LRU list, as long as the tracker is not overfilled. -/
theorem keys_trackerStep {t : OrderProgressTracker} (hsize : t.size ≤ t.maxOrders) {op : TrackerOp}
    (h : ∀ body, op = .observe body → ¬Overfills t body) :
    (trackerStep t op).orders.keys =
      match useOf t op with
      | some u => Lru.step t.maxOrders t.orders.keys u
      | none => t.orders.keys := by
  cases op with
  | observe body =>
    simp only [trackerStep, useOf]
    cases hk : (TrackerOp.observe body).order with
    | none =>
      have hnone : ∀ k, orderKey body ≠ .ok (some k) := by
        intro k hkey
        have hsome : (TrackerOp.observe body).order = some k := order_eq_some.2 hkey
        rw [hk] at hsome
        cases hsome
      rw [observe_of_orderKey_none hnone]
      rfl
    | some k => exact keys_observe hsize (h body rfl) (order_eq_some.1 hk)
  | forgetIfTerminal body => exact keys_forgetIfTerminal t body

end TinoHelm
