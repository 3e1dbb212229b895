import TinoHelm.Spec.TrackerRuns

/-! The tracker is a bounded LRU map of orders: its slots stand in the order of their last
observation, and an order is missing only if it was released or crowded out. The one way
out of bounds is an exception in front of the eviction. -/

namespace TinoHelm
open Base OrderProgressTracker

def ReleasedIn (maxOrders : ℕ) (pre post : List TrackerOp) (k : HashKey) : Prop :=
  ∃ mid op, mid ++ [op] <+: post ∧ ReleasesSlot (trackerRun maxOrders (pre ++ mid)) op k

structure BoundedLru (maxOrders : ℕ) (ops : List TrackerOp) : Prop where
  bounded : ∀ pre, pre <+: ops → (trackerRun maxOrders pre).size ≤ maxOrders
  ordered : ∀ pre, pre <+: ops →
    (trackerRun maxOrders pre).orders.keys.Sublist (observedOrders pre).dedup
  present : ∀ pre op k, pre ++ [op] <+: ops → op.observedOrder = some k →
    (trackerRun maxOrders (pre ++ [op])).slot k ≠ none
  absent : ∀ pre op post k, pre ++ op :: post <+: ops → op.observedOrder = some k →
    k ∉ observedOrders post → (trackerRun maxOrders (pre ++ op :: post)).slot k = none →
      ReleasedIn maxOrders (pre ++ [op]) post k ∨ maxOrders ≤ (observedOrders post).toFinset.card
  apart : ∀ pre op k, pre ++ [op] <+: ops → op.order ≠ some k →
    (trackerRun maxOrders (pre ++ [op])).slot k = none ∨
      (trackerRun maxOrders (pre ++ [op])).slot k = (trackerRun maxOrders pre).slot k

def NeverOverfilled (maxOrders : ℕ) (ops : List TrackerOp) : Prop :=
  ∀ pre body, pre ++ [.observe body] <+: ops → ¬Overfills (trackerRun maxOrders pre) body

variable {maxOrders : ℕ}

theorem NeverOverfilled.of_prefix {pre ops : List TrackerOp} (h : NeverOverfilled maxOrders ops)
    (hp : pre <+: ops) : NeverOverfilled maxOrders pre :=
  fun pre' body hpre => h pre' body (hpre.trans hp)

theorem size_eq_length_keys (t : OrderProgressTracker) : t.size = t.orders.keys.length :=
  (List.length_map _).symm

/-- The slots of a run are the keys of the LRU list of its calls. -/
theorem keys_trackerRun {ops : List TrackerOp} (h : NeverOverfilled maxOrders ops) :
    (trackerRun maxOrders ops).orders.keys = Lru.keysAfter maxOrders (usesOf maxOrders ops) := by
  induction ops using List.reverseRecOn with
  | nil => rfl
  | append_singleton pre op ih =>
    have hkeys := ih (h.of_prefix (List.prefix_append pre [op]))
    have hsize : (trackerRun maxOrders pre).size ≤ (trackerRun maxOrders pre).maxOrders := by
      rw [trackerRun_maxOrders, size_eq_length_keys, hkeys]
      exact Lru.length_keysAfter_le _
    have hfits : ∀ body, op = .observe body → ¬Overfills (trackerRun maxOrders pre) body := by
      rintro body rfl
      exact h pre body List.prefix_rfl
    rw [trackerRun_snoc, usesOf_snoc, keys_trackerStep hsize hfits, trackerRun_maxOrders, hkeys]
    cases useOf (trackerRun maxOrders pre) op with
    | none => simp
    | some u => exact (Lru.keysAfter_snoc _ u).symm

/-! What the calls of a run mean to the list. -/

def usesFrom (t : OrderProgressTracker) (ops : List TrackerOp) : List (Lru.Use HashKey) :=
  trace trackerStep (fun t op => (useOf t op).toList) t ops

theorem touched_useOf (t : OrderProgressTracker) (op : TrackerOp) :
    Lru.touched (useOf t op).toList = op.observedOrder.toList := by
  cases op with
  | observe body =>
    simp only [useOf, TrackerOp.observedOrder]
    cases (TrackerOp.observe body).order <;> rfl
  | forgetIfTerminal body =>
    simp only [useOf, TrackerOp.observedOrder]
    cases (TrackerOp.forgetIfTerminal body).order with
    | none => rfl
    | some k =>
      rw [Option.bind_some]
      split_ifs <;> rfl

theorem touched_usesFrom (t : OrderProgressTracker) (ops : List TrackerOp) :
    Lru.touched (usesFrom t ops) = observedOrders ops := by
  induction ops generalizing t with
  | nil => rfl
  | cons op ops ih =>
    rw [usesFrom, trace, Lru.touched_append, touched_useOf, ← usesFrom, ih, observedOrders,
      observedOrders]
    cases h : op.observedOrder <;> simp [h]

theorem releases_of_useOf {t : OrderProgressTracker} {op : TrackerOp} {k : HashKey}
    (h : useOf t op = some (.release k)) : ReleasesSlot t op k := by
  cases op with
  | observe body =>
    obtain ⟨j, -, hj⟩ := Option.map_eq_some_iff.1 h
    cases hj
  | forgetIfTerminal body =>
    obtain ⟨j, hj, hif⟩ := Option.bind_eq_some_iff.1 h
    split_ifs at hif with hc
    obtain rfl : j = k := by simpa using hif
    rw [Bool.and_eq_true, Option.isSome_iff_ne_none, Option.isNone_iff_eq_none] at hc
    exact ⟨body, rfl, hj, hc.1, hc.2⟩

theorem releases_of_mem_usesFrom {t : OrderProgressTracker} {ops : List TrackerOp} {k : HashKey}
    (h : .release k ∈ usesFrom t ops) :
    ∃ mid op, mid ++ [op] <+: ops ∧ ReleasesSlot (run trackerStep t mid) op k := by
  induction ops generalizing t with
  | nil => cases h
  | cons op ops ih =>
    rw [usesFrom, trace, List.mem_append] at h
    rcases h with h | h
    · exact ⟨[], op, by simp, releases_of_useOf (Option.mem_toList.1 h)⟩
    · obtain ⟨mid, op', hpre, hr⟩ := ih h
      exact ⟨op :: mid, op', by simpa using hpre, hr⟩

theorem usesOf_append (pre post : List TrackerOp) :
    usesOf maxOrders (pre ++ post) =
      usesOf maxOrders pre ++ usesFrom (trackerRun maxOrders pre) post :=
  trace_append _ _ _ pre post

/-- An order whose last observation lies back and that has no slot was released or crowded
out. -/
theorem absent_of_observed {pre post : List TrackerOp} {op : TrackerOp} {k : HashKey}
    (hc : 0 < maxOrders) (h : NeverOverfilled maxOrders (pre ++ op :: post))
    (hop : op.observedOrder = some k) (hk : k ∉ observedOrders post)
    (ha : (trackerRun maxOrders (pre ++ op :: post)).slot k = none) :
    ReleasedIn maxOrders (pre ++ [op]) post k ∨
      maxOrders ≤ (observedOrders post).toFinset.card := by
  set t := trackerRun maxOrders (pre ++ [op])
  have htouch : useOf (trackerRun maxOrders pre) op = some (.touch k) := by
    cases op with
    | observe body => simp only [useOf, show (TrackerOp.observe body).order = some k from hop,
        Option.map_some]
    | forgetIfTerminal body => cases hop
  have huses : usesOf maxOrders (pre ++ op :: post) =
      usesOf maxOrders pre ++ .touch k :: usesFrom t post := by
    rw [List.append_cons, usesOf_append, usesOf_snoc, htouch, Option.toList_some, List.append_assoc,
      List.singleton_append]
  have habsent : k ∉ Lru.keysAfter maxOrders (usesOf maxOrders pre ++ .touch k :: usesFrom t post) := by
    rw [← huses, ← keys_trackerRun h]
    exact (Dict.get?_eq_none_iff _ _).1 ha
  have htouched := touched_usesFrom t post
  rcases Lru.absent_of_touched hc (by rwa [htouched]) habsent with hr | hcap
  · obtain ⟨mid, op', hmid, hrel⟩ := releases_of_mem_usesFrom hr
    refine Or.inl ⟨mid, op', hmid, ?_⟩
    rw [trackerRun, run_append]
    exact hrel
  · exact Or.inr (htouched ▸ hcap)

theorem present_of_observed {pre : List TrackerOp} {op : TrackerOp} {k : HashKey}
    (hc : 0 < maxOrders) (hop : op.observedOrder = some k) :
    (trackerRun maxOrders (pre ++ [op])).slot k ≠ none := by
  rw [trackerRun_snoc]
  cases op with
  | observe body =>
    have hm : 0 < (trackerRun maxOrders pre).maxOrders := by rwa [trackerRun_maxOrders]
    have hkey : orderKey body = .ok (some k) := order_eq_some.1 hop
    have hslot := observe_slot_self hkey hm
    exact Option.isSome_iff_ne_none.1 (Option.isSome_of_eq_some hslot)
  | forgetIfTerminal body => cases hop

/-- A call about one order leaves the progress of the others as it is, or evicts it whole. -/
theorem apart_of_order {t : OrderProgressTracker} {op : TrackerOp} {k : HashKey}
    (h : op.order ≠ some k) :
    (trackerStep t op).slot k = none ∨ (trackerStep t op).slot k = t.slot k := by
  cases op with
  | forgetIfTerminal body => exact t.forgetIfTerminal_slot body k
  | observe body =>
    cases hk : (TrackerOp.observe body).order with
    | none =>
      refine Or.inr (congrArg (slot · k) (observe_of_orderKey_none fun j hj => ?_))
      have hsome : (TrackerOp.observe body).order = some j := order_eq_some.2 hj
      rw [hk] at hsome
      cases hsome
    | some j =>
      have hne : k ≠ j := by
        rintro rfl
        exact h hk
      have hslot := observe_slot (t := t) (order_eq_some.1 hk) k
      rwa [if_neg hne] at hslot

/-- A new order whose event raises makes the tracker larger by one slot. -/
theorem size_of_overfills {t : OrderProgressTracker} {body : Value} (h : Overfills t body) :
    t.maxOrders < (t.observe body).1.size := by
  obtain ⟨k, hk, hnew, hfull, hlarge⟩ := h
  set progress := ((t.slot k).getD {}).record body
  set orders := ((t.orders.setdefault k {}).moveToEnd k).set k progress.1
  have hraise : progress.2 ≠ none := by
    rw [Ne, record_snd]
    push Not
    exact hlarge
  have horders : (t.observe body).1.orders =
      if progress.2.isSome then orders else orders.dropFirst (orders.size - t.maxOrders) :=
    observe_orders hk
  have hmove : ((t.orders.setdefault k {}).moveToEnd k).keys =
      t.orders.keys.filter (· ≠ k) ++ [k] := Dict.keys_moveToEnd_setdefault _ _ _
  have hkeys : orders.keys = t.orders.keys ++ [k] := by
    have hkn : k ∉ t.orders.keys := (Dict.get?_eq_none_iff _ _).1 hnew
    have hfilter : t.orders.keys.filter (· ≠ k) = t.orders.keys :=
      List.filter_eq_self.2 fun j hj => decide_eq_true (ne_of_mem_of_not_mem hj hkn)
    rw [← hfilter, ← hmove]
    exact Dict.keys_set_of_mem (by simp [hmove]) _
  rw [size_eq_length_keys, horders, if_pos (Option.isSome_iff_ne_none.2 hraise), hkeys,
    List.length_append, ← size_eq_length_keys]
  exact Nat.lt_succ_of_le hfull

/-- The tracker is a bounded LRU map over a run exactly if no call overfills it. -/
theorem bounded_lru_iff (hc : 0 < maxOrders) (ops : List TrackerOp) :
    BoundedLru maxOrders ops ↔ NeverOverfilled maxOrders ops := by
  constructor
  · intro h pre body hpre hover
    have hsize := h.bounded _ hpre
    have hlarge := size_of_overfills hover
    rw [trackerRun_maxOrders] at hlarge
    rw [trackerRun_snoc] at hsize
    exact absurd hsize (not_le.2 hlarge)
  · intro h
    constructor
    · intro pre hpre
      rw [size_eq_length_keys, keys_trackerRun (h.of_prefix hpre)]
      exact Lru.length_keysAfter_le _
    · intro pre hpre
      rw [keys_trackerRun (h.of_prefix hpre), ← touched_usesFrom { maxOrders } pre]
      exact Lru.keysAfter_sublist _
    · exact fun pre op k _ hop => present_of_observed hc hop
    · exact fun pre op post k hpre hop hk ha => absent_of_observed hc (h.of_prefix hpre) hop hk ha
    · intro pre op k _ hop
      rw [trackerRun_snoc]
      exact apart_of_order hop

def orderEvent (type id field : String) (number : Value) : Value :=
  .dict [(.str "type", .str type), (.str "client_order_id", .str id), (.str field, number)]

/-- Three orders through a tracker for two, one of them released. -/
theorem bounded_lru_iff_three :
    BoundedLru 2 [.observe (orderEvent "OrderInitialized" "A" "quantity" (.str "10")),
      .observe (orderEvent "OrderFilled" "B" "last_qty" (.str "4")),
      .forgetIfTerminal (orderEvent "OrderCanceled" "B" "reason" (.str "")),
      .observe (orderEvent "OrderInitialized" "C" "quantity" (.str "1"))] := by
  refine (bounded_lru_iff (by decide) _).2 fun pre body hpre hover => ?_
  obtain ⟨k, -, -, -, field, hfield, hlarge⟩ := hover
  have hmem := hpre.subset (List.mem_append_right pre (List.mem_singleton_self _))
  simp only [List.mem_cons, TrackerOp.observe.injEq, reduceCtorEq, List.not_mem_nil, or_false,
    false_or] at hmem
  revert field
  rcases hmem with rfl | rfl | rfl <;> decide +kernel

/-- A quantity beyond the range of a double, for a new order at a full tracker: `observe`
raises behind the insertion, and two slots stay in a tracker for one. -/
theorem raising_observe_overfills :
    ¬BoundedLru 1 [.observe (orderEvent "OrderInitialized" "A" "quantity" (.str "1")),
      .observe (orderEvent "OrderInitialized" "B" "quantity" (.int (10 ^ 400)))] := by
  intro h
  have hsize := h.bounded _ List.prefix_rfl
  revert hsize
  decide +kernel

end TinoHelm
