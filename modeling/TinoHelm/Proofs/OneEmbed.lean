import Mathlib.Algebra.Order.BigOperators.Group.List
import TinoHelm.Proofs.CompletedOrders

/-! One message for each order: while no slot is evicted and none is released between two
events of its order, a slot holds the sum of its own order's fills, whatever the others
do, and only the last fill reaches the total. -/

namespace TinoHelm
open Base OrderProgressTracker
open scoped Exact

/-- The order an operation brings an event of. -/
def orderOf (dec : Decoders) : IntakeOp → Option HashKey
  | .entry _ fields =>
    match observed dec fields with
    | some (_, body) => (orderKey body).toOption.join
    | none => none
  | .release _ => none

def ordersIn (dec : Decoders) (ops : List IntakeOp) : Finset HashKey :=
  (ops.filterMap (orderOf dec)).toFinset

/-- The slot of `k` is not released between two events of the order; the slots of other
orders are, whenever their `_send` happens to finish. -/
def KeptWhileOpen (dec : Decoders) (k : HashKey) (ops : List IntakeOp) : Prop :=
  ∀ pre body post, ops = pre ++ .release body :: post → orderKey body = .ok (some k) →
    orderEvents dec k pre = [] ∨ orderEvents dec k post = []

theorem keptWhileOpen_of_others {dec : Decoders} {k : HashKey} {ops : List IntakeOp}
    (h : ∀ body, .release body ∈ ops → orderKey body ≠ .ok (some k)) : KeptWhileOpen dec k ops := by
  rintro pre body post rfl hk
  exact absurd hk (h body (by simp))

def lastQty (e : Value) : ℚ :=
  match numField e "last_qty" with
  | some (.fin q) => q
  | _ => 0

/-- An order for `total` and the fills that make it up, in multiples of `step`. -/
structure FilledOrder (total step : ℚ) (init : Value) (fills : List Value) : Prop where
  init_type : init.get "type" = .str "OrderInitialized"
  init_quantity : numField init "quantity" = some (.fin total)
  nonempty : fills ≠ []
  fill_type : ∀ e ∈ fills, e.get "type" = .str "OrderFilled"
  fill_qty : ∀ e ∈ fills, numField e "last_qty" = some (.fin (lastQty e)) ∧ 0 < lastQty e
  fill_px : ∀ e ∈ fills, ∃ px, (e.get "last_px").toFloat = .ok px
  step_mul : ∀ e ∈ fills, ∃ n : ℕ, lastQty e = n * step
  sum : (fills.map lastQty).sum = total

variable {dec : Decoders} {ch : Channels} {cap : ℕ}

theorem eventOf_orderOf {k : HashKey} {op : IntakeOp} {body : Value}
    (h : eventOf dec k op = some body) : orderOf dec op = some k := by
  cases op with
  | release body => cases h
  | entry registry fields =>
    obtain ⟨topic, ho, hk⟩ := eventOf_entry h
    simp [orderOf, ho, hk, Except.toOption]

theorem slot_mem_ordersIn (ops : List IntakeOp) {k : HashKey}
    (h : (trackerAfter dec ch cap ops).slot k ≠ none) : k ∈ ordersIn dec ops := by
  induction ops using List.reverseRecOn with
  | nil => exact absurd rfl h
  | append_singleton pre op ih =>
    rw [ordersIn, List.filterMap_append, List.toFinset_append, Finset.mem_union]
    rw [trackerAfter_snoc] at h
    have hstep := (intakeStep_slot (trackerAfter dec ch cap pre) op k).resolve_left h
    cases he : eventOf dec k op with
    | none =>
      rw [hstep, he] at h
      exact Or.inl (ih h)
    | some body => exact Or.inr (by simp [eventOf_orderOf he])

theorem ordersIn_mono {pre ops : List IntakeOp} (h : pre <+: ops) :
    ordersIn dec pre ⊆ ordersIn dec ops := by
  obtain ⟨post, rfl⟩ := h
  rw [ordersIn, ordersIn, List.filterMap_append, List.toFinset_append]
  exact Finset.subset_union_left

/-- With room for all orders of the run, taking in an entry touches the slot of its order
and no other one. -/
theorem entry_slot {ops pre : List IntakeOp} {registry : Registry} {fields : StreamEntry}
    (hroom : (ordersIn dec ops).card ≤ cap) (hpre : pre ++ [.entry registry fields] <+: ops)
    (k : HashKey) :
    (trackerAfter dec ch cap (pre ++ [.entry registry fields])).slot k =
      match eventOf dec k (.entry registry fields) with
      | some body => some ((((trackerAfter dec ch cap pre).slot k).getD {}).record body).1
      | none => (trackerAfter dec ch cap pre).slot k := by
  rw [trackerAfter_snoc]
  simp only [intakeStep, eventOf]
  cases ho : observed dec fields with
  | none =>
    rw [forwardStreamEntry_not_observed ho]
    rfl
  | some tb =>
    obtain ⟨topic, body⟩ := tb
    rw [forwardStreamEntry_tracker ho, feed, Option.getD_some]
    by_cases hj : ∃ j, orderKey body = .ok (some j)
    · obtain ⟨j, hj⟩ := hj
      have hmem : j ∈ ordersIn dec ops := by
        refine ordersIn_mono hpre ?_
        simp [ordersIn, orderOf, ho, hj, Except.toOption]
      have hseen : ∀ i ∈ (trackerAfter dec ch cap pre).orders.keys, i ∈ ordersIn dec ops := by
        intro i hi
        refine ordersIn_mono ((List.prefix_append pre _).trans hpre)
          (@slot_mem_ordersIn dec ch cap pre i ?_)
        rw [slot, Ne, Dict.get?_eq_none_iff, not_not]
        exact hi
      rw [observe_slot_of_room hj hseen hmem (by rwa [trackerAfter_maxOrders])]
      by_cases hk : k = j
      · simp [hj, hk]
      · simp [hj, hk, Ne.symm hk]
    · have hnot : ∀ j, orderKey body ≠ .ok (some j) := fun j h => hj ⟨j, h⟩
      simp only [observe_of_orderKey_none hnot, if_neg (hnot k)]

/-- Until the order's last event, its slot knows all its events. -/
theorem slotEvents_eq_orderEvents {ops : List IntakeOp} {k : HashKey}
    (hroom : (ordersIn dec ops).card ≤ cap) (hkept : KeptWhileOpen dec k ops)
    {pre post : List IntakeOp} (hsplit : ops = pre ++ post) (hopen : orderEvents dec k post ≠ []) :
    slotEvents dec ch cap k pre = orderEvents dec k pre ∧
      ((trackerAfter dec ch cap pre).slot k = none → orderEvents dec k pre = []) := by
  induction pre using List.reverseRecOn generalizing post with
  | nil => exact ⟨rfl, fun _ => rfl⟩
  | append_singleton pre op ih =>
    rw [List.append_assoc, List.singleton_append] at hsplit
    have hlater : orderEvents dec k (op :: post) ≠ [] := by
      intro h
      refine hopen (List.sublist_nil.1 ?_)
      rw [← h]
      exact (List.sublist_cons_self op post).filterMap _
    obtain ⟨hevents, hnone⟩ := ih hsplit hlater
    have happend : orderEvents dec k (pre ++ [op]) =
        orderEvents dec k pre ++ (eventOf dec k op).toList := by
      rw [orderEvents, List.filterMap_append, ← orderEvents]
      cases he : eventOf dec k op <;> simp [he]
    have habsent : (trackerAfter dec ch cap (pre ++ [op])).slot k = none →
        orderEvents dec k (pre ++ [op]) = [] := by
      intro hs
      rw [happend]
      cases op with
      | entry registry fields =>
        rw [entry_slot hroom ⟨post, by simp [hsplit]⟩] at hs
        cases he : eventOf dec k (.entry registry fields) with
        | some body => simp [he] at hs
        | none =>
          rw [he] at hs
          simp [hnone hs]
      | release body =>
        change _ ++ [] = []
        rw [List.append_nil]
        by_cases hk : orderKey body = .ok (some k)
        · exact (hkept pre body post hsplit hk).resolve_right hopen
        · rw [trackerAfter_snoc, intakeStep, forgetIfTerminal_slot_ne hk] at hs
          exact hnone hs
    refine ⟨?_, habsent⟩
    rw [slotEvents_snoc, hevents]
    split_ifs with hs
    · exact (habsent (Option.isNone_iff_eq_none.1 hs)).symm
    · exact happend.symm

theorem initializedQuantity_order {total step : ℚ} {init : Value} {fills fs : List Value}
    (h : FilledOrder total step init fills) (hfs : ∀ e ∈ fs, e ∈ fills) :
    initializedQuantity (init :: fs) = some (.fin total) := by
  induction fs using List.reverseRecOn with
  | nil => simp [initializedQuantity, latestQuantity, h.init_type, h.init_quantity]
  | append_singleton fs e ih =>
    have he : e.get "type" = .str "OrderFilled" := h.fill_type e (hfs e (by simp))
    have hrest := ih fun e' he' => hfs e' (by simp [he'])
    rw [← List.cons_append, initializedQuantity, latestQuantity_snoc, he]
    simpa [initializedQuantity] using hrest

theorem filledQuantity_order {total step : ℚ} {init : Value} {fills fs : List Value}
    (h : FilledOrder total step init fills) (hfs : ∀ e ∈ fs, e ∈ fills) :
    filledQuantity (init :: fs) = .fin (fs.map lastQty).sum := by
  induction fs using List.reverseRecOn with
  | nil =>
    simp only [filledQuantity, List.foldl_cons, List.foldl_nil, h.init_type]
    rfl
  | append_singleton fs e ih =>
    have hmem : e ∈ fills := hfs e (by simp)
    have hrest := ih fun e' he' => hfs e' (by simp [he'])
    rw [← List.cons_append, filledQuantity_snoc, h.fill_type e hmem, hrest]
    simp [(h.fill_qty e hmem).1]

theorem sum_pos {total step : ℚ} {init : Value} {fills fs : List Value}
    (h : FilledOrder total step init fills) (hfs : ∀ e ∈ fs, e ∈ fills) (hne : fs ≠ [])
    (hstep : 0 < step) : step ≤ (fs.map lastQty).sum := by
  obtain ⟨e, fs, rfl⟩ := List.exists_cons_of_ne_nil hne
  have hnonneg : 0 ≤ (fs.map lastQty).sum := by
    refine List.sum_nonneg fun q hq => ?_
    obtain ⟨e', he', rfl⟩ := List.mem_map.1 hq
    exact (h.fill_qty e' (hfs e' (List.mem_cons_of_mem e he'))).2.le
  have hpos := (h.fill_qty e (hfs e List.mem_cons_self)).2
  obtain ⟨n, hn⟩ := h.step_mul e (hfs e List.mem_cons_self)
  have hone : (1 : ℚ) ≤ n := by
    have : (n : ℚ) ≠ 0 := by
      intro h0
      rw [hn, h0, zero_mul] at hpos
      exact lt_irrefl _ hpos
    exact_mod_cast Nat.one_le_iff_ne_zero.2 (by exact_mod_cast this)
  rw [List.map_cons, List.sum_cons, hn]
  nlinarith

/-- The order's sum comes within the tolerance of its total only with its last fill. -/
theorem reaches_iff_last {total step : ℚ} {init : Value} {fills fs rest : List Value} {body : Value}
    (h : FilledOrder total step init fills) (hstep : 1 / 10 ^ 9 < step)
    (hsplit : fills = fs ++ body :: rest) :
    ReachesInitialized (init :: fs ++ [body]) ↔ rest = [] := by
  have hfront : ∀ e ∈ fs ++ [body], e ∈ fills := by
    intro e he
    rw [hsplit]
    rw [List.append_cons]
    exact List.mem_append_left _ he
  have hsum : (fills.map lastQty).sum =
      ((fs ++ [body]).map lastQty).sum + (rest.map lastQty).sum := by
    rw [hsplit, List.append_cons, List.map_append, List.sum_append]
  rw [List.cons_append, ReachesInitialized, initializedQuantity_order h hfront,
    filledQuantity_order h hfront]
  simp only [Option.some.injEq, forall_eq', PyFloat.round_exact, PyFloat.fin_sub,
    PyFloat.fin_le]
  rw [← h.sum, hsum]
  constructor
  · intro hle
    by_contra hne
    have hrest := sum_pos h (fun e (he : e ∈ rest) => by simp [hsplit, he]) hne
      (lt_trans (by norm_num) hstep)
    linarith
  · rintro rfl
    simp only [List.map_nil, List.sum_nil, add_zero]
    linarith [show (0 : ℚ) < 1 / 10 ^ 9 by norm_num]

/-- The `n`-th operation brings a fill of the order that is forwarded. -/
def ForwardsFillAt (dec : Decoders) (ch : Channels) (cap : ℕ) (k : HashKey) (ops : List IntakeOp)
    (n : ℕ) : Prop :=
  ∃ registry fields body, ops[n]? = some (.entry registry fields) ∧
    eventOf dec k (.entry registry fields) = some body ∧ body.get "type" = .str "OrderFilled" ∧
    Forwarded dec ch (trackerAfter dec ch cap (ops.take n)) registry fields

theorem eq_take_cons_drop {ops : List IntakeOp} {n : ℕ} {op : IntakeOp} (h : ops[n]? = some op) :
    ops = ops.take n ++ op :: ops.drop (n + 1) := by
  obtain ⟨hn, rfl⟩ := List.getElem?_eq_some_iff.1 h
  rw [← List.drop_eq_getElem_cons hn, List.take_append_drop]

variable {ops : List IntakeOp} {k : HashKey} {total step : ℚ} {init : Value} {fills : List Value}

/-- A fill of the order is forwarded exactly if no event of the order follows. -/
theorem forwarded_iff_last (hstep : 1 / 10 ^ 9 < step) (hroom : (ordersIn dec ops).card ≤ cap)
    (hkept : KeptWhileOpen dec k ops) (horder : orderEvents dec k ops = init :: fills)
    (hfilled : FilledOrder total step init fills) {pre post : List IntakeOp} {registry : Registry}
    {fields : StreamEntry} {body : Value} (hsplit : ops = pre ++ .entry registry fields :: post)
    (he : eventOf dec k (.entry registry fields) = some body)
    (hf : body.get "type" = .str "OrderFilled") :
    Forwarded dec ch (trackerAfter dec ch cap pre) registry fields ↔
      orderEvents dec k post = [] := by
  have hevents : orderEvents dec k pre ++ body :: orderEvents dec k post = init :: fills := by
    rw [← horder, hsplit, orderEvents, orderEvents, orderEvents, List.filterMap_append,
      List.filterMap_cons_some he]
  obtain ⟨fs, hpre, hfills⟩ : ∃ fs, orderEvents dec k pre = init :: fs ∧
      fills = fs ++ body :: orderEvents dec k post := by
    cases hp : orderEvents dec k pre with
    | nil =>
      rw [hp, List.nil_append, List.cons.injEq] at hevents
      rw [hevents.1, hfilled.init_type] at hf
      exact absurd (Value.str.inj hf) (by decide)
    | cons e fs =>
      rw [hp, List.cons_append, List.cons.injEq] at hevents
      exact ⟨fs, by rw [hevents.1], hevents.2.symm⟩
  have hmem : body ∈ fills := by simp [hfills]
  obtain ⟨topic, ho, hk⟩ := eventOf_entry he
  have hopen : orderEvents dec k (.entry registry fields :: post) ≠ [] := by
    rw [orderEvents, List.filterMap_cons_some he]
    exact List.cons_ne_nil _ _
  have hcap : 0 < cap := by
    refine (Finset.card_pos.2 ⟨k, ?_⟩).trans_le hroom
    rw [ordersIn, List.mem_toFinset, List.mem_filterMap]
    exact ⟨_, by simp [hsplit], eventOf_orderOf he⟩
  rw [forwarded_fill_iff ho hk hf (hfilled.fill_qty body hmem).1, complete_slot_iff hcap pre hk,
    (slotEvents_eq_orderEvents hroom hkept hsplit hopen).1, hpre,
    and_iff_right (hfilled.fill_px body hmem), reaches_iff_last hfilled hstep hfills]

/-- Exactly one fill of a completely filled order is forwarded, and no event of the order
follows it. -/
theorem one_fill_forwarded (hstep : 1 / 10 ^ 9 < step) (hroom : (ordersIn dec ops).card ≤ cap)
    (hkept : KeptWhileOpen dec k ops) (horder : orderEvents dec k ops = init :: fills)
    (hfilled : FilledOrder total step init fills) :
    ∃ n, (∀ m, ForwardsFillAt dec ch cap k ops m ↔ m = n) ∧
      orderEvents dec k (ops.drop (n + 1)) = [] := by
  have hiff : ∀ {m : ℕ} {registry : Registry} {fields : StreamEntry} {body : Value},
      ops[m]? = some (.entry registry fields) →
      eventOf dec k (.entry registry fields) = some body → body.get "type" = .str "OrderFilled" →
      (Forwarded dec ch (trackerAfter dec ch cap (ops.take m)) registry fields ↔
        orderEvents dec k (ops.drop (m + 1)) = []) :=
    fun hm he hf => forwarded_iff_last hstep hroom hkept horder hfilled (eq_take_cons_drop hm) he hf
  -- the last event of the order is a fill
  obtain ⟨n, registry, fields, last, hn, he, hf, hlast⟩ : ∃ n registry fields last,
      ops[n]? = some (.entry registry fields) ∧
      eventOf dec k (.entry registry fields) = some last ∧
      last.get "type" = .str "OrderFilled" ∧ orderEvents dec k (ops.drop (n + 1)) = [] := by
    obtain ⟨fs, last, hfs⟩ := (List.eq_nil_or_concat' fills).resolve_left hfilled.nonempty
    rw [hfs, ← List.cons_append, orderEvents, List.filterMap_eq_append_iff] at horder
    obtain ⟨l₁, l₂, rfl, -, hl₂⟩ := horder
    rw [List.filterMap_eq_cons_iff] at hl₂
    obtain ⟨l₃, op, l₄, rfl, -, he, hnil⟩ := hl₂
    have hf := hfilled.fill_type last (by simp [hfs])
    cases op with
    | release body => cases he
    | entry registry fields =>
      refine ⟨(l₁ ++ l₃).length, registry, fields, last, ?_, he, hf, ?_⟩
      · rw [← List.append_assoc, List.getElem?_append_right le_rfl]
        simp
      · rw [← List.append_assoc, List.append_cons, List.drop_left' (by rw [List.length_append]; rfl)]
        exact hnil
  refine ⟨n, fun m => ⟨?_, ?_⟩, hlast⟩
  · rintro ⟨registry', fields', body, hm, he', hf', hfwd⟩
    have hnone := (hiff hm he' hf').1 hfwd
    -- two positions without a later event of the order are one
    have hlater : ∀ {i j : ℕ} {op : IntakeOp} {e : Value}, ops[j]? = some op →
        eventOf dec k op = some e → orderEvents dec k (ops.drop (i + 1)) = [] → j ≤ i := by
      intro i j op e hj hje hi
      by_contra hlt
      have hmem : op ∈ ops.drop (i + 1) := by
        rw [List.mem_iff_getElem?]
        exact ⟨j - (i + 1), by rw [List.getElem?_drop, ← hj]; congr 1; omega⟩
      rw [orderEvents, List.filterMap_eq_nil_iff] at hi
      rw [hi op hmem] at hje
      cases hje
    exact (hlater hm he' hlast).antisymm (hlater hn he hnone)
  · rintro rfl
    exact ⟨registry, fields, last, hn, he, hf, (hiff hn he hf).2 hlast⟩

/-! An order for 6 in two fills, another order in between that is released there. -/

def initializedSix : List (String × String) :=
  [("type", "OrderInitialized"), ("client_order_id", "O-1"), ("quantity", "6")]

def otherCanceled : List (String × String) :=
  [("type", "OrderCanceled"), ("client_order_id", "O-2")]

def interleaved : List IntakeOp :=
  [.entry .empty (orderEntry initializedSix), .entry .empty (orderEntry filledFour),
    .entry .empty (orderEntry otherCanceled), .release (textBody otherCanceled),
    .entry .empty (orderEntry filledTwo)]

theorem orderEvents_interleaved :
    orderEvents textDecoders (.str "O-1") interleaved =
      textBody initializedSix :: [textBody filledFour, textBody filledTwo] := by
  have hevent : ∀ b ∈ [initializedSix, filledFour, otherCanceled, filledTwo],
      eventOf textDecoders (.str "O-1") (.entry .empty (orderEntry b)) =
        if orderKey (textBody b) = .ok (some (.str "O-1")) then some (textBody b) else none := by
    intro b hb
    have hnodup : (b.map Prod.fst).Nodup := by
      revert b
      decide
    simp only [eventOf, observed_orderEntry hnodup]
  have hother : orderKey (textBody otherCanceled) ≠ .ok (some (.str "O-1")) := by decide +kernel
  rw [orderEvents, interleaved, List.filterMap_cons_some ((hevent _ (by simp)).trans (if_pos rfl)),
    List.filterMap_cons_some ((hevent _ (by simp)).trans (if_pos rfl)),
    List.filterMap_cons_none ((hevent _ (by simp)).trans (if_neg hother)),
    List.filterMap_cons_none rfl,
    List.filterMap_cons_some ((hevent _ (by simp)).trans (if_pos rfl)), List.filterMap_nil]

theorem filledOrder_interleaved :
    FilledOrder 6 2 (textBody initializedSix) [textBody filledFour, textBody filledTwo] where
  init_type := rfl
  init_quantity := by decide +kernel
  nonempty := by simp
  fill_type := by simp [textBody, filledFour, filledTwo, Value.get, Value.lookup?]
  fill_qty := by decide +kernel
  fill_px := by
    simp only [List.forall_mem_cons]
    exact ⟨⟨some (.fin 1), by decide +kernel⟩, ⟨some (.fin 1), by decide +kernel⟩, by simp⟩
  step_mul := by
    simp only [List.forall_mem_cons]
    exact ⟨⟨2, by decide +kernel⟩, ⟨1, by decide +kernel⟩, by simp⟩
  sum := by decide +kernel

theorem one_fill_forwarded_interleaved :
    ∃ n, (∀ m, ForwardsFillAt textDecoders ⟨1, 2, 3⟩ 2000 (.str "O-1") interleaved m ↔ m = n) ∧
      orderEvents textDecoders (.str "O-1") (interleaved.drop (n + 1)) = [] := by
  refine @one_fill_forwarded _ _ _ _ _ 6 2 _ _ (by norm_num) ?_
    (keptWhileOpen_of_others fun body hb => ?_) orderEvents_interleaved filledOrder_interleaved
  · exact (List.toFinset_card_le _).trans ((List.length_filterMap_le _ _).trans (by decide))
  · have hbody : body = textBody otherCanceled := by simpa [interleaved] using hb
    rw [hbody]
    decide +kernel

end TinoHelm
