import TinoHelm.Proofs.CompletedOrders
import TinoHelm.Spec.Render

/-! Which final embeds of an order state its executed quantity. Partial fills are
withheld on the promise that the last event accounts for them; `_fmt_progress` keeps
that promise for fills and cancels, and has no case for an expiry. -/

namespace TinoHelm
open Base OrderProgressTracker

/-- The slot of `k` is there from the first event of the order on. -/
def KeepsSlot (dec : Decoders) (ch : Channels) (cap : ℕ) (k : HashKey) (ops : List IntakeOp) :
    Prop :=
  ∀ pre, pre <+: ops → orderEvents dec k pre ≠ [] → (trackerAfter dec ch cap pre).slot k ≠ none

section
open scoped Exact

/-- What the fills of an order add up to, without rounding. -/
def executedQuantity (events : List Value) : PyFloat := filledQuantity events

end

def executedLabels : List String := ["成交", "最终成交"]

/-- A row for the executed quantity begins with the number in backticks. -/
def StatesExecuted (lines : List Line) (executed : PyFloat) : Prop :=
  ∃ label ∈ executedLabels, ∃ text q,
    .row label text ∈ lines ∧ PyFloat.textValue (ticked text) = some q ∧ executed = .fin q

variable {dec : Decoders} {ch : Channels} {cap : ℕ} {k : HashKey}

theorem orderEvents_snoc (pre : List IntakeOp) (op : IntakeOp) :
    orderEvents dec k (pre ++ [op]) = orderEvents dec k pre ++ (eventOf dec k op).toList := by
  rw [orderEvents, List.filterMap_append, ← orderEvents]
  cases he : eventOf dec k op <;> simp [he]

section
variable (py : PyText)

/-- No row speaks of the executed quantity. -/
def Quiet (rows : List Line) : Prop := ∀ label ∈ executedLabels, ∀ text, .row label text ∉ rows

theorem Quiet.append {rows rows' : List Line} (h : Quiet rows) (h' : Quiet rows') :
    Quiet (rows ++ rows') := by
  intro label hl text hmem
  rcases List.mem_append.1 hmem with hmem | hmem
  · exact h label hl text hmem
  · exact h' label hl text hmem

theorem quiet_nil : Quiet [] := fun _ _ _ => List.not_mem_nil

theorem quiet_row {label text : String} (h : label ∉ executedLabels) : Quiet [.row label text] := by
  intro label' hl text' hmem
  rw [List.mem_singleton, Line.row.injEq] at hmem
  exact h (hmem.1 ▸ hl)

theorem quiet_fieldRow (label : String) (x : Value) (h : label ∉ executedLabels) :
    Quiet (fieldRow py label x) := by
  unfold fieldRow
  split_ifs
  · exact quiet_row h
  · exact quiet_nil

theorem quiet_fmtInstruction (body : Value) (progress : Option OrderProgress) :
    Quiet (fmtInstruction py body progress) := by
  unfold fmtInstruction
  dsimp only
  split_ifs
  · exact quiet_nil
  · exact quiet_row (by decide)

theorem quiet_fmtPrices (body : Value) : Quiet (fmtPrices py body) := by
  unfold fmtPrices
  dsimp only
  refine Quiet.append ?_ ?_
  · split_ifs
    · exact quiet_nil
    · exact quiet_row (by decide)
  · split_ifs
    · exact quiet_nil
    · exact quiet_row (by decide)
    · exact quiet_row (by decide)

theorem quiet_fmtFillPrice {body : Value} {progress : Option OrderProgress} {price : List Line}
    (h : fmtFillPrice body progress = .ok price) : Quiet price := by
  rw [fmtFillPrice_eq_ok h, fillPriceRows]
  split_ifs
  · cases progress.bind OrderProgress.vwap with
    | some vwap => exact quiet_row (by decide)
    | none =>
      cases numField body "last_px" with
      | none => exact quiet_nil
      | some px => exact quiet_row (by decide)
  · exact quiet_nil

/-- Of an order event's rows only the progress rows speak of execution. -/
theorem statesExecuted_orderRows {body : Value} {progress : Option OrderProgress}
    {price progressRows : List Line} {executed : PyFloat}
    (hprice : fmtFillPrice body progress = .ok price) :
    StatesExecuted (orderRows py body progress price progressRows) executed ↔
      StatesExecuted progressRows executed := by
  have hside : Quiet ((orderSide py body progress).toList.map fun s =>
      Line.row "方向" (tick (sideZh s))) := by
    cases orderSide py body progress with
    | none => exact quiet_nil
    | some s => exact quiet_row (by decide)
  have hfront := (((((quiet_fieldRow py "策略" (body.get "strategy_id") (by decide)).append
    (quiet_fieldRow py "标的" (body.get "instrument_id") (by decide))).append hside).append
    (quiet_fmtInstruction py body progress)).append (quiet_fmtPrices py body)).append
    (quiet_fmtFillPrice hprice)
  have hstatus := quiet_fieldRow py "状态" (body.get "status") (by decide)
  have hid := quiet_fieldRow py "订单号" (body.get "client_order_id") (by decide)
  have hlabel : ∀ label ∈ executedLabels, ∀ text,
      Line.row label text ∈ orderRows py body progress price progressRows ↔
        Line.row label text ∈ progressRows := by
    intro label hl text
    unfold orderRows
    dsimp only
    rw [List.mem_append, List.mem_append, or_iff_left (hid label hl text),
      or_iff_right ((hfront.append hstatus) label hl text)]
  constructor
  · rintro ⟨label, hl, text, q, hrow, hread⟩
    exact ⟨label, hl, text, q, (hlabel label hl _).1 hrow, hread⟩
  · rintro ⟨label, hl, text, q, hrow, hread⟩
    exact ⟨label, hl, text, q, (hlabel label hl _).2 hrow, hread⟩

end

/-- The event types an order with fills can end in. -/
def finalTypes : List String := ["OrderFilled", "OrderCanceled", "OrderExpired"]

/-- They take the order branch of `render_embed`. -/
theorem finalTypes_rendered :
    ∀ eventType ∈ finalTypes, eventType ∉ "" :: "ComponentStateChanged" :: rejectionEvents := by
  decide

/-- What `_fmt_progress` can account for at the end of an order: finite numbers, whose sum is
shown as the quantity that was executed. -/
structure Accountable (eventType : String) (total filled executed : PyFloat) : Prop where
  notExpired : eventType ≠ "OrderExpired"
  finiteTotal : total.isFinite = true
  finiteFilled : filled.isFinite = true
  finiteRest : eventType = "OrderCanceled" → |total.rat - filled.rat| < PyFloat.overflowBound
  positive : eventType = "OrderFilled" → 0 < filled
  precise : executed = .fin (shownQty filled.rat)

variable {p : OrderProgress} {total executed : PyFloat}

theorem not_statesExecuted_nil : ¬StatesExecuted [] executed := by
  rintro ⟨label, -, text, q, hrow, -⟩
  exact List.not_mem_nil hrow

/-- A progress row states the quantity that its first number reads as. -/
theorem statesExecuted_row {label text rest : String} {x : PyFloat} {rows : List Line}
    (hl : label ∈ executedLabels) (hx : fmtQty x = .ok text) (hrows : Quiet rows) :
    StatesExecuted (.row label (tick text ++ rest) :: rows) executed ↔
      executed = .fin (shownQty x.rat) := by
  have hticked : ticked (tick text ++ rest) = text := ticked_tick_append (backtick_not_mem_fmtQty hx) rest
  have hread := textValue_fmtQty hx
  constructor
  · rintro ⟨label', hl', text', q, hrow, hq, he⟩
    rcases List.mem_cons.1 hrow with hrow | hrow
    · rw [(Line.row.inj hrow).2, hticked, hread, Option.some.injEq] at hq
      rw [he, hq]
    · exact absurd hrow (hrows label' hl' text')
  · intro he
    exact ⟨label, hl, _, _, List.mem_cons_self, by rw [hticked, hread], he⟩

/-- A fill states its order's sum, when there is something filled and both numbers print. -/
theorem fmtProgress_filled (hp : p.qtyTotal = some total) :
    (∃ rows, fmtProgress (some p) (.str "OrderFilled") = .ok rows ∧
        StatesExecuted rows executed) ↔ Accountable "OrderFilled" total p.qtyFilled executed := by
  by_cases hpos : 0 < p.qtyFilled
  · rw [fmtProgress_fill hp (by decide) hpos]
    simp only [String.append_assoc]
    constructor
    · rintro ⟨rows, hrows, hstates⟩
      simp only [bind_eq_ok] at hrows
      obtain ⟨filled, hfilled, ttl, httl, hrows⟩ := hrows
      rw [← Except.ok.inj hrows, statesExecuted_row (by decide) hfilled quiet_nil] at hstates
      exact ⟨by decide, (fmtQty_ok_iff total).1 ⟨ttl, httl⟩,
        (fmtQty_ok_iff p.qtyFilled).1 ⟨filled, hfilled⟩, fun h => absurd h (by decide),
        fun _ => hpos, hstates⟩
    · intro h
      obtain ⟨ttl, httl⟩ := (fmtQty_ok_iff total).2 h.finiteTotal
      obtain ⟨filled, hfilled⟩ := (fmtQty_ok_iff p.qtyFilled).2 h.finiteFilled
      rw [hfilled, httl]
      exact ⟨_, rfl, (statesExecuted_row (by decide) hfilled quiet_nil).2 h.precise⟩
  · rw [fmtProgress_other hp (by decide) (by simp [hpos])]
    constructor
    · rintro ⟨rows, hrows, hstates⟩
      cases hrows
      exact absurd hstates not_statesExecuted_nil
    · exact fun h => absurd (h.positive rfl) hpos

theorem fmtProgress_canceled (hp : p.qtyTotal = some total) :
    (∃ rows, fmtProgress (some p) (.str "OrderCanceled") = .ok rows ∧
        StatesExecuted rows executed) ↔ Accountable "OrderCanceled" total p.qtyFilled executed := by
  have hquiet (rem : String) : Quiet [.row "未成交(已撤)" (tick rem)] := quiet_row (by decide)
  rw [fmtProgress_cancel hp (by decide)]
  simp only [String.append_assoc]
  constructor
  · rintro ⟨rows, hrows, hstates⟩
    simp only [bind_eq_ok] at hrows
    obtain ⟨filled, hfilled, ttl, httl, rem, hrem, hrows⟩ := hrows
    rw [← Except.ok.inj hrows, statesExecuted_row (by decide) hfilled (hquiet rem)] at hstates
    have htotal := (fmtQty_ok_iff total).1 ⟨ttl, httl⟩
    have hqty := (fmtQty_ok_iff p.qtyFilled).1 ⟨filled, hfilled⟩
    exact ⟨by decide, htotal, hqty,
      fun _ => (PyFloat.isFinite_sub htotal hqty).1 ((fmtQty_ok_iff _).1 ⟨rem, hrem⟩),
      fun h => absurd h (by decide), hstates⟩
  · intro h
    obtain ⟨ttl, httl⟩ := (fmtQty_ok_iff total).2 h.finiteTotal
    obtain ⟨filled, hfilled⟩ := (fmtQty_ok_iff p.qtyFilled).2 h.finiteFilled
    obtain ⟨rem, hrem⟩ := (fmtQty_ok_iff (total - p.qtyFilled)).2
      ((PyFloat.isFinite_sub h.finiteTotal h.finiteFilled).2 (h.finiteRest rfl))
    rw [hfilled, httl, hrem]
    exact ⟨_, rfl, (statesExecuted_row (by decide) hfilled (hquiet rem)).2 h.precise⟩

theorem fmtProgress_expired (hp : p.qtyTotal = some total) :
    (∃ rows, fmtProgress (some p) (.str "OrderExpired") = .ok rows ∧
        StatesExecuted rows executed) ↔ Accountable "OrderExpired" total p.qtyFilled executed := by
  rw [fmtProgress_other hp (by decide) (by simp)]
  constructor
  · rintro ⟨rows, hrows, hstates⟩
    cases hrows
    exact absurd hstates not_statesExecuted_nil
  · exact fun h => absurd rfl h.notExpired

/-- Without a total there are no progress rows either. -/
theorem fmtProgress_states_iff {progress : Option OrderProgress} {eventType : String}
    (he : eventType ∈ finalTypes) :
    (∃ rows, fmtProgress progress (.str eventType) = .ok rows ∧ StatesExecuted rows executed) ↔
      ∃ total, (progress.getD {}).qtyTotal = some total ∧
        Accountable eventType total (progress.getD {}).qtyFilled executed := by
  cases hp : (progress.getD {}).qtyTotal with
  | none =>
    have heq : fmtProgress progress (.str eventType) = .ok [] := by
      cases progress with
      | none => rfl
      | some p => simp only [fmtProgress, show p.qtyTotal = none from hp]
    rw [heq]
    constructor
    · rintro ⟨rows, hrows, hstates⟩
      cases hrows
      exact absurd hstates not_statesExecuted_nil
    · rintro ⟨total, htotal, -⟩
      cases htotal
  | some total =>
    cases progress with
    | none => cases hp
    | some p =>
      simp only [finalTypes, List.mem_cons, List.not_mem_nil, or_false] at he
      simp only [Option.some.injEq, exists_eq_left', Option.getD_some]
      rcases he with rfl | rfl | rfl
      · exact fmtProgress_filled hp
      · exact fmtProgress_canceled hp
      · exact fmtProgress_expired hp

/-- The price row of an accountable event is written without an exception. -/
theorem fmtFillPrice_ok {body : Value} {eventType : String} {progress : Option OrderProgress}
    (htype : body.get "type" = .str eventType)
    (h : Accountable eventType total (progress.getD {}).qtyFilled executed) :
    ∃ price, fmtFillPrice body progress = .ok price := by
  unfold fmtFillPrice
  rw [htype, Value.isStr_str]
  by_cases hf : eventType = "OrderFilled"
  · have hne := PyFloat.isZero_of_pos (h.positive hf)
    cases progress with
    | none => exact absurd hne (by decide +kernel)
    | some p =>
      rw [Option.getD_some] at hne
      simp [hf, OrderProgress.vwap, hne]
  · simp [hf]

/-- The embed of a final event, for the slot it is rendered with. -/
theorem embed_states_iff (py : PyText) (fmt : Formatters) {t : OrderProgressTracker}
    {env : EventEnvelope} {eventType : String}
    (ht : startsWith env.topic "events.order." = true) (hk : orderKey env.body = .ok (some k))
    (htype : env.body.get "type" = .str eventType) (he : eventType ∈ finalTypes) :
    (∃ embed, renderEmbed py fmt env none (some t) = .ok embed ∧
        StatesExecuted embed.lines executed) ↔
      ∃ total, ((t.slot k).getD {}).qtyTotal = some total ∧
        Accountable eventType total ((t.slot k).getD {}).qtyFilled executed := by
  rw [renderEmbed_order py fmt t ht hk htype (finalTypes_rendered eventType he),
    fmtOrder_of_coid py (orderKey_eq_some hk).2.1, htype]
  constructor
  · rintro ⟨embed, hembed, hstates⟩
    obtain ⟨lines, hlines, rfl⟩ := map_eq_ok.1 hembed
    obtain ⟨price, hprice, hlines⟩ := bind_eq_ok.1 hlines
    obtain ⟨rows, hrows, rfl⟩ := map_eq_ok.1 hlines
    exact (fmtProgress_states_iff he).1 ⟨rows, hrows, (statesExecuted_orderRows py hprice).1 hstates⟩
  · rintro ⟨total, htotal, h⟩
    obtain ⟨price, hprice⟩ := fmtFillPrice_ok htype h
    obtain ⟨rows, hrows, hstates⟩ := (fmtProgress_states_iff he).2 ⟨total, htotal, h⟩
    rw [hprice, hrows]
    exact ⟨_, rfl, (statesExecuted_orderRows py hprice).2 hstates⟩

/-- A run of order `k` that ends in a forwarded final event. -/
structure EndsIn (dec : Decoders) (ch : Channels) (cap : ℕ) (k : HashKey) (pre : List IntakeOp)
    (registry : Registry) (fields : StreamEntry) (env : EventEnvelope) (eventType : String) :
    Prop where
  forwarded : ∃ channelId,
    (forwardStreamEntry dec fields (some (trackerAfter dec ch cap pre)) registry ch).result =
      .ok (some (env, channelId))
  topic : startsWith env.topic "events.order." = true
  key : orderKey env.body = .ok (some k)
  type : env.body.get "type" = .str eventType
  final : eventType ∈ finalTypes

/-- The embed of an order's last event states what was executed exactly if the event is
no expiry, the slot knows the total, its numbers are finite, a fill's sum is positive and
the sum is shown as what was executed. -/
theorem executed_quantity_stated_iff (py : PyText) (fmt : Formatters) {pre : List IntakeOp}
    {registry : Registry} {fields : StreamEntry} {env : EventEnvelope} {eventType : String}
    (h : EndsIn dec ch cap k pre registry fields env eventType) :
    (∃ embed, renderEmbed py fmt env none
        (some (trackerAfter dec ch cap (pre ++ [.entry registry fields]))) = .ok embed ∧
        StatesExecuted embed.lines
          (executedQuantity (orderEvents dec k (pre ++ [.entry registry fields])))) ↔
      ∃ total,
        initializedQuantity (slotEvents dec ch cap k (pre ++ [.entry registry fields])) = some total ∧
          Accountable eventType total
            (filledQuantity (slotEvents dec ch cap k (pre ++ [.entry registry fields])))
            (executedQuantity (orderEvents dec k (pre ++ [.entry registry fields]))) := by
  obtain ⟨htotal, hfilled⟩ : Tracks _ (slotEvents dec ch cap k (pre ++ [.entry registry fields])) :=
    slot_tracks cap k _
  rw [← htotal, ← hfilled]
  exact embed_states_iff py fmt h.topic h.key h.type h.final

/-! An order for 10 that fills 4 and is then canceled, or expires. -/

def lastEvent (eventType : String) : List (String × String) :=
  [("type", eventType), ("client_order_id", "O-1")]

def filledFourOfTen : List IntakeOp :=
  [initializedTen, filledFour].map fun b => .entry .empty (orderEntry b)

theorem keepsSlot_of_own {ops : List IntakeOp} (hc : 0 < cap)
    (h : ∀ op ∈ ops, eventOf dec k op ≠ none) : KeepsSlot dec ch cap k ops := by
  intro pre hp hne
  obtain rfl | ⟨pre, op, rfl⟩ := List.eq_nil_or_concat' pre
  · exact absurd rfl hne
  · obtain ⟨body, he⟩ := Option.ne_none_iff_exists'.1 (h op (hp.subset (by simp)))
    rw [trackerAfter_snoc]
    cases op with
    | release body => cases he
    | entry registry fields =>
      obtain ⟨topic, ho, hk⟩ := eventOf_entry he
      rw [intakeStep, forwardStreamEntry_tracker ho, feed, Option.getD_some,
        observe_slot_self hk (by rwa [trackerAfter_maxOrders])]
      simp

theorem observed_lastEvent (eventType : String) :
    observed textDecoders (orderEntry (lastEvent eventType)) =
      some ("events.order.S-h", textBody (lastEvent eventType)) :=
  observed_orderEntry (show ["type", "client_order_id"].Nodup by decide)

/-- Neither event carries anything that could keep it from being forwarded. -/
theorem forwarded_lastEvent {eventType : String} (he : eventType ∈ ["OrderCanceled", "OrderExpired"])
    (t : OrderProgressTracker) :
    ∃ channelId, (forwardStreamEntry textDecoders (orderEntry (lastEvent eventType)) (some t) .empty
      ⟨1, 2, 3⟩).result =
        .ok (some (⟨"events.order.S-h", textBody (lastEvent eventType)⟩, channelId)) := by
  have hkey : orderKey (textBody (lastEvent eventType)) = .ok (some (.str "O-1")) := rfl
  have hfeed : (t.observe (textBody (lastEvent eventType))).2 = none := by
    rw [observe_snd hkey, record_of_other]
    · exact fun h => by
        rw [show eventType = "OrderInitialized" from Value.str.inj h] at he
        revert he
        decide
    · exact fun h => by
        rw [show eventType = "OrderFilled" from Value.str.inj h] at he
        revert he
        decide
  rw [forwardStreamEntry_observed (observed_lastEvent eventType), feed, hfeed]
  simp only [List.mem_cons, List.not_mem_nil, or_false] at he
  rcases he with rfl | rfl
  · exact ⟨_, rfl⟩
  · exact ⟨_, rfl⟩

theorem nodup_lastEvent (eventType : String) : ((lastEvent eventType).map Prod.fst).Nodup :=
  show ["type", "client_order_id"].Nodup by decide

theorem orderKey_lastEvent (eventType : String) :
    orderKey (textBody (lastEvent eventType)) = .ok (some (.str "O-1")) := rfl

theorem filledFourOfTen_bodies (eventType : String) :
    ∀ b ∈ [initializedTen, filledFour, lastEvent eventType],
      (b.map Prod.fst).Nodup ∧ orderKey (textBody b) = .ok (some (.str "O-1")) := by
  simp only [List.forall_mem_cons]
  exact ⟨⟨by decide, rfl⟩, ⟨by decide, rfl⟩, ⟨nodup_lastEvent eventType, rfl⟩, by simp⟩

theorem filledFourOfTen_entries (eventType : String) :
    filledFourOfTen ++ [.entry .empty (orderEntry (lastEvent eventType))] =
      [initializedTen, filledFour, lastEvent eventType].map fun b => .entry .empty (orderEntry b) :=
  rfl

theorem endsIn_lastEvent {eventType : String} (he : eventType ∈ ["OrderCanceled", "OrderExpired"]) :
    EndsIn textDecoders ⟨1, 2, 3⟩ 2000 (.str "O-1") filledFourOfTen .empty
      (orderEntry (lastEvent eventType)) ⟨"events.order.S-h", textBody (lastEvent eventType)⟩
      eventType :=
  ⟨forwarded_lastEvent he _, show startsWith "events.order.S-h" _ = true by decide,
    orderKey_lastEvent eventType, rfl, List.mem_cons_of_mem _ he⟩

theorem keepsSlot_lastEvent (eventType : String) :
    KeepsSlot textDecoders ⟨1, 2, 3⟩ 2000 (.str "O-1")
      (filledFourOfTen ++ [.entry .empty (orderEntry (lastEvent eventType))]) := by
  rw [filledFourOfTen_entries]
  refine keepsSlot_of_own (by decide) fun op hop => ?_
  obtain ⟨b, hb, rfl⟩ := List.mem_map.1 hop
  obtain ⟨hnodup, hkey⟩ := filledFourOfTen_bodies eventType b hb
  simp [eventOf, observed_orderEntry hnodup, hkey]

theorem executed_quantity_stated_iff_canceled :
    (∃ embed, renderEmbed plainText noFormatters
        ⟨"events.order.S-h", textBody (lastEvent "OrderCanceled")⟩ none
        (some (trackerAfter textDecoders ⟨1, 2, 3⟩ 2000
          (filledFourOfTen ++ [.entry .empty (orderEntry (lastEvent "OrderCanceled"))]))) = .ok embed ∧
        StatesExecuted embed.lines (executedQuantity (orderEvents textDecoders (.str "O-1")
          (filledFourOfTen ++ [.entry .empty (orderEntry (lastEvent "OrderCanceled"))])))) ↔
      ∃ total,
        initializedQuantity (slotEvents textDecoders ⟨1, 2, 3⟩ 2000 (.str "O-1")
          (filledFourOfTen ++ [.entry .empty (orderEntry (lastEvent "OrderCanceled"))])) =
            some total ∧
          Accountable "OrderCanceled" total
            (filledQuantity (slotEvents textDecoders ⟨1, 2, 3⟩ 2000 (.str "O-1")
              (filledFourOfTen ++ [.entry .empty (orderEntry (lastEvent "OrderCanceled"))])))
            (executedQuantity (orderEvents textDecoders (.str "O-1")
              (filledFourOfTen ++ [.entry .empty (orderEntry (lastEvent "OrderCanceled"))]))) :=
  executed_quantity_stated_iff plainText noFormatters (endsIn_lastEvent (by decide))

/-- The 4 that an expired order executed appear in no embed. -/
theorem expired_order_hides_fills :
    ¬ ∀ pre registry fields env eventType,
      EndsIn textDecoders ⟨1, 2, 3⟩ 2000 (.str "O-1") pre registry fields env eventType →
      KeepsSlot textDecoders ⟨1, 2, 3⟩ 2000 (.str "O-1") (pre ++ [.entry registry fields]) →
      initializedQuantity (orderEvents textDecoders (.str "O-1") (pre ++ [.entry registry fields])) ≠
        none →
      (∃ e ∈ orderEvents textDecoders (.str "O-1") (pre ++ [.entry registry fields]),
        e.get "type" = .str "OrderFilled" ∧ ∃ q, numField e "last_qty" = some q ∧ 0 < q) →
      ∃ embed, renderEmbed plainText noFormatters env none (some (trackerAfter textDecoders ⟨1, 2, 3⟩
          2000 (pre ++ [.entry registry fields]))) = .ok embed ∧
        StatesExecuted embed.lines
          (executedQuantity (orderEvents textDecoders (.str "O-1") (pre ++ [.entry registry fields]))) := by
  intro h
  have hends := @endsIn_lastEvent "OrderExpired" (by decide)
  have hevents := orderEvents_orderEntries (filledFourOfTen_bodies "OrderExpired")
  rw [← filledFourOfTen_entries] at hevents
  have hstates := h _ _ _ _ _ hends (keepsSlot_lastEvent "OrderExpired")
    (by rw [hevents]; decide +kernel)
    ⟨textBody filledFour, by rw [hevents]; simp, rfl, .fin 4, by decide +kernel, by decide +kernel⟩
  rw [embed_states_iff plainText noFormatters hends.topic hends.key hends.type hends.final] at hstates
  obtain ⟨total, -, haccount⟩ := hstates
  exact haccount.notExpired rfl

end TinoHelm
