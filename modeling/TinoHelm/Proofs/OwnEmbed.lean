import TinoHelm.Proofs.SlotRelease

/-! What the embed of a fill shows. The gate runs when the event is taken in, the
renderer reads the shared tracker when the call of `_send` gets there; the numbers are
the event's own as long as the slot has not moved on or gone in between. -/

namespace TinoHelm
open Base Base.PyFloat OrderProgressTracker

section
variable [FloatArith]

/-- The fill an event brings: its quantity, and its price where it has one. -/
def fillOf (e : Value) : Option (PyFloat × Option PyFloat) :=
  if (e.get "type").isStr "OrderFilled" then
    (numField e "last_qty").map fun q => (q, numField e "last_px")
  else none

def fillsOf (events : List Value) : List (PyFloat × Option PyFloat) := events.filterMap fillOf

def notionalOf (events : List Value) : PyFloat :=
  (fillsOf events).foldl (fun s f => ((f.2.map fun px => s + f.1 * px)).getD s) 0

def ownNumbers (events : List Value) : OrderProgress where
  qtyTotal := initializedQuantity events
  qtyFilled := filledQuantity events
  fillCount := (fillsOf events).length
  notional := notionalOf events

/-- A progress without what identifies its order. -/
def OrderProgress.numbers (p : OrderProgress) : OrderProgress :=
  { p with timeInForce := none, orderSide := none, orderType := none }

def ChangesNumbers (e : Value) : Prop :=
  (e.get "type" = .str "OrderFilled" ∧ numField e "last_qty" ≠ none) ∨
    (e.get "type" = .str "OrderInitialized" ∧ numField e "quantity" ≠ none)

def quantitySum (fills : List (PyFloat × PyFloat)) : PyFloat := fills.foldl (fun s f => s + f.1) 0

/-- The average price over fills that all have one. -/
def averagePrice (fills : List (PyFloat × PyFloat)) : PyFloat :=
  fills.foldl (fun s f => s + f.1 * f.2) 0 / quantitySum fills

/-- The fills of the order, each with its price. -/
def PricedFills (events : List Value) (fills : List (PyFloat × PyFloat)) : Prop :=
  fillsOf events = fills.map fun f => (f.1, some f.2)

theorem fillsOf_snoc (events : List Value) (e : Value) :
    fillsOf (events ++ [e]) = fillsOf events ++ (fillOf e).toList := by
  cases h : fillOf e <;> simp [fillsOf, h]

theorem notionalOf_snoc (events : List Value) (e : Value) :
    notionalOf (events ++ [e]) =
      ((fillOf e).toList).foldl (fun s f => ((f.2.map fun px => s + f.1 * px)).getD s)
        (notionalOf events) := by
  rw [notionalOf, fillsOf_snoc, List.foldl_append, ← notionalOf]

/-- An event that is neither an `OrderInitialized` nor an `OrderFilled` moves nothing. -/
theorem ownNumbers_snoc_other {events : List Value} {e : Value}
    (hi : e.get "type" ≠ .str "OrderInitialized") (hf : e.get "type" ≠ .str "OrderFilled") :
    ownNumbers (events ++ [e]) = ownNumbers events := by
  rw [Ne, ← Value.isStr_iff, Bool.not_eq_true] at hi hf
  simp [ownNumbers, initializedQuantity, latestQuantity_snoc, filledQuantity_snoc, fillsOf_snoc,
    notionalOf_snoc, fillOf, hi, hf]

theorem ownNumbers_snoc_initialized {events : List Value} {e : Value}
    (hi : e.get "type" = .str "OrderInitialized") :
    ownNumbers (events ++ [e]) = { ownNumbers events with
      qtyTotal := (numField e "quantity").or (initializedQuantity events) } := by
  simp [ownNumbers, initializedQuantity, latestQuantity_snoc, filledQuantity_snoc, fillsOf_snoc,
    notionalOf_snoc, fillOf, hi]

theorem ownNumbers_snoc_filled {events : List Value} {e : Value}
    (hf : e.get "type" = .str "OrderFilled") :
    ownNumbers (events ++ [e]) =
      match numField e "last_qty" with
      | none => ownNumbers events
      | some q => { ownNumbers events with
          qtyFilled := filledQuantity events + q
          fillCount := (fillsOf events).length + 1
          notional := ((numField e "last_px").map fun px => notionalOf events + q * px).getD
            (notionalOf events) } := by
  cases hq : numField e "last_qty" with
  | none =>
    simp [ownNumbers, initializedQuantity, latestQuantity_snoc, filledQuantity_snoc, fillsOf_snoc,
      notionalOf_snoc, fillOf, hf, hq]
  | some q =>
    cases hpx : numField e "last_px" <;>
      simp [ownNumbers, initializedQuantity, latestQuantity_snoc, filledQuantity_snoc, fillsOf_snoc,
        notionalOf_snoc, fillOf, hf, hq, hpx]

theorem numbers_record (p : OrderProgress) (events : List Value) (body : Value)
    (h : p.numbers = ownNumbers events) :
    (p.record body).1.numbers = ownNumbers (events ++ [body]) := by
  have hlatch : (p.latchIdentity body).numbers = ownNumbers events := h
  have ht : p.qtyTotal = initializedQuantity events := congrArg OrderProgress.qtyTotal h
  have hfilled : p.qtyFilled = filledQuantity events := congrArg OrderProgress.qtyFilled h
  have hcount : p.fillCount = (fillsOf events).length := congrArg OrderProgress.fillCount h
  have hnotional : p.notional = notionalOf events := congrArg OrderProgress.notional h
  by_cases hi : body.get "type" = .str "OrderInitialized"
  · rw [record_of_initialized p hi, ownNumbers_snoc_initialized hi, OrderProgress.recordInitialized]
    cases hx : (body.get "quantity").toFloat with
    | error e =>
      rw [numField_of_error hx]
      exact hlatch
    | ok x =>
      rw [numField_of_ok hx, ← ht, ← hlatch]
      rfl
  · by_cases hf : body.get "type" = .str "OrderFilled"
    · rw [record_of_filled p hf, ownNumbers_snoc_filled hf, OrderProgress.recordFilled]
      cases hx : (body.get "last_qty").toFloat with
      | error e =>
        rw [numField_of_error hx]
        exact hlatch
      | ok x =>
        rw [numField_of_ok hx]
        cases x with
        | none => exact hlatch
        | some q =>
          rw [← hlatch, ← hfilled, ← hcount, ← hnotional]
          cases hpx : (body.get "last_px").toFloat with
          | error e =>
            rw [numField_of_error hpx]
            rfl
          | ok px =>
            rw [numField_of_ok hpx]
            cases px <;> rfl
    · rw [record_of_other p hi hf, ownNumbers_snoc_other hi hf]
      exact hlatch

theorem ownNumbers_snoc_still {events : List Value} {e : Value} (h : ¬ChangesNumbers e) :
    ownNumbers (events ++ [e]) = ownNumbers events := by
  by_cases hi : e.get "type" = .str "OrderInitialized"
  · have hq : numField e "quantity" = none := by
      by_contra hne
      exact h (Or.inr ⟨hi, hne⟩)
    rw [ownNumbers_snoc_initialized hi, hq]
    rfl
  · by_cases hf : e.get "type" = .str "OrderFilled"
    · have hq : numField e "last_qty" = none := by
        by_contra hne
        exact h (Or.inl ⟨hf, hne⟩)
      rw [ownNumbers_snoc_filled hf, hq]
    · exact ownNumbers_snoc_other hi hf

theorem ownNumbers_append_still {events later : List Value} (h : ∀ e ∈ later, ¬ChangesNumbers e) :
    ownNumbers (events ++ later) = ownNumbers events := by
  induction later using List.reverseRecOn with
  | nil => rw [List.append_nil]
  | append_singleton later e ih =>
    rw [← List.append_assoc, ownNumbers_snoc_still (h e (by simp)),
      ih fun e' he' => h e' (List.mem_append_left _ he')]

/-- The next event moves the numbers in the same way whatever they came from. -/
theorem ownNumbers_snoc_congr {events events' : List Value} (e : Value)
    (h : ownNumbers events = ownNumbers events') :
    ownNumbers (events ++ [e]) = ownNumbers (events' ++ [e]) := by
  rw [← numbers_record (ownNumbers events) events e rfl,
    ← numbers_record (ownNumbers events) events' e h]

theorem filledQuantity_eq_foldl (events : List Value) :
    filledQuantity events = (fillsOf events).foldl (fun s f => s + f.1) 0 := by
  induction events using List.reverseRecOn with
  | nil => rfl
  | append_singleton events e ih =>
    rw [filledQuantity_snoc, fillsOf_snoc, List.foldl_append, ← ih, fillOf]
    split_ifs
    · cases numField e "last_qty" <;> rfl
    · rfl

theorem numbers_of_priced {events : List Value} {fills : List (PyFloat × PyFloat)}
    (h : PricedFills events fills) :
    (ownNumbers events).qtyFilled = quantitySum fills ∧
      (ownNumbers events).fillCount = fills.length ∧
      (ownNumbers events).notional = fills.foldl (fun s f => s + f.1 * f.2) 0 := by
  refine ⟨?_, ?_, ?_⟩
  · change filledQuantity events = _
    rw [filledQuantity_eq_foldl, h, List.foldl_map, quantitySum]
  · change (fillsOf events).length = _
    rw [h, List.length_map]
  · change notionalOf events = _
    rw [notionalOf, h, List.foldl_map]
    rfl

end

variable {py : PyText} {fmt : Formatters} {dec : Decoders} {ch : Channels} {cap : ℕ} {k : HashKey}

/-- From the first event on that changes a number of the order, its slot is there. -/
def KeepsNumbers (dec : Decoders) (ch : Channels) (cap : ℕ) (k : HashKey) (ops : List IntakeOp) :
    Prop :=
  ∀ pre, pre <+: ops → (∃ e ∈ orderEvents dec k pre, ChangesNumbers e) →
    (trackerAfter dec ch cap pre).slot k ≠ none

theorem slot_numbers {ops : List IntakeOp} (h : KeepsNumbers dec ch cap k ops) :
    (((trackerAfter dec ch cap ops).slot k).getD {}).numbers =
      ownNumbers (orderEvents dec k ops) := by
  have hslot : (((trackerAfter dec ch cap ops).slot k).getD {}).numbers =
      ownNumbers (slotEvents dec ch cap k ops) :=
    @slot_follows _ dec ch (fun p events => p.numbers = ownNumbers events) rfl numbers_record cap k ops
  rw [hslot]
  clear hslot
  induction ops using List.reverseRecOn with
  | nil => rfl
  | append_singleton pre op ih =>
    have hpre := ih fun p hp => h p (hp.trans (List.prefix_append pre [op]))
    rw [slotEvents_snoc, orderEvents_snoc]
    split_ifs with hs
    · have hstill : ∀ e ∈ orderEvents dec k (pre ++ [op]), ¬ChangesNumbers e := by
        intro e he hchanges
        exact h _ List.prefix_rfl ⟨e, he, hchanges⟩ (Option.isNone_iff_eq_none.1 hs)
      rw [orderEvents_snoc] at hstill
      exact (ownNumbers_append_still hstill).symm
    · cases eventOf dec k op with
      | none => simpa using hpre
      | some body => exact ownNumbers_snoc_congr body hpre

/-! The rows of a fill show the numbers and nothing else of a slot. -/

theorem fmtFillPrice_numbers (body : Value) (slot : Option OrderProgress) :
    fmtFillPrice body slot = fmtFillPrice body (some (slot.getD {}).numbers) := by
  cases slot <;> rfl

theorem fmtProgress_numbers (slot : Option OrderProgress) (eventType : Value) :
    fmtProgress slot eventType = fmtProgress (some (slot.getD {}).numbers) eventType := by
  cases slot <;> rfl

/-- A row that shows the average price of the fills. -/
def ShowsAverage (lines : List Line) (fills : List (PyFloat × PyFloat)) : Prop :=
  ∃ text, .row "成交均价" text ∈ lines ∧
    textValue (ticked text) = some (sigRound 8 (averagePrice fills).rat)

/-- A row that shows how much of the total is filled, in what share and in how many fills. -/
def ShowsProgress (lines : List Line) (fills : List (PyFloat × PyFloat)) (total : PyFloat) : Prop :=
  ∃ filled ttl percent,
    .row "成交" (tick filled ++ " / " ++ tick ttl ++ (" (" ++ percent ++ "%)") ++
      if 1 < fills.length then " · 共 " ++ toString fills.length ++ " 笔" else "") ∈ lines ∧
    textValue filled = some (shownQty (quantitySum fills).rat) ∧
    textValue ttl = some (shownQty total.rat) ∧
    textValue percent = some (fixedRound 1 (quantitySum fills / total * .fin 100).rat)

/-- The embed describes the fills of its order: their average, and when the total is known
the progress. -/
structure DescribesOwn (embed : Embed) (events : List Value) (fills : List (PyFloat × PyFloat)) :
    Prop where
  priced : PricedFills events fills
  average : ShowsAverage embed.lines fills
  progress : ∀ total, initializedQuantity events = some total →
    ShowsProgress embed.lines fills total

/-- There is something to show: every fill has a price, their sum is positive, and the average
and the share are numbers. -/
structure Presentable (events : List Value) (fills : List (PyFloat × PyFloat)) : Prop where
  priced : PricedFills events fills
  positive : 0 < quantitySum fills
  average : (averagePrice fills).isFinite = true
  share : ∀ total, initializedQuantity events = some total →
    total.isZero = false ∧ (quantitySum fills / total * .fin 100).isFinite = true

theorem Presentable.vwap {events : List Value} {fills : List (PyFloat × PyFloat)}
    (h : Presentable events fills) : (ownNumbers events).vwap = some (averagePrice fills) := by
  obtain ⟨hq, -, hn⟩ := numbers_of_priced h.priced
  rw [OrderProgress.vwap, hq, hn, isZero_of_pos h.positive]
  rfl

theorem Presentable.progress {events : List Value} {fills : List (PyFloat × PyFloat)}
    (h : Presentable events fills) {total : PyFloat} (ht : initializedQuantity events = some total)
    {rows : List Line} (hrows : fmtProgress (some (ownNumbers events)) (.str "OrderFilled") = .ok rows) :
    ShowsProgress rows fills total := by
  obtain ⟨hq, hc, -⟩ := numbers_of_priced h.priced
  obtain ⟨hzero, hfinite⟩ := h.share total ht
  have htotal : (ownNumbers events).qtyTotal = some total := ht
  have hpct : pctText (ownNumbers events) =
      " (" ++ formatF 1 (quantitySum fills / total * .fin 100) ++ "%)" := by
    simp [pctText, OrderProgress.pct, htotal, hzero, hq]
  rw [fmtProgress_fill htotal (by decide) (hq ▸ h.positive), hpct, hq, hc] at hrows
  obtain ⟨filled, hfilled, hrows⟩ := bind_eq_ok.1 hrows
  obtain ⟨ttl, httl, hrows⟩ := bind_eq_ok.1 hrows
  rw [← Except.ok.inj hrows]
  exact ⟨filled, ttl, _, List.mem_singleton_self _, textValue_fmtQty hfilled, textValue_fmtQty httl,
    textValue_formatF 1 hfinite⟩

theorem ShowsAverage.mono {lines lines' : List Line} {fills : List (PyFloat × PyFloat)}
    (h : ShowsAverage lines fills) (hsub : lines ⊆ lines') : ShowsAverage lines' fills := by
  obtain ⟨text, hrow, hread⟩ := h
  exact ⟨text, hsub hrow, hread⟩

theorem ShowsProgress.mono {lines lines' : List Line} {fills : List (PyFloat × PyFloat)}
    {total : PyFloat} (h : ShowsProgress lines fills total) (hsub : lines ⊆ lines') :
    ShowsProgress lines' fills total := by
  obtain ⟨filled, ttl, percent, hrow, hread⟩ := h
  exact ⟨filled, ttl, percent, hsub hrow, hread⟩

theorem subset_orderRows (py : PyText) (body : Value) (progress : Option OrderProgress)
    (price progressRows : List Line) :
    price ⊆ orderRows py body progress price progressRows ∧
      progressRows ⊆ orderRows py body progress price progressRows := by
  constructor <;>
    · intro line h
      simp only [orderRows, List.mem_append]
      tauto

theorem describesOwn_of_slot {t : OrderProgressTracker} {topic : String} {body : Value}
    {embed : Embed} {events : List Value} {fills : List (PyFloat × PyFloat)}
    (ht : startsWith topic "events.order." = true) (hk : orderKey body = .ok (some k))
    (hf : body.get "type" = .str "OrderFilled")
    (hslot : ((t.slot k).getD {}).numbers = ownNumbers events) (h : Presentable events fills)
    (hrender : renderEmbed py fmt ⟨topic, body⟩ none (some t) = .ok embed) :
    DescribesOwn embed events fills := by
  rw [renderEmbed_order py fmt t ht hk hf (by decide), fmtOrder_of_coid py (orderKey_eq_some hk).2.1,
    fmtFillPrice_numbers, fmtProgress_numbers, hslot, hf] at hrender
  obtain ⟨lines, hlines, rfl⟩ := map_eq_ok.1 hrender
  obtain ⟨price, hprice, hlines⟩ := bind_eq_ok.1 hlines
  obtain ⟨rows, hrows, rfl⟩ := map_eq_ok.1 hlines
  obtain ⟨hprices, hprogress⟩ := subset_orderRows py body (t.slot k) price rows
  have hpx : price = [.row "成交均价" (tick (fmtPx (averagePrice fills)))] := by
    simp only [fmtFillPrice, hf, Option.bind_some, h.vwap, Value.isStr_str, decide_true,
      if_true] at hprice
    exact (Except.ok.inj hprice).symm
  have haverage : ShowsAverage price fills :=
    ⟨_, by rw [hpx]; exact List.mem_singleton_self _, by
      rw [← String.append_empty (s := tick _), ticked_tick_append (backtick_not_mem_fmtPx h.average),
        textValue_fmtPx h.average]⟩
  exact ⟨h.priced, haverage.mono hprices,
    fun total htotal => (h.progress htotal hrows).mono hprogress⟩

theorem intakesOf_append (s : Sender) (ops ops' : List SenderOp) :
    intakesOf py fmt dec ch s (ops ++ ops') = intakesOf py fmt dec ch s ops ++
      intakesOf py fmt dec ch (run (senderStep py fmt dec ch) s ops) ops' :=
  trace_append _ _ _ _ _

section
variable (py : PyText) (fmt : Formatters) (dec : Decoders) (ch : Channels) (cap rate : ℕ)

def senderStart : Sender := { tracker := { maxOrders := cap }, rateLimit := rate }

def senderAfter (ops : List SenderOp) : Sender :=
  run (senderStep py fmt dec ch) (senderStart cap rate) ops

/-- In the run `ops` the intake behind `pre` forwards a fill of order `k` as call `n` of
`_send`, which behind `mid` renders `embed` for it. -/
structure RendersFill (ops : List SenderOp) (k : HashKey) (pre : List SenderOp) (src : IntakeSource)
    (registry : Registry) (mid : List SenderOp) (n : ℕ) (env : EventEnvelope) (embed : Embed) :
    Prop where
  inRun : ∃ post, ops = pre ++ .intake src registry :: (mid ++ .render n :: post)
  forwarded : ∃ channelId, (src.take dec (some (senderAfter py fmt dec ch cap rate pre).tracker)
    registry ch).result = .ok (some (env, channelId))
  place : n = (senderAfter py fmt dec ch cap rate pre).loop.sends.length
  scheduled : ∃ call, call.env = env ∧
    (senderAfter py fmt dec ch cap rate (pre ++ [.intake src registry])).loop.sends =
      (senderAfter py fmt dec ch cap rate pre).loop.sends ++ [call]
  topic : startsWith env.topic "events.order." = true
  key : orderKey env.body = .ok (some k)
  type : env.body.get "type" = .str "OrderFilled"
  rendered : (senderStep py fmt dec ch
      (senderAfter py fmt dec ch cap rate (pre ++ [.intake src registry] ++ mid)) (.render n)).embeds =
    (senderAfter py fmt dec ch cap rate (pre ++ [.intake src registry] ++ mid)).embeds ++ [(n, embed)]

/-- The slot has been there since the order's first number, and between the intake and the
rendering no further event changed a number of the order. -/
structure Undisturbed (k : HashKey) (pre : List SenderOp) (src : IntakeSource) (registry : Registry)
    (mid : List SenderOp) : Prop where
  kept : KeepsNumbers dec ch cap k
    (intakesOf py fmt dec ch (senderStart cap rate) (pre ++ [.intake src registry] ++ mid))
  still : ∀ e ∈ orderEvents dec k (intakesOf py fmt dec ch
    (senderAfter py fmt dec ch cap rate (pre ++ [.intake src registry])) mid), ¬ChangesNumbers e

end

variable {rate : ℕ} {ops pre mid : List SenderOp} {src : IntakeSource} {registry : Registry} {n : ℕ}
  {env : EventEnvelope} {embed : Embed}

theorem RendersFill.describesOwn {fills : List (PyFloat × PyFloat)}
    (h : RendersFill py fmt dec ch cap rate ops k pre src registry mid n env embed)
    (hu : Undisturbed py fmt dec ch cap rate k pre src registry mid)
    (hp : Presentable (orderEvents dec k
      (intakesOf py fmt dec ch (senderStart cap rate) (pre ++ [.intake src registry]))) fills) :
    DescribesOwn embed (orderEvents dec k
      (intakesOf py fmt dec ch (senderStart cap rate) (pre ++ [.intake src registry]))) fills := by
  obtain ⟨call, hcall, hrender⟩ := Sender.embeds_render h.rendered
  obtain ⟨call', henv, hsends⟩ := h.scheduled
  have hcall' : (senderAfter py fmt dec ch cap rate (pre ++ [.intake src registry] ++ mid)).loop.sends[n]? =
      some call' := by
    rw [senderAfter, run_append]
    refine Sender.sends_run _ mid ?_
    change (senderAfter py fmt dec ch cap rate (pre ++ [.intake src registry])).loop.sends[n]? = _
    rw [hsends, h.place]
    exact List.getElem?_concat_length
  rw [hcall', Option.some.injEq] at hcall
  rw [← hcall, henv] at hrender
  refine describesOwn_of_slot h.topic h.key h.type ?_ hp hrender
  have htracker : (senderAfter py fmt dec ch cap rate (pre ++ [.intake src registry] ++ mid)).tracker =
      trackerAfter dec ch cap (intakesOf py fmt dec ch (senderStart cap rate)
        (pre ++ [.intake src registry] ++ mid)) := sender_tracker _ _
  rw [htracker, slot_numbers hu.kept, intakesOf_append, orderEvents, List.filterMap_append]
  exact ownNumbers_append_still hu.still

/-- In a run in which every call for a fill renders undisturbed and has something to show,
every embed of a fill shows the numbers of its order up to the fill. -/
theorem embeds_describe_own_events (py : PyText) (fmt : Formatters) (dec : Decoders) (ch : Channels)
    (cap rate : ℕ) (ops : List SenderOp)
    (h : ∀ k pre src registry mid n env embed,
      RendersFill py fmt dec ch cap rate ops k pre src registry mid n env embed →
        Undisturbed py fmt dec ch cap rate k pre src registry mid ∧
          ∃ fills, Presentable (orderEvents dec k (intakesOf py fmt dec ch (senderStart cap rate)
            (pre ++ [.intake src registry]))) fills) :
    ∀ k pre src registry mid n env embed,
      RendersFill py fmt dec ch cap rate ops k pre src registry mid n env embed →
        ∃ fills, DescribesOwn embed (orderEvents dec k (intakesOf py fmt dec ch (senderStart cap rate)
          (pre ++ [.intake src registry]))) fills := by
  intro k pre src registry mid n env embed hr
  obtain ⟨hu, fills, hp⟩ := h k pre src registry mid n env embed hr
  exact ⟨fills, hr.describesOwn hu hp⟩

/-! One fill of an order whose total is unknown, with or without another one before its call
gets to render. -/

def filledTwoAtFour : List (String × String) :=
  [("type", "OrderFilled"), ("client_order_id", "O-1"), ("last_qty", "2"), ("last_px", "4")]

theorem nodup_filledFour : (filledFour.map Prod.fst).Nodup := by decide

theorem nodup_filledTwoAtFour : (filledTwoAtFour.map Prod.fst).Nodup := by decide

/-- The run that takes in the fill of 4 at 1, then `later`, and renders the fill. -/
def fillRun (later : List SenderOp) : List SenderOp :=
  intakeEvent filledFour :: ((later ++ [.start 0 .cached]) ++ [.render 0])

theorem filledFour_forwarded :
    Forwarded textDecoders ⟨1, 2, 3⟩ {} .empty (orderEntry filledFour) := by
  have hlast : numField (textBody filledFour) "last_qty" = some (.fin 4) := by decide +kernel
  rw [forwarded_fill_iff (observed_orderEntry nodup_filledFour) rfl rfl hlast]
  exact ⟨⟨some (.fin 1), by decide +kernel⟩, by decide +kernel⟩

abbrev plainRendersFill : List SenderOp → HashKey → List SenderOp → IntakeSource → Registry →
    List SenderOp → ℕ → EventEnvelope → Embed → Prop :=
  RendersFill plainText noFormatters textDecoders ⟨1, 2, 3⟩ 2000 5

theorem ready_start : Ready (senderStart 2000 5) {} := ⟨rfl, fun _ => rfl, by decide, rfl⟩

theorem rendersFill_fillRun {later : List SenderOp} {t : OrderProgressTracker}
    (hlater : Ready (run plainStep (senderStart 2000 5) (intakeEvent filledFour :: later)) t)
    {embed : Embed} (hrender : renderEmbed plainText noFormatters
      ⟨"events.order.S-h", textBody filledFour⟩ none (some t) = .ok embed) :
    plainRendersFill (fillRun later) (.str "O-1") [] (.entry (orderEntry filledFour)) .empty
      (later ++ [.start 0 .cached]) 0 ⟨"events.order.S-h", textBody filledFour⟩ embed := by
  obtain ⟨channelId, hresult, hsends⟩ := ready_start.scheduled nodup_filledFour filledFour_forwarded
  have hcall : (run plainStep (senderStart 2000 5) (intakeEvent filledFour :: later)).loop.sends[0]? =
      some ⟨0, ⟨"events.order.S-h", textBody filledFour⟩, channelId⟩ := by
    rw [run_cons]
    refine Sender.sends_run _ later ?_
    rw [hsends]
    rfl
  have hafter : senderAfter plainText noFormatters textDecoders ⟨1, 2, 3⟩ 2000 5
      ([] ++ [intakeEvent filledFour] ++ (later ++ [.start 0 .cached])) =
      (run plainStep (senderStart 2000 5) (intakeEvent filledFour :: later)).setPhase 0 .waiting := by
    rw [List.nil_append, List.singleton_append, ← List.cons_append, senderAfter, run_snoc,
      Sender.start_cached hcall (hlater.idle 0)]
  have hrendered := @Sender.render_alone plainText noFormatters textDecoders ⟨1, 2, 3⟩ _ _ _ _ hcall
    hlater.idle hlater.rate (by rw [hlater.tracker]; exact hrender)
  rw [← hafter] at hrendered
  exact
    { inRun := ⟨[], by rw [List.nil_append, fillRun]⟩
      forwarded := ⟨channelId, hresult⟩
      place := rfl
      scheduled := ⟨_, rfl, by
        rw [List.nil_append, senderAfter, senderAfter, run_cons, run_nil, run_nil, hsends]⟩
      topic := show startsWith "events.order.S-h" _ = true by decide
      key := rfl
      type := rfl
      rendered := by
        rw [hrendered, hafter]
        simp only [Sender.setPhase] }

theorem fillRun_intakes (s : Sender) (bodies : List (List (String × String))) :
    intakesOf plainText noFormatters textDecoders ⟨1, 2, 3⟩ s (bodies.map intakeEvent) =
      bodies.map fun b => .entry .empty (orderEntry b) := by
  induction bodies generalizing s with
  | nil => rfl
  | cons b bodies ih =>
    rw [List.map_cons, intakesOf, trace, ← intakesOf, ih]
    rfl

theorem KeepsSlot.keepsNumbers {ops : List IntakeOp} (h : KeepsSlot dec ch cap k ops) :
    KeepsNumbers dec ch cap k ops := by
  rintro pre hp ⟨e, he, -⟩
  exact h pre hp (List.ne_nil_of_mem he)

/-- The first fill renders before anything else of the order arrives. -/
theorem undisturbed_fillRun (k : HashKey) :
    Undisturbed plainText noFormatters textDecoders ⟨1, 2, 3⟩ 2000 5 k []
      (.entry (orderEntry filledFour)) .empty [.start 0 .cached] := by
  refine ⟨?_, fun e he => by cases he⟩
  have hops : intakesOf plainText noFormatters textDecoders ⟨1, 2, 3⟩ (senderStart 2000 5)
      ([] ++ [intakeEvent filledFour] ++ [.start 0 .cached]) =
        [.entry .empty (orderEntry filledFour)] := by
    rw [intakesOf_append]
    exact congrArg (· ++ []) (fillRun_intakes (senderStart 2000 5) [filledFour])
  rw [hops]
  by_cases hk : eventOf textDecoders k (.entry .empty (orderEntry filledFour)) = none
  · intro pre hp he
    obtain ⟨e, he, -⟩ := he
    have hnil : orderEvents textDecoders k [.entry .empty (orderEntry filledFour)] = [] := by
      simp [orderEvents, hk]
    have hmem := (hp.sublist.filterMap (eventOf textDecoders k)).mem he
    rw [← orderEvents, hnil] at hmem
    cases hmem
  · refine (keepsSlot_of_own (by decide) fun op hop => ?_).keepsNumbers
    rw [List.mem_singleton.1 hop]
    exact hk

theorem orderEvents_fillRun : orderEvents textDecoders (.str "O-1")
    (intakesOf plainText noFormatters textDecoders ⟨1, 2, 3⟩ (senderStart 2000 5)
      ([] ++ [intakeEvent filledFour])) = [textBody filledFour] := by
  have hkey : orderKey (textBody filledFour) = .ok (some (.str "O-1")) := rfl
  have hintakes := fillRun_intakes (senderStart 2000 5) [filledFour]
  rw [List.map_singleton, List.map_singleton] at hintakes
  rw [List.nil_append, hintakes]
  simp [orderEvents, eventOf, observed_orderEntry nodup_filledFour, hkey]

theorem pricedFills_filledFour : PricedFills [textBody filledFour] [(.fin 4, .fin 1)] := by
  unfold PricedFills
  decide +kernel

theorem presentable_filledFour : Presentable [textBody filledFour] [(.fin 4, .fin 1)] :=
  ⟨pricedFills_filledFour, by decide +kernel, by decide +kernel, fun _ h => by cases h⟩

theorem presentable_of_fillRun : ∀ k pre src registry mid n env embed,
    plainRendersFill (fillRun []) k pre src registry mid n env embed →
      Undisturbed plainText noFormatters textDecoders ⟨1, 2, 3⟩ 2000 5 k pre src registry mid ∧
        ∃ fills, Presentable (orderEvents textDecoders k (intakesOf plainText noFormatters
          textDecoders ⟨1, 2, 3⟩ (senderStart 2000 5) (pre ++ [.intake src registry]))) fills := by
  intro k pre src registry mid n env embed h
  obtain ⟨post, hsplit⟩ := h.inRun
  -- the only intake is the first operation, and the call starts before it renders
  simp only [fillRun, List.nil_append, List.singleton_append] at hsplit
  rcases pre with _ | ⟨_, _ | ⟨_, _ | ⟨_, pre⟩⟩⟩
  · rcases mid with _ | ⟨_, _ | ⟨_, mid⟩⟩
    · simp at hsplit
    · simp only [List.nil_append, List.cons_append, List.cons.injEq, SenderOp.intake.injEq] at hsplit
      obtain ⟨⟨rfl, rfl⟩, rfl, -⟩ := hsplit
      obtain ⟨channelId, hforwarded⟩ := h.forwarded
      have hobserved := (observed_of_forwarded hforwarded).1
      rw [observed_orderEntry nodup_filledFour, Option.some.injEq, Prod.mk.injEq] at hobserved
      have hkey : orderKey (textBody filledFour) = .ok (some k) := by
        rw [hobserved.2]
        exact h.key
      obtain rfl : HashKey.str "O-1" = k := Option.some.inj (Except.ok.inj hkey)
      have hpresentable := presentable_filledFour
      rw [← orderEvents_fillRun] at hpresentable
      exact ⟨undisturbed_fillRun _, _, hpresentable⟩
    · simp at hsplit
  · simp at hsplit
  · simp at hsplit
  · simp at hsplit

theorem oneFill_rendered : ∃ embed, renderEmbed plainText noFormatters
    ⟨"events.order.S-h", textBody filledFour⟩ none
      (some (({} : OrderProgressTracker).observe (textBody filledFour)).1) = .ok embed := by
  have hlines : (renderEmbed plainText noFormatters ⟨"events.order.S-h", textBody filledFour⟩ none
      (some (({} : OrderProgressTracker).observe (textBody filledFour)).1)).map Embed.lines =
        .ok [.row "成交均价" "`1`", .row "订单号" "`O-1`"] := by
    decide +kernel
  obtain ⟨embed, hembed, -⟩ := map_eq_ok.1 hlines
  exact ⟨embed, hembed⟩

/-- The fill of 4 at 1, rendered before anything else of its order arrives. -/
theorem embeds_describe_own_events_fillRun :
    ∃ embed fills, DescribesOwn embed
      (orderEvents textDecoders (.str "O-1")
        (intakesOf plainText noFormatters textDecoders ⟨1, 2, 3⟩ (senderStart 2000 5)
          ([] ++ [.intake (.entry (orderEntry filledFour)) .empty]))) fills := by
  obtain ⟨embed, hrender⟩ := oneFill_rendered
  have hready : Ready (run plainStep (senderStart 2000 5) [intakeEvent filledFour])
      (({} : OrderProgressTracker).observe (textBody filledFour)).1 := by
    rw [run_cons, run_nil]
    exact ready_start.intake nodup_filledFour
  have hfill := rendersFill_fillRun hready hrender
  have hown := embeds_describe_own_events plainText noFormatters textDecoders ⟨1, 2, 3⟩ 2000 5
    (fillRun []) presentable_of_fillRun _ _ _ _ _ _ _ _ hfill
  exact ⟨embed, hown⟩

def bothFills : OrderProgressTracker :=
  ((({} : OrderProgressTracker).observe (textBody filledFour)).1.observe
    (textBody filledTwoAtFour)).1

theorem ready_bothFills : Ready (run plainStep (senderStart 2000 5)
    [intakeEvent filledFour, intakeEvent filledTwoAtFour]) bothFills := by
  rw [run_cons, run_cons, run_nil]
  exact (ready_start.intake nodup_filledFour).intake nodup_filledTwoAtFour

theorem bothFills_rendered : ∃ embed, renderEmbed plainText noFormatters
    ⟨"events.order.S-h", textBody filledFour⟩ none (some bothFills) = .ok embed ∧
      embed.lines = [.row "成交均价" "`2`", .row "订单号" "`O-1`"] := by
  have hlines : (renderEmbed plainText noFormatters ⟨"events.order.S-h", textBody filledFour⟩ none
      (some bothFills)).map Embed.lines = .ok [.row "成交均价" "`2`", .row "订单号" "`O-1`"] := by
    decide +kernel
  exact map_eq_ok.1 hlines

/-- With another fill in between, the fill of 4 at 1 is announced at the average of both. -/
theorem later_fill_changes_embed :
    ¬ ∀ ops k pre src registry mid n env embed fills,
      plainRendersFill ops k pre src registry mid n env embed →
        PricedFills (orderEvents textDecoders k (intakesOf plainText noFormatters textDecoders
          ⟨1, 2, 3⟩ (senderStart 2000 5) (pre ++ [.intake src registry]))) fills →
        DescribesOwn embed (orderEvents textDecoders k (intakesOf plainText noFormatters textDecoders
          ⟨1, 2, 3⟩ (senderStart 2000 5) (pre ++ [.intake src registry]))) fills := by
  intro h
  obtain ⟨embed, hrender, hlines⟩ := bothFills_rendered
  have hpriced := pricedFills_filledFour
  rw [← orderEvents_fillRun] at hpriced
  obtain ⟨text, hrow, hread⟩ :=
    (h _ _ _ _ _ _ _ _ _ _ (rendersFill_fillRun ready_bothFills hrender) hpriced).average
  rw [hlines] at hrow
  obtain rfl : text = "`2`" := by simpa using hrow
  revert hread
  decide +kernel

end TinoHelm
