import TinoHelm.Base.Format
import TinoHelm.Base.Text
import TinoHelm.Spec.Intake

/-! The Discord embed of an order event: `render_embed` of `notifier/handlers.py`
with its formatters `_fmt_order` and `_fmt_rejection`. The branches for other topics
are a parameter, no order event takes them. The time of reception is left out. -/

namespace TinoHelm
open Base Base.PyFloat

/-- `str()` and `json.dumps(…, indent=2)` of a decoded value. -/
structure PyText where
  str : Value → String
  str_str : ∀ s, str (.str s) = s
  dumps : Value → Except PyError String

/-- A line of a description: `**label**: text`, or free text. -/
inductive Line where
  | row (label text : String)
  | plain (s : String)
deriving DecidableEq

def Line.text : Line → String
  | row label text => "**" ++ label ++ "**: " ++ text
  | plain s => s

structure Embed where
  title : String
  lines : List Line
  color : Value
  footer : Option String

def Embed.description (e : Embed) : String := "\n".intercalate (e.lines.map Line.text)

structure Formatters where
  customMessage : Value → Option String → Except PyError Embed
  component : Value → Except PyError String
  positionsReport : Value → Except PyError String
  fillsReport : Value → Except PyError String
  ordersReport : Value → Except PyError String
  dailySummary : Value → Except PyError String
  position : Value → Except PyError String
  account : Value → Except PyError String
  signal : Value → Except PyError String

def colorMap : List (String × ℤ) :=
  [("OrderFilled", 0x2ECC71), ("OrderPartiallyFilled", 0x27AE60), ("OrderAccepted", 0x3498DB),
    ("OrderSubmitted", 0x95A5A6), ("OrderCanceled", 0xF39C12), ("OrderRejected", 0xE74C3C),
    ("OrderDenied", 0xC0392B), ("OrderExpired", 0xE67E22), ("OrderModified", 0x9B59B6),
    ("PositionOpened", 0x1ABC9C), ("PositionChanged", 0x16A085), ("PositionClosed", 0xE74C3C),
    ("AccountState", 0x34495E), ("Signal", 0xE91E63), ("ComponentStateChanged", 0x7F8C8D)]

def titleZh : List (String × String) :=
  [("OrderFilled", "订单成交"), ("OrderCanceled", "订单撤销"), ("OrderExpired", "订单过期"),
    ("OrderModified", "订单修改"), ("OrderTriggered", "订单触发"), ("OrderUpdated", "订单更新"),
    ("PositionOpened", "持仓开启"), ("PositionChanged", "持仓变动"), ("PositionClosed", "持仓平仓"),
    ("AccountState", "账户状态"), ("Signal", "信号")]

def sideZhMap : List (String × String) :=
  [("BUY", "买入"), ("SELL", "卖出"), ("LONG", "做多"), ("SHORT", "做空"), ("FLAT", "已平")]

def sideZh (side : String) : String := (sideZhMap.lookup side).getD side

def titleFor (eventType : String) : String :=
  "[" ++ (titleZh.lookup eventType).getD eventType ++ "]"

def rejectionEvents : List String := ["OrderDenied", "OrderRejected"]

namespace OrderProgress

variable [FloatArith]

def pct (p : OrderProgress) : Option PyFloat :=
  match p.qtyTotal with
  | none => none
  | some t => if t.isZero then none else some (p.qtyFilled / t * .fin 100)

def vwap (p : OrderProgress) : Option PyFloat :=
  if p.qtyFilled.isZero then none else some (p.notional / p.qtyFilled)

end OrderProgress

def tick (s : String) : String := "`" ++ s ++ "`"

/-- What stands in the first backticks of a text. -/
def ticked (text : String) : String :=
  String.ofList (((text.toList.dropWhile (· ≠ '`')).drop 1).takeWhile (· ≠ '`'))

theorem ticked_tick_append {s : String} (h : '`' ∉ s.toList) (rest : String) :
    ticked (tick s ++ rest) = s := by
  have hall : ∀ c ∈ s.toList, decide (c ≠ '`') = true :=
    fun c hc => decide_eq_true (ne_of_mem_of_not_mem hc h)
  have htext : (tick s ++ rest).toList = '`' :: (s.toList ++ '`' :: rest.toList) := by
    simp [tick]
  rw [ticked, htext, List.dropWhile_cons_of_neg (by decide), List.drop_one, List.tail_cons,
    List.takeWhile_append_of_pos hall, List.takeWhile_cons_of_neg (by decide), List.append_nil,
    String.ofList_toList]

def fmtPx (x : PyFloat) : String := formatG 8 x

/-- `int(value)` raises for an infinity and for NaN. -/
def fmtQty : PyFloat → Except PyError String
  | .nan => .error .valueError
  | .inf _ => .error .overflowError
  | .negZero => .ok "0"
  | .fin q => .ok (if q.den = 1 then toString q.num else formatG 6 (.fin q))

/-- What a quantity is shown as: a whole one in full, any other to six digits. -/
def shownQty (q : ℚ) : ℚ := if q.den = 1 then q else sigRound 6 q

theorem fmtQty_ok_iff (x : PyFloat) : (∃ text, fmtQty x = .ok text) ↔ x.isFinite = true := by
  cases x <;> simp [fmtQty, PyFloat.isFinite]

theorem textValue_fmtQty {x : PyFloat} {text : String} (h : fmtQty x = .ok text) :
    textValue text = some (shownQty x.rat) := by
  cases x with
  | fin q =>
    rw [← Except.ok.inj h, PyFloat.rat, shownQty]
    split_ifs with hq
    · rw [textValue_toString, Rat.coe_int_num_of_den_eq_one hq]
    · exact textValue_formatG (by norm_num) rfl
  | negZero =>
    rw [← Except.ok.inj h]
    decide +kernel
  | inf _ | nan => cases h

theorem textValue_fmtPx {x : PyFloat} (hx : x.isFinite = true) :
    textValue (fmtPx x) = some (sigRound 8 x.rat) := textValue_formatG (by norm_num) hx

/-- What a number is written with. -/
theorem ne_backtick {c : Char} (h : c.isDigit = true ∨ c ∈ ['.', 'e', '+', '-']) : c ≠ '`' := by
  rintro rfl
  revert h
  decide

theorem backtick_not_mem_fmtPx {x : PyFloat} (hx : x.isFinite = true) : '`' ∉ (fmtPx x).toList :=
  fun h => ne_backtick (chars_formatG 8 hx _ h) rfl

theorem backtick_not_mem_fmtQty {x : PyFloat} {text : String} (h : fmtQty x = .ok text) :
    '`' ∉ text.toList := by
  intro hmem
  cases x with
  | fin q =>
    rw [← Except.ok.inj h] at hmem
    split_ifs at hmem
    · exact ne_backtick (chars_toString _ _ hmem) rfl
    · exact ne_backtick (chars_formatG 6 rfl _ hmem) rfl
  | negZero =>
    rw [← Except.ok.inj h] at hmem
    revert hmem
    decide
  | inf _ | nan => cases h

def pctText (p : OrderProgress) : String :=
  match p.pct with
  | some x => " (" ++ formatF 1 x ++ "%)"
  | none => ""

/-- The fill progress, for fills and cancels of an order whose total is known. -/
def fmtProgress (progress : Option OrderProgress) (eventType : Value) :
    Except PyError (List Line) :=
  match progress with
  | none => .ok []
  | some p =>
    match p.qtyTotal with
    | none => .ok []
    | some qtyTotal =>
      if eventType.isStr "OrderCanceled" then do
        let filled ← fmtQty p.qtyFilled
        let total ← fmtQty qtyTotal
        let rem ← fmtQty (qtyTotal - p.qtyFilled)
        return [.row "最终成交" (tick filled ++ " / " ++ tick total ++ pctText p),
          .row "未成交(已撤)" (tick rem)]
      else if eventType.isStr "OrderFilled" && 0 < p.qtyFilled then do
        let filled ← fmtQty p.qtyFilled
        let total ← fmtQty qtyTotal
        let count := if 1 < p.fillCount then " · 共 " ++ toString p.fillCount ++ " 笔" else ""
        return [.row "成交" (tick filled ++ " / " ++ tick total ++ pctText p ++ count)]
      else .ok []

section
variable {p : OrderProgress} {total : PyFloat} {eventType : Value}

theorem fmtProgress_cancel (hp : p.qtyTotal = some total)
    (he : eventType.isStr "OrderCanceled" = true) :
    fmtProgress (some p) eventType =
      (fmtQty p.qtyFilled >>= fun filled => fmtQty total >>= fun ttl =>
        fmtQty (total - p.qtyFilled) >>= fun rem =>
          .ok [.row "最终成交" (tick filled ++ " / " ++ tick ttl ++ pctText p),
            .row "未成交(已撤)" (tick rem)]) := by
  simp only [fmtProgress, hp]
  exact if_pos he

theorem fmtProgress_fill (hp : p.qtyTotal = some total)
    (he : eventType.isStr "OrderFilled" = true) (hpos : 0 < p.qtyFilled) :
    fmtProgress (some p) eventType =
      (fmtQty p.qtyFilled >>= fun filled => fmtQty total >>= fun ttl =>
        .ok [.row "成交" (tick filled ++ " / " ++ tick ttl ++ pctText p ++
          if 1 < p.fillCount then " · 共 " ++ toString p.fillCount ++ " 笔" else "")]) := by
  have hne : ¬eventType.isStr "OrderCanceled" = true := by
    rw [(Value.isStr_iff _ _).1 he]
    decide
  simp only [fmtProgress, hp]
  rw [if_neg hne, if_pos (by simp [he, hpos])]
  rfl

theorem fmtProgress_other (hp : p.qtyTotal = some total)
    (hc : ¬eventType.isStr "OrderCanceled" = true)
    (hf : ¬(eventType.isStr "OrderFilled" = true ∧ 0 < p.qtyFilled)) :
    fmtProgress (some p) eventType = .ok [] := by
  simp only [fmtProgress, hp]
  rw [if_neg hc, if_neg (by simpa using hf)]

end

section
variable (py : PyText)

/-- `a or b` -/
def orElse (a b : Value) : Value := if a.truthy then a else b

/-- `x` if it is truthy, else what the tracker latched. -/
def orLatched (x : Value) (known : Option Value) : Option String :=
  if x.truthy then some (py.str x) else (known.map py.str).filter (· ≠ "")

def orderSide (body : Value) (progress : Option OrderProgress) : Option String :=
  orLatched py (orElse (body.get "order_side") (body.get "side")) (progress.bind (·.orderSide))

def orderOptions (body : Value) : Value :=
  if (body.get "options").isDict then body.get "options" else .dict []

/-- `**label**: value` when the field is truthy. -/
def fieldRow (label : String) (x : Value) : List Line :=
  if x.truthy then [.row label (tick (py.str x))] else []

def instructionParts (body : Value) (progress : Option OrderProgress) : List String :=
  (orLatched py (body.get "order_type") (progress.bind (·.orderType))).toList ++
  (orLatched py (body.get "time_in_force") (progress.bind (·.timeInForce))).toList ++
  (if (body.get "post_only").truthy then ["只挂单"] else []) ++
  (if (body.get "reduce_only").truthy then ["平仓"] else [])

def fmtInstruction (body : Value) (progress : Option OrderProgress) : List Line :=
  let parts := instructionParts py body progress
  if parts = [] then [] else [.row "指令" (" · ".intercalate (parts.map tick))]

def fmtPrices (body : Value) : List Line :=
  let opts := orderOptions body
  let price := orElse (body.get "price") (opts.get "price")
  let trigger := opts.get "trigger_price"
  let triggerType := opts.get "trigger_type"
  let suffix := if triggerType.truthy then " (" ++ py.str triggerType ++ ")" else ""
  (if price.isNone then [] else [.row "限价" (tick (py.str price))]) ++
  (if trigger.isNone then [] else [.row "止损触发" (tick (py.str trigger) ++ suffix)])

/-- The price of a fill: the average over the order's fills, else the fill's own. -/
def fmtFillPrice (body : Value) (progress : Option OrderProgress) : Except PyError (List Line) :=
  if (body.get "type").isStr "OrderFilled" then
    match progress.bind OrderProgress.vwap with
    | some vwap => .ok [.row "成交均价" (tick (fmtPx vwap))]
    | none => (body.get "last_px").toFloat.map fun
      | some px => [.row "成交价" (tick (fmtPx px))]
      | none => []
  else .ok []

def jsonBlock (text : String) (n : ℕ) : Line :=
  .plain ("```json\n" ++ String.ofList (text.toList.take n) ++ "\n```")

/-- The rows of an event, its JSON when there are none. -/
def orJson (body : Value) (rows : List Line) : Except PyError (List Line) :=
  if rows = [] then (py.dumps body).map fun text => [jsonBlock text 1200] else .ok rows

/-- The rows of an order event, from its price and progress rows. -/
def orderRows (body : Value) (progress : Option OrderProgress) (price progressRows : List Line) :
    List Line :=
  let side := (orderSide py body progress).toList.map fun s => Line.row "方向" (tick (sideZh s))
  fieldRow py "策略" (body.get "strategy_id") ++ fieldRow py "标的" (body.get "instrument_id") ++
    side ++ fmtInstruction py body progress ++ fmtPrices py body ++ price ++
    fieldRow py "状态" (body.get "status") ++ progressRows ++
    fieldRow py "订单号" (body.get "client_order_id")

def fmtOrder (body : Value) (progress : Option OrderProgress) : Except PyError (List Line) := do
  let price ← fmtFillPrice body progress
  let progressRows ← fmtProgress progress (body.get "type")
  orJson py body (orderRows py body progress price progressRows)

def rejectionFields : List String :=
  ["strategy_id", "instrument_id", "side", "order_type", "quantity", "price"]

def fmtRejection (body : Value) : Except PyError (List Line) :=
  let present (label field : String) : List Line :=
    ((body.lookup? field).map fun x => Line.row label (tick (py.str x))).toList
  orJson py body <|
    fieldRow py "原因" (body.get "reason") ++ rejectionFields.flatMap (fun k => present k k) ++
    present "id" "client_order_id"

def guessEventType (topic : String) (body : Value) : String :=
  if (body.get "type").truthy then py.str (body.get "type") else lastSegment '.' topic

def noisyKeys : List String := ["config", "event_id", "ts_init", "ts_event"]

def dropNoisyKeys : Value → Value
  | .dict kvs => .dict (kvs.filter fun kv => !noisyKeys.any (kv.1.isStr ·))
  | v => v

def describe (fmt : Formatters) (topic eventType : String) (body : Value)
    (progress : Option OrderProgress) : Except PyError (String × List Line) :=
  let text (title : String) (s : Except PyError String) := s.map fun s => (title, [Line.plain s])
  if rejectionEvents.contains eventType then
    (fmtRejection py body).map fun lines => ("⚠️ [订单被拒 · " ++ eventType ++ "]", lines)
  else if eventType = "ComponentStateChanged" then text (titleFor eventType) (fmt.component body)
  else if topic = "tinohelm.report.positions" then text "[持仓快照]" (fmt.positionsReport body)
  else if topic = "tinohelm.report.fills" then text "[成交记录]" (fmt.fillsReport body)
  else if topic = "tinohelm.report.orders" then text "[订单记录]" (fmt.ordersReport body)
  else if topic = "tinohelm.daily_summary" then text "[每日摘要]" (fmt.dailySummary body)
  else if startsWith topic "events.order." then
    (fmtOrder py body progress).map fun lines => (titleFor eventType, lines)
  else if startsWith topic "events.position." then text (titleFor eventType) (fmt.position body)
  else if startsWith topic "events.account." then text (titleFor eventType) (fmt.account body)
  else if startsWith topic "data.Signal" then text (titleFor eventType) (fmt.signal body)
  else (py.dumps (dropNoisyKeys body)).map fun s => (titleFor eventType, [jsonBlock s 1500])

def renderEmbed (fmt : Formatters) (env : EventEnvelope) (sourcePod : Option String)
    (tracker : Option OrderProgressTracker) : Except PyError Embed := do
  let body := if env.body.isDict then env.body else .dict [(.str "raw", env.body)]
  let eventType := guessEventType py env.topic body
  let progress ←
    match tracker with
    | none => .ok none
    | some t =>
      if (body.get "client_order_id").truthy then t.snapshot (body.get "client_order_id")
      else .ok none
  if env.topic = "tinohelm.message" then fmt.customMessage body sourcePod
  else
    let (title, lines) ← describe py fmt env.topic eventType body progress
    let pod := sourcePod.toList.filter (· ≠ "") |>.map fun pod =>
      Line.plain ("_pod: " ++ tick pod ++ "_")
    return {
      title
      lines := lines ++ pod
      color := .int ((colorMap.lookup eventType).getD 0x99AAB5)
      footer := some env.topic }

/-- With an order id there is a row to show, so nothing falls back to JSON. -/
theorem fmtOrder_of_coid {body : Value} (h : (body.get "client_order_id").truthy = true)
    (progress : Option OrderProgress) :
    fmtOrder py body progress =
      (fmtFillPrice body progress >>= fun price =>
        (fmtProgress progress (body.get "type")).map (orderRows py body progress price)) := by
  have hrow : ∀ price progressRows, orderRows py body progress price progressRows ≠ [] := by
    intro price progressRows
    simp [orderRows, fieldRow, h]
  unfold fmtOrder
  congr 1
  funext price
  cases fmtProgress progress (body.get "type") with
  | error e => rfl
  | ok rows => simp [orJson, hrow, Except.map]

/-- The price row that is shown when the price does not raise. -/
def fillPriceRows (body : Value) (progress : Option OrderProgress) : List Line :=
  if (body.get "type").isStr "OrderFilled" then
    match progress.bind OrderProgress.vwap, OrderProgressTracker.numField body "last_px" with
    | some vwap, _ => [.row "成交均价" (tick (fmtPx vwap))]
    | none, some px => [.row "成交价" (tick (fmtPx px))]
    | none, none => []
  else []

theorem fmtFillPrice_eq_ok {body : Value} {progress : Option OrderProgress} {price : List Line}
    (h : fmtFillPrice body progress = .ok price) : price = fillPriceRows body progress := by
  unfold fmtFillPrice at h
  unfold fillPriceRows
  split_ifs at h ⊢
  · cases hv : progress.bind OrderProgress.vwap with
    | some vwap =>
      rw [hv] at h
      exact (Except.ok.inj h).symm
    | none =>
      rw [hv] at h
      obtain ⟨px, hpx, rfl⟩ := map_eq_ok.1 h
      rw [OrderProgressTracker.numField_of_ok hpx]
      cases px <;> rfl
  · exact (Except.ok.inj h).symm

/-- An event on an order topic is rendered by `_fmt_order`, with the slot of its order. -/
theorem renderEmbed_order (fmt : Formatters) {topic eventType : String} {body : Value}
    {k : HashKey} (t : OrderProgressTracker) (ht : startsWith topic "events.order." = true)
    (hk : OrderProgressTracker.orderKey body = .ok (some k))
    (htype : body.get "type" = .str eventType)
    (hne : eventType ∉ "" :: "ComponentStateChanged" :: rejectionEvents) :
    renderEmbed py fmt ⟨topic, body⟩ none (some t) =
      (fmtOrder py body (t.slot k)).map fun lines =>
        ⟨titleFor eventType, lines, .int ((colorMap.lookup eventType).getD 0x99AAB5), some topic⟩ := by
  obtain ⟨hd, hc, hh⟩ := OrderProgressTracker.orderKey_eq_some hk
  simp only [List.mem_cons, not_or] at hne
  have htopic : ∀ s, startsWith s "events.order." = false → topic ≠ s := by
    rintro s hs rfl
    simp [hs] at ht
  have hguess : guessEventType py topic body = eventType := by
    simp [guessEventType, htype, hne.1, py.str_str]
  have hrej : rejectionEvents.contains eventType = false := by
    simpa using hne.2.2
  have hdesc : describe py fmt topic eventType body (t.slot k) =
      (fmtOrder py body (t.slot k)).map fun lines => (titleFor eventType, lines) := by
    simp only [describe, hrej, hne.2.1, ht, htopic "tinohelm.report.positions" (by decide),
      htopic "tinohelm.report.fills" (by decide), htopic "tinohelm.report.orders" (by decide),
      htopic "tinohelm.daily_summary" (by decide), if_true, if_false, Bool.false_eq_true]
  simp only [renderEmbed, hd, hc, hguess, htopic "tinohelm.message" (by decide), if_true, if_false,
    OrderProgressTracker.snapshot, hh]
  change (describe py fmt topic eventType body (t.slot k) >>= _) = _
  rw [hdesc]
  cases fmtOrder py body (t.slot k) with
  | error e => rfl
  | ok lines => simp [Except.map]

end

/-- `str()` of strings, for orders that show nothing else. -/
def plainText : PyText where
  str
    | .str s => s
    | _ => ""
  str_str _ := rfl
  dumps _ := .error .typeError

def noFormatters : Formatters where
  customMessage _ _ := .error .typeError
  component _ := .error .typeError
  positionsReport _ := .error .typeError
  fillsReport _ := .error .typeError
  ordersReport _ := .error .typeError
  dailySummary _ := .error .typeError
  position _ := .error .typeError
  account _ := .error .typeError
  signal _ := .error .typeError

end TinoHelm
