import Mathlib.Algebra.BigOperators.Group.List.Basic
import TinoHelm.Proofs.TotalRendering

/-! Embed limits: which embeds keep to the 4096 characters of a description and the 256 of
a title. What is sliced always fits; the rest is counted, branch by branch, from the
lengths of the values it shows. -/

namespace TinoHelm
open Base

/-- A row and its newline, from the lengths of its texts. -/
def rowSize (label : String) (value : ℕ) : ℕ := label.length + value + 9

section
variable (py : PyText)

def valueSize (x : Value) : ℕ := (py.str x).length

def fieldSize (label : String) (x : Value) : ℕ :=
  if x.truthy then rowSize label (valueSize py x) else 0

def presentSize (body : Value) (label field : String) (size : Value → ℕ) : ℕ :=
  match body.lookup? field with
  | none => 0
  | some x => rowSize label (size x)

def rejectionSize (body : Value) : ℕ :=
  fieldSize py "原因" (body.get "reason") +
    (rejectionFields.map fun k => presentSize body k k (valueSize py)).sum +
    presentSize body "id" "client_order_id" (valueSize py)

def positionSize (body : Value) : ℕ :=
  (positionLabels.map fun l => presentSize body l.2 l.1 fun x =>
    if l.1 = "side" then (sideZh (py.str x)).length else valueSize py x).sum

def sideSize (body : Value) (progress : Option OrderProgress) : ℕ :=
  match orderSide py body progress with
  | none => 0
  | some side => rowSize "方向" (sideZh side).length

def instructionSize (body : Value) (progress : Option OrderProgress) : ℕ :=
  if instructionParts py body progress = [] then 0
  else ((instructionParts py body progress).map fun p => p.length + 5).sum + 6

def pricesSize (body : Value) : ℕ :=
  let opts := orderOptions body
  let price := orElse (body.get "price") (opts.get "price")
  let trigger := opts.get "trigger_price"
  let triggerType := opts.get "trigger_type"
  (if price.isNone then 0 else rowSize "限价" (valueSize py price)) +
  (if trigger.isNone then 0
    else rowSize "止损触发" (valueSize py trigger) +
      if triggerType.truthy then valueSize py triggerType + 3 else 0)

/-- The characters of a price, and of a share with the marks around it. -/
def pxWidth (x : PyFloat) : ℕ := signedWidth (generalWidth 8) x

def shareWidth (x : PyFloat) : ℕ := signedWidth (fixedWidth 1) x + 4

/-- The characters of a quantity, whole ones in full. -/
def qtyWidth : PyFloat → ℕ
  | .fin q =>
    if q.den = 1 then digitCount q.num.natAbs + if q.num < 0 then 1 else 0
    else signedWidth (generalWidth 6) (.fin q)
  | .negZero => 1
  | .inf _ | .nan => 0

/-- The average of what the slot has summed up, else the fill's own price. -/
def fillPriceSize (body : Value) (progress : Option OrderProgress) : ℕ :=
  if (body.get "type").isStr "OrderFilled" then
    match progress.filter fun p => !p.qtyFilled.isZero,
        OrderProgressTracker.numField body "last_px" with
    | some p, _ => rowSize "成交均价" (pxWidth (p.notional / p.qtyFilled))
    | none, some px => rowSize "成交价" (pxWidth px)
    | none, none => 0
  else 0

def progressSize (progress : Option OrderProgress) (eventType : Value) : ℕ :=
  match progress with
  | none => 0
  | some p =>
    match p.qtyTotal with
    | none => 0
    | some total =>
      let share := if total.isZero then 0 else shareWidth (p.qtyFilled / total * .fin 100)
      if eventType.isStr "OrderCanceled" then
        rowSize "最终成交" (qtyWidth p.qtyFilled + qtyWidth total + share + 5) +
          rowSize "未成交(已撤)" (qtyWidth (total - p.qtyFilled))
      else if eventType.isStr "OrderFilled" && 0 < p.qtyFilled then
        rowSize "成交" (qtyWidth p.qtyFilled + qtyWidth total + share + 5 +
          if 1 < p.fillCount then digitCount p.fillCount + 7 else 0)
      else 0

def orderSize (body : Value) (progress : Option OrderProgress) : ℕ :=
  fieldSize py "策略" (body.get "strategy_id") + fieldSize py "标的" (body.get "instrument_id") +
    sideSize py body progress + instructionSize py body progress + pricesSize py body +
    fillPriceSize body progress + fieldSize py "状态" (body.get "status") +
    progressSize progress (body.get "type") + fieldSize py "订单号" (body.get "client_order_id")

def balanceSize (bal : Value) : ℕ :=
  (["currency", "total", "locked", "free"].map fun k => (textOr py bal k "?").length).sum + 32

def accountSize (body : Value) : ℕ :=
  match body.lookup? "balances" with
  | none => 0
  | some (.list balances) => ((balances.take 8).map (balanceSize py)).sum + 13
  | some _ => 13

def signalSize (body : Value) : ℕ :=
  (textOr py body "name" "?").length +
    valueSize py (body.getOr "value" (body.getOr "data" (.str "?"))) + 27

def dailySummarySize (body : Value) : ℕ :=
  match body.lookup? "note" with
  | some note => valueSize py note + 3
  | none =>
    (["positions_open", "positions_closed", "orders_open", "redis_streams_seen"].map fun k =>
      (countOf py body k).length).sum + 56

def componentSize (body : Value) : ℕ :=
  let state := textOr py body "state" "?"
  let componentId := body.getOr "component_id" (.str "?")
  let componentType := body.getOr "component_type" (.str "?")
  ((componentStateEmoji.lookup state).getD "▫️").length + valueSize py componentId +
    (if componentId.eq componentType then 0 else valueSize py componentType + 3) +
    state.length + (if (body.get "trader_id").truthy then valueSize py (body.get "trader_id") + 13
      else 0) + 11

def amountsSize : Value → ℕ
  | .dict kvs => if kvs = [] then 3 else (kvs.map fun kv => valueSize py kv.2 + 5).sum - 3
  | _ => 3

def venueSize (venue blocks : Value) : ℕ :=
  if blocks.isDict then
    valueSize py venue + amountsSize py (blocks.get "realized") +
      amountsSize py (blocks.get "unrealized") + amountsSize py (blocks.get "net_exposure") + 22
  else 0

def accountPnlSize : Value → ℕ
  | .dict kvs => if kvs = [] then 0 else (kvs.map fun kv => venueSize py kv.1 kv.2).sum + 11
  | _ => 0

end

section
variable (wide : Char → Bool)

def wideCount (text : String) : ℕ := text.toList.countP wide

/-- The width of a column's widest text, in which a wide character counts twice. -/
def columnWidth (c : ShownColumn) (records : List (List String)) : ℕ :=
  ((c.label :: records.map c.cell).map fun text => text.length + wideCount wide text).foldr max 0

/-- The characters of a table: its lines are as long as its columns are wide, but a wide
character takes the place of two. -/
def tableSize (shown : List ShownColumn) (records : List (List String)) : ℕ :=
  (records.length + 2) * (shown.map fun c => columnWidth wide c records + 2).sum -
    (shown.map fun c => wideCount wide c.label).sum -
    (records.map fun r => (shown.map fun c => wideCount wide (c.cell r)).sum).sum -
    (records.length + 3)

def moreRowsSize (n : ℕ) : ℕ :=
  if positionsTableMaxRows < n then digitCount (n - positionsTableMaxRows) + 12 else 0

def reportContentSize (style : ReportStyle) (body : Value) : ℕ :=
  if !(reportCsv body).truthy then style.nothing.length
  else
    match csvRecords (reportCsv body) with
    | .error _ => 0
    | .ok [] => style.unparsable.length
    | .ok (columns :: dataRows) =>
      if style.shown columns = [] then 25
      else
        tableSize wide (style.shown columns) (dataRows.take positionsTableMaxRows) +
          moreRowsSize dataRows.length + 8

def reportSize (py : PyText) (style : ReportStyle) (body : Value) : ℕ :=
  valueSize py (body.getOr "strategy_id" (.str "?")) +
    valueSize py (body.getOr "row_count" (.int 0)) + reportContentSize wide style body + 27

/-- The description and a newline, of what is not sliced. -/
def Branch.size (py : PyText) (body : Value) (progress : Option OrderProgress) : Branch → ℕ
  | .rejection => rejectionSize py body
  | .component => componentSize py body
  | .positionsReport =>
    reportSize wide py positionsStyle body + accountPnlSize py (body.get "account_pnl")
  | .fillsReport => reportSize wide py fillsStyle body
  | .ordersReport => reportSize wide py ordersStyle body
  | .dailySummary => dailySummarySize py body
  | .order => orderSize py body progress
  | .position => positionSize py body
  | .account => accountSize py body
  | .signal => signalSize py body
  | .other => 0

end

def linesSize (lines : List Line) : ℕ := (lines.map fun l => l.text.length + 1).sum

@[simp] theorem linesSize_nil : linesSize [] = 0 := rfl

@[simp] theorem linesSize_append (a b : List Line) :
    linesSize (a ++ b) = linesSize a + linesSize b := by
  simp [linesSize]

@[simp] theorem linesSize_plain (s : String) : linesSize [.plain s] = s.length + 1 := by
  simp [linesSize, Line.text]

theorem description_length_le_iff (e : Embed) (n : ℕ) :
    e.description.length ≤ n ↔ linesSize e.lines ≤ n + 1 := by
  by_cases h : e.lines = []
  · simp [Embed.description, h]
  · have hlen : e.description.length + 1 = linesSize e.lines := by
      have hl := length_intercalate "\n" (l := e.lines.map Line.text) (by simpa using h)
      rwa [List.map_map] at hl
    omega

@[simp] theorem length_tick (s : String) : (tick s).length = s.length + 2 := by
  simp [tick, ← String.length_toList]

theorem linesSize_row (label text : String) :
    linesSize [.row label text] = label.length + text.length + 7 := by
  simp [linesSize, Line.text, ← String.length_toList]
  omega

@[simp] theorem linesSize_tick (label text : String) :
    linesSize [.row label (tick text)] = rowSize label text.length := by
  rw [linesSize_row, length_tick, rowSize]
  omega

theorem linesSize_jsonBlock (text : String) (n : ℕ) : linesSize [jsonBlock text n] ≤ n + 13 := by
  have hlen : (String.ofList (text.toList.take n)).length ≤ n := by
    simp [String.length_ofList]
  simp only [linesSize, jsonBlock, Line.text, List.map_cons, List.map_nil, List.sum_cons,
    List.sum_nil, String.length_append]
  change 8 + _ + 4 + 1 + 0 ≤ _
  omega

section
variable {py : PyText}

theorem orJson_fits_iff {body : Value} {rows lines : List Line}
    (h : orJson py body rows = .ok lines) : linesSize lines ≤ 4097 ↔ linesSize rows ≤ 4097 := by
  unfold orJson at h
  split_ifs at h with hr
  · obtain ⟨text, -, rfl⟩ := map_eq_ok.1 h
    rw [hr, linesSize_nil]
    exact iff_of_true ((linesSize_jsonBlock text 1200).trans (by decide)) (by decide)
  · rw [Except.ok.inj h]

theorem orJson_ne_nil {body : Value} {rows lines : List Line}
    (h : orJson py body rows = .ok lines) : lines ≠ [] := by
  unfold orJson at h
  split_ifs at h with hr
  · obtain ⟨text, -, rfl⟩ := map_eq_ok.1 h
    exact List.cons_ne_nil _ _
  · rwa [← Except.ok.inj h]

theorem linesSize_fieldRow (label : String) (x : Value) :
    linesSize (fieldRow py label x) = fieldSize py label x := by
  unfold fieldRow fieldSize valueSize
  split_ifs
  · exact linesSize_tick label _
  · rfl

theorem linesSize_flatMap {α : Type} (f : α → List Line) (l : List α) :
    linesSize (l.flatMap f) = (l.map fun a => linesSize (f a)).sum := by
  rw [linesSize, List.map_flatMap, List.flatMap_def, List.sum_flatten, List.map_map]
  rfl

theorem fmtRejection_fits_iff {body : Value} {lines : List Line}
    (h : fmtRejection py body = .ok lines) :
    linesSize lines ≤ 4097 ↔ rejectionSize py body ≤ 4097 := by
  have hpresent (label field : String) :
      linesSize ((body.lookup? field).map fun x => Line.row label (tick (py.str x))).toList =
        presentSize body label field (valueSize py) := by
    unfold presentSize valueSize
    cases body.lookup? field with
    | none => rfl
    | some x => exact linesSize_tick label _
  rw [orJson_fits_iff h, rejectionSize]
  simp only [linesSize_append, linesSize_fieldRow, linesSize_flatMap, hpresent]

theorem linesSize_joinRows (rows : List Line) (h : rows ≠ []) :
    linesSize [.plain (joinRows rows)] = linesSize rows := by
  have hl := length_intercalate "\n" (l := rows.map Line.text) (by simpa using h)
  rw [List.map_map] at hl
  exact (linesSize_plain _).trans hl

theorem fmtPosition_fits_iff {body : Value} {text : String}
    (h : fmtPosition py body = .ok text) :
    linesSize [.plain text] ≤ 4097 ↔ positionSize py body ≤ 4097 := by
  have hrow (l : String × String) : linesSize (positionRow py body l.1 l.2) =
      presentSize body l.2 l.1 fun x =>
        if l.1 = "side" then (sideZh (py.str x)).length else valueSize py x := by
    unfold positionRow presentSize valueSize
    cases body.lookup? l.1 with
    | none => rfl
    | some x =>
      dsimp only
      rw [linesSize_tick]
      split_ifs <;> rfl
  obtain ⟨rows, hrows, rfl⟩ := map_eq_ok.1 h
  rw [linesSize_joinRows rows (orJson_ne_nil hrows), orJson_fits_iff hrows, positionSize,
    linesSize_flatMap]
  simp only [hrow]

/-! Orders. -/

theorem linesSize_side (body : Value) (progress : Option OrderProgress) :
    linesSize ((orderSide py body progress).toList.map fun s => Line.row "方向" (tick (sideZh s))) =
      sideSize py body progress := by
  unfold sideSize
  cases orderSide py body progress with
  | none => rfl
  | some side => exact linesSize_tick _ _

/-- Values in backticks with dots between them. -/
theorem length_intercalate_tick {parts : List String} (h : parts ≠ []) :
    (" · ".intercalate (parts.map tick)).length + 3 = (parts.map fun p => p.length + 5).sum := by
  have hl := length_intercalate " · " (l := parts.map tick) (by simpa using h)
  rw [List.map_map] at hl
  refine hl.trans (congrArg List.sum (List.map_congr_left fun p _ => ?_))
  rw [Function.comp_apply, length_tick]
  rfl

theorem linesSize_instruction (body : Value) (progress : Option OrderProgress) :
    linesSize (fmtInstruction py body progress) = instructionSize py body progress := by
  unfold fmtInstruction instructionSize
  dsimp only
  split_ifs with h
  · rfl
  · have hl := length_intercalate_tick h
    rw [linesSize_row, ← hl]
    change 2 + _ + 7 = _ + 3 + 6
    omega

theorem linesSize_prices (body : Value) : linesSize (fmtPrices py body) = pricesSize py body := by
  unfold fmtPrices pricesSize valueSize
  dsimp only
  rw [linesSize_append]
  congr 1
  · split_ifs
    · rfl
    · exact linesSize_tick _ _
  · split_ifs
    · rfl
    · rw [linesSize_row, String.length_append, length_tick, rowSize]
      simp only [String.length_append]
      change _ + (_ + 2 + (2 + _ + 1)) + 7 = _
      omega
    · rw [linesSize_row, String.length_append, length_tick, rowSize]
      change _ + (_ + 2 + 0) + 7 = _
      omega

theorem linesSize_fillPrice {body : Value} {progress : Option OrderProgress} {rows : List Line}
    (h : fmtFillPrice body progress = .ok rows) :
    linesSize rows = fillPriceSize body progress := by
  have hrow (label : String) (x : PyFloat) :
      linesSize [.row label (tick (fmtPx x))] = rowSize label (pxWidth x) := by
    rw [linesSize_tick, fmtPx, length_formatG (by norm_num), pxWidth]
  have hvwap : progress.bind OrderProgress.vwap =
      (progress.filter fun p => !p.qtyFilled.isZero).map fun p => p.notional / p.qtyFilled := by
    cases progress with
    | none => rfl
    | some p => cases hz : p.qtyFilled.isZero <;> simp [OrderProgress.vwap, hz]
  rw [fmtFillPrice_eq_ok h, fillPriceRows, fillPriceSize, hvwap]
  split_ifs
  · cases progress.filter fun p => !p.qtyFilled.isZero with
    | some p => exact hrow _ _
    | none =>
      cases OrderProgressTracker.numField body "last_px" with
      | none => rfl
      | some px => exact hrow _ _
  · rfl

theorem length_fmtQty {x : PyFloat} {text : String} (h : fmtQty x = .ok text) :
    text.length = qtyWidth x := by
  cases x with
  | fin q =>
    rw [← Except.ok.inj h, qtyWidth]
    by_cases hq : q.den = 1
    · rw [if_pos hq, if_pos hq]
      exact length_toString q.num
    · rw [if_neg hq, if_neg hq]
      exact length_formatG (by norm_num) _
  | negZero =>
    rw [← Except.ok.inj h]
    rfl
  | inf _ | nan => cases h

theorem length_pctText {p : OrderProgress} {total : PyFloat} (h : p.qtyTotal = some total) :
    (pctText p).length =
      if total.isZero then 0 else shareWidth (p.qtyFilled / total * .fin 100) := by
  unfold pctText OrderProgress.pct
  rw [h]
  dsimp only
  split_ifs
  · rfl
  · rw [String.length_append, String.length_append, length_formatF, shareWidth]
    change 2 + _ + 2 = _
    omega

theorem length_natString (n : ℕ) : (toString n).length = digitCount n := by
  rw [← length_toDigits, ← String.length_toList]
  exact congrArg List.length Nat.toList_repr

theorem linesSize_fraction (label filled total rest : String) :
    linesSize [.row label (tick filled ++ " / " ++ tick total ++ rest)] =
      rowSize label (filled.length + total.length + rest.length + 5) := by
  rw [linesSize_row, rowSize]
  simp only [String.length_append, length_tick]
  change _ + (_ + 2 + 3 + (_ + 2) + _) + 7 = _
  omega

theorem linesSize_progress {progress : Option OrderProgress} {eventType : Value}
    {rows : List Line} (h : fmtProgress progress eventType = .ok rows) :
    linesSize rows = progressSize progress eventType := by
  unfold progressSize
  cases progress with
  | none =>
    obtain rfl := Except.ok.inj h
    rfl
  | some p =>
    dsimp only
    cases htotal : p.qtyTotal with
    | none =>
      simp only [fmtProgress, htotal] at h
      obtain rfl := Except.ok.inj h
      rfl
    | some total =>
      dsimp only
      rw [← length_pctText htotal]
      by_cases hc : eventType.isStr "OrderCanceled" = true
      · rw [fmtProgress_cancel htotal hc] at h
        obtain ⟨filled, hfilled, h⟩ := bind_eq_ok.1 h
        obtain ⟨qty, hqtyTotal, h⟩ := bind_eq_ok.1 h
        obtain ⟨rem, hrem, h⟩ := bind_eq_ok.1 h
        rw [if_pos hc, ← Except.ok.inj h, ← length_fmtQty hfilled, ← length_fmtQty hqtyTotal,
          ← length_fmtQty hrem, ← linesSize_fraction, ← linesSize_tick, ← linesSize_append]
        rfl
      rw [if_neg hc]
      by_cases hf : eventType.isStr "OrderFilled" = true ∧ 0 < p.qtyFilled
      · rw [fmtProgress_fill htotal hf.1 hf.2] at h
        obtain ⟨filled, hfilled, h⟩ := bind_eq_ok.1 h
        obtain ⟨qty, hqtyTotal, h⟩ := bind_eq_ok.1 h
        rw [if_pos (by simpa using hf), ← Except.ok.inj h, ← length_fmtQty hfilled,
          ← length_fmtQty hqtyTotal, String.append_assoc, linesSize_fraction, String.length_append]
        refine congrArg (rowSize _) ?_
        split_ifs with hcount
        · rw [← length_natString]
          simp only [String.length_append]
          change _ + _ + (_ + (5 + _ + 2)) + 5 = _
          omega
        · rfl
      · rw [fmtProgress_other htotal hc hf] at h
        rw [if_neg (by simpa using hf), ← Except.ok.inj h]
        rfl

theorem fmtOrder_fits_iff {body : Value} {progress : Option OrderProgress} {lines : List Line}
    (h : fmtOrder py body progress = .ok lines) :
    linesSize lines ≤ 4097 ↔ orderSize py body progress ≤ 4097 := by
  unfold fmtOrder at h
  obtain ⟨price, hprice, h⟩ := bind_eq_ok.1 h
  obtain ⟨progressRows, hprogress, h⟩ := bind_eq_ok.1 h
  rw [orJson_fits_iff h, orderSize, orderRows]
  simp only [linesSize_append, linesSize_fieldRow, linesSize_side, linesSize_instruction,
    linesSize_prices, linesSize_fillPrice hprice, linesSize_progress hprogress]

/-! The texts of the other topics. -/

theorem length_balanceLine {bal : Value} {line : String} (h : balanceLine py bal = .ok line) :
    line.length + 1 = balanceSize py bal := by
  unfold balanceLine at h
  split_ifs at h
  rw [← Except.ok.inj h]
  simp only [String.length_append, length_tick, balanceSize, List.map_cons, List.map_nil,
    List.sum_cons, List.sum_nil]
  change 2 + _ + 7 + _ + 8 + _ + 6 + _ + 1 = _
  omega

theorem length_balances {balances : List Value} {lines : List String}
    (h : balances.mapM (balanceLine py) = .ok lines) :
    (lines.map fun l => l.length + 1).sum = (balances.map (balanceSize py)).sum := by
  induction balances generalizing lines with
  | nil =>
    obtain rfl := Except.ok.inj h
    rfl
  | cons bal balances ih =>
    rw [List.mapM_cons] at h
    obtain ⟨line, hline, h⟩ := bind_eq_ok.1 h
    obtain ⟨rest, hrest, h⟩ := bind_eq_ok.1 h
    obtain rfl := Except.ok.inj h
    rw [List.map_cons, List.map_cons, List.sum_cons, List.sum_cons, ih hrest,
      length_balanceLine hline]

theorem fmtAccount_fits_iff {body : Value} {text : String} (h : fmtAccount py body = .ok text) :
    linesSize [.plain text] ≤ 4097 ↔ accountSize py body ≤ 4097 := by
  unfold fmtAccount at h
  unfold accountSize
  cases hb : body.lookup? "balances" with
  | none =>
    rw [hb] at h
    obtain ⟨json, -, rfl⟩ := map_eq_ok.1 h
    exact iff_of_true ((linesSize_jsonBlock json 1200).trans (by decide)) (Nat.zero_le _)
  | some balances =>
    rw [hb] at h
    obtain ⟨items, hitems, h⟩ := bind_eq_ok.1 h
    obtain ⟨lines, hlines, h⟩ := bind_eq_ok.1 h
    obtain rfl := Except.ok.inj h
    have hlen : linesSize [.plain ("\n".intercalate ("**balances**" :: lines))] =
        (items.map (balanceSize py)).sum + 13 := by
      rw [linesSize_plain, ← length_balances hlines]
      have hl := length_intercalate "\n" (l := "**balances**" :: lines) (by simp)
      rw [List.map_cons, List.sum_cons] at hl
      exact hl.trans (Nat.add_comm _ _)
    rw [hlen]
    have hr : BalancesReadable balances :=
      (firstEight_returns_iff py balances).1 ⟨lines, bind_eq_ok.2 ⟨items, hitems, hlines⟩⟩
    cases balances with
    | list xs =>
      obtain rfl := Except.ok.inj hitems
      rfl
    | str s =>
      obtain rfl : s = "" := hr
      obtain rfl := Except.ok.inj hitems
      rfl
    | bytes b =>
      obtain rfl := Except.ok.inj hitems
      rw [show b.toList = [] from hr]
      rfl
    | _ => cases hitems

theorem length_fmtSignal (body : Value) :
    (fmtSignal py body).length + 1 = signalSize py body := by
  simp only [fmtSignal, signalSize, valueSize, String.length_append, length_tick]
  change 10 + _ + 12 + _ + 1 = _
  omega

theorem length_fmtDailySummary (body : Value) :
    (fmtDailySummary py body).length + 1 = dailySummarySize py body := by
  unfold fmtDailySummary dailySummarySize
  cases body.lookup? "note" with
  | some note =>
    simp only [String.length_append]
    change 1 + _ + 1 + 1 = _
    rw [valueSize]
    omega
  | none =>
    simp only [String.length_append, List.map_cons, List.map_nil, List.sum_cons, List.sum_nil]
    change 18 + _ + 11 + _ + 11 + _ + 14 + _ + 1 + 1 = _
    omega

theorem length_componentHead (body : Value) :
    (componentHead py body).length =
      valueSize py (body.getOr "component_id" (.str "?")) +
        (if (body.getOr "component_id" (.str "?")).eq (body.getOr "component_type" (.str "?")) then 0
          else valueSize py (body.getOr "component_type" (.str "?")) + 3) + 4 := by
  unfold componentHead valueSize
  dsimp only
  split_ifs
  · simp only [String.length_append]
    change 2 + _ + 2 + 0 = _
    omega
  · simp only [String.length_append]
    change 2 + _ + 2 + (2 + _ + 1) = _
    omega

theorem length_fmtComponent (body : Value) :
    (fmtComponent py body).length + 1 = componentSize py body := by
  unfold fmtComponent componentSize
  dsimp only
  simp only [String.length_append, length_componentHead]
  by_cases ht : (body.get "trader_id").truthy = true
  · rw [if_pos ht, if_pos ht, String.length_append, String.length_append, length_tick, length_tick]
    simp only [valueSize]
    change _ + 1 + _ + 3 + _ + (10 + _ + 1) + 1 = _
    omega
  · rw [if_neg ht, if_neg ht, length_tick]
    change _ + 1 + _ + 3 + _ + 0 + 1 = _
    omega

theorem length_amounts (x : Value) : (amounts py x).length = amountsSize py x := by
  cases x with
  | dict kvs =>
    simp only [amounts, amountsSize, valueSize]
    split_ifs with h
    · rfl
    · have hne : (kvs.map fun kv => py.str kv.2) ≠ [] := by simpa using h
      have hl := length_intercalate_tick hne
      rw [List.map_map, List.map_map] at hl
      exact Nat.eq_sub_of_add_eq hl
  | _ =>
    simp only [amounts, amountsSize]
    rfl

theorem length_venueLines (venue blocks : Value) :
    ((venueLines py venue blocks).map fun l => l.length + 1).sum = venueSize py venue blocks := by
  unfold venueLines venueSize valueSize
  split_ifs
  · simp only [List.map_cons, List.map_nil, List.sum_cons, List.sum_nil, String.length_append,
      length_amounts]
    change 2 + _ + 2 + 1 + (5 + _ + 1 + (4 + _ + 1 + (5 + _ + 1 + 0))) = _
    omega
  · rfl

theorem length_fmtAccountPnl (x : Value) :
    (fmtAccountPnl py x).length = accountPnlSize py x := by
  cases x with
  | dict kvs =>
    simp only [fmtAccountPnl, accountPnlSize]
    split_ifs with h
    · rfl
    · have hl := length_intercalate "\n"
        (l := "\n── 账户汇总 ──" :: kvs.flatMap fun kv => venueLines py kv.1 kv.2) (by simp)
      have hvenues : ((kvs.flatMap fun kv => venueLines py kv.1 kv.2).map
          fun l : String => l.length + 1).sum = (kvs.map fun kv => venueSize py kv.1 kv.2).sum := by
        rw [List.map_flatMap, List.flatMap_def, List.sum_flatten, List.map_map]
        simp only [Function.comp_def, length_venueLines]
      rw [List.map_cons, List.sum_cons] at hl
      change _ + 1 = 11 + 1 + _ at hl
      rw [show ((kvs.flatMap fun kv => venueLines py kv.1 kv.2).map
          fun l : String => l.length + "\n".length).sum = _ from hvenues] at hl
      omega
  | _ =>
    simp only [fmtAccountPnl, accountPnlSize]
    rfl

end

/-! Tables. -/

section
variable (wide : Char → Bool)

theorem displayWidth_eq (text : String) :
    displayWidth wide text = text.length + wideCount wide text := by
  unfold displayWidth wideCount
  rw [← String.length_toList]
  induction text.toList with
  | nil => rfl
  | cons c cs ih =>
    rw [List.map_cons, List.sum_cons, ih, List.countP_cons, List.length_cons]
    split_ifs <;> omega

/-- A padded cell is as long as its column is wide, less its wide characters. -/
theorem length_pad {text : String} {width : ℕ} (h : displayWidth wide text ≤ width) :
    (pad wide text width).length + wideCount wide text = width := by
  rw [displayWidth_eq] at h
  simp only [pad, String.length_append, String.length_ofList, List.length_replicate,
    displayWidth_eq]
  omega

theorem length_pad_rule (width : ℕ) : (pad wide (rule width) width).length = width := by
  have hrule : (rule width).length = width := by
    simp [rule, String.length_ofList]
  simp only [pad, String.length_append, String.length_ofList, List.length_replicate,
    displayWidth_eq, hrule]
  omega

theorem widen_map {α : Type} (l : List α) (f : α → ℕ) (g : α → String) :
    widen wide (l.map f) (l.map g) = l.map fun a => max (f a) (displayWidth wide (g a)) := by
  induction l with
  | nil => rfl
  | cons a l ih => rw [List.map_cons, List.map_cons, widen, ih, List.map_cons]

theorem foldl_widen_map {α : Type} (l : List α) (cell : α → List String → String)
    (records : List (List String)) (f : α → ℕ) :
    (records.map fun r => l.map fun a => cell a r).foldl (widen wide) (l.map f) =
      l.map fun a => (records.map fun r => displayWidth wide (cell a r)).foldl max (f a) := by
  induction records generalizing f with
  | nil => rfl
  | cons r records ih => rw [List.map_cons, List.foldl_cons, widen_map, ih]; rfl

theorem le_foldl_max (l : List ℕ) (n : ℕ) : n ≤ l.foldl max n ∧ ∀ m ∈ l, m ≤ l.foldl max n := by
  induction l generalizing n with
  | nil => simp
  | cons a l ih =>
    obtain ⟨hn, hl⟩ := ih (max n a)
    rw [List.foldl_cons, List.forall_mem_cons]
    exact ⟨(le_max_left n a).trans hn, (le_max_right n a).trans hn, hl⟩

theorem foldl_max_eq (l : List ℕ) (n : ℕ) : l.foldl max n = max n (l.foldr max 0) := by
  induction l generalizing n with
  | nil => simp
  | cons a l ih => rw [List.foldl_cons, ih, List.foldr_cons, max_assoc]

theorem columnWidth_eq (c : ShownColumn) (records : List (List String)) :
    columnWidth wide c records =
      (records.map fun r => displayWidth wide (c.cell r)).foldl max (displayWidth wide c.label) := by
  rw [foldl_max_eq, columnWidth, List.map_cons, List.foldr_cons, List.map_map, displayWidth_eq]
  simp only [Function.comp_def, displayWidth_eq]

theorem widths_eq (shown : List ShownColumn) (records : List (List String)) :
    (records.map fun r => shown.map (·.cell r)).foldl (widen wide)
        ((shown.map ShownColumn.label).map (displayWidth wide)) =
      shown.map fun c => columnWidth wide c records := by
  rw [List.map_map]
  simp only [columnWidth_eq]
  exact foldl_widen_map wide shown ShownColumn.cell records _

/-- A line of a table, from what its padded cells lack of their columns. -/
theorem length_tableRow {shown : List ShownColumn} (hne : shown ≠ [])
    {widths : ShownColumn → ℕ} {cells : ShownColumn → String} (lack : ShownColumn → ℕ)
    (hpad : ∀ c ∈ shown, (pad wide (cells c) (widths c)).length + lack c = widths c)
    {line : String} (h : tableRow wide (shown.map widths) (shown.map cells) = .ok line) :
    line.length + 2 + (shown.map lack).sum = (shown.map fun c => widths c + 2).sum := by
  unfold tableRow at h
  rw [if_pos (by simp)] at h
  obtain rfl := Except.ok.inj h
  have hzip : List.zipWith (pad wide) (shown.map cells) (shown.map widths) =
      shown.map fun c => pad wide (cells c) (widths c) := by
    rw [List.zipWith_map, List.zipWith_self]
  have hl := length_intercalate "  "
    (l := List.zipWith (pad wide) (shown.map cells) (shown.map widths)) (by simpa [hzip] using hne)
  change _ + 2 = _ at hl
  rw [hl, hzip, List.map_map, ← List.sum_map_add]
  refine congrArg List.sum (List.map_congr_left fun c hc => ?_)
  have hc := hpad c hc
  change (pad wide (cells c) (widths c)).length + 2 + lack c = widths c + 2
  omega

theorem length_recordLines {shown : List ShownColumn} (hne : shown ≠ []) {widths : ShownColumn → ℕ}
    {records : List (List String)} {lines : List String}
    (hfit : ∀ r ∈ records, ∀ c ∈ shown, displayWidth wide (c.cell r) ≤ widths c)
    (h : (records.map fun r => shown.map (·.cell r)).mapM (tableRow wide (shown.map widths)) =
      .ok lines) :
    (lines.map fun l => l.length + 1).sum + records.length +
        (records.map fun r => (shown.map fun c => wideCount wide (c.cell r)).sum).sum =
      records.length * (shown.map fun c => widths c + 2).sum := by
  induction records generalizing lines with
  | nil =>
    obtain rfl := Except.ok.inj h
    simp
  | cons r records ih =>
    rw [List.forall_mem_cons] at hfit
    rw [List.map_cons, List.mapM_cons] at h
    obtain ⟨line, hline, h⟩ := bind_eq_ok.1 h
    obtain ⟨rest, hrest, h⟩ := bind_eq_ok.1 h
    obtain rfl := Except.ok.inj h
    have hlen := length_tableRow wide hne (fun c => wideCount wide (c.cell r))
      (fun c hc => length_pad wide (hfit.1 c hc)) hline
    have hih := ih hfit.2 hrest
    rw [List.length_cons, Nat.add_mul, Nat.one_mul, ← hih, ← hlen]
    simp only [List.map_cons, List.sum_cons]
    omega

theorem length_markdownTable {shown : List ShownColumn} (hne : shown ≠ [])
    {records : List (List String)} {table : String}
    (h : markdownTable wide (shown.map ShownColumn.label)
      (records.map fun r => shown.map (·.cell r)) = .ok table) :
    table.length = tableSize wide shown records := by
  unfold markdownTable at h
  rw [widths_eq] at h
  obtain ⟨lines, hlines, h⟩ := bind_eq_ok.1 h
  obtain rfl := Except.ok.inj h
  have hfit (c : ShownColumn) : displayWidth wide c.label ≤ columnWidth wide c records ∧
      ∀ r ∈ records, displayWidth wide (c.cell r) ≤ columnWidth wide c records := by
    obtain ⟨hlabel, hcells⟩ :=
      le_foldl_max (records.map fun r => displayWidth wide (c.cell r)) (displayWidth wide c.label)
    rw [columnWidth_eq]
    exact ⟨hlabel, fun r hr => hcells _ (List.mem_map_of_mem hr)⟩
  rw [List.mapM_cons, List.map_map, List.mapM_cons] at hlines
  obtain ⟨head, hhead, hlines⟩ := bind_eq_ok.1 hlines
  obtain ⟨tail, htail, hlines⟩ := bind_eq_ok.1 hlines
  obtain ⟨ruler, hruler, htail⟩ := bind_eq_ok.1 htail
  obtain ⟨rows, hrows, htail⟩ := bind_eq_ok.1 htail
  obtain rfl := Except.ok.inj htail
  obtain rfl := Except.ok.inj hlines
  have hheadLen := length_tableRow wide hne (fun c => wideCount wide c.label)
    (fun c _ => length_pad wide (hfit c).1) hhead
  have hrule : ∀ c ∈ shown, (pad wide (rule (columnWidth wide c records))
      (columnWidth wide c records)).length + 0 = columnWidth wide c records := by
    intro c _
    rw [length_pad_rule, Nat.add_zero]
  have hrulerLen := length_tableRow wide hne (fun _ => 0) hrule hruler
  have hrowsLen := length_recordLines wide hne (fun r hr c _ => (hfit c).2 r hr) hrows
  have htotal := length_intercalate "\n" (l := head :: ruler :: rows) (by simp)
  change _ + 1 = ((head :: ruler :: rows).map fun l => l.length + 1).sum at htotal
  simp only [List.map_cons, List.sum_cons] at htotal
  rw [tableSize, Nat.add_mul, ← hrowsLen]
  have hzero : (shown.map fun _ => 0).sum = 0 := by simp
  rw [hzero] at hrulerLen
  omega

theorem length_reportTable {shown : List ShownColumn} (hne : shown ≠ [])
    {dataRows : List (List String)} {text : String}
    (h : reportTable wide shown dataRows = .ok text) :
    text.length = tableSize wide shown (dataRows.take positionsTableMaxRows) +
      moreRowsSize dataRows.length + 8 := by
  have hmore (n : ℕ) : (moreRows n).length = moreRowsSize n := by
    unfold moreRows moreRowsSize
    split_ifs
    · rw [← length_natString]
      simp only [String.length_append]
      change 6 + _ + 6 = _
      omega
    · rfl
  unfold reportTable at h
  obtain ⟨table, htable, h⟩ := bind_eq_ok.1 h
  obtain rfl := Except.ok.inj h
  rw [← length_markdownTable wide hne htable, ← hmore]
  simp only [String.length_append]
  change 4 + _ + 4 + _ = _
  omega

theorem length_reportContent {style : ReportStyle} {body : Value} {text : String}
    (h : reportContent wide style body = .ok text) :
    text.length = reportContentSize wide style body := by
  unfold reportContent at h
  unfold reportContentSize
  split_ifs at h ⊢
  · rw [← Except.ok.inj h]
  · obtain ⟨records, hrecords, h⟩ := bind_eq_ok.1 h
    rw [hrecords]
    cases records with
    | nil => rw [← Except.ok.inj h]
    | cons columns dataRows =>
      dsimp only at h ⊢
      by_cases hshown : style.shown columns = []
      · rw [if_pos hshown] at h ⊢
        rw [← Except.ok.inj h]
        rfl
      · rw [if_neg hshown] at h ⊢
        exact length_reportTable wide hshown h

theorem length_reportHeader (py : PyText) {style : ReportStyle} (body : Value)
    (h : style.headNoun.length = 2) :
    (reportHeader py style body).length =
      valueSize py (body.getOr "strategy_id" (.str "?")) +
        valueSize py (body.getOr "row_count" (.int 0)) + 25 := by
  unfold reportHeader
  iterate 6 rw [String.length_append]
  rw [length_tick, length_tick, h]
  change 8 + (valueSize py _ + 2) + 5 + 2 + 4 + (valueSize py _ + 2) + 2 = _
  omega

theorem length_fmtReport {py : PyText} {style : ReportStyle} (hnoun : style.headNoun.length = 2)
    {summary : String} {body : Value} {text : String}
    (h : fmtReport py wide style summary body = .ok text) :
    linesSize [.plain text] = reportSize wide py style body + summary.length := by
  obtain ⟨content, hcontent, rfl⟩ := map_eq_ok.1 h
  rw [linesSize_plain, String.length_append, String.length_append, String.length_append,
    length_reportHeader py body hnoun, reportSize, ← length_reportContent wide hcontent]
  change _ + _ + 25 + 1 + _ + _ + 1 = _
  omega

end

section
variable {py : PyText} (wide : Char → Bool) (colorOk : Value → Bool)

theorem lines_fit_iff {body : Value} {progress : Option OrderProgress} {b : Branch}
    {lines : List Line}
    (h : b.lines py (formatters py wide colorOk) body progress = .ok lines) :
    linesSize lines ≤ 4097 ↔ b.size wide py body progress ≤ 4097 := by
  cases b with
  | rejection => exact fmtRejection_fits_iff h
  | component =>
    obtain rfl := Except.ok.inj h
    rw [linesSize_plain]
    exact iff_of_eq (congrArg (· ≤ 4097) (length_fmtComponent body))
  | positionsReport =>
    obtain ⟨text, htext, rfl⟩ := map_eq_ok.1 h
    rw [length_fmtReport wide rfl htext, length_fmtAccountPnl]
    rfl
  | fillsReport =>
    obtain ⟨text, htext, rfl⟩ := map_eq_ok.1 h
    rw [length_fmtReport wide rfl htext]
    rfl
  | ordersReport =>
    obtain ⟨text, htext, rfl⟩ := map_eq_ok.1 h
    rw [length_fmtReport wide rfl htext]
    rfl
  | dailySummary =>
    obtain rfl := Except.ok.inj h
    rw [linesSize_plain]
    exact iff_of_eq (congrArg (· ≤ 4097) (length_fmtDailySummary body))
  | order => exact fmtOrder_fits_iff h
  | position =>
    obtain ⟨text, htext, rfl⟩ := map_eq_ok.1 h
    exact fmtPosition_fits_iff htext
  | account =>
    obtain ⟨text, htext, rfl⟩ := map_eq_ok.1 h
    exact fmtAccount_fits_iff htext
  | signal =>
    obtain rfl := Except.ok.inj h
    rw [linesSize_plain]
    exact iff_of_eq (congrArg (· ≤ 4097) (length_fmtSignal body))
  | other =>
    obtain ⟨text, -, rfl⟩ := map_eq_ok.1 h
    exact iff_of_true ((linesSize_jsonBlock text 1500).trans (by decide)) (Nat.zero_le _)

/-- Titles that are one of a few. -/
def Branch.hasFixedTitle (eventType : String) : Branch → Bool
  | .component | .order | .position | .account | .signal | .other =>
    (titleZh.lookup eventType).isSome
  | .rejection | .positionsReport | .fillsReport | .ordersReport | .dailySummary => true

theorem titleZh_length {eventType zh : String} (h : titleZh.lookup eventType = some zh) :
    zh.length ≤ 4 := by
  have hall : ∀ kv ∈ titleZh, kv.2.length ≤ 4 := by decide
  obtain ⟨before, behind, hlist, -⟩ := List.lookup_eq_some_iff.1 h
  exact hall (eventType, zh) (by simp [hlist])

theorem title_length_le_iff (eventType : String) {zh : Option String}
    (h : ∀ s, zh = some s → s.length ≤ 4) :
    ("[" ++ zh.getD eventType ++ "]").length ≤ 256 ↔
      zh.isSome = true ∨ eventType.length ≤ 254 := by
  simp only [String.length_append]
  change 1 + _ + 1 ≤ 256 ↔ _
  cases zh with
  | none =>
    simp only [Option.getD_none, Option.isSome_none, Bool.false_eq_true, false_or]
    omega
  | some zh =>
    have hlen := h zh rfl
    simp only [Option.getD_some, Option.isSome_some, true_or, iff_true]
    omega

theorem branchOf_rejection {topic eventType : String} (h : branchOf topic eventType = .rejection) :
    eventType ∈ rejectionEvents := by
  by_contra hr
  have hr : ¬rejectionEvents.contains eventType = true := by simpa using hr
  have hne {c : Prop} [Decidable c] {b r : Branch} (hb : b ≠ .rejection) (hrest : r ≠ .rejection) :
      (if c then b else r) ≠ .rejection := by
    by_cases hc : c
    · rwa [if_pos hc]
    · rwa [if_neg hc]
  rw [branchOf, if_neg hr] at h
  refine absurd h ?_
  repeat refine hne (by decide) ?_
  decide

theorem rejection_title_length {eventType : String} (h : eventType ∈ rejectionEvents) :
    (Branch.rejection.title eventType).length ≤ 256 := by
  have hall : ∀ s ∈ rejectionEvents, s.length ≤ 13 := by decide
  have hle := hall eventType h
  have ht : Branch.rejection.title eventType = "⚠️ [订单被拒 · " ++ eventType ++ "]" := rfl
  rw [ht, String.length_append, String.length_append]
  have hopen : "⚠️ [订单被拒 · ".length = 11 := rfl
  have hclose : "]".length = 1 := rfl
  omega

theorem title_fits_iff (topic eventType : String) :
    ((branchOf topic eventType).title eventType).length ≤ 256 ↔
      (branchOf topic eventType).hasFixedTitle eventType = true ∨ eventType.length ≤ 254 := by
  have htranslated : (titleFor eventType).length ≤ 256 ↔
      (titleZh.lookup eventType).isSome = true ∨ eventType.length ≤ 254 :=
    title_length_le_iff eventType fun zh hzh => titleZh_length hzh
  cases hb : branchOf topic eventType with
  | rejection =>
    exact iff_of_true (rejection_title_length (branchOf_rejection hb)) (Or.inl rfl)
  | component => exact htranslated
  | positionsReport => exact iff_of_true (show "[持仓快照]".length ≤ 256 by decide) (Or.inl rfl)
  | fillsReport => exact iff_of_true (show "[成交记录]".length ≤ 256 by decide) (Or.inl rfl)
  | ordersReport => exact iff_of_true (show "[订单记录]".length ≤ 256 by decide) (Or.inl rfl)
  | dailySummary => exact iff_of_true (show "[每日摘要]".length ≤ 256 by decide) (Or.inl rfl)
  | order => exact htranslated
  | position => exact htranslated
  | account => exact htranslated
  | signal => exact htranslated
  | other => exact htranslated

theorem renderEmbed_eq_ok {topic : String} {body : Value} {t : OrderProgressTracker} {e : Embed}
    (h : renderEmbed py (formatters py wide colorOk) ⟨topic, body⟩ none (some t) = .ok e) :
    topic = "tinohelm.message" ∧ e.title = textOr py (embedBody body) "title" "通知" ∧
        e.lines = [.plain (String.ofList ((textOr py (embedBody body) "text" "").toList.take 4000))] ∨
      topic ≠ "tinohelm.message" ∧
        e.title = (branchOf topic (guessEventType py topic (embedBody body))).title
          (guessEventType py topic (embedBody body)) ∧
        (branchOf topic (guessEventType py topic (embedBody body))).lines py
          (formatters py wide colorOk) (embedBody body) (t.slotFor (embedBody body)) = .ok e.lines := by
  rw [renderEmbed_eq] at h
  obtain ⟨progress, hprogress, h⟩ := bind_eq_ok.1 h
  obtain ⟨-, rfl⟩ := (progress_eq_ok_iff t _ progress).1 hprogress
  by_cases ht : topic = "tinohelm.message"
  · rw [if_pos ht] at h
    simp only [formatters, renderCustomMessage] at h
    split_ifs at h
    obtain rfl := Except.ok.inj h
    exact Or.inl ⟨ht, rfl, rfl⟩
  · rw [if_neg ht] at h
    obtain ⟨described, hdescribed, rfl⟩ := map_eq_ok.1 h
    obtain ⟨lines, hlines, rfl⟩ := map_eq_ok.1 hdescribed
    exact Or.inr ⟨ht, rfl, hlines⟩

end

/-- An embed within the limits, by the lengths of what it shows. -/
structure Fits (py : PyText) (wide : Char → Bool) (topic : String) (body : Value)
    (progress : Option OrderProgress) : Prop where
  message : topic = "tinohelm.message" → (textOr py body "title" "通知").length ≤ 256
  title : topic ≠ "tinohelm.message" →
    (branchOf topic (guessEventType py topic body)).hasFixedTitle (guessEventType py topic body) =
      true ∨ (guessEventType py topic body).length ≤ 254
  description : topic ≠ "tinohelm.message" →
    (branchOf topic (guessEventType py topic body)).size wide py body progress ≤ 4097

/-- An embed keeps to both limits exactly when the lengths of the shown values, with what
stands around them, do. -/
theorem embed_fits_iff (py : PyText) (wide : Char → Bool) (colorOk : Value → Bool) (topic : String)
    (body : Value) (t : OrderProgressTracker) (e : Embed)
    (h : renderEmbed py (formatters py wide colorOk) ⟨topic, body⟩ none (some t) = .ok e) :
    (e.description.length ≤ 4096 ∧ e.title.length ≤ 256) ↔
      Fits py wide topic (embedBody body) (t.slotFor (embedBody body)) := by
  rw [description_length_le_iff]
  rcases renderEmbed_eq_ok wide colorOk h with ⟨ht, htitle, hlines⟩ | ⟨ht, htitle, hlines⟩
  · have hlen : linesSize e.lines ≤ 4097 := by
      rw [hlines, linesSize_plain, String.length_ofList, List.length_take]
      omega
    rw [htitle]
    exact ⟨fun hf => ⟨fun _ => hf.2, fun hne => absurd ht hne, fun hne => absurd ht hne⟩,
      fun hf => ⟨hlen, hf.message ht⟩⟩
  · rw [htitle, title_fits_iff, lines_fit_iff wide colorOk hlines]
    exact ⟨fun hf => ⟨fun hm => absurd hm ht, fun _ => hf.2, fun _ => hf.1⟩,
      fun hf => ⟨hf.description ht, hf.title ht⟩⟩

def twoFills : Value :=
  .dict [(.str "strategy_id", .str "S-1"), (.str "row_count", .int 2),
    (.str "csv", .str "instrument_id,order_side,last_qty\nBTC,BUY,1\nETH,SELL,20\n")]

theorem embed_fits_iff_twoFills :
    ∃ e, renderEmbed (dumpingText 1000) (formatters (dumpingText 1000) (fun _ => false) isColor)
        ⟨"tinohelm.report.fills", twoFills⟩ none (some {}) = .ok e ∧
      e.description.length ≤ 4096 ∧ e.title.length ≤ 256 := by
  have hrenders : Returns (renderEmbed (dumpingText 1000)
      (formatters (dumpingText 1000) (fun _ => false) isColor) ⟨"tinohelm.report.fills", twoFills⟩ none
      (some {})) := by
    have hbranch : branchOf "tinohelm.report.fills"
        (guessEventType (dumpingText 1000) "tinohelm.report.fills" twoFills) = .fillsReport := by
      decide +kernel
    have hcsv : ∃ records, Csv.read "instrument_id,order_side,last_qty\nBTC,BUY,1\nETH,SELL,20\n" =
        .ok records :=
      ⟨[["instrument_id", "order_side", "last_qty"], ["BTC", "BUY", "1"], ["ETH", "SELL", "20"]],
        by decide +kernel⟩
    refine (renderEmbed_returns_iff (dumpingText_documented 1000) _ _ _ _).2
      ⟨fun hc => absurd hc (by decide +kernel), fun ht => absurd ht (by decide), fun _ => ?_⟩
    change (branchOf _ (guessEventType _ _ twoFills)).Renders _ twoFills _
    rw [hbranch]
    exact fun _ _ => ⟨_, rfl, hcsv⟩
  obtain ⟨e, he⟩ := hrenders
  refine ⟨e, he, (embed_fits_iff _ _ _ _ _ _ e he).2 ⟨?_, ?_, ?_⟩⟩
  · intro ht
    exact absurd ht (by decide)
  · intro _
    exact Or.inl (by decide +kernel)
  · intro _
    decide +kernel

/-- A rejection whose reason alone is as long as a description may be. -/
def longReason : Value :=
  .dict [(.str "type", .str "OrderRejected"),
    (.str "reason", .str (String.ofList (List.replicate 4096 'x')))]

/-- The reason of a rejection is shown in full, so its embed may be too long. -/
theorem long_reason_exceeds_limit :
    ∃ e, renderEmbed (dumpingText 1000) (formatters (dumpingText 1000) (fun _ => false) isColor)
        ⟨"events.order.S-1", longReason⟩ none (some {}) = .ok e ∧
      ¬(e.description.length ≤ 4096 ∧ e.title.length ≤ 256) := by
  have hbranch : branchOf "events.order.S-1"
      (guessEventType (dumpingText 1000) "events.order.S-1" longReason) = .rejection := by
    decide +kernel
  have hreason : longReason.get "reason" = .str (String.ofList (List.replicate 4096 'x')) := rfl
  have htruthy : (longReason.get "reason").truthy = true := by
    rw [hreason, Value.truthy_str, decide_eq_true_iff]
    intro hempty
    have hlen := congrArg String.length hempty
    rw [String.length_ofList, List.length_replicate] at hlen
    exact absurd hlen (by decide)
  have hrenders : Returns (renderEmbed (dumpingText 1000)
      (formatters (dumpingText 1000) (fun _ => false) isColor) ⟨"events.order.S-1", longReason⟩ none
      (some {})) := by
    refine (renderEmbed_returns_iff (dumpingText_documented 1000) _ _ _ _).2
      ⟨fun hc => absurd hc (by decide +kernel), fun ht => absurd ht (by decide), fun _ => ?_⟩
    change (branchOf _ (guessEventType _ _ longReason)).Renders _ longReason _
    rw [hbranch]
    exact Or.inl htruthy
  obtain ⟨e, he⟩ := hrenders
  refine ⟨e, he, fun hfits => ?_⟩
  rcases renderEmbed_eq_ok _ _ he with ⟨ht, -, -⟩ | ⟨-, -, hlines⟩
  · exact absurd ht (by decide)
  · change (branchOf _ (guessEventType _ _ longReason)).lines _ _ longReason _ = _ at hlines
    rw [hbranch] at hlines
    have hsize := (fmtRejection_fits_iff hlines).1 ((description_length_le_iff e 4096).1 hfits.1)
    have hvalue : valueSize (dumpingText 1000) (longReason.get "reason") = 4096 := by
      rw [hreason, valueSize, (dumpingText 1000).str_str, String.length_ofList, List.length_replicate]
    rw [rejectionSize, fieldSize, if_pos htruthy, hvalue, rowSize] at hsize
    omega

end TinoHelm
