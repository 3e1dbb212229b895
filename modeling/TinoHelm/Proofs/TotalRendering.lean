import TinoHelm.Spec.Formatters
import TinoHelm.Spec.Sending

/-! Total rendering: which decoded bodies `observe` and `render_embed` get through without
an exception. The exceptions come from JSON fallbacks, from `balances` and `csv` of another
type, from unhashable order ids and from numbers that do not fit. -/

namespace TinoHelm
open Base OrderProgressTracker

/-- `json.dumps` on a stack that is `depth` containers deep. -/
def PyText.DocumentedDumps (py : PyText) (depth : ℕ) : Prop :=
  ∀ v, Returns (py.dumps v) ↔ v.dumpable depth = true

def isColor : Value → Bool
  | .none | .bool _ | .int _ => true
  | _ => false

/-- The fields whose value an order embed shows when it is truthy. -/
def orderShownFields : List String :=
  ["strategy_id", "instrument_id", "order_side", "side", "order_type", "time_in_force",
    "post_only", "reduce_only", "price", "status", "client_order_id"]

/-- An order event that has something to show, whatever its slot. -/
def ShowsRow (body : Value) : Prop :=
  (∃ field ∈ orderShownFields, (body.get field).truthy = true) ∨
    (orderOptions body).get "price" ≠ .none ∨ (orderOptions body).get "trigger_price" ≠ .none ∨
    body.get "type" = .str "OrderFilled" ∧ (numField body "last_px").isSome = true

/-- A body whose order embed raises nothing, with the slot of the order. -/
structure OrderRenders (depth : ℕ) (body : Value) (progress : Option OrderProgress) : Prop where
  price : body.get "type" = .str "OrderFilled" → (∀ p, progress = some p → p.qtyFilled.isZero = true) →
    ¬TooLarge (body.get "last_px")
  amounts : ∀ p, progress = some p → ∀ total, p.qtyTotal = some total →
    (body.get "type" = .str "OrderCanceled" ∨
      body.get "type" = .str "OrderFilled" ∧ 0 < p.qtyFilled) →
    p.qtyFilled.isFinite = true ∧ total.isFinite = true ∧ (body.get "type" = .str "OrderCanceled" →
      |total.rat - p.qtyFilled.rat| < PyFloat.overflowBound)
  rows : ShowsRow body ∨ body.dumpable depth = true

/-- The CSV of a report is text that `csv.reader` reads, or is not looked at. -/
def CsvReadable (body : Value) : Prop :=
  (body.getOr "csv" (.str "")).truthy = true →
    (body.getOr "row_count" (.int 0)).eq (.int 0) = false →
      ∃ text, body.getOr "csv" (.str "") = .str text ∧ Returns (Csv.read text)

/-- Balances of which the first eight can be asked for their fields. -/
def BalancesReadable : Value → Prop
  | .list balances => ∀ bal ∈ balances.take 8, bal.isDict = true
  | .str s => s = ""
  | .bytes b => b.toList = []
  | _ => False

def Branch.Renders (depth : ℕ) (body : Value) (progress : Option OrderProgress) : Branch → Prop
  | .rejection =>
    (body.get "reason").truthy = true ∨
      (∃ field ∈ "client_order_id" :: rejectionFields, (body.lookup? field).isSome = true) ∨
      body.dumpable depth = true
  | .positionsReport | .fillsReport | .ordersReport => CsvReadable body
  | .order => OrderRenders depth body progress
  | .position =>
    (∃ label ∈ positionLabels, (body.lookup? label.1).isSome = true) ∨ body.dumpable depth = true
  | .account =>
    match body.lookup? "balances" with
    | none => body.dumpable depth = true
    | some balances => BalancesReadable balances
  | .component | .dailySummary | .signal => True
  | .other => (dropNoisyKeys body).dumpable depth = true

theorem widen_length (wide : Char → Bool) (widths : List ℕ) (cells : List String) :
    (widen wide widths cells).length = widths.length := by
  induction widths generalizing cells with
  | nil => cases cells <;> rfl
  | cons w ws ih =>
    cases cells with
    | nil => rfl
    | cons cell cells => simp [widen, ih]

theorem foldl_widen_length (wide : Char → Bool) (rows : List (List String)) (widths : List ℕ) :
    (rows.foldl (widen wide) widths).length = widths.length := by
  induction rows generalizing widths with
  | nil => rfl
  | cons row rows ih => rw [List.foldl_cons, ih, widen_length]

theorem tableRow_returns_iff (wide : Char → Bool) (widths : List ℕ) (cells : List String) :
    Returns (tableRow wide widths cells) ↔ cells.length ≤ widths.length := by
  unfold tableRow
  split_ifs with h
  · exact iff_of_true (returns_ok _) h
  · exact iff_of_false (not_returns_error _) h

/-- A table raises exactly on a row with more cells than there are headers. -/
theorem markdownTable_returns_iff (wide : Char → Bool) (headers : List String)
    (rows : List (List String)) :
    Returns (markdownTable wide headers rows) ↔ ∀ row ∈ rows, row.length ≤ headers.length := by
  unfold markdownTable
  rw [returns_bind_of _ fun lines => returns_ok _, returns_mapM]
  simp only [tableRow_returns_iff, foldl_widen_length, List.length_map, List.forall_mem_cons,
    le_refl, true_and]

section
variable (wide : Char → Bool)

theorem reportTable_returns (shown : List ShownColumn) (dataRows : List (List String)) :
    Returns (reportTable wide shown dataRows) := by
  unfold reportTable
  rw [returns_bind_of _ fun table => returns_ok _, markdownTable_returns_iff]
  intro row hrow
  obtain ⟨record, -, rfl⟩ := List.mem_map.1 hrow
  simp

theorem csvRecords_returns_iff (csv : Value) :
    Returns (csvRecords csv) ↔ ∃ text, csv = .str text ∧ Returns (Csv.read text) := by
  cases csv <;> simp [csvRecords]

theorem reportContent_returns_iff (style : ReportStyle) (body : Value) :
    Returns (reportContent wide style body) ↔ CsvReadable body := by
  unfold reportContent CsvReadable reportCsv
  by_cases hcsv : (body.getOr "csv" (.str "")).truthy = true
  · by_cases hcount : (body.getOr "row_count" (.int 0)).eq (.int 0) = true
    · simp [hcsv, hcount]
    · rw [Bool.not_eq_true] at hcount
      simp only [hcsv, hcount, Bool.not_false, Bool.and_true, if_true, Bool.not_true,
        Bool.false_eq_true, if_false, forall_const]
      rw [returns_bind_of, csvRecords_returns_iff]
      intro records
      cases records with
      | nil => exact returns_ok _
      | cons columns dataRows =>
        dsimp only
        split_ifs
        · exact returns_ok _
        · exact reportTable_returns wide _ _
  · simp [hcsv]

theorem fmtReport_returns_iff (py : PyText) (style : ReportStyle) (summary : String)
    (body : Value) : Returns (fmtReport py wide style summary body) ↔ CsvReadable body := by
  unfold fmtReport
  rw [returns_map, reportContent_returns_iff]

end

theorem firstEight_returns_iff (py : PyText) (balances : Value) :
    Returns (firstEight balances >>= fun items => items.mapM (balanceLine py)) ↔
      BalancesReadable balances := by
  have hline (bal : Value) : Returns (balanceLine py bal) ↔ bal.isDict = true := by
    unfold balanceLine
    split_ifs with h
    · exact iff_of_true (returns_ok _) h
    · exact iff_of_false (not_returns_error _) h
  cases balances with
  | list items => simp only [firstEight, ok_bind, returns_mapM, hline, BalancesReadable]
  | str s =>
    simp only [firstEight, ok_bind, returns_mapM, hline, BalancesReadable, ← String.toList_eq_nil_iff]
    cases s.toList <;> simp [Value.isDict]
  | bytes b =>
    simp only [firstEight, ok_bind, returns_mapM, hline, BalancesReadable]
    cases b.toList <;> simp [Value.isDict]
  | _ => exact iff_of_false (not_returns_error _) id

section
variable {py : PyText}

theorem fieldRow_eq_nil_iff (label : String) (x : Value) :
    fieldRow py label x = [] ↔ ¬x.truthy = true := by
  unfold fieldRow
  split_ifs with h <;> simp [h]

variable {depth : ℕ} (hpy : py.DocumentedDumps depth)
include hpy

theorem orJson_returns_iff (body : Value) (rows : List Line) :
    Returns (orJson py body rows) ↔ rows ≠ [] ∨ body.dumpable depth = true := by
  unfold orJson
  split_ifs with h
  · rw [returns_map, hpy]
    simp [h]
  · simp [h]

theorem fmtRejection_returns_iff (body : Value) (progress : Option OrderProgress) :
    Returns (fmtRejection py body) ↔ Branch.rejection.Renders depth body progress := by
  have hpresent (l : List String) (id : String) :
      (l.flatMap fun k => ((body.lookup? k).map fun x => Line.row k (tick (py.str x))).toList) = [] ∧
        ((body.lookup? id).map fun x => Line.row "id" (tick (py.str x))).toList = [] ↔
      ¬∃ field ∈ id :: l, (body.lookup? field).isSome = true := by
    simp [List.flatMap_eq_nil_iff, and_comm]
  unfold fmtRejection Branch.Renders
  rw [orJson_returns_iff hpy, ← or_assoc]
  refine or_congr_left ?_
  rw [Ne, List.append_assoc, List.append_eq_nil_iff, List.append_eq_nil_iff, hpresent,
    fieldRow_eq_nil_iff, ← not_or, not_not]

theorem fmtPosition_returns_iff (body : Value) (progress : Option OrderProgress) :
    Returns (fmtPosition py body) ↔ Branch.position.Renders depth body progress := by
  have hrow (l : String × String) :
      positionRow py body l.1 l.2 = [] ↔ ¬(body.lookup? l.1).isSome = true := by
    unfold positionRow
    cases body.lookup? l.1 <;> simp
  unfold fmtPosition Branch.Renders
  rw [returns_map, orJson_returns_iff hpy]
  refine or_congr_left ?_
  rw [Ne, List.flatMap_eq_nil_iff]
  simp only [hrow, not_forall, not_not, exists_prop]

theorem fmtAccount_returns_iff (body : Value) (progress : Option OrderProgress) :
    Returns (fmtAccount py body) ↔ Branch.account.Renders depth body progress := by
  unfold fmtAccount Branch.Renders
  cases body.lookup? "balances" with
  | none => rw [returns_map, hpy]
  | some balances =>
    dsimp only
    rw [← firstEight_returns_iff py]
    cases firstEight balances with
    | error e => exact iff_of_false (not_returns_error e) (not_returns_error e)
    | ok items =>
      simp only [ok_bind]
      rw [returns_bind_of]
      exact fun lines => returns_ok _

omit hpy in
theorem fmtFillPrice_returns_iff (body : Value) (progress : Option OrderProgress) :
    Returns (fmtFillPrice body progress) ↔
      (body.get "type" = .str "OrderFilled" →
        (∀ p, progress = some p → p.qtyFilled.isZero = true) → ¬TooLarge (body.get "last_px")) := by
  have hvwap : progress.bind OrderProgress.vwap = none ↔
      ∀ p, progress = some p → p.qtyFilled.isZero = true := by
    cases progress with
    | none => simp
    | some p => simp [OrderProgress.vwap]
  unfold fmtFillPrice
  rw [← Value.isStr_iff, ← hvwap]
  split_ifs with h
  · cases progress.bind OrderProgress.vwap with
    | some vwap => simp
    | none =>
      dsimp only
      rw [returns_map, forall_prop_of_true h, forall_prop_of_true rfl]
      exact toFloat_ok_iff (body.get "last_px")
  · exact iff_of_true (returns_ok _) fun hf => absurd hf h

omit hpy in
/-- Without a slot the price of a fill is its own. -/
theorem fmtFillPrice_eq_nil_iff {body : Value} {price : List Line}
    (h : fmtFillPrice body none = .ok price) :
    price = [] ↔
      ¬(body.get "type" = .str "OrderFilled" ∧ (numField body "last_px").isSome = true) := by
  rw [fmtFillPrice_eq_ok h, fillPriceRows, ← Value.isStr_iff]
  split_ifs with ht
  · cases numField body "last_px" <;> simp [ht]
  · simp [ht]

omit hpy in
theorem fmtProgress_returns_iff (body : Value) (progress : Option OrderProgress) :
    Returns (fmtProgress progress (body.get "type")) ↔
      ∀ p, progress = some p → ∀ total, p.qtyTotal = some total →
        (body.get "type" = .str "OrderCanceled" ∨
          body.get "type" = .str "OrderFilled" ∧ 0 < p.qtyFilled) →
        p.qtyFilled.isFinite = true ∧ total.isFinite = true ∧
          (body.get "type" = .str "OrderCanceled" →
            |total.rat - p.qtyFilled.rat| < PyFloat.overflowBound) := by
  have hqty (x : PyFloat) : Returns (fmtQty x) ↔ x.isFinite = true := fmtQty_ok_iff x
  cases progress with
  | none => simp [fmtProgress]
  | some p =>
    simp only [Option.some.injEq, forall_eq', ← Value.isStr_iff]
    cases htotal : p.qtyTotal with
    | none => simp [fmtProgress, htotal]
    | some total =>
      simp only [Option.some.injEq, forall_eq']
      by_cases hc : (body.get "type").isStr "OrderCanceled" = true
      · have hrest (filled ttl : String) : Returns (fmtQty (total - p.qtyFilled) >>= fun rem =>
            (.ok [.row "最终成交" (tick filled ++ " / " ++ tick ttl ++ pctText p),
              .row "未成交(已撤)" (tick rem)] : Except PyError (List Line))) ↔
            (total - p.qtyFilled).isFinite = true :=
          (returns_bind_of _ fun _ => returns_ok _).trans (hqty _)
        rw [fmtProgress_cancel htotal hc, forall_prop_of_true (Or.inl hc), forall_prop_of_true hc]
        refine (returns_bind_iff _ fun filled => returns_bind_iff _ (hrest filled)).trans ?_
        rw [hqty, hqty]
        refine and_congr_right fun hfilled => and_congr_right fun htotal => ?_
        exact PyFloat.isFinite_sub htotal hfilled
      · by_cases hf : (body.get "type").isStr "OrderFilled" = true ∧ 0 < p.qtyFilled
        · rw [fmtProgress_fill htotal hf.1 hf.2, forall_prop_of_true (Or.inr hf)]
          refine (returns_bind_iff _ fun _ => returns_bind_of _ fun _ => returns_ok _).trans ?_
          rw [hqty, hqty, and_iff_left fun h => absurd h hc]
        · rw [fmtProgress_other htotal hc hf]
          exact iff_of_true (returns_ok _) fun h => (h.elim hc hf).elim

omit hpy in
theorem orderRows_eq_nil_iff (body : Value) (price : List Line) :
    orderRows py body none price [] = [] ↔ price = [] ∧
      ¬((∃ field ∈ orderShownFields, (body.get field).truthy = true) ∨
        (orderOptions body).get "price" ≠ .none ∨
        (orderOptions body).get "trigger_price" ≠ .none) := by
  have hside : (orderSide py body none).toList.map (fun s => Line.row "方向" (tick (sideZh s))) = [] ↔
      ¬((body.get "order_side").truthy = true ∨ (body.get "side").truthy = true) := by
    by_cases hs : (body.get "order_side").truthy = true
    · simp [orderSide, orLatched, orElse, hs]
    · simp [orderSide, orLatched, orElse, hs]
  have hinstruction : fmtInstruction py body none = [] ↔
      ¬((body.get "order_type").truthy = true ∨ (body.get "time_in_force").truthy = true ∨
        (body.get "post_only").truthy = true ∨ (body.get "reduce_only").truthy = true) := by
    simp [fmtInstruction, instructionParts, orLatched]
  have hprices : fmtPrices py body = [] ↔
      ¬((body.get "price").truthy = true ∨ (orderOptions body).get "price" ≠ .none ∨
        (orderOptions body).get "trigger_price" ≠ .none) := by
    have hnone (x : Value) : x.isNone = true ↔ x = .none := by
      cases x <;> simp [Value.isNone]
    simp only [fmtPrices, List.append_eq_nil_iff, orElse]
    by_cases hp : (body.get "price").truthy = true
    · have hne : ¬(body.get "price").isNone = true := by
        rw [hnone]
        intro hn
        simp [hn, Value.truthy] at hp
      simp [hp, hne]
    · by_cases hn : ((orderOptions body).get "price").isNone = true
      · simp [hp, hn, ← hnone]
      · simp [hp, hn, ← hnone]
  simp only [orderRows, List.append_eq_nil_iff, fieldRow_eq_nil_iff, hside, hinstruction, hprices,
    orderShownFields, List.mem_cons, List.not_mem_nil, or_false, exists_eq_or_imp, exists_eq_left,
    not_or, and_true]
  apply iff_of_eq
  ac_rfl

theorem fmtOrder_returns_iff {body : Value} {progress : Option OrderProgress}
    (h : ¬(body.get "client_order_id").truthy = true → progress = none) :
    Returns (fmtOrder py body progress) ↔ OrderRenders depth body progress := by
  by_cases hcoid : (body.get "client_order_id").truthy = true
  · have hrows : ShowsRow body := Or.inl ⟨_, by decide, hcoid⟩
    rw [fmtOrder_of_coid py hcoid, returns_bind]
    simp only [returns_map, fmtProgress_returns_iff]
    rw [exists_and_right]
    exact ⟨fun hr => ⟨(fmtFillPrice_returns_iff body progress).1 hr.1, hr.2, Or.inl hrows⟩,
      fun hr => ⟨(fmtFillPrice_returns_iff body progress).2 hr.price, hr.amounts⟩⟩
  · obtain rfl := h hcoid
    have hrows {price : List Line} (hprice : fmtFillPrice body none = .ok price) :
        orderRows py body none price [] ≠ [] ↔ ShowsRow body := by
      rw [Ne, orderRows_eq_nil_iff body price, not_and_or, not_not,
        fmtFillPrice_eq_nil_iff hprice, not_not, or_comm]
      simp only [ShowsRow, or_assoc]
    unfold fmtOrder
    rw [returns_bind]
    simp only [fmtProgress, ok_bind, orJson_returns_iff hpy]
    constructor
    · rintro ⟨price, hprice, hr⟩
      rw [hrows hprice] at hr
      exact ⟨(fmtFillPrice_returns_iff body none).1 ⟨price, hprice⟩, by simp, hr⟩
    · intro hr
      obtain ⟨price, hprice⟩ := (fmtFillPrice_returns_iff body none).2 hr.price
      refine ⟨price, hprice, ?_⟩
      rw [hrows hprice]
      exact hr.rows

theorem lines_returns_iff (wide : Char → Bool) {body : Value} {progress : Option OrderProgress}
    (h : ¬(body.get "client_order_id").truthy = true → progress = none) (b : Branch) :
    Returns (b.lines py (formatters py wide isColor) body progress) ↔
      b.Renders depth body progress := by
  cases b with
  | rejection => exact fmtRejection_returns_iff hpy body progress
  | component => exact iff_of_true (returns_ok _) trivial
  | positionsReport => exact (returns_map ..).trans (fmtReport_returns_iff wide py _ _ body)
  | fillsReport => exact (returns_map ..).trans (fmtReport_returns_iff wide py _ _ body)
  | ordersReport => exact (returns_map ..).trans (fmtReport_returns_iff wide py _ _ body)
  | dailySummary => exact iff_of_true (returns_ok _) trivial
  | order => exact fmtOrder_returns_iff hpy h
  | position => exact (returns_map ..).trans (fmtPosition_returns_iff hpy body progress)
  | account => exact (returns_map ..).trans (fmtAccount_returns_iff hpy body progress)
  | signal => exact iff_of_true (returns_ok _) trivial
  | other => exact (returns_map ..).trans (hpy _)

end

def OrderProgressTracker.slotFor (t : OrderProgressTracker) (body : Value) : Option OrderProgress :=
  if (body.get "client_order_id").truthy then
    (body.get "client_order_id").hash.toOption.bind t.slot
  else none

/-- A body that is observed and rendered without an exception, with `t` as the tracker
when the embed is rendered. -/
structure Renderable (py : PyText) (depth : ℕ) (topic : String) (body : Value)
    (t : OrderProgressTracker) : Prop where
  id : (body.get "client_order_id").truthy = true → ∃ k, (body.get "client_order_id").hash = .ok k
  numbers : (body.get "client_order_id").truthy = true →
    ∀ field ∈ numberFields body, ¬TooLarge (body.get field)
  color : topic = "tinohelm.message" →
    isColor (body.getOr "color" (.int defaultCustomColor)) = true
  branch : topic ≠ "tinohelm.message" →
    (branchOf topic (guessEventType py topic body)).Renders depth body (t.slotFor body)

theorem renderCustomMessage_returns_iff (py : PyText) (body : Value) (sourcePod : Option String) :
    Returns (renderCustomMessage py isColor body sourcePod) ↔
      isColor (body.getOr "color" (.int defaultCustomColor)) = true := by
  unfold renderCustomMessage
  dsimp only
  split_ifs with h
  · exact iff_of_true (returns_ok _) h
  · exact iff_of_false (not_returns_error _) h

theorem progress_eq_ok_iff (t : OrderProgressTracker) (body : Value)
    (progress : Option OrderProgress) :
    t.progress body = .ok progress ↔
      ((body.get "client_order_id").truthy = true →
        ∃ k, (body.get "client_order_id").hash = .ok k) ∧ progress = t.slotFor body := by
  unfold OrderProgressTracker.progress OrderProgressTracker.slotFor OrderProgressTracker.snapshot
  split_ifs with h
  · cases (body.get "client_order_id").hash <;> simp [h, Except.map, Except.toOption, eq_comm]
  · simp [h, eq_comm]

theorem renderEmbed_returns_iff {py : PyText} {depth : ℕ} (hpy : py.DocumentedDumps depth)
    (wide : Char → Bool) (topic : String) (body : Value) (t : OrderProgressTracker) :
    Returns (renderEmbed py (formatters py wide isColor) ⟨topic, body⟩ none (some t)) ↔
      (((embedBody body).get "client_order_id").truthy = true →
        ∃ k, ((embedBody body).get "client_order_id").hash = .ok k) ∧
      (topic = "tinohelm.message" →
        isColor ((embedBody body).getOr "color" (.int defaultCustomColor)) = true) ∧
      (topic ≠ "tinohelm.message" →
        (branchOf topic (guessEventType py topic (embedBody body))).Renders depth (embedBody body)
          (t.slotFor (embedBody body))) := by
  have hslot : ¬((embedBody body).get "client_order_id").truthy = true →
      t.slotFor (embedBody body) = none := fun h => if_neg h
  rw [renderEmbed_eq, returns_bind]
  simp only [progress_eq_ok_iff, and_assoc, exists_and_left, exists_eq_left]
  refine and_congr_right fun _ => ?_
  by_cases ht : topic = "tinohelm.message"
  · simp only [ht, if_true, true_imp_iff, ne_eq, not_true_eq_false, false_imp_iff, and_true]
    exact renderCustomMessage_returns_iff py _ none
  · simp only [ht, if_false, ne_eq, not_false_eq_true, true_imp_iff, false_imp_iff, true_and]
    rw [returns_map, Branch.describe, returns_map, lines_returns_iff hpy wide hslot]

theorem observe_returns_iff (t : OrderProgressTracker) (body : Value) :
    (t.observe body).2 = none ↔
      (((embedBody body).get "client_order_id").truthy = true →
        ∃ k, ((embedBody body).get "client_order_id").hash = .ok k) ∧
      (((embedBody body).get "client_order_id").truthy = true →
        ∀ field ∈ numberFields (embedBody body), ¬TooLarge ((embedBody body).get field)) := by
  by_cases hd : body.isDict = true
  · rw [embedBody, if_pos hd]
    by_cases hc : (body.get "client_order_id").truthy = true
    · have hkey : orderKey body = (body.get "client_order_id").hash.map some := by
        simp [orderKey, hd, hc]
      cases hh : (body.get "client_order_id").hash with
      | error e =>
        rw [hh] at hkey
        simp [observe, hkey, Except.map, hc]
      | ok k =>
        rw [hh] at hkey
        rw [observe_snd hkey, record_snd]
        simp [hc]
    · have hkey : orderKey body = .ok none := by
        simp [orderKey, hc]
      simp [observe, hkey, hc]
  · have hkey : orderKey body = .ok none := by
      simp [orderKey, hd]
    -- a wrapped body has no order id
    have hc : (embedBody body).get "client_order_id" = .none := by
      rw [embedBody, if_neg hd]
      simp [Value.get, Value.lookup?]
    simp [observe, hkey, hc, Value.truthy]

/-- Observing and rendering raise nothing exactly on a renderable body. -/
theorem rendering_total_iff (py : PyText) (depth : ℕ) (hpy : py.DocumentedDumps depth)
    (wide : Char → Bool) (topic : String) (body : Value) (seen t : OrderProgressTracker) :
    ((seen.observe body).2 = none ∧
        Returns (renderEmbed py (formatters py wide isColor) ⟨topic, body⟩ none (some t))) ↔
      Renderable py depth topic (embedBody body) t := by
  rw [observe_returns_iff, renderEmbed_returns_iff hpy]
  constructor
  · rintro ⟨⟨hid, hnum⟩, -, hcolor, hbranch⟩
    exact ⟨hid, hnum, hcolor, hbranch⟩
  · intro h
    exact ⟨⟨h.id, h.numbers⟩, h.id, h.color, h.branch⟩

/-- `str()` of strings, and which values `json.dumps` takes. -/
def dumpingText (depth : ℕ) : PyText :=
  { plainText with
    dumps := fun v => if v.dumpable depth then .ok "\x7b\x7d" else .error .typeError }

theorem dumpingText_documented (depth : ℕ) : (dumpingText depth).DocumentedDumps depth := by
  intro v
  unfold dumpingText
  dsimp only
  split_ifs with h
  · exact iff_of_true (returns_ok _) h
  · exact iff_of_false (not_returns_error _) h

/-- A fill of infinitely much, of an order whose total is not known. -/
def infiniteFill : Value :=
  .dict [(.str "type", .str "OrderFilled"), (.str "client_order_id", .str "O-1"),
    (.str "last_qty", .str "inf"), (.str "last_px", .str "nan")]

theorem rendering_total_iff_infiniteFill :
    ∃ t, (({} : OrderProgressTracker).observe infiniteFill).1 = t ∧
      (({} : OrderProgressTracker).observe infiniteFill).2 = none ∧
      Returns (renderEmbed (dumpingText 1000) (formatters (dumpingText 1000) (fun _ => false) isColor)
        ⟨"events.order.S-1", infiniteFill⟩ none (some t)) := by
  have hbranch : branchOf "events.order.S-1"
      (guessEventType (dumpingText 1000) "events.order.S-1" infiniteFill) = .order := by
    decide +kernel
  have htotal : ((({} : OrderProgressTracker).observe infiniteFill).1.slotFor infiniteFill).bind
      (·.qtyTotal) = none := by
    decide +kernel
  refine ⟨_, rfl, (rendering_total_iff (dumpingText 1000) 1000 (dumpingText_documented 1000) _
    "events.order.S-1" infiniteFill {} _).2 ⟨fun _ => ⟨.str "O-1", rfl⟩, ?_, ?_, ?_⟩⟩
  · exact fun _ => (by decide +kernel :
      ∀ field ∈ numberFields infiniteFill, ¬TooLarge (infiniteFill.get field))
  · intro ht
    exact absurd ht (by decide)
  · intro _
    change (branchOf _ (guessEventType _ _ infiniteFill)).Renders _ infiniteFill _
    rw [hbranch]
    refine ⟨fun _ _ => (by decide +kernel : ¬TooLarge (infiniteFill.get "last_px")), ?_,
      Or.inl (Or.inl ⟨"client_order_id", by decide, by decide +kernel⟩)⟩
    intro p hp total hq
    rw [show embedBody infiniteFill = infiniteFill from rfl] at hp
    rw [hp, Option.bind_some, hq] at htotal
    cases htotal

/-- An event of a type that is not known, with bytes in it. -/
def newEvent : Value :=
  .dict [(.str "type", .str "NewEvent"), (.str "payload", .bytes "raw".toByteArray)]

/-- An event of an unknown type falls back to JSON, which takes no bytes. -/
theorem unknown_event_raises :
    ¬((({} : OrderProgressTracker).observe newEvent).2 = none ∧
      Returns (renderEmbed (dumpingText 1000) (formatters (dumpingText 1000) (fun _ => false) isColor)
        ⟨"events.new", newEvent⟩ none (some {}))) := by
  rw [renderEmbed_returns_iff (dumpingText_documented 1000)]
  rintro ⟨-, -, -, hbranch⟩
  have hother : branchOf "events.new"
      (guessEventType (dumpingText 1000) "events.new" (embedBody newEvent)) = .other := by
    decide +kernel
  rw [hother] at hbranch
  have hdumps : (dropNoisyKeys newEvent).dumpable 1000 = true := hbranch (by decide)
  exact absurd hdumps (by decide +kernel)

end TinoHelm
