import TinoHelm.Spec.ReportTable

/-! The remaining branches of `render_embed` (`notifier/handlers.py`): custom messages,
component states, positions, accounts, signals and the daily summary. -/

namespace TinoHelm
open Base

def componentStateEmoji : List (String × String) :=
  [("PRE_INITIALIZED", "⚪"), ("READY", "⚪"), ("INITIALIZED", "⚪"), ("STARTING", "🟡"),
    ("RUNNING", "🟢"), ("STOPPING", "🟠"), ("STOPPED", "🔴"), ("RESUMING", "🟡"),
    ("RESETTING", "🟠"), ("DISPOSING", "🟠"), ("DISPOSED", "⚫"), ("DEGRADING", "🟠"),
    ("DEGRADED", "🟠"), ("FAULTING", "🔴"), ("FAULTED", "🔴")]

def defaultCustomColor : ℤ := 0x5865F2

def positionLabels : List (String × String) :=
  [("strategy_id", "策略"), ("instrument_id", "标的"), ("side", "方向"), ("quantity", "数量"),
    ("avg_px_open", "开仓均价"), ("avg_px_close", "平仓均价"), ("realized_pnl", "已实现"),
    ("unrealized_pnl", "浮动盈亏")]

section
variable (py : PyText)

/-- `f"{body.get(field, default)}"` -/
def textOr (body : Value) (field default : String) : String :=
  py.str (body.getOr field (.str default))

/-- `colorOk` says which colours `discord.Embed` takes. -/
def renderCustomMessage (colorOk : Value → Bool) (body : Value) (sourcePod : Option String) :
    Except PyError Embed :=
  let color := body.getOr "color" (.int defaultCustomColor)
  let text := textOr py body "text" ""
  let pod := sourcePod.toList.filter (· ≠ "") |>.map fun pod =>
    Line.plain ("_pod: " ++ tick pod ++ "_")
  if colorOk color then
    .ok {
      title := textOr py body "title" "通知"
      lines := .plain (String.ofList (text.toList.take 4000)) :: pod
      color
      footer := none }
  else .error .typeError

/-- An id that is the same as the type is shown once. -/
def componentHead (body : Value) : String :=
  let componentId := body.getOr "component_id" (.str "?")
  let componentType := body.getOr "component_type" (.str "?")
  "**" ++ py.str componentId ++ "**" ++
    if componentId.eq componentType then "" else " (" ++ py.str componentType ++ ")"

def fmtComponent (body : Value) : String :=
  let state := textOr py body "state" "?"
  let traderId := body.get "trader_id"
  (componentStateEmoji.lookup state).getD "▫️" ++ " " ++ componentHead py body ++ " → " ++
    tick state ++ if traderId.truthy then "\n_trader: " ++ tick (py.str traderId) ++ "_" else ""

def positionRow (body : Value) (field label : String) : List Line :=
  match body.lookup? field with
  | none => []
  | some x => [.row label (tick (if field = "side" then sideZh (py.str x) else py.str x))]

def joinRows (rows : List Line) : String := "\n".intercalate (rows.map Line.text)

def fmtPosition (body : Value) : Except PyError String :=
  (orJson py body (positionLabels.flatMap fun l => positionRow py body l.1 l.2)).map joinRows

/-- One balance; what is no map has no `get`. -/
def balanceLine (bal : Value) : Except PyError String :=
  if bal.isDict then
    .ok ("- " ++ tick (textOr py bal "currency" "?") ++ " total=" ++ tick (textOr py bal "total" "?") ++
      " locked=" ++ tick (textOr py bal "locked" "?") ++ " free=" ++ tick (textOr py bal "free" "?"))
  else .error .attributeError

/-- The items of `balances[:8]`. A slice is no key of a map. -/
def firstEight : Value → Except PyError (List Value)
  | .list xs => .ok (xs.take 8)
  | .str s => .ok ((s.toList.take 8).map fun c => .str (String.singleton c))
  | .bytes b => .ok ((b.toList.take 8).map fun x => .int x.toNat)
  | .dict _ => .error .keyError
  | _ => .error .typeError

def fmtAccount (body : Value) : Except PyError String :=
  match body.lookup? "balances" with
  | none => (py.dumps body).map fun text => (jsonBlock text 1200).text
  | some balances => do
    let lines ← (← firstEight balances).mapM (balanceLine py)
    .ok ("\n".intercalate ("**balances**" :: lines))

def fmtSignal (body : Value) : String :=
  let value := body.getOr "value" (body.getOr "data" (.str "?"))
  "**name**: " ++ tick (textOr py body "name" "?") ++ "\n**value**: " ++ tick (py.str value)

def countOf (body : Value) (field : String) : String := py.str (body.getOr field (.int 0))

def fmtDailySummary (body : Value) : String :=
  match body.lookup? "note" with
  | some note => "_" ++ py.str note ++ "_"
  | none =>
    "📊 **每日摘要**\n持仓中: **" ++ countOf py body "positions_open" ++ "** · 已平: **" ++
      countOf py body "positions_closed" ++ "** · 挂单: **" ++ countOf py body "orders_open" ++
      "**\n_Redis 流数: " ++ countOf py body "redis_streams_seen" ++ "_"

def formatters (wide : Char → Bool) (colorOk : Value → Bool) : Formatters where
  customMessage := renderCustomMessage py colorOk
  component body := .ok (fmtComponent py body)
  positionsReport := fmtPositionsReport py wide
  fillsReport := fmtFillsReport py wide
  ordersReport := fmtOrdersReport py wide
  dailySummary body := .ok (fmtDailySummary py body)
  position := fmtPosition py
  account := fmtAccount py
  signal body := .ok (fmtSignal py body)

end

/-! `render_embed` as one case distinction. -/

/-- What an embed is of, by event type first and then by topic. -/
inductive Branch where
  | rejection
  | component
  | positionsReport
  | fillsReport
  | ordersReport
  | dailySummary
  | order
  | position
  | account
  | signal
  | other
deriving DecidableEq

def branchOf (topic eventType : String) : Branch :=
  if rejectionEvents.contains eventType then .rejection
  else if eventType = "ComponentStateChanged" then .component
  else if topic = "tinohelm.report.positions" then .positionsReport
  else if topic = "tinohelm.report.fills" then .fillsReport
  else if topic = "tinohelm.report.orders" then .ordersReport
  else if topic = "tinohelm.daily_summary" then .dailySummary
  else if startsWith topic "events.order." then .order
  else if startsWith topic "events.position." then .position
  else if startsWith topic "events.account." then .account
  else if startsWith topic "data.Signal" then .signal
  else .other

def Branch.title (eventType : String) : Branch → String
  | .rejection => "⚠️ [订单被拒 · " ++ eventType ++ "]"
  | .positionsReport => "[持仓快照]"
  | .fillsReport => "[成交记录]"
  | .ordersReport => "[订单记录]"
  | .dailySummary => "[每日摘要]"
  | .component | .order | .position | .account | .signal | .other => titleFor eventType

def asPlain (text : Except PyError String) : Except PyError (List Line) :=
  text.map fun s => [.plain s]

def embedBody (body : Value) : Value := if body.isDict then body else .dict [(.str "raw", body)]

def OrderProgressTracker.progress (t : OrderProgressTracker) (body : Value) :
    Except PyError (Option OrderProgress) :=
  if (body.get "client_order_id").truthy then t.snapshot (body.get "client_order_id")
  else .ok none

section
variable (py : PyText) (fmt : Formatters)

def Branch.lines (body : Value) (progress : Option OrderProgress) :
    Branch → Except PyError (List Line)
  | .rejection => fmtRejection py body
  | .component => asPlain (fmt.component body)
  | .positionsReport => asPlain (fmt.positionsReport body)
  | .fillsReport => asPlain (fmt.fillsReport body)
  | .ordersReport => asPlain (fmt.ordersReport body)
  | .dailySummary => asPlain (fmt.dailySummary body)
  | .order => fmtOrder py body progress
  | .position => asPlain (fmt.position body)
  | .account => asPlain (fmt.account body)
  | .signal => asPlain (fmt.signal body)
  | .other => (py.dumps (dropNoisyKeys body)).map fun s => [jsonBlock s 1500]

def Branch.describe (eventType : String) (body : Value) (progress : Option OrderProgress)
    (b : Branch) : Except PyError (String × List Line) :=
  (b.lines py fmt body progress).map fun lines => (b.title eventType, lines)

theorem describe_eq (topic eventType : String) (body : Value) (progress : Option OrderProgress) :
    describe py fmt topic eventType body progress =
      (branchOf topic eventType).describe py fmt eventType body progress := by
  have hmap (x : Except PyError String) (f : String → List Line) (title : String) :
      (x.map fun s => (title, f s)) = (x.map f).map fun lines => (title, lines) := by
    cases x <;> rfl
  have hstep {c : Prop} [Decidable c] {x y : Except PyError (String × List Line)} {b r : Branch}
      (hx : x = b.describe py fmt eventType body progress)
      (hy : y = r.describe py fmt eventType body progress) :
      (if c then x else y) = (if c then b else r).describe py fmt eventType body progress := by
    by_cases h : c
    · simpa only [if_pos h] using hx
    · simpa only [if_neg h] using hy
  unfold TinoHelm.describe branchOf
  dsimp only
  refine hstep (b := .rejection) rfl ?_
  refine hstep (b := .component) (hmap ..) ?_
  refine hstep (b := .positionsReport) (hmap ..) ?_
  refine hstep (b := .fillsReport) (hmap ..) ?_
  refine hstep (b := .ordersReport) (hmap ..) ?_
  refine hstep (b := .dailySummary) (hmap ..) ?_
  refine hstep (b := .order) rfl ?_
  refine hstep (b := .position) (hmap ..) ?_
  refine hstep (b := .account) (hmap ..) ?_
  exact hstep (b := .signal) (r := .other) (hmap ..) (hmap ..)

/-- An embed is rendered from the slot of its order, by the branch of its event. -/
theorem renderEmbed_eq (topic : String) (body : Value) (t : OrderProgressTracker) :
    renderEmbed py fmt ⟨topic, body⟩ none (some t) =
      (t.progress (embedBody body) >>= fun progress =>
        if topic = "tinohelm.message" then fmt.customMessage (embedBody body) none
        else
          let eventType := guessEventType py topic (embedBody body)
          ((branchOf topic eventType).describe py fmt eventType (embedBody body) progress).map
            fun described =>
              { title := described.1
                lines := described.2
                color := .int ((colorMap.lookup eventType).getD 0x99AAB5)
                footer := some topic }) := by
  have hbody : (if body.isDict then body else .dict [(.str "raw", body)]) = embedBody body := rfl
  have hmap {α β : Type} (x : Except PyError α) (f : α → β) :
      (x >>= fun a => (pure (f a) : Except PyError β)) = x.map f := by
    cases x <;> rfl
  simp only [renderEmbed, hbody, describe_eq, OrderProgressTracker.progress, Option.toList,
    List.filter_nil, List.map_nil, List.append_nil, hmap]
  split <;> rfl

end

end TinoHelm
