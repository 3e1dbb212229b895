import TinoHelm.Base.Dict
import TinoHelm.Base.Value

/-! The report payloads of `reporting_actor.py`. A data frame is what its methods return,
a portfolio what NT answers for a venue; `encode` is `msgspec.msgpack.encode`. -/

namespace TinoHelm
open Base

def reportTopicPositions : String := "tinohelm.report.positions"
def reportTopicFills : String := "tinohelm.report.fills"
def reportTopicOrders : String := "tinohelm.report.orders"

structure DataFrame where
  empty : Bool
  length : ℕ
  /-- `df.to_csv(index=False)` -/
  csv : String
  /-- `df.reset_index().to_csv(index=False)` -/
  csvWithIndex : String

/-- `portfolio.realized_pnls(venue)` and its siblings, currency and money as text; `None`
is the empty list. -/
structure Portfolio where
  realizedPnls : String → Except PyError (List (String × String))
  unrealizedPnls : String → Except PyError (List (String × String))
  netExposures : String → Except PyError (List (String × String))

/-- `{str(k): str(v) for k, v in (mapping or {}).items()}` -/
def strMap (mapping : List (String × String)) : Value :=
  .dict ((Dict.ofList mapping).entries.map fun e => (.str e.1, .str e.2))

def accountPnl (portfolio : Portfolio) (venues : List String) : Except PyError Value := do
  let out ← venues.mapM fun venue => do
    let realized ← portfolio.realizedPnls venue
    let unrealized ← portfolio.unrealizedPnls venue
    let netExposure ← portfolio.netExposures venue
    .ok (venue, Value.dict [(.str "realized", strMap realized),
      (.str "unrealized", strMap unrealized), (.str "net_exposure", strMap netExposure)])
  .ok (.dict ((Dict.ofList out).entries.map fun e => (.str e.1, e.2)))

/-- The body all reports share; `csv` picks how the frame is written. -/
def reportBody (df : Option DataFrame) (csv : DataFrame → String) (strategyId : String) :
    List (Value × Value) :=
  match df.filter fun df => !df.empty with
  | none => [(.str "strategy_id", .str strategyId), (.str "row_count", .int 0), (.str "csv", .str "")]
  | some df => [(.str "strategy_id", .str strategyId), (.str "row_count", .int df.length),
      (.str "csv", .str (csv df))]

/-- A failure of the portfolio drops the block and keeps the table. -/
def positionsReportBody (df : Option DataFrame) (strategyId : String)
    (portfolio : Option Portfolio) (venues : List String) : Value :=
  let body := reportBody df DataFrame.csv strategyId
  match portfolio with
  | none => .dict body
  | some portfolio =>
    if venues.isEmpty then .dict body
    else
      match accountPnl portfolio venues with
      | .error _ => .dict body
      | .ok pnl => .dict (body ++ [(.str "account_pnl", pnl)])

def buildPositionsReportPayload (encode : Value → ByteArray) (df : Option DataFrame)
    (strategyId : String) (portfolio : Option Portfolio) (venues : List String) :
    String × ByteArray :=
  (reportTopicPositions, encode (positionsReportBody df strategyId portfolio venues))

def historyReportBody (df : Option DataFrame) (strategyId : String) : Value :=
  .dict (reportBody df DataFrame.csvWithIndex strategyId)

def buildReportPayload (encode : Value → ByteArray) (df : Option DataFrame)
    (topic strategyId : String) : String × ByteArray :=
  (topic, encode (historyReportBody df strategyId))

/-- A report on a strategy: no event type and no order. -/
structure ReportBody (strategyId : String) (body : Value) : Prop where
  isDict : body.isDict = true
  strategyId : body.get "strategy_id" = .str strategyId
  noType : body.get "type" = .none
  noOrder : body.get "client_order_id" = .none

theorem reportBody_cases (df : Option DataFrame) (csv : DataFrame → String) (strategyId : String) :
    ∃ rowCount text, reportBody df csv strategyId =
      [(.str "strategy_id", .str strategyId), (.str "row_count", rowCount), (.str "csv", text)] := by
  unfold reportBody
  split
  · exact ⟨_, _, rfl⟩
  · exact ⟨_, _, rfl⟩

theorem reportBody_history (df : Option DataFrame) (strategyId : String) :
    ReportBody strategyId (historyReportBody df strategyId) := by
  obtain ⟨rowCount, text, h⟩ := reportBody_cases df DataFrame.csvWithIndex strategyId
  rw [historyReportBody, h]
  exact ⟨rfl, rfl, rfl, rfl⟩

theorem reportBody_positions (df : Option DataFrame) (strategyId : String)
    (portfolio : Option Portfolio) (venues : List String) :
    ReportBody strategyId (positionsReportBody df strategyId portfolio venues) := by
  obtain ⟨rowCount, text, h⟩ := reportBody_cases df DataFrame.csv strategyId
  unfold positionsReportBody
  rw [h]
  cases portfolio with
  | none => exact ⟨rfl, rfl, rfl, rfl⟩
  | some portfolio =>
    dsimp only
    split_ifs
    · exact ⟨rfl, rfl, rfl, rfl⟩
    · cases accountPnl portfolio venues with
      | error e => exact ⟨rfl, rfl, rfl, rfl⟩
      | ok pnl => exact ⟨rfl, rfl, rfl, rfl⟩

/-! `publish_message` of the package itself. -/

def customMessageTopic : String := "tinohelm.message"

/-- What a strategy or an actor calls `publish_message` with. -/
structure CustomMessage where
  title : String
  text : String
  color : Option ℤ

def CustomMessage.payload (m : CustomMessage) : Value :=
  .dict ([(.str "title", .str m.title), (.str "text", .str m.text)] ++
    m.color.toList.map fun color => (.str "color", .int color))

def publishMessage (encode : Value → ByteArray) (m : CustomMessage) : String × ByteArray :=
  (customMessageTopic, encode m.payload)

end TinoHelm
