import TinoHelm.Base.Csv
import TinoHelm.Spec.Render

/-! The report embeds of `notifier/handlers.py`: a CSV snapshot as a fixed-width table. -/

namespace TinoHelm
open Base

section
variable (wide : Char → Bool)

/-- `_display_width`. `wide` says which characters `unicodedata.east_asian_width` puts
into `W` or `F`. -/
def displayWidth (text : String) : ℕ := (text.toList.map fun c => if wide c then 2 else 1).sum

def pad (text : String) (width : ℕ) : String :=
  text ++ String.ofList (List.replicate (width - displayWidth wide text) ' ')

/-- The widths once a row has been seen. -/
def widen : List ℕ → List String → List ℕ
  | w :: ws, cell :: cells => max w (displayWidth wide cell) :: widen ws cells
  | ws, _ => ws

/-- `_row`: there must be a width for each cell. -/
def tableRow (widths : List ℕ) (cells : List String) : Except PyError String :=
  if cells.length ≤ widths.length then
    .ok ("  ".intercalate (List.zipWith (pad wide) cells widths))
  else .error .indexError

def rule (width : ℕ) : String := String.ofList (List.replicate width '─')

def markdownTable (headers : List String) (rows : List (List String)) : Except PyError String := do
  let widths := rows.foldl (widen wide) (headers.map (displayWidth wide))
  let lines ← (headers :: widths.map rule :: rows).mapM (tableRow wide widths)
  .ok ("\n".intercalate lines)

end

def positionsTableMaxRows : ℕ := 12

/-- The texts of a report and the columns it shows: CSV name, label, and whether the cells
are sides. -/
structure ReportStyle where
  headNoun : String
  nothing : String
  unparsable : String
  columns : List (String × String × Bool)

def positionsStyle : ReportStyle where
  headNoun := "持仓"
  nothing := "_当前无持仓_"
  unparsable := "_无法解析持仓数据_"
  columns :=
    [("instrument_id", "标的", false), ("side", "方向", false), ("quantity", "数量", false),
      ("avg_px_open", "开仓均价", false), ("avg_px_close", "平仓均价", false),
      ("realized_pnl", "已实现", false), ("unrealized_pnl", "浮动", false)]

def fillsStyle : ReportStyle where
  headNoun := "成交"
  nothing := "_暂无记录_"
  unparsable := "_无法解析数据_"
  columns :=
    [("instrument_id", "标的", false), ("order_side", "方向", true), ("last_qty", "成交量", false),
      ("last_px", "成交价", false), ("commission", "手续费", false), ("ts_event", "时间", false)]

def ordersStyle : ReportStyle where
  headNoun := "订单"
  nothing := "_暂无记录_"
  unparsable := "_无法解析数据_"
  columns :=
    [("instrument_id", "标的", false), ("side", "方向", true), ("type", "类型", false),
      ("quantity", "数量", false), ("filled_qty", "已成交", false), ("avg_px", "均价", false),
      ("status", "状态", false)]

/-- A shown column: its label, where it stands in a record, and whether it holds sides. -/
structure ShownColumn where
  label : String
  index : ℕ
  isSide : Bool

def ReportStyle.shown (style : ReportStyle) (columns : List String) : List ShownColumn :=
  style.columns.filterMap fun c =>
    if c.1 ∈ columns then some ⟨c.2.1, columns.idxOf c.1, c.2.2⟩ else none

/-- A record may be shorter than the header. -/
def ShownColumn.cell (c : ShownColumn) (record : List String) : String :=
  let value := (record[c.index]?).getD ""
  if c.isSide then sideZh value else value

section
variable (py : PyText) (wide : Char → Bool)

def reportHeader (style : ReportStyle) (body : Value) : String :=
  "**策略**: " ++ tick (py.str (body.getOr "strategy_id" (.str "?"))) ++ " · **" ++
    style.headNoun ++ "**: " ++ tick (py.str (body.getOr "row_count" (.int 0))) ++ " 条"

/-- `body.get("csv", "") or ""`, empty too if the row count is 0. -/
def reportCsv (body : Value) : Value :=
  let csv := body.getOr "csv" (.str "")
  if csv.truthy && !(body.getOr "row_count" (.int 0)).eq (.int 0) then csv else .str ""

/-- `list(csv.reader(io.StringIO(csv)))` -/
def csvRecords : Value → Except PyError (List (List String))
  | .str text => Csv.read text
  | _ => .error .typeError

def moreRows (n : ℕ) : String :=
  if positionsTableMaxRows < n then
    "\n_…还有 " ++ toString (n - positionsTableMaxRows) ++ " 条未显示_"
  else ""

/-- The table in its code block, and how many rows it leaves out. -/
def reportTable (shown : List ShownColumn) (dataRows : List (List String)) :
    Except PyError String := do
  let rows := (dataRows.take positionsTableMaxRows).map fun r => shown.map (·.cell r)
  let table ← markdownTable wide (shown.map ShownColumn.label) rows
  .ok ("```\n" ++ table ++ "\n```" ++ moreRows dataRows.length)

def reportContent (style : ReportStyle) (body : Value) : Except PyError String :=
  if !(reportCsv body).truthy then .ok style.nothing
  else do
    match ← csvRecords (reportCsv body) with
    | [] => .ok style.unparsable
    | columns :: dataRows =>
      if style.shown columns = [] then .ok "_(列名不识别，原始 CSV 见 stream)_"
      else reportTable wide (style.shown columns) dataRows

/-- `_fmt_csv_report`, and with the account summary behind it `_fmt_positions_report`. -/
def fmtReport (style : ReportStyle) (summary : String) (body : Value) : Except PyError String :=
  (reportContent wide style body).map fun content =>
    reportHeader py style body ++ "\n" ++ content ++ summary

def amounts : Value → String
  | .dict kvs => if kvs = [] then "`0`" else " · ".intercalate (kvs.map fun kv => tick (py.str kv.2))
  | _ => "`0`"

def venueLines (venue blocks : Value) : List String :=
  if blocks.isDict then
    ["**" ++ py.str venue ++ "**", "已实现: " ++ amounts py (blocks.get "realized"),
      "浮动: " ++ amounts py (blocks.get "unrealized"),
      "净敞口: " ++ amounts py (blocks.get "net_exposure")]
  else []

def fmtAccountPnl : Value → String
  | .dict kvs =>
    if kvs = [] then ""
    else "\n".intercalate ("\n── 账户汇总 ──" :: kvs.flatMap fun kv => venueLines py kv.1 kv.2)
  | _ => ""

def fmtPositionsReport (body : Value) : Except PyError String :=
  fmtReport py wide positionsStyle (fmtAccountPnl py (body.get "account_pnl")) body

def fmtFillsReport (body : Value) : Except PyError String := fmtReport py wide fillsStyle "" body

def fmtOrdersReport (body : Value) : Except PyError String := fmtReport py wide ordersStyle "" body

end

end TinoHelm
