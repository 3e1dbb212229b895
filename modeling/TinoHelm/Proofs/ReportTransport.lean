import TinoHelm.Proofs.CommandDelivery
import TinoHelm.Proofs.TableAlignment
import TinoHelm.Proofs.TotalRendering

/-! What a pod knows is what Discord shows: the frame behind a report, written as CSV,
packed, carried over a stream and read again, comes out as the rows of the table, each
cell under the label of its column. -/

namespace TinoHelm
open Base

/-- A frame that `to_csv` has written to `text`. -/
structure WrittenFrame (text : String) where
  columns : List String
  rows : List (List String)
  nonempty : rows ≠ []
  written : Csv.Text text.toList (columns :: rows)
  short : ∀ record ∈ columns :: rows, ∀ cell ∈ record, cell.length ≤ Csv.fieldLimit

def frameCell (columns row : List String) (name : String) : String :=
  ((columns.zip row).lookup name).getD ""

/-- What the style shows of a row: the columns the frame has, sides in their own words. -/
def shownCells (style : ReportStyle) (columns row : List String) : List String :=
  (style.columns.filter fun c => c.1 ∈ columns).map fun c =>
    if c.2.2 then sideZh (frameCell columns row c.1) else frameCell columns row c.1

def shownLabels (style : ReportStyle) (columns : List String) : List String :=
  (style.columns.filter fun c => c.1 ∈ columns).map fun c => c.2.1

namespace ReportCommand

def style : ReportCommand → ReportStyle
  | positions | pnl => positionsStyle
  | fills => fillsStyle
  | orders => ordersStyle

def title : ReportCommand → String
  | positions | pnl => "[持仓快照]"
  | fills => "[成交记录]"
  | orders => "[订单记录]"

/-- The frame that `ReportProvider` makes for the command. -/
def frame (rt : NtRuntime) : ReportCommand → Option DataFrame
  | positions | pnl => rt.positions
  | fills => rt.fills
  | orders => rt.orders

def csv : ReportCommand → DataFrame → String
  | positions | pnl => DataFrame.csv
  | fills | orders => DataFrame.csvWithIndex

def body (rt : NtRuntime) (handle : String) : ReportCommand → Value
  | positions | pnl =>
    positionsReportBody rt.positions handle (some rt.portfolio) (venuesFromCache rt.accounts)
  | fills => historyReportBody rt.fills handle
  | orders => historyReportBody rt.orders handle

def summary (py : PyText) (rt : NtRuntime) (handle : String) : ReportCommand → String
  | positions => fmtAccountPnl py ((body rt handle positions).get "account_pnl")
  | pnl => fmtAccountPnl py ((body rt handle pnl).get "account_pnl")
  | fills | orders => ""

end ReportCommand

theorem WrittenFrame.ne_empty {text : String} (f : WrittenFrame text) : text ≠ "" := by
  rintro rfl
  have h := f.written
  generalize ht : ("" : String).toList = chars at h
  cases h with
  | cons h hne hr => simp at ht

theorem WrittenFrame.records {text : String} (f : WrittenFrame text) :
    csvRecords (.str text) = .ok (f.columns :: f.rows) := by
  have := Csv.read_text f.written f.short
  rwa [String.ofList_toList] at this

theorem lookup_zip (columns row : List String) {name : String} (h : name ∈ columns) :
    (columns.zip row).lookup name = row[columns.idxOf name]? := by
  induction columns generalizing row with
  | nil => cases h
  | cons c columns ih =>
    cases row with
    | nil => rfl
    | cons v row =>
      by_cases hc : c = name
      · subst hc
        simp
      · have hmem := (List.mem_cons.1 h).resolve_left (Ne.symm hc)
        have hbeq : (name == c) = false := beq_false_of_ne (Ne.symm hc)
        rw [List.zip_cons_cons, List.lookup_cons, List.idxOf_cons_ne _ hc, hbeq]
        exact ih row hmem

theorem shown_eq (style : ReportStyle) (columns : List String) :
    style.shown columns = (style.columns.filter fun c => c.1 ∈ columns).map fun c =>
      ⟨c.2.1, columns.idxOf c.1, c.2.2⟩ := by
  unfold ReportStyle.shown
  induction style.columns with
  | nil => rfl
  | cons c rest ih =>
    by_cases hc : c.1 ∈ columns
    · simp [hc, ih]
    · simp [hc, ih]

/-- The table finds a cell by its place, the frame by the name of its column. -/
theorem shown_cells (style : ReportStyle) (columns row : List String) :
    (style.shown columns).map (·.cell row) = shownCells style columns row := by
  rw [shown_eq, List.map_map]
  refine List.map_congr_left fun c hc => ?_
  have hmem : c.1 ∈ columns := by simpa using (List.mem_filter.1 hc).2
  simp only [Function.comp, ShownColumn.cell, frameCell, lookup_zip columns row hmem]

theorem shown_labels (style : ReportStyle) (columns : List String) :
    (style.shown columns).map ShownColumn.label = shownLabels style columns := by
  rw [shown_eq, List.map_map]
  rfl

/-- The CSV arrives as the frame: the first rows of it, and how many more there are. -/
theorem reportContent_of_frame (wide : Char → Bool) (style : ReportStyle) {text : String}
    (f : WrittenFrame text) {body : Value} (hcsv : body.getOr "csv" (.str "") = .str text)
    (hcount : body.getOr "row_count" (.int 0) = .int f.rows.length)
    (hknown : ∃ c ∈ style.columns, c.1 ∈ f.columns) :
    ∃ table, markdownTable wide (shownLabels style f.columns)
        ((f.rows.take positionsTableMaxRows).map (shownCells style f.columns)) = .ok table ∧
      reportContent wide style body =
        .ok ("```\n" ++ table ++ "\n```" ++ moreRows f.rows.length) := by
  have hshown : style.shown f.columns ≠ [] := by
    obtain ⟨c, hc, hmem⟩ := hknown
    rw [shown_eq]
    exact List.ne_nil_of_mem (List.mem_map_of_mem (List.mem_filter.2 ⟨hc, by simpa using hmem⟩))
  have hlen : (Value.int f.rows.length).eq (.int 0) = false := by
    have hpos : f.rows.length ≠ 0 := fun h => f.nonempty (List.length_eq_zero_iff.1 h)
    have hnumber : (Value.int f.rows.length).eq (.int 0) =
        (decide (PyFloat.fin (f.rows.length : ℤ) ≠ .nan) &&
          decide (PyFloat.fin (f.rows.length : ℤ) = .fin (0 : ℤ))) := by
      rfl
    rw [hnumber]
    simp [hpos]
  have htext : (Value.str text).truthy = true := by simpa using f.ne_empty
  have hreport : reportCsv body = .str text := by
    simp [reportCsv, hcsv, hcount, hlen, htext]
  have hrows : (f.rows.take positionsTableMaxRows).map (fun r => (style.shown f.columns).map (·.cell r)) =
      (f.rows.take positionsTableMaxRows).map (shownCells style f.columns) :=
    List.map_congr_left fun r _ => shown_cells style f.columns r
  obtain ⟨content, hcontent⟩ := reportTable_returns wide (style.shown f.columns) f.rows
  rw [reportTable, hrows, shown_labels] at hcontent
  obtain ⟨table, htable, hwrapped⟩ := bind_eq_ok.1 hcontent
  refine ⟨table, htable, ?_⟩
  rw [reportContent, hreport, htext, f.records]
  simp only [Bool.not_true, Bool.false_eq_true, if_false, ok_bind, hshown]
  rw [reportTable, hrows, shown_labels, htable, ok_bind]

/-- The fields of a report with a frame in it. -/
structure CarriesFrame (handle : String) (df : DataFrame) (csv : String) (body : Value) : Prop where
  strategyId : body.getOr "strategy_id" (.str "?") = .str handle
  rowCount : body.getOr "row_count" (.int 0) = .int df.length
  csv : body.getOr "csv" (.str "") = .str csv

theorem reportBody_of_frame {df : DataFrame} (h : df.empty = false) (csv : DataFrame → String)
    (handle : String) : reportBody (some df) csv handle =
      [(.str "strategy_id", .str handle), (.str "row_count", .int df.length),
        (.str "csv", .str (csv df))] := by
  have hdf : (some df).filter (fun df => !df.empty) = some df := by simp [Option.filter, h]
  rw [reportBody, hdf]

theorem carriesFrame_history {df : DataFrame} (h : df.empty = false) (handle : String) :
    CarriesFrame handle df df.csvWithIndex (historyReportBody (some df) handle) := by
  rw [historyReportBody, reportBody_of_frame h]
  exact ⟨rfl, rfl, rfl⟩

theorem carriesFrame_positions {df : DataFrame} (h : df.empty = false) (handle : String)
    (portfolio : Option Portfolio) (venues : List String) :
    CarriesFrame handle df df.csv (positionsReportBody (some df) handle portfolio venues) := by
  unfold positionsReportBody
  rw [reportBody_of_frame h]
  cases portfolio with
  | none => exact ⟨rfl, rfl, rfl⟩
  | some portfolio =>
    dsimp only
    split_ifs
    · exact ⟨rfl, rfl, rfl⟩
    · cases accountPnl portfolio venues with
      | error e => exact ⟨rfl, rfl, rfl⟩
      | ok pnl => exact ⟨rfl, rfl, rfl⟩

namespace ReportCommand

theorem carriesFrame {kind : ReportCommand} {rt : NtRuntime} {df : DataFrame}
    (hdf : kind.frame rt = some df) (h : df.empty = false) (handle : String) :
    CarriesFrame handle df (kind.csv df) (kind.body rt handle) := by
  cases kind with
  | positions | pnl =>
    simp only [frame] at hdf
    rw [body, hdf]
    exact carriesFrame_positions h handle _ _
  | fills | orders =>
    simp only [frame] at hdf
    rw [body, hdf]
    exact carriesFrame_history h handle

theorem isReport (kind : ReportCommand) (rt : NtRuntime) (handle : String) :
    ReportBody handle (kind.body rt handle) := by
  cases kind with
  | positions | pnl => exact reportBody_positions rt.positions handle (some rt.portfolio) _
  | fills => exact reportBody_history rt.fills handle
  | orders => exact reportBody_history rt.orders handle

theorem dispatch (kind : ReportCommand) (encode : Value → ByteArray) (rt : NtRuntime)
    (b : BridgeActor) (sid : String) :
    b.dispatch encode rt kind.action sid =
      [.publish kind.reportTopic (encode (kind.body rt b.controlHandle))] := by
  cases kind <;> rfl

def branch : ReportCommand → Branch
  | positions | pnl => .positionsReport
  | fills => .fillsReport
  | orders => .ordersReport

/-- A body without a type is taken for an event named like the end of its topic. -/
theorem branchOf_topic (kind : ReportCommand) :
    kind.reportTopic ≠ "tinohelm.message" ∧
      branchOf kind.reportTopic (lastSegment '.' kind.reportTopic) = kind.branch ∧
      colorMap.lookup (lastSegment '.' kind.reportTopic) = none := by
  cases kind <;> decide

theorem describe_branch (kind : ReportCommand) (py : PyText) (wide : Char → Bool)
    (colorOk : Value → Bool) (eventType : String) (rt : NtRuntime) (handle : String)
    (progress : Option OrderProgress) :
    kind.branch.describe py (formatters py wide colorOk) eventType (kind.body rt handle) progress =
      (fmtReport py wide kind.style (kind.summary py rt handle) (kind.body rt handle)).map
        fun text => (kind.title, [.plain text]) := by
  have hmap (x : Except PyError String) (title : String) :
      ((asPlain x).map fun lines => (title, lines)) = x.map fun text => (title, [.plain text]) := by
    cases x <;> rfl
  cases kind <;> exact hmap _ _

theorem renderEmbed (kind : ReportCommand) (py : PyText) (wide : Char → Bool)
    (colorOk : Value → Bool) (rt : NtRuntime) (handle : String) (t : OrderProgressTracker) :
    TinoHelm.renderEmbed py (formatters py wide colorOk) ⟨kind.reportTopic, kind.body rt handle⟩
        none (some t) =
      (fmtReport py wide kind.style (kind.summary py rt handle) (kind.body rt handle)).map
        fun text => ⟨kind.title, [.plain text], .int 0x99AAB5, some kind.reportTopic⟩ := by
  have hb := kind.isReport rt handle
  have hbody : embedBody (kind.body rt handle) = kind.body rt handle := if_pos hb.isDict
  have hprogress : t.progress (kind.body rt handle) = .ok none := by
    rw [OrderProgressTracker.progress, hb.noOrder]
    rfl
  have hguess : guessEventType py kind.reportTopic (kind.body rt handle) =
      lastSegment '.' kind.reportTopic := by
    rw [guessEventType, hb.noType]
    rfl
  obtain ⟨htopic, hbranch, hcolor⟩ := kind.branchOf_topic
  rw [renderEmbed_eq, hbody, hprogress, ok_bind, hguess, if_neg htopic]
  dsimp only
  rw [hbranch, hcolor, describe_branch]
  cases fmtReport py wide kind.style (kind.summary py rt handle) (kind.body rt handle) <;> rfl

end ReportCommand

section
variable (encode : Value → ByteArray) (dec : Decoders) (py : PyText) (wide : Char → Bool)
  (colorOk : Value → Bool)

/-- A report that left the pod with a frame reaches the logging channel as the table of
that frame: what `NT` reported is what the operator reads. -/
structure Shown (kind : ReportCommand) (rt : NtRuntime) (b : BridgeActor) {text : String}
    (f : WrittenFrame text) (table : String) : Prop where
  rows : markdownTable wide (shownLabels kind.style f.columns)
    ((f.rows.take positionsTableMaxRows).map (shownCells kind.style f.columns)) = .ok table
  published : ∀ sid, b.dispatch encode rt kind.action sid =
    [.publish kind.reportTopic (encode (kind.body rt b.controlHandle))]
  forwarded : ∀ tracker registry ch, (forwardStreamEntry dec ⟨some kind.reportTopic.toByteArray,
      .bytes (encode (kind.body rt b.controlHandle))⟩ tracker registry ch).result =
    .ok (some (⟨kind.reportTopic, kind.body rt b.controlHandle⟩, ch.logging))
  rendered : ∀ t, ∃ embed, renderEmbed py (formatters py wide colorOk)
      ⟨kind.reportTopic, kind.body rt b.controlHandle⟩ none (some t) = .ok embed ∧
    embed.title = kind.title ∧ embed.description =
      "**策略**: " ++ tick b.controlHandle ++ " · **" ++ kind.style.headNoun ++ "**: " ++
        tick (py.str (.int f.rows.length)) ++ " 条\n```\n" ++ table ++ "\n```" ++
        moreRows f.rows.length ++ kind.summary py rt b.controlHandle

end

theorem description_plain (title text : String) (color : Value) (footer : Option String) :
    Embed.description ⟨title, [.plain text], color, footer⟩ = text := by
  rw [Embed.description, List.map_singleton, String.intercalate_singleton, Line.text]

theorem reportHeader_eq (py : PyText) (style : ReportStyle) {body : Value} {handle : String} {n : ℕ}
    (hid : body.getOr "strategy_id" (.str "?") = .str handle)
    (hcount : body.getOr "row_count" (.int 0) = .int n) :
    reportHeader py style body = "**策略**: " ++ tick handle ++ " · **" ++ style.headNoun ++
      "**: " ++ tick (py.str (.int n)) ++ " 条" := by
  delta reportHeader
  rw [hid, hcount, py.str_str]

/-- Whatever a pod's frame holds, commas, quotes, line breaks and all: the report of it is
shown cell by cell, at most twelve rows, with the number of those left out. -/
theorem report_shows_frame (encode : Value → ByteArray) (dec : Decoders) (py : PyText)
    (wide : Char → Bool) (colorOk : Value → Bool) (b : BridgeActor) (rt : NtRuntime)
    (kind : ReportCommand) {df : DataFrame} (hdf : kind.frame rt = some df)
    (hempty : df.empty = false) (f : WrittenFrame (kind.csv df)) (hlen : df.length = f.rows.length)
    (hknown : ∃ c ∈ kind.style.columns, c.1 ∈ f.columns)
    (hround : dec.msgpack (encode (kind.body rt b.controlHandle)) =
      .ok (kind.body rt b.controlHandle)) :
    ∃ table, Shown encode dec py wide colorOk kind rt b f table := by
  obtain ⟨hid, hcount, hcsv⟩ := ReportCommand.carriesFrame hdf hempty b.controlHandle
  rw [hlen] at hcount
  obtain ⟨table, htable, hcontent⟩ := reportContent_of_frame wide kind.style f hcsv hcount hknown
  have hparse : parsePayload dec (.bytes (encode (kind.body rt b.controlHandle))) =
      .ok (kind.body rt b.controlHandle) := by
    simp only [parsePayload, hround]
  refine ⟨table, htable, kind.dispatch encode rt b, fun tracker registry ch => ?_, fun t => ?_⟩
  · exact deliver_report (reportTopic_onDemand kind) hparse (kind.isReport rt _) .stream tracker
      registry ch
  · refine ⟨_, by rw [kind.renderEmbed, fmtReport, hcontent]; rfl, rfl, ?_⟩
    refine (description_plain ..).trans ?_
    rw [reportHeader_eq py kind.style hid hcount]
    refine String.toList_inj.1 ?_
    simp [String.toList_append]

/-! A fill whose commission is written in quotes. -/

def feeText : String := "instrument_id,commission\nBTCUSDT,\"0,5 USDT\"\n"

def feeFrame : WrittenFrame feeText where
  columns := ["instrument_id", "commission"]
  rows := [["BTCUSDT", "0,5 USDT"]]
  nonempty := by simp
  written := by
    have plain (s : String) (h : ∀ c ∈ s.toList, Csv.isPlain c) : Csv.FieldText s.toList s.toList :=
      .plain h
    have hid := plain "instrument_id" (by simp [Csv.isPlain, Csv.Reader.isNewline])
    have hfee := plain "commission" (by simp [Csv.isPlain, Csv.Reader.isNewline])
    have hcoin := plain "BTCUSDT" (by simp [Csv.isPlain, Csv.Reader.isNewline])
    have hhead := Csv.RecordText.cons hid (.last hfee)
    have hrow := Csv.RecordText.cons hcoin (.last (.quoted "0,5 USDT".toList))
    simp only [String.ofList_toList] at hhead hrow
    exact .cons hhead (by simp) (.cons hrow (by simp) .nil)
  short := by decide

def feeRuntime : NtRuntime :=
  ⟨["Foo-h"], none, some ⟨false, 1, feeText, feeText⟩, none,
    ⟨fun _ => .ok [], fun _ => .ok [], fun _ => .ok []⟩, .ok [], 1000⟩

def feeBridge : BridgeActor := .init ⟨"h", "commands.tinohelm.h", "live", false⟩

def feeDecoders : Decoders where
  msgpack b :=
    if b.toList == (fixMap (ReportCommand.fills.body feeRuntime "h")).toList then
      .ok (ReportCommand.fills.body feeRuntime "h")
    else .error .decodeError
  json _ := .error .decodeError

theorem report_shows_frame_fee :
    ∃ table, Shown fixMap feeDecoders plainText ideograph (fun _ => true) .fills feeRuntime feeBridge
      feeFrame table :=
  report_shows_frame fixMap feeDecoders plainText ideograph _ feeBridge feeRuntime .fills rfl rfl
    feeFrame rfl ⟨("instrument_id", "标的", false), by decide, by decide⟩
    (if_pos (beq_self_eq_true _))

end TinoHelm
