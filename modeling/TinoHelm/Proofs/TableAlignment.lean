import TinoHelm.Proofs.TotalRendering

/-! Report tables as they stand in a monospaced font. Every cell fits the width its column
has in the end, so padding fills each column exactly and the lines fall into place. -/

namespace TinoHelm
open Base

/-- `text.split("\n")` -/
def textLines (text : String) : List String := (text.toList.splitOn '\n').map String.ofList

/-- The columns before the `i`-th, with the gap of two behind each. -/
def columnStart (widths : List ℕ) (i : ℕ) : ℕ := ((widths.take i).map (· + 2)).sum

section
variable (wide : Char → Bool)

/-- The line has the cell at the given place, with blanks behind it up to the width. -/
def ShowsAt (line cell : String) (start width : ℕ) : Prop :=
  ∃ before after n, line = before ++ cell ++ String.ofList (List.replicate n ' ') ++ after ∧
    displayWidth wide before = start ∧ displayWidth wide cell + n = width

/-- The text is a grid of cells in columns of these widths. -/
structure Aligned (widths : List ℕ) (grid : List (List String)) (text : String) : Prop where
  lineCount : (textLines text).length = grid.length
  sameWidth : ∃ total, ∀ line ∈ textLines text, displayWidth wide line = total
  columns : ∀ (j : ℕ) (line : String) (cells : List String),
    (textLines text)[j]? = some line → grid[j]? = some cells →
    ∀ (i : ℕ) (cell : String), cells[i]? = some cell →
      ∃ width, widths[i]? = some width ∧ ShowsAt wide line cell (columnStart widths i) width

theorem displayWidth_append (s t : String) :
    displayWidth wide (s ++ t) = displayWidth wide s + displayWidth wide t := by
  simp [displayWidth]

theorem displayWidth_join (l : List String) :
    displayWidth wide (String.join l) = (l.map (displayWidth wide)).sum := by
  induction l with
  | nil => simp [displayWidth]
  | cons s l ih => rw [String.join_cons, displayWidth_append, ih, List.map_cons, List.sum_cons]

variable {wide}

theorem displayWidth_replicate {c : Char} (h : wide c = false) (n : ℕ) :
    displayWidth wide (String.ofList (List.replicate n c)) = n := by
  simp [displayWidth, h]

theorem displayWidth_pad (h : wide ' ' = false) {text : String} {width : ℕ}
    (hfit : displayWidth wide text ≤ width) : displayWidth wide (pad wide text width) = width := by
  rw [pad, displayWidth_append, displayWidth_replicate h]
  omega

def Fitting (wide : Char → Bool) (widths : List ℕ) (cells : List String) : Prop :=
  List.Forall₂ (fun cell width => displayWidth wide cell ≤ width) cells widths

theorem fitting_widths (cells : List String) :
    Fitting wide (cells.map (displayWidth wide)) cells := by
  rw [Fitting, List.forall₂_map_right_iff, List.forall₂_same]
  exact fun _ _ => le_rfl

/-- Widening keeps what fits. -/
theorem Fitting.widen {widths : List ℕ} {cells : List String} (h : Fitting wide widths cells)
    (row : List String) : Fitting wide (TinoHelm.widen wide widths row) cells := by
  induction h generalizing row with
  | nil =>
    cases row with
    | nil => exact List.Forall₂.nil
    | cons => exact List.Forall₂.nil
  | cons hfit hrest ih =>
    cases row with
    | nil => exact List.Forall₂.cons hfit hrest
    | cons c row => exact List.Forall₂.cons (hfit.trans (le_max_left _ _)) (ih row)

theorem fitting_widen {widths : List ℕ} {row : List String} (h : row.length = widths.length) :
    Fitting wide (widen wide widths row) row := by
  induction widths generalizing row with
  | nil =>
    rw [List.length_eq_zero_iff.1 h]
    exact List.Forall₂.nil
  | cons w widths ih =>
    cases row with
    | nil => cases h
    | cons c row => exact List.Forall₂.cons (le_max_right _ _) (ih (Nat.succ.inj h))

theorem Fitting.foldl {widths : List ℕ} {cells : List String} (h : Fitting wide widths cells)
    (rows : List (List String)) : Fitting wide (rows.foldl (TinoHelm.widen wide) widths) cells := by
  induction rows generalizing widths with
  | nil => exact h
  | cons row rows ih => exact ih (h.widen row)

/-- The widths in the end fit every row that has taken part. -/
theorem fitting_foldl {widths : List ℕ} {rows : List (List String)}
    (h : ∀ row ∈ rows, row.length = widths.length) :
    ∀ row ∈ rows, Fitting wide (rows.foldl (widen wide) widths) row := by
  induction rows generalizing widths with
  | nil => exact fun row hrow => absurd hrow List.not_mem_nil
  | cons r rows ih =>
    rw [List.forall_mem_cons] at h ⊢
    refine ⟨(fitting_widen h.1).foldl rows, ih fun row hrow => ?_⟩
    rw [widen_length]
    exact h.2 row hrow

theorem fitting_rules (h : wide '─' = false) (widths : List ℕ) :
    Fitting wide widths (widths.map rule) := by
  rw [Fitting, List.forall₂_map_left_iff, List.forall₂_same]
  exact fun width _ => (displayWidth_replicate h width).le

def lineText (wide : Char → Bool) (widths : List ℕ) (cells : List String) : String :=
  "  ".intercalate (List.zipWith (pad wide) cells widths)

theorem Fitting.padded (h : wide ' ' = false) {widths : List ℕ} {cells : List String}
    (hfit : Fitting wide widths cells) :
    (List.zipWith (pad wide) cells widths).map (displayWidth wide) = widths := by
  induction hfit with
  | nil => rfl
  | cons hc _ ih => rw [List.zipWith_cons_cons, List.map_cons, ih, displayWidth_pad h hc]

def lineWidth : List ℕ → ℕ
  | [] => 0
  | w :: widths => w + (widths.map (2 + ·)).sum

theorem displayWidth_gap (h : wide ' ' = false) : displayWidth wide "  " = 2 :=
  displayWidth_replicate h 2

theorem displayWidth_intercalate (h : wide ' ' = false) (l : List String) :
    displayWidth wide ("  ".intercalate l) = lineWidth (l.map (displayWidth wide)) := by
  cases l with
  | nil => simp [displayWidth, lineWidth]
  | cons s l =>
    rw [intercalate_cons, displayWidth_append, displayWidth_join, List.map_map, List.map_cons,
      lineWidth, List.map_map]
    congr 2
    refine List.map_congr_left fun t _ => ?_
    exact (displayWidth_append wide "  " t).trans (by rw [displayWidth_gap h]; rfl)

/-- Each cell of a line stands where its column starts. -/
theorem lineText_showsAt (h : wide ' ' = false) {widths : List ℕ} {cells : List String}
    (hfit : Fitting wide widths cells) {i : ℕ} {cell : String} (hcell : cells[i]? = some cell) :
    ∃ width, widths[i]? = some width ∧
      ShowsAt wide (lineText wide widths cells) cell (columnStart widths i) width := by
  obtain ⟨hi, rfl⟩ := List.getElem?_eq_some_iff.1 hcell
  have hw : i < widths.length := hfit.length_eq ▸ hi
  have hle : displayWidth wide cells[i] ≤ widths[i] := hfit.get hi hw
  have hz : i < (List.zipWith (pad wide) cells widths).length := by
    rw [List.length_zipWith]
    omega
  have hsplit := List.take_append_drop i (List.zipWith (pad wide) cells widths)
  rw [List.drop_eq_getElem_cons hz, List.getElem_zipWith] at hsplit
  refine ⟨widths[i], List.getElem?_eq_getElem hw, ?_⟩
  rw [lineText, ← hsplit, intercalate_append_cons, pad]
  refine ⟨_, _, widths[i] - displayWidth wide cells[i], by rw [← String.append_assoc], ?_, by omega⟩
  rw [displayWidth_join, List.map_map, columnStart, ← hfit.padded h, ← List.map_take, List.map_map,
    hfit.padded h]
  refine congrArg List.sum (List.map_congr_left fun t _ => ?_)
  exact (displayWidth_append wide t "  ").trans (by rw [displayWidth_gap h]; rfl)

theorem not_mem_lineText {widths : List ℕ} {cells : List String}
    (h : ∀ cell ∈ cells, '\n' ∉ cell.toList) : '\n' ∉ (lineText wide widths cells).toList := by
  intro hmem
  rcases mem_intercalate hmem with hgap | ⟨s, hs, hc⟩
  · exact absurd hgap (by decide)
  · obtain ⟨i, hi, rfl⟩ := List.getElem_of_mem hs
    rw [List.length_zipWith] at hi
    rw [List.getElem_zipWith, pad, String.toList_append, List.mem_append] at hc
    rcases hc with hc | hc
    · exact h cells[i] (List.getElem_mem (by omega)) hc
    · simp at hc

theorem textLines_intercalate {lines : List String} (hne : lines ≠ [])
    (h : ∀ line ∈ lines, '\n' ∉ line.toList) : textLines ("\n".intercalate lines) = lines := by
  have hsplit : ("\n".intercalate lines).toList.splitOn '\n' = lines.map String.toList := by
    rw [String.toList_intercalate]
    refine List.splitOn_intercalate '\n' (fun l hl => ?_) (by simpa using hne)
    obtain ⟨line, hline, rfl⟩ := List.mem_map.1 hl
    exact h line hline
  rw [textLines, hsplit, List.map_map]
  simp [Function.comp_def]

def tableGrid (headers : List String) (widths : List ℕ) (rows : List (List String)) :
    List (List String) :=
  headers :: widths.map rule :: rows

theorem markdownTable_eq {headers : List String} {rows : List (List String)} {widths : List ℕ}
    (hw : widths = rows.foldl (widen wide) (headers.map (displayWidth wide)))
    (hfit : ∀ cells ∈ tableGrid headers widths rows, Fitting wide widths cells) :
    markdownTable wide headers rows =
      .ok ("\n".intercalate ((tableGrid headers widths rows).map (lineText wide widths))) := by
  have hlines : (tableGrid headers widths rows).mapM (tableRow wide widths) =
      .ok ((tableGrid headers widths rows).map (lineText wide widths)) :=
    mapM_eq_ok fun cells hcells => if_pos (hfit cells hcells).length_eq.le
  rw [markdownTable, ← hw]
  exact bind_eq_ok.2 ⟨_, hlines, rfl⟩

/-- The rows of a table, the headers and the rule between them fit its columns. -/
theorem fitting_grid (hrule : wide '─' = false) {headers : List String} {rows : List (List String)}
    {widths : List ℕ} (hw : widths = rows.foldl (widen wide) (headers.map (displayWidth wide)))
    (hrows : ∀ row ∈ rows, row.length = headers.length) :
    ∀ cells ∈ tableGrid headers widths rows, Fitting wide widths cells := by
  rw [tableGrid, List.forall_mem_cons, List.forall_mem_cons]
  refine ⟨?_, fitting_rules hrule widths, ?_⟩
  · rw [hw]
    exact (fitting_widths headers).foldl rows
  · rw [hw]
    exact fitting_foldl fun row hrow => (hrows row hrow).trans (List.length_map _).symm

theorem newline_not_mem_grid {headers : List String} {rows : List (List String)} (widths : List ℕ)
    (h : ∀ cells ∈ headers :: rows, ∀ cell ∈ cells, '\n' ∉ cell.toList) :
    ∀ cells ∈ tableGrid headers widths rows, ∀ cell ∈ cells, '\n' ∉ cell.toList := by
  rw [List.forall_mem_cons] at h
  rw [tableGrid, List.forall_mem_cons, List.forall_mem_cons]
  refine ⟨h.1, fun cell hcell => ?_, h.2⟩
  obtain ⟨width, -, rfl⟩ := List.mem_map.1 hcell
  simp [rule]

theorem aligned_of_fitting (hspace : wide ' ' = false) {widths : List ℕ}
    {grid : List (List String)} {text : String}
    (hlines : textLines text = grid.map (lineText wide widths))
    (hfit : ∀ cells ∈ grid, Fitting wide widths cells) : Aligned wide widths grid text := by
  refine ⟨?_, ⟨lineWidth widths, fun line hline => ?_⟩, fun j line cells hline hcells i cell hcell => ?_⟩
  · rw [hlines, List.length_map]
  · rw [hlines] at hline
    obtain ⟨cells, hcells, rfl⟩ := List.mem_map.1 hline
    rw [lineText, displayWidth_intercalate hspace, (hfit cells hcells).padded hspace]
  · rw [hlines, List.getElem?_map, hcells, Option.map_some, Option.some.injEq] at hline
    subst hline
    exact lineText_showsAt hspace (hfit cells (List.mem_of_getElem? hcells)) hcell

/-- A table without line breaks in its cells is a grid of lines: the headers, the rule and
the rows. -/
theorem table_aligned (hspace : wide ' ' = false) (hrule : wide '─' = false)
    (headers : List String) (rows : List (List String))
    (hrows : ∀ row ∈ rows, row.length = headers.length)
    (hbreak : ∀ cells ∈ headers :: rows, ∀ cell ∈ cells, '\n' ∉ cell.toList) :
    ∃ text widths, markdownTable wide headers rows = .ok text ∧ widths.length = headers.length ∧
      (textLines text).length = 2 + rows.length ∧
      Aligned wide widths (headers :: widths.map rule :: rows) text := by
  obtain ⟨widths, hw⟩ :
      ∃ widths, widths = rows.foldl (widen wide) (headers.map (displayWidth wide)) := ⟨_, rfl⟩
  have hfit := fitting_grid hrule hw hrows
  have hnl := newline_not_mem_grid widths hbreak
  have hlines : textLines ("\n".intercalate
      ((tableGrid headers widths rows).map (lineText wide widths))) =
        (tableGrid headers widths rows).map (lineText wide widths) := by
    refine textLines_intercalate (by simp [tableGrid]) fun line hline => ?_
    obtain ⟨cells, hcells, rfl⟩ := List.mem_map.1 hline
    exact not_mem_lineText (hnl cells hcells)
  refine ⟨_, widths, markdownTable_eq hw hfit, ?_, ?_, aligned_of_fitting hspace hlines hfit⟩
  · rw [hw, foldl_widen_length, List.length_map]
  · rw [hlines, tableGrid]
    simp only [List.map_cons, List.length_cons, List.length_map]
    omega

end

/-- Ideographs take two columns. -/
def ideograph (c : Char) : Bool := 0x4E00 ≤ c.toNat

theorem table_aligned_ideographs :
    ∃ text widths, markdownTable ideograph ["标的", "开仓均价"] [["BTC", "70000"], ["多单", "3"]] =
        .ok text ∧ widths.length = 2 ∧ (textLines text).length = 4 ∧
      Aligned ideograph widths
        (["标的", "开仓均价"] :: widths.map rule :: [["BTC", "70000"], ["多单", "3"]]) text :=
  table_aligned (by decide) (by decide) _ _ (by decide) (by decide)

end TinoHelm
