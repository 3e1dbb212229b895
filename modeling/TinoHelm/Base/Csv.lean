import TinoHelm.Base.Value

/-! `csv.reader` of the standard library with its default dialect, on `io.StringIO(text)`. -/

namespace Base.Csv

inductive State where
  | startRecord
  | startField
  | inField
  | inQuotedField
  | quoteInQuotedField
  | eatCrnl
deriving DecidableEq

/-- The record being read: its fields so far, and the characters of the next one. -/
structure Reader where
  state : State := .startRecord
  fields : List String := []
  field : List Char := []

/-- `csv.field_size_limit()` -/
def fieldLimit : ℕ := 131072

namespace Reader

def addChar (r : Reader) (c : Char) : Except PyError Reader :=
  if fieldLimit ≤ r.field.length then .error .csvError
  else .ok { r with field := r.field ++ [c] }

def saveField (r : Reader) : Reader :=
  { r with fields := r.fields ++ [String.ofList r.field], field := [] }

def goTo (r : Reader) (state : State) : Reader := { r with state }

def isNewline (c : Char) : Bool := c = '\n' || c = '\r'

def startField (r : Reader) (c : Char) : Except PyError Reader :=
  if isNewline c then .ok (r.saveField.goTo .eatCrnl)
  else if c = '"' then .ok (r.goTo .inQuotedField)
  else if c = ',' then .ok (r.saveField.goTo .startField)
  else (r.addChar c).map (·.goTo .inField)

/-- One character of a line. -/
def feed (r : Reader) (c : Char) : Except PyError Reader :=
  match r.state with
  | .startRecord => if isNewline c then .ok (r.goTo .eatCrnl) else r.startField c
  | .startField => r.startField c
  | .inField =>
    if isNewline c then .ok (r.saveField.goTo .eatCrnl)
    else if c = ',' then .ok (r.saveField.goTo .startField)
    else r.addChar c
  | .inQuotedField => if c = '"' then .ok (r.goTo .quoteInQuotedField) else r.addChar c
  | .quoteInQuotedField =>
    if c = '"' then (r.addChar c).map (·.goTo .inQuotedField)
    else if c = ',' then .ok (r.saveField.goTo .startField)
    else if isNewline c then .ok (r.saveField.goTo .eatCrnl)
    else (r.addChar c).map (·.goTo .inField)
  | .eatCrnl => if isNewline c then .ok r else .error .csvError

def endLine (r : Reader) : Reader :=
  match r.state with
  | .startRecord | .inQuotedField => r
  | .startField | .inField | .quoteInQuotedField => r.saveField.goTo .startRecord
  | .eatCrnl => r.goTo .startRecord

end Reader

/-- The lines of a `StringIO`, each with its newline. -/
def lines : List Char → List (List Char)
  | [] => []
  | c :: cs =>
    if c = '\n' then [c] :: lines cs
    else
      match lines cs with
      | [] => [[c]]
      | l :: ls => (c :: l) :: ls

/-- The records in the lines, the first of them begun by `r`. -/
def readRecords : Reader → List (List Char) → Except PyError (List (List String))
  | r, [] => .ok (if r.field ≠ [] ∨ r.state = .inQuotedField then [r.saveField.fields] else [])
  | r, line :: ls => do
    let r := (← line.foldlM Reader.feed r).endLine
    if r.state = .startRecord then .ok (r.fields :: (← readRecords {} ls)) else readRecords r ls

/-- `list(csv.reader(io.StringIO(text)))` -/
def read (text : String) : Except PyError (List (List String)) := readRecords {} (lines text.toList)

example : read "a,\"b \"\"x\"\"\n c\",d\n\ne\r\n" =
    .ok [["a", "b \"x\"\n c", "d"], [], ["e"]] := by decide +kernel
example : read "a\rb\n" = .error .csvError := by decide +kernel

/-! What `csv.writer` and `DataFrame.to_csv` write, however many fields they put between
quotes, the reader gives back. -/

/-- A character that stands for itself outside quotes. -/
def isPlain (c : Char) : Bool := c ≠ ',' && c ≠ '"' && !Reader.isNewline c

/-- `"` twice for each `"`. -/
def escape (field : List Char) : List Char := field.flatMap fun c => if c = '"' then ['"', '"'] else [c]

/-- The text of a field: the field itself, if it needs no quotes, or the field in quotes. -/
inductive FieldText : List Char → List Char → Prop where
  | plain {field} (h : ∀ c ∈ field, isPlain c) : FieldText field field
  | quoted (field) : FieldText ('"' :: (escape field ++ ['"'])) field

inductive RecordText : List Char → List String → Prop where
  | last {text field} (h : FieldText text field) : RecordText text [String.ofList field]
  | cons {text field rest fields} (h : FieldText text field) (hr : RecordText rest fields) :
      RecordText (text ++ ',' :: rest) (String.ofList field :: fields)

/-- A newline ends each record. A record of a single empty field is written in quotes. -/
inductive Text : List Char → List (List String) → Prop where
  | nil : Text [] []
  | cons {text record rest records} (h : RecordText text record) (hne : text ≠ [])
      (hr : Text rest records) : Text (text ++ '\n' :: rest) (record :: records)

/-- What the reader makes of the rest of a line and of the lines behind it. -/
def scan (r : Reader) : List Char → Except PyError (List (List String))
  | [] => if r.endLine.state = .startRecord then .ok [r.endLine.fields] else readRecords r.endLine []
  | c :: cs =>
    if c = '\n' then do
      let r := (← r.feed c).endLine
      if r.state = .startRecord then .ok (r.fields :: (← readRecords {} (lines cs)))
      else readRecords r (lines cs)
    else do
      scan (← r.feed c) cs

theorem lines_cons_ne {c : Char} (hc : c ≠ '\n') {cs : List Char} (hcs : cs ≠ []) :
    ∃ l ls, lines cs = l :: ls ∧ lines (c :: cs) = (c :: l) :: ls := by
  cases h : lines cs with
  | nil =>
    cases cs with
    | nil => exact absurd rfl hcs
    | cons d ds =>
      rw [lines] at h
      split_ifs at h
      split at h <;> cases h
  | cons l ls =>
    refine ⟨l, ls, rfl, ?_⟩
    rw [lines, if_neg hc, h]

theorem readRecords_lines (r : Reader) {cs : List Char} (hcs : cs ≠ []) :
    readRecords r (lines cs) = scan r cs := by
  induction cs generalizing r with
  | nil => exact absurd rfl hcs
  | cons c cs ih =>
    by_cases hc : c = '\n'
    · have hone : [c].foldlM Reader.feed r = r.feed c := by cases h : r.feed c <;> simp [h]
      rw [lines, if_pos hc, readRecords, scan, if_pos hc, hone]
    · rw [scan, if_neg hc]
      by_cases hnil : cs = []
      · subst hnil
        rw [lines, if_neg hc]
        cases hf : r.feed c with
        | error e => simp [lines, readRecords, hf]
        | ok r => simp [lines, readRecords, scan, hf]
      · obtain ⟨l, ls, hl, hcl⟩ := lines_cons_ne hc hnil
        rw [hcl, readRecords, List.foldlM_cons]
        cases hf : r.feed c with
        | error e => rfl
        | ok r' =>
          have := ih r' hnil
          rw [hl, readRecords] at this
          exact this

theorem feed_plain {r : Reader} {c : Char} (hc : isPlain c)
    (hs : r.state = .startRecord ∨ r.state = .startField ∨ r.state = .inField)
    (hl : r.field.length < fieldLimit) :
    r.feed c = .ok { r with state := .inField, field := r.field ++ [c] } := by
  simp only [isPlain, Bool.and_eq_true, Bool.not_eq_true', decide_eq_true_eq] at hc
  obtain ⟨⟨hcomma, hquote⟩, hnewline⟩ := hc
  have hadd : r.addChar c = .ok { r with field := r.field ++ [c] } := if_neg (not_le.2 hl)
  rcases hs with hs | hs | hs
  all_goals
    simp [Reader.feed, Reader.startField, hs, hcomma, hquote, hnewline, hadd, Except.map,
      Reader.goTo]

theorem ne_newline_of_isPlain {c : Char} (hc : isPlain c) : c ≠ '\n' := by
  rintro rfl
  exact absurd hc (by decide)

theorem scan_plain {r : Reader} {field : List Char} (hp : ∀ c ∈ field, isPlain c) (hne : field ≠ [])
    (hs : r.state = .startRecord ∨ r.state = .startField ∨ r.state = .inField)
    (hl : r.field.length + field.length ≤ fieldLimit) (cs : List Char) :
    scan r (field ++ cs) = scan { r with state := .inField, field := r.field ++ field } cs := by
  induction field generalizing r with
  | nil => exact absurd rfl hne
  | cons c field ih =>
    rw [List.length_cons] at hl
    have hc := hp c List.mem_cons_self
    rw [List.cons_append, scan, if_neg (ne_newline_of_isPlain hc), feed_plain hc hs (by omega), ok_bind]
    by_cases hnil : field = []
    · rw [hnil, List.nil_append]
    · rw [ih (fun d hd => hp d (List.mem_cons_of_mem c hd)) hnil (Or.inr (Or.inr rfl))
        (by simp only [List.length_append, List.length_singleton]; omega)]
      simp

theorem scan_escaped {r : Reader} (hs : r.state = .inQuotedField) {field : List Char}
    (hl : r.field.length + field.length ≤ fieldLimit) {cs : List Char} (hcs : cs ≠ []) :
    scan r (escape field ++ cs) = scan { r with field := r.field ++ field } cs := by
  induction field generalizing r with
  | nil => simp [escape]
  | cons c field ih =>
    rw [List.length_cons] at hl
    have hnext : ∀ {r' : Reader}, r' = { r with field := r.field ++ [c] } →
        scan r' (escape field ++ cs) = scan { r with field := r.field ++ c :: field } cs := by
      rintro r' rfl
      rw [@ih { r with field := r.field ++ [c] } hs
        (by simp only [List.length_append, List.length_singleton]; omega)]
      simp
    have hadd : r.addChar c = .ok { r with field := r.field ++ [c] } :=
      if_neg (not_le.2 (by omega))
    have hback : ({ r with state := .inQuotedField, field := r.field ++ [c] } : Reader) =
        { r with field := r.field ++ [c] } := by rw [← hs]
    by_cases hq : c = '"'
    · subst hq
      have hopen : r.feed '"' = .ok (r.goTo .quoteInQuotedField) := by simp [Reader.feed, hs]
      have hclose : (r.goTo .quoteInQuotedField).feed '"' =
          .ok { r with state := .inQuotedField, field := r.field ++ ['"'] } := by
        have hlt : ¬fieldLimit ≤ r.field.length := by omega
        simp [Reader.feed, Reader.goTo, Reader.addChar, hlt, Except.map]
      change scan r ('"' :: '"' :: (escape field ++ cs)) = _
      rw [scan, if_neg (by decide), hopen, ok_bind, scan, if_neg (by decide), hclose, ok_bind]
      exact hnext hback
    · have hescape : escape (c :: field) = c :: escape field := by simp [escape, hq]
      have hfeed : r.feed c = .ok { r with field := r.field ++ [c] } := by
        simp [Reader.feed, hs, hq, hadd]
      have hend : Reader.endLine { r with field := r.field ++ [c] } =
          { r with field := r.field ++ [c] } := by simp [Reader.endLine, hs]
      have hnot : ({ r with field := r.field ++ [c] } : Reader).state ≠ .startRecord := by simp [hs]
      rw [hescape, List.cons_append, scan, hfeed]
      split_ifs
      · -- a line ends between the quotes
        rw [ok_bind]
        dsimp only
        rw [hend, if_neg hnot, readRecords_lines _ (List.append_ne_nil_of_right_ne_nil _ hcs)]
        exact hnext rfl
      · rw [ok_bind]
        exact hnext rfl

/-- A field has been read, and its delimiter comes next. -/
def Reader.atEnd (r : Reader) (field : List Char) (state : State) : Reader := { r with state, field }

theorem scan_field {r : Reader} (hs : r.state = .startRecord ∨ r.state = .startField)
    (hf : r.field = []) {text field : List Char} (h : FieldText text field)
    (hl : field.length ≤ fieldLimit) (cs : List Char) :
    ∃ state, scan r (text ++ cs) = scan (r.atEnd field state) cs ∧
      (state = .inField ∨ state = .quoteInQuotedField ∨ state = r.state ∧ text = []) := by
  cases h with
  | plain hp =>
    by_cases hne : text = []
    · refine ⟨r.state, ?_, Or.inr (Or.inr ⟨rfl, hne⟩)⟩
      have hsame : r.atEnd [] r.state = r := by rw [Reader.atEnd, ← hf]
      rw [hne, List.nil_append, hsame]
    · refine ⟨.inField, ?_, Or.inl rfl⟩
      rw [scan_plain hp hne (hs.imp_right Or.inl) (by simpa [hf] using hl), hf]
      rfl
  | quoted =>
    refine ⟨.quoteInQuotedField, ?_, Or.inr (Or.inl rfl)⟩
    have hopen : r.feed '"' = .ok (r.goTo .inQuotedField) := by
      rcases hs with hs | hs <;> simp [Reader.feed, Reader.startField, Reader.isNewline, hs]
    have hclose : ∀ g, ({ r with state := .inQuotedField, field := g } : Reader).feed '"' =
        .ok { r with state := .quoteInQuotedField, field := g } := fun g => rfl
    rw [List.cons_append, scan, if_neg (by decide), hopen, ok_bind, List.append_assoc,
      scan_escaped rfl (by simpa [Reader.goTo, hf] using hl) (by simp)]
    simp only [Reader.goTo, hf, List.nil_append, List.cons_append]
    rw [scan, if_neg (by decide), hclose, ok_bind]
    rfl

/-- A record, up to its newline. -/
theorem scan_record {r : Reader} (hs : r.state = .startRecord ∨ r.state = .startField)
    (hf : r.field = []) {text : List Char} {record : List String} (h : RecordText text record)
    (hne : r.state = .startRecord → text ≠ []) (hl : ∀ f ∈ record, f.length ≤ fieldLimit)
    (cs : List Char) :
    scan r (text ++ '\n' :: cs) =
      (readRecords {} (lines cs)).map fun records => (r.fields ++ record) :: records := by
  induction h generalizing r with
  | @last text field h =>
    have hlen : field.length ≤ fieldLimit := by simpa using hl _ List.mem_cons_self
    obtain ⟨state, hscan, hstate⟩ := scan_field hs hf h hlen ('\n' :: cs)
    have hfeed : (r.atEnd field state).feed '\n' =
        .ok ((r.atEnd field state).saveField.goTo .eatCrnl) := by
      rcases hstate with rfl | rfl | ⟨rfl, hnil⟩
      · rfl
      · rfl
      · have hstart := hs.resolve_left fun he => hne he hnil
        simp [Reader.feed, Reader.atEnd, Reader.startField, Reader.isNewline, hstart]
    rw [hscan, scan, if_pos rfl, hfeed, ok_bind]
    cases readRecords {} (lines cs) <;> rfl
  | @cons text field rest fields h hr ih =>
    have hlen : field.length ≤ fieldLimit := by simpa using hl _ List.mem_cons_self
    obtain ⟨state, hscan, hstate⟩ := scan_field hs hf h hlen (',' :: (rest ++ '\n' :: cs))
    have hfeed : (r.atEnd field state).feed ',' =
        .ok ((r.atEnd field state).saveField.goTo .startField) := by
      rcases hstate with rfl | rfl | ⟨rfl, -⟩
      · rfl
      · rfl
      · rcases hs with hs | hs
        all_goals simp [Reader.feed, Reader.atEnd, Reader.startField, Reader.isNewline, hs]
    have hnext := @ih ((r.atEnd field state).saveField.goTo .startField) (Or.inr rfl) rfl
      (by simp [Reader.goTo]) fun f hf => hl f (List.mem_cons_of_mem _ hf)
    rw [List.append_assoc, List.cons_append, hscan, scan, if_neg (by decide), hfeed, ok_bind, hnext]
    simp [Reader.saveField, Reader.goTo, Reader.atEnd]

/-- A reader reads back what was written. -/
theorem read_text {text : List Char} {records : List (List String)} (h : Text text records)
    (hl : ∀ record ∈ records, ∀ f ∈ record, f.length ≤ fieldLimit) :
    read (String.ofList text) = .ok records := by
  rw [read, String.toList_ofList]
  induction h with
  | nil => rfl
  | cons h hne hr ih =>
    have hrest := ih fun record hrec => hl record (List.mem_cons_of_mem _ hrec)
    rw [readRecords_lines _ (by simp), scan_record (Or.inl rfl) rfl h (fun _ => hne)
      (hl _ List.mem_cons_self), hrest]
    rfl

end Base.Csv
