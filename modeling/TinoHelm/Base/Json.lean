import TinoHelm.Base.Dict
import TinoHelm.Base.Text
import TinoHelm.Base.Value

/-! JSON text: the encoder of string-to-string dictionaries and the decoder, as
`json.dumps` and `json.loads` have them, and the round trip between the two. -/

namespace Base.Json

/-! Strings. Characters outside the basic plane are two escapes, a surrogate pair. -/

def isHigh (u : ℕ) : Bool := 0xD800 ≤ u && u < 0xDC00

def isLow (u : ℕ) : Bool := 0xDC00 ≤ u && u < 0xE000

def units (c : Char) : List ℕ :=
  if c.toNat < 0x10000 then [c.toNat]
  else [0xD800 + (c.toNat - 0x10000) / 1024, 0xDC00 + (c.toNat - 0x10000) % 1024]

/-- A lone surrogate is no character; it is read as U+FFFD. -/
def unitChar (u : ℕ) : Char :=
  if isHigh u || isLow u then Char.ofNat 0xFFFD else Char.ofNat u

def joinUnits : List ℕ → List Char
  | [] => []
  | [u] => [unitChar u]
  | u :: v :: us =>
    if isHigh u && isLow v then
      Char.ofNat (0x10000 + 1024 * (u - 0xD800) + (v - 0xDC00)) :: joinUnits us
    else unitChar u :: joinUnits (v :: us)

def escapeUnit (u : ℕ) : List Char :=
  ['\\', 'u', hexDigit (u / 4096), hexDigit (u / 256 % 16), hexDigit (u / 16 % 16),
    hexDigit (u % 16)]

/-- The escape letters of the characters that have one. -/
def shortEscapes : List (Char × Char) :=
  [('"', '"'), ('\\', '\\'), ('\n', 'n'), ('\r', 'r'), ('\t', 't'), (Char.ofNat 8, 'b'),
    (Char.ofNat 12, 'f')]

def escapeChar (c : Char) : List Char :=
  match shortEscapes.lookup c with
  | some e => ['\\', e]
  | none =>
    if 32 ≤ c.toNat ∧ c.toNat < 127 then [c] else (units c).flatMap escapeUnit

def hexVal (c : Char) : Option ℕ :=
  if '0' ≤ c ∧ c ≤ '9' then some (c.toNat - 48)
  else if 'a' ≤ c ∧ c ≤ 'f' then some (c.toNat - 87)
  else if 'A' ≤ c ∧ c ≤ 'F' then some (c.toNat - 55)
  else none

def hex4 (a b c d : Char) : Option ℕ := do
  return 4096 * (← hexVal a) + 256 * (← hexVal b) + 16 * (← hexVal c) + (← hexVal d)

def unescape (e : Char) : Option ℕ :=
  if e = '/' then some '/'.toNat
  else (shortEscapes.find? fun p => p.2 = e).map fun p => p.1.toNat

/-- The units up to the closing quote, and what follows it. -/
def scanString : List Char → Option (List ℕ × List Char)
  | [] => none
  | '"' :: r => some ([], r)
  | '\\' :: 'u' :: a :: b :: c :: d :: r => do
    let u ← hex4 a b c d
    let (us, r) ← scanString r
    return (u :: us, r)
  | '\\' :: e :: r => do
    let u ← unescape e
    let (us, r) ← scanString r
    return (u :: us, r)
  | c :: r =>
    if c.toNat < 32 then none
    else do
      let (us, r) ← scanString r
      return (c.toNat :: us, r)

/-! Values. -/

def skipSpace (cs : List Char) : List Char :=
  cs.dropWhile fun c => c = ' ' || c = '\t' || c = '\n' || c = '\r'

def literals : List (List Char × Value) :=
  [("null".toList, .none), ("true".toList, .bool true), ("false".toList, .bool false),
    ("NaN".toList, .float .nan), ("Infinity".toList, .float (.inf false)),
    ("-Infinity".toList, .float (.inf true))]

def scanLiteral (cs : List Char) : Option (Value × List Char) :=
  (literals.find? fun l => l.1.isPrefixOf cs).map fun l => (l.2, cs.drop l.1.length)

def takeDigits (cs : List Char) : List Char := cs.takeWhile Char.isDigit

/-- `0` or a run of digits that does not start with it. -/
def scanInt (cs : List Char) : Option (List Char) :=
  match cs with
  | '0' :: _ => some ['0']
  | cs => if takeDigits cs = [] then none else some (takeDigits cs)

def scanFraction (cs : List Char) : List Char :=
  match cs with
  | '.' :: r => if takeDigits r = [] then [] else takeDigits r
  | _ => []

/-- The exponent and its length in characters. -/
def scanExponent (cs : List Char) : ℤ × ℕ :=
  let read (neg : Bool) (signs : ℕ) (r : List Char) : ℤ × ℕ :=
    if takeDigits r = [] then (0, 0)
    else
      let n : ℤ := PyFloat.digitsValue (takeDigits r)
      (if neg then -n else n, 1 + signs + (takeDigits r).length)
  match cs with
  | c :: r =>
    if c = 'e' ∨ c = 'E' then
      match r with
      | '-' :: r => read true 1 r
      | '+' :: r => read false 1 r
      | r => read false 0 r
    else (0, 0)
  | [] => (0, 0)

/-- An integer, or a float if there is a fraction or an exponent. Integers of more
than 4300 digits are refused. -/
def scanNumber (cs : List Char) : Option (Value × List Char) := do
  let neg := cs.head? == some '-'
  let body := if neg then cs.tail else cs
  let ip ← scanInt body
  let r := body.drop ip.length
  let fp := scanFraction r
  let r := if fp = [] then r else r.drop (fp.length + 1)
  let (e, n) := scanExponent r
  let r := r.drop n
  if fp = [] ∧ n = 0 then
    if 4300 < ip.length then none
    let v : ℤ := PyFloat.digitsValue ip
    return (.int (if neg then -v else v), r)
  else
    let m : ℚ := PyFloat.digitsValue (ip ++ fp) * (10 : ℚ) ^ (e - (fp.length : ℤ))
    return (.float (PyFloat.ofDecimal neg m), r)

section
variable (value : List Char → Option (Value × List Char))

/-- The elements of an array behind its `[`, which is known to hold one. -/
def parseElements : ℕ → List Char → Option (List Value × List Char)
  | 0, _ => none
  | n + 1, cs => do
    let (v, r) ← value cs
    match skipSpace r with
    | ',' :: r => do
      let (vs, r) ← parseElements n (skipSpace r)
      return (v :: vs, r)
    | ']' :: r => return ([v], r)
    | _ => none

/-- The members of an object behind its `{`, which is known to hold one. -/
def parseMembers : ℕ → List Char → Option (List (String × Value) × List Char)
  | 0, _ => none
  | n + 1, cs =>
    match cs with
    | '"' :: r => do
      let (us, r) ← scanString r
      match skipSpace r with
      | ':' :: r => do
        let (v, r) ← value (skipSpace r)
        match skipSpace r with
        | ',' :: r => do
          let (ms, r) ← parseMembers n (skipSpace r)
          return ((String.ofList (joinUnits us), v) :: ms, r)
        | '}' :: r => return ([(String.ofList (joinUnits us), v)], r)
        | _ => none
      | _ => none
    | _ => none
end

/-- Of members with the same key the last one counts. -/
def dictOf (ms : List (String × Value)) : Value :=
  .dict ((Dict.ofList ms).entries.map fun m => (.str m.1, m.2))

/-- The value at the front of the text. The fuel bounds the nesting depth. -/
def parseValue : ℕ → List Char → Option (Value × List Char)
  | 0, _ => none
  | n + 1, cs =>
    match cs with
    | '"' :: r => (scanString r).map fun p => (.str (String.ofList (joinUnits p.1)), p.2)
    | '[' :: r =>
      match skipSpace r with
      | ']' :: r => some (.list [], r)
      | r => (parseElements (parseValue n) r.length r).map fun p => (.list p.1, p.2)
    | '{' :: r =>
      match skipSpace r with
      | '}' :: r => some (.dict [], r)
      | r => (parseMembers (parseValue n) r.length r).map fun p => (dictOf p.1, p.2)
    | cs => (scanLiteral cs).or (scanNumber cs)

/-- `json.loads(s)`, `none` for the `ValueError` on text that is not JSON. -/
def loads (s : String) : Option Value :=
  match parseValue (s.toList.length + 1) (skipSpace s.toList) with
  | some (v, r) => if skipSpace r = [] then some v else none
  | none => none

/-! Arrays and objects are read recursively, as deep as the stack of the interpreter
allows; beyond that `json.loads` raises `RecursionError`. -/

section
variable (value : List Char → Option (Value × List Char)) (deep : List Char → Bool)

/-- Reading the elements gets to one that is too deep. -/
def deepElements : ℕ → List Char → Bool
  | 0, _ => false
  | n + 1, cs =>
    deep cs ||
      match value cs with
      | none => false
      | some (_, r) =>
        match skipSpace r with
        | ',' :: r => deepElements n (skipSpace r)
        | _ => false

/-- Reading the members gets to a value that is too deep. -/
def deepMembers : ℕ → List Char → Bool
  | 0, _ => false
  | n + 1, cs =>
    match cs with
    | '"' :: r =>
      match scanString r with
      | none => false
      | some (_, r) =>
        match skipSpace r with
        | ':' :: r =>
          deep (skipSpace r) ||
            match value (skipSpace r) with
            | none => false
            | some (_, r) =>
              match skipSpace r with
              | ',' :: r => deepMembers n (skipSpace r)
              | _ => false
        | _ => false
    | _ => false
end

/-- Reading the value at the front opens more than `depth` containers in each other. -/
def deeperThan : ℕ → List Char → Bool
  | 0, cs =>
    match cs with
    | '[' :: _ | '{' :: _ => true
    | _ => false
  | depth + 1, cs =>
    match cs with
    | '[' :: r =>
      match skipSpace r with
      | ']' :: _ => false
      | r => deepElements (parseValue r.length) (deeperThan depth) r.length r
    | '{' :: r =>
      match skipSpace r with
      | '}' :: _ => false
      | r => deepMembers (parseValue r.length) (deeperThan depth) r.length r
    | _ => false

/-- `json.loads(s)` where `depth` nested containers fit on the stack, with `ValueError`
caught as `none`. -/
def loadsWithin (depth : ℕ) (s : String) : Except PyError (Option Value) :=
  if deeperThan depth (skipSpace s.toList) then .error .recursionError else .ok (loads s)

/-! Bytes. `json.loads` guesses their encoding and lets lone surrogates pass, which are
read as U+FFFD here too. -/

inductive Encoding where
  | utf8
  | utf16 (little : Bool)
  | utf32 (little : Bool)
deriving DecidableEq

/-- The encoding of the bytes, and the bytes behind the byte order mark. -/
def detectEncoding : List UInt8 → Encoding × List UInt8
  | 0 :: 0 :: 0xFE :: 0xFF :: r => (.utf32 false, r)
  | 0xFF :: 0xFE :: 0 :: 0 :: r => (.utf32 true, r)
  | 0xFE :: 0xFF :: r => (.utf16 false, r)
  | 0xFF :: 0xFE :: r => (.utf16 true, r)
  | 0xEF :: 0xBB :: 0xBF :: r => (.utf8, r)
  | a :: b :: c :: d :: r =>
    let bs := a :: b :: c :: d :: r
    if a = 0 then (if b = 0 then .utf32 false else .utf16 false, bs)
    else if b = 0 then (if c = 0 ∧ d = 0 then .utf32 true else .utf16 true, bs)
    else (.utf8, bs)
  | [a, b] =>
    if a = 0 then (.utf16 false, [a, b])
    else if b = 0 then (.utf16 true, [a, b])
    else (.utf8, [a, b])
  | bs => (.utf8, bs)

/-- A surrogate encoded in UTF-8 becomes an encoded U+FFFD. -/
def replaceSurrogates : List UInt8 → List UInt8
  | 0xED :: b :: c :: r =>
    if 0xA0 ≤ b ∧ b < 0xC0 ∧ 0x80 ≤ c ∧ c < 0xC0 then
      0xEF :: 0xBF :: 0xBD :: replaceSurrogates r
    else 0xED :: replaceSurrogates (b :: c :: r)
  | b :: r => b :: replaceSurrogates r
  | [] => []

def utf16Units (little : Bool) : List UInt8 → Option (List ℕ)
  | [] => some []
  | [_] => none
  | a :: b :: r =>
    (utf16Units little r).map fun us =>
      (if little then a.toNat + 256 * b.toNat else 256 * a.toNat + b.toNat) :: us

def utf32Chars (little : Bool) : List UInt8 → Option (List Char)
  | [] => some []
  | a :: b :: c :: d :: r =>
    let bs := if little then [d, c, b, a] else [a, b, c, d]
    let u := bs.foldl (fun u x => 256 * u + x.toNat) 0
    if u < 0x110000 then (utf32Chars little r).map fun cs => unitChar u :: cs else none
  | _ => none

def decodeBytes (bs : List UInt8) : Option String :=
  match detectEncoding bs with
  | (.utf8, bs) => String.fromUTF8? ⟨(replaceSurrogates bs).toArray⟩
  | (.utf16 little, bs) => (utf16Units little bs).map fun us => String.ofList (joinUnits us)
  | (.utf32 little, bs) => (utf32Chars little bs).map String.ofList

def loadsBytes (b : ByteArray) : Option Value := (decodeBytes b.toList).bind loads

def loadsBytesWithin (depth : ℕ) (b : ByteArray) : Except PyError (Option Value) :=
  match decodeBytes b.toList with
  | none => .ok none
  | some s => loadsWithin depth s

def dumpsStr (s : String) : List Char := '"' :: (s.toList.flatMap escapeChar ++ ['"'])

def dumpsMember (m : String × String) : List Char := dumpsStr m.1 ++ ':' :: ' ' :: dumpsStr m.2

def dumpsMembers (d : List (String × String)) : List Char :=
  [',', ' '].intercalate (d.map dumpsMember)

/-- `json.dumps(d)` for a dictionary from strings to strings. -/
def dumps (d : List (String × String)) : String :=
  String.ofList ('{' :: (dumpsMembers d ++ ['}']))

/-! The round trip, character by character, then string by string. -/

theorem hexVal_hexDigit : ∀ d < 16, hexVal (hexDigit d) = some d := by decide

theorem hex4_digits {u : ℕ} (h : u < 0x10000) :
    hex4 (hexDigit (u / 4096)) (hexDigit (u / 256 % 16)) (hexDigit (u / 16 % 16))
      (hexDigit (u % 16)) = some u := by
  simp only [hex4, hexVal_hexDigit (u / 4096) (by omega), hexVal_hexDigit (u / 256 % 16) (by omega),
    hexVal_hexDigit (u / 16 % 16) (by omega), hexVal_hexDigit (u % 16) (by omega),
    Option.bind_eq_bind, Option.bind_some, Option.pure_def, Option.some.injEq]
  omega

theorem toNat_lt (c : Char) : c.toNat < 0x110000 := by
  have := c.valid
  simp only [UInt32.isValidChar, Nat.isValidChar] at this
  change c.val.toNat < 0x110000
  omega

theorem not_surrogate (c : Char) : isHigh c.toNat = false ∧ isLow c.toNat = false := by
  have := c.valid
  simp only [UInt32.isValidChar, Nat.isValidChar] at this
  change isHigh c.val.toNat = false ∧ isLow c.val.toNat = false
  simp only [isHigh, isLow, Bool.and_eq_false_iff, decide_eq_false_iff_not]
  omega

theorem units_lt {c : Char} {u : ℕ} (h : u ∈ units c) : u < 0x10000 := by
  have := toNat_lt c
  unfold units at h
  split_ifs at h with hc
  · rw [List.mem_singleton.1 h]
    exact hc
  · simp only [List.mem_cons, List.not_mem_nil, or_false] at h
    omega

theorem joinUnits_units (c : Char) (us : List ℕ) :
    joinUnits (units c ++ us) = c :: joinUnits us := by
  have hlt := toNat_lt c
  unfold units
  split_ifs with hc
  · obtain ⟨hh, hl⟩ := not_surrogate c
    cases us with
    | nil => simp [joinUnits, unitChar, hh, hl]
    | cons v us => simp [joinUnits, unitChar, hh, hl]
  · have hh : isHigh (0xD800 + (c.toNat - 0x10000) / 1024) = true := by
      simp only [isHigh, Bool.and_eq_true, decide_eq_true_eq]
      omega
    have hl : isLow (0xDC00 + (c.toNat - 0x10000) % 1024) = true := by
      simp only [isLow, Bool.and_eq_true, decide_eq_true_eq]
      omega
    have hn : 0x10000 + 1024 * (0xD800 + (c.toNat - 0x10000) / 1024 - 0xD800) +
        (0xDC00 + (c.toNat - 0x10000) % 1024 - 0xDC00) = c.toNat := by omega
    rw [List.cons_append, List.cons_append, List.nil_append, joinUnits, hh, hl, hn,
      Char.ofNat_toNat]
    rfl

theorem joinUnits_flatMap (cs : List Char) : joinUnits (cs.flatMap units) = cs := by
  induction cs with
  | nil => rfl
  | cons c cs ih => rw [List.flatMap_cons, joinUnits_units, ih]

theorem scanString_escapeUnit {u : ℕ} (h : u < 0x10000) (r : List Char) :
    scanString (escapeUnit u ++ r) = (scanString r).map fun p => (u :: p.1, p.2) := by
  simp only [escapeUnit, List.cons_append, List.nil_append]
  rw [scanString, hex4_digits h]
  cases scanString r <;> rfl

theorem scanString_escapeUnits {us : List ℕ} (h : ∀ u ∈ us, u < 0x10000) (r : List Char) :
    scanString (us.flatMap escapeUnit ++ r) =
      (scanString r).map fun p => (us ++ p.1, p.2) := by
  induction us with
  | nil => simp
  | cons u us ih =>
    rw [List.flatMap_cons, List.append_assoc, scanString_escapeUnit (h u List.mem_cons_self),
      ih fun v hv => h v (List.mem_cons_of_mem u hv)]
    cases scanString r <;> rfl

theorem shortEscapes_spec : ∀ p ∈ shortEscapes, p.2 ≠ 'u' ∧ unescape p.2 = some p.1.toNat ∧
    units p.1 = [p.1.toNat] := by decide +kernel

theorem scanString_escapeChar (c : Char) (r : List Char) :
    scanString (escapeChar c ++ r) = (scanString r).map fun p => (units c ++ p.1, p.2) := by
  unfold escapeChar
  cases he : shortEscapes.lookup c with
  | some e =>
    obtain ⟨hu, hs, hc⟩ := shortEscapes_spec (c, e)
      (by obtain ⟨l₁, l₂, h, -⟩ := List.lookup_eq_some_iff.1 he; simp [h])
    simp only [List.cons_append, List.nil_append]
    rw [scanString]
    · rw [hs, hc]
      cases scanString r <;> rfl
    · intro _ _ _ _ _ h
      exact absurd h hu
  | none =>
    dsimp only
    split_ifs with h
    · have hq : c ≠ '"' := by rintro rfl; exact absurd he (by decide)
      have hb : c ≠ '\\' := by rintro rfl; exact absurd he (by decide)
      have hu : units c = [c.toNat] := by
        unfold units
        rw [if_pos (by omega)]
      rw [List.singleton_append, scanString, if_neg (by omega), hu]
      · cases scanString r <;> rfl
      all_goals simp [hq, hb]
    · exact scanString_escapeUnits (fun u hu => units_lt hu) r

theorem scanString_dumps (cs r : List Char) :
    scanString (cs.flatMap escapeChar ++ '"' :: r) = some (cs.flatMap units, r) := by
  induction cs with
  | nil => rfl
  | cons c cs ih =>
    rw [List.flatMap_cons, List.append_assoc, scanString_escapeChar, ih]
    rfl

theorem parseValue_dumpsStr (n : ℕ) (s : String) (r : List Char) :
    parseValue (n + 1) (dumpsStr s ++ r) = some (.str s, r) := by
  have h : dumpsStr s ++ r = '"' :: (s.toList.flatMap escapeChar ++ '"' :: r) := by
    simp [dumpsStr]
  rw [h, parseValue, scanString_dumps]
  simp [joinUnits_flatMap]

/-- One member, up to what the character behind it decides. -/
theorem parseMembers_member (n fuel : ℕ) (m : String × String) (r : List Char) :
    parseMembers (parseValue (n + 1)) (fuel + 1) (dumpsMember m ++ r) =
      match skipSpace r with
      | ',' :: r =>
        (parseMembers (parseValue (n + 1)) fuel (skipSpace r)).map
          fun p => ((m.1, .str m.2) :: p.1, p.2)
      | '}' :: r => some ([(m.1, .str m.2)], r)
      | _ => none := by
  have h : dumpsMember m ++ r =
      '"' :: (m.1.toList.flatMap escapeChar ++ '"' :: ':' :: ' ' :: (dumpsStr m.2 ++ r)) := by
    simp [dumpsMember, dumpsStr]
  have hc : skipSpace (':' :: ' ' :: (dumpsStr m.2 ++ r)) = ':' :: ' ' :: (dumpsStr m.2 ++ r) := rfl
  have hs : skipSpace (' ' :: (dumpsStr m.2 ++ r)) = dumpsStr m.2 ++ r := rfl
  rw [h, parseMembers, scanString_dumps]
  simp only [Option.bind_eq_bind, Option.bind_some, hc, hs, parseValue_dumpsStr,
    joinUnits_flatMap, String.ofList_toList]
  split
  · rename_i r' _
    cases parseMembers (parseValue (n + 1)) fuel (skipSpace r') <;> rfl
  · rfl
  · rfl

theorem dumpsMembers_singleton (m : String × String) : dumpsMembers [m] = dumpsMember m := by
  simp [dumpsMembers, List.intercalate]

theorem dumpsMembers_cons_cons (m m' : String × String) (d : List (String × String)) :
    dumpsMembers (m :: m' :: d) = dumpsMember m ++ ',' :: ' ' :: dumpsMembers (m' :: d) := by
  simp [dumpsMembers, List.intercalate]

theorem dumpsMembers_head (m : String × String) (d : List (String × String)) :
    ∃ t, dumpsMembers (m :: d) = '"' :: t := by
  cases d with
  | nil => exact ⟨_, dumpsMembers_singleton m⟩
  | cons m' d => exact ⟨_, dumpsMembers_cons_cons m m' d⟩

theorem length_le_dumpsMembers (d : List (String × String)) :
    d.length ≤ (dumpsMembers d).length := by
  induction d with
  | nil => simp
  | cons m d ih =>
    cases d with
    | nil => obtain ⟨t, ht⟩ := dumpsMembers_head m []; simp [ht]
    | cons m' d =>
      rw [dumpsMembers_cons_cons]
      simp only [List.length_append, List.length_cons] at ih ⊢
      omega

theorem skipSpace_dumpsMembers (m : String × String) (d : List (String × String))
    (r : List Char) : skipSpace (dumpsMembers (m :: d) ++ r) = dumpsMembers (m :: d) ++ r := by
  obtain ⟨t, ht⟩ := dumpsMembers_head m d
  rw [ht]
  rfl

theorem parseMembers_dumps (n fuel : ℕ) (m : String × String) (d : List (String × String))
    (hf : (m :: d).length ≤ fuel) (r : List Char) :
    parseMembers (parseValue (n + 1)) fuel (dumpsMembers (m :: d) ++ '}' :: r) =
      some ((m :: d).map fun m => (m.1, .str m.2), r) := by
  induction d generalizing m fuel with
  | nil =>
    obtain ⟨fuel, rfl⟩ : ∃ k, fuel = k + 1 := ⟨fuel - 1, by simp at hf; omega⟩
    rw [dumpsMembers_singleton, parseMembers_member]
    rfl
  | cons m' d ih =>
    obtain ⟨fuel, rfl⟩ : ∃ k, fuel = k + 1 := ⟨fuel - 1, by simp at hf; omega⟩
    have hcomma (t : List Char) : skipSpace (',' :: t) = ',' :: t := rfl
    have hspace (t : List Char) : skipSpace (' ' :: t) = skipSpace t := rfl
    rw [dumpsMembers_cons_cons, List.append_assoc, parseMembers_member]
    simp only [List.cons_append, hcomma, hspace, skipSpace_dumpsMembers]
    rw [ih fuel m' (by simpa using hf)]
    rfl

theorem dictOf_nodup {ms : List (String × Value)} (h : (ms.map Prod.fst).Nodup) :
    dictOf ms = .dict (ms.map fun m => (.str m.1, m.2)) := by
  rw [dictOf, Dict.entries_ofList h]

theorem loads_dumps (d : List (String × String)) (h : (d.map Prod.fst).Nodup) :
    loads (dumps d) = some (.dict (d.map fun m => (.str m.1, .str m.2))) := by
  have ht : (dumps d).toList = '{' :: (dumpsMembers d ++ ['}']) := by simp [dumps]
  have hbrace (t : List Char) : skipSpace ('{' :: t) = '{' :: t := rfl
  rw [loads, ht, hbrace]
  cases d with
  | nil => rfl
  | cons m d =>
    obtain ⟨t, hq⟩ := dumpsMembers_head m d
    have hnodup : (((m :: d).map fun m => (m.1, Value.str m.2)).map Prod.fst).Nodup := by
      rwa [List.map_map]
    have hfuel : (m :: d).length ≤ (dumpsMembers (m :: d) ++ ['}']).length := by
      rw [List.length_append]
      exact (length_le_dumpsMembers _).trans (Nat.le_add_right _ _)
    have hmem := parseMembers_dumps (dumpsMembers (m :: d) ++ ['}']).length _ m d hfuel []
    have hobj (n : ℕ) (t : List Char) : parseValue (n + 1) ('{' :: '"' :: t) =
        (parseMembers (parseValue n) ('"' :: t).length ('"' :: t)).map
          fun p => (dictOf p.1, p.2) := rfl
    rw [hq, List.cons_append] at hmem ⊢
    rw [List.length_cons, hobj, hmem]
    simp only [Option.map_some]
    rw [dictOf_nodup hnodup, List.map_map]
    rfl

theorem deepMembers_member (n fuel : ℕ) (depth : ℕ) (m : String × String) (r : List Char) :
    deepMembers (parseValue (n + 1)) (deeperThan depth) (fuel + 1) (dumpsMember m ++ r) =
      match skipSpace r with
      | ',' :: r => deepMembers (parseValue (n + 1)) (deeperThan depth) fuel (skipSpace r)
      | _ => false := by
  have h : dumpsMember m ++ r =
      '"' :: (m.1.toList.flatMap escapeChar ++ '"' :: ':' :: ' ' :: (dumpsStr m.2 ++ r)) := by
    simp [dumpsMember, dumpsStr]
  have hc : skipSpace (':' :: ' ' :: (dumpsStr m.2 ++ r)) = ':' :: ' ' :: (dumpsStr m.2 ++ r) := rfl
  have hs : skipSpace (' ' :: (dumpsStr m.2 ++ r)) = dumpsStr m.2 ++ r := rfl
  have hdeep : deeperThan depth (dumpsStr m.2 ++ r) = false := by
    cases depth <;> rfl
  rw [h, deepMembers, scanString_dumps]
  simp only [hc, hs, hdeep, parseValue_dumpsStr, Bool.false_or]

theorem deepMembers_dumps (n fuel : ℕ) (depth : ℕ) (m : String × String)
    (d : List (String × String)) (hf : (m :: d).length ≤ fuel) (r : List Char) :
    deepMembers (parseValue (n + 1)) (deeperThan depth) fuel (dumpsMembers (m :: d) ++ '}' :: r) =
      false := by
  induction d generalizing m fuel with
  | nil =>
    obtain ⟨fuel, rfl⟩ : ∃ k, fuel = k + 1 := ⟨fuel - 1, by simp at hf; omega⟩
    rw [dumpsMembers_singleton, deepMembers_member]
    rfl
  | cons m' d ih =>
    obtain ⟨fuel, rfl⟩ : ∃ k, fuel = k + 1 := ⟨fuel - 1, by simp at hf; omega⟩
    have hcomma (t : List Char) : skipSpace (',' :: t) = ',' :: t := rfl
    have hspace (t : List Char) : skipSpace (' ' :: t) = skipSpace t := rfl
    rw [dumpsMembers_cons_cons, List.append_assoc, deepMembers_member]
    simp only [List.cons_append, hcomma, hspace, skipSpace_dumpsMembers]
    exact ih fuel m' (by simpa using hf)

/-- An encoded dictionary is one object deep. -/
theorem loadsWithin_dumps (depth : ℕ) (d : List (String × String)) (h : (d.map Prod.fst).Nodup) :
    loadsWithin (depth + 1) (dumps d) =
      .ok (some (.dict (d.map fun m => (.str m.1, .str m.2)))) := by
  have ht : (dumps d).toList = '{' :: (dumpsMembers d ++ ['}']) := by simp [dumps]
  have hbrace (t : List Char) : skipSpace ('{' :: t) = '{' :: t := rfl
  have hflat : deeperThan (depth + 1) (skipSpace (dumps d).toList) = false := by
    rw [ht, hbrace]
    cases d with
    | nil => rfl
    | cons m d =>
      obtain ⟨t, hq⟩ := dumpsMembers_head m d
      have hfuel : (m :: d).length ≤ (dumpsMembers (m :: d) ++ ['}']).length := by
        rw [List.length_append]
        exact (length_le_dumpsMembers _).trans (Nat.le_add_right _ _)
      have hmem := deepMembers_dumps ((dumpsMembers (m :: d) ++ ['}']).length - 1) _ depth m d hfuel []
      have hobj (t : List Char) : deeperThan (depth + 1) ('{' :: '"' :: t) =
          deepMembers (parseValue ('"' :: t).length) (deeperThan depth) ('"' :: t).length
            ('"' :: t) := rfl
      rw [hq, List.cons_append] at hmem ⊢
      rw [hobj]
      exact hmem
  rw [loadsWithin, hflat, loads_dumps d h]
  rfl

/-! Only text that starts with a brace is an object. -/

theorem scanLiteral_not_dict {cs r : List Char} {v : Value} (h : scanLiteral cs = some (v, r)) :
    v.isDict = false := by
  obtain ⟨l, hl, he⟩ := Option.map_eq_some_iff.1 h
  obtain rfl := (Prod.mk.inj he).1
  have hall : ∀ l ∈ literals, l.2.isDict = false := by decide
  exact hall l (List.mem_of_find?_eq_some hl)

theorem scanNumber_not_dict {cs r : List Char} {v : Value} (h : scanNumber cs = some (v, r)) :
    v.isDict = false := by
  unfold scanNumber at h
  extract_lets neg body at h
  obtain ⟨ip, -, h⟩ := Option.bind_eq_some_iff.1 h
  extract_lets rest fp rest' at h
  split at h
  extract_lets n read m at h
  split_ifs at h
  · cases h
  all_goals
    obtain rfl := (Prod.mk.inj (Option.some.inj h)).1
    rfl

theorem parseValue_dict {n : ℕ} {cs r : List Char} {kvs : List (Value × Value)}
    (h : parseValue n cs = some (.dict kvs, r)) : ∃ t, cs = '{' :: t := by
  cases n with
  | zero => cases h
  | succ n =>
    unfold parseValue at h
    split at h
    · obtain ⟨p, -, he⟩ := Option.map_eq_some_iff.1 h
      cases (Prod.mk.inj he).1
    · split at h
      · cases h
      · obtain ⟨p, -, he⟩ := Option.map_eq_some_iff.1 h
        cases (Prod.mk.inj he).1
    · exact ⟨_, rfl⟩
    · rcases Option.or_eq_some_iff.1 h with h | ⟨-, h⟩
      · cases scanLiteral_not_dict h
      · cases scanNumber_not_dict h

theorem loads_dict {s : String} {kvs : List (Value × Value)} (h : loads s = some (.dict kvs)) :
    ∃ t, skipSpace s.toList = '{' :: t := by
  unfold loads at h
  split at h
  · rename_i v r hv
    split_ifs at h
    obtain rfl := Option.some.inj h
    exact parseValue_dict hv
  · cases h

/-- Text that starts with a brace is an object or no JSON. -/
theorem loads_brace {s : String} {t : List Char} {v : Value} (hs : s.toList = '{' :: t)
    (h : loads s = some v) : ∃ kvs, v = .dict kvs := by
  have hskip : skipSpace s.toList = '{' :: t := by
    rw [hs]
    rfl
  unfold loads at h
  rw [hskip] at h
  split at h
  · rename_i v' r hv
    split_ifs at h
    obtain rfl := Option.some.inj h
    rw [parseValue] at hv
    split at hv
    · cases hv
      exact ⟨[], rfl⟩
    · obtain ⟨p, -, he⟩ := Option.map_eq_some_iff.1 hv
      exact ⟨_, (Prod.mk.inj he).1.symm⟩
  · cases h

example : dumps [("USDT", "1.50 USDT"), ("é", "\n")] =
    "\x7b\"USDT\": \"1.50 USDT\", \"\\u00e9\": \"\\n\"\x7d" := by decide +kernel

end Base.Json
