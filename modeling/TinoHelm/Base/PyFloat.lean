import Mathlib.Data.Int.Log
import Mathlib.Data.Rat.Floor
import Mathlib.Data.List.Basic
import Mathlib.Tactic.Linarith

/-! The values of a `float` and its arithmetic, over a parameter that says what becomes of
a result that is not exact: binary64, or exact rationals to compare it with. -/

namespace Base

inductive PyFloat where
  | fin (q : ℚ)
  | negZero
  | inf (neg : Bool)
  | nan
deriving DecidableEq, Repr

/-- The float for a number, and the zero of a sign. -/
class FloatArith where
  round : ℚ → PyFloat
  zero : Bool → PyFloat

def roundEven (q : ℚ) : ℤ :=
  let r := q - ⌊q⌋
  if r < 1 / 2 ∨ (r = 1 / 2 ∧ ⌊q⌋ % 2 = 0) then ⌊q⌋ else ⌊q⌋ + 1

namespace PyFloat

/-- The least magnitude that does not round to a finite double. -/
def overflowBound : ℚ := 2 ^ 1024 - 2 ^ 970

/-- The distance of the doubles around a number. -/
def ulp (q : ℚ) : ℚ := 2 ^ max (Int.log 2 |q| - 52) (-1074)

/-- The nearest double, ties to even. -/
def round64 (q : ℚ) : PyFloat :=
  if overflowBound ≤ |q| then inf (q < 0)
  else
    let r := roundEven (q / ulp q) * ulp q
    if r = 0 then if q < 0 then negZero else fin 0 else fin r

end PyFloat

open PyFloat

/-- What CPython computes with. -/
instance binary64 : FloatArith where
  round := round64
  zero neg := if neg then negZero else fin 0

namespace Exact

/-- Rational numbers, with one zero. -/
scoped instance (priority := high) exact : FloatArith where
  round := fin
  zero _ := fin 0

end Exact

namespace PyFloat

def rat : PyFloat → ℚ
  | fin q => q
  | negZero | inf _ | nan => 0

def isFinite : PyFloat → Bool
  | fin _ | negZero => true
  | inf _ | nan => false

def isNeg : PyFloat → Bool
  | fin q => q < 0
  | negZero => true
  | inf s => s
  | nan => false

def isZero : PyFloat → Bool
  | fin q => q = 0
  | negZero => true
  | inf _ | nan => false

/-- Equal numbers are one, whatever the sign of a zero. -/
def unsigned : PyFloat → PyFloat
  | negZero => fin 0
  | x => x

def neg : PyFloat → PyFloat
  | fin q => if q = 0 then negZero else fin (-q)
  | negZero => fin 0
  | inf s => inf (!s)
  | nan => nan

/-- `<=` of floats; every comparison with NaN is false. -/
def le : PyFloat → PyFloat → Bool
  | nan, _ | _, nan => false
  | inf true, _ | _, inf false => true
  | inf false, _ | _, inf true => false
  | a, b => a.rat ≤ b.rat

def lt : PyFloat → PyFloat → Bool
  | nan, _ | _, nan => false
  | inf s, inf t => s && !t
  | inf s, _ => s
  | _, inf s => !s
  | a, b => a.rat < b.rat

instance : Zero PyFloat := ⟨fin 0⟩
instance : LE PyFloat := ⟨fun a b => a.le b⟩
instance : LT PyFloat := ⟨fun a b => a.lt b⟩
instance (a b : PyFloat) : Decidable (a ≤ b) := inferInstanceAs (Decidable (a.le b = true))
instance (a b : PyFloat) : Decidable (a < b) := inferInstanceAs (Decidable (a.lt b = true))

section
variable [FloatArith]

/-- `float(x)` of a float. -/
def norm : PyFloat → PyFloat
  | negZero => FloatArith.zero true
  | x => x

def add : PyFloat → PyFloat → PyFloat
  | nan, _ | _, nan => nan
  | inf s, inf t => if s = t then inf s else nan
  | inf s, _ | _, inf s => inf s
  | negZero, negZero => FloatArith.zero true
  | a, b => FloatArith.round (a.rat + b.rat)

def mul (a b : PyFloat) : PyFloat :=
  match a, b with
  | nan, _ | _, nan => nan
  | inf s, x | x, inf s => if x.isZero then nan else inf (s != x.isNeg)
  | a, b =>
    if a.rat * b.rat = 0 then FloatArith.zero (a.isNeg != b.isNeg)
    else FloatArith.round (a.rat * b.rat)

/-- `/` of floats, for a divisor that is not zero. -/
def div (a b : PyFloat) : PyFloat :=
  match a, b with
  | nan, _ | _, nan | inf _, inf _ => nan
  | inf s, x => inf (s != x.isNeg)
  | x, inf s => FloatArith.zero (s != x.isNeg)
  | a, b =>
    if a.rat = 0 then FloatArith.zero (a.isNeg != b.isNeg) else FloatArith.round (a.rat / b.rat)

instance : Add PyFloat := ⟨add⟩
instance : Sub PyFloat := ⟨fun a b => a + neg b⟩
instance : Mul PyFloat := ⟨mul⟩
instance : Div PyFloat := ⟨div⟩

def ofRat (q : ℚ) : PyFloat :=
  if overflowBound ≤ |q| then inf (q < 0) else FloatArith.round q

/-- The float for a decimal of the given sign and size. -/
def ofDecimal (neg : Bool) (m : ℚ) : PyFloat :=
  if m = 0 then FloatArith.zero neg else ofRat (if neg then -m else m)

end

@[simp] theorem fin_le (a b : ℚ) : fin a ≤ fin b ↔ a ≤ b := by
  change decide (a ≤ b) = true ↔ _
  simp

@[simp] theorem fin_lt (a b : ℚ) : fin a < fin b ↔ a < b := by
  change decide (a < b) = true ↔ _
  simp

theorem not_le_of_lt {a b : PyFloat} (h : a < b) : ¬b ≤ a := by
  intro hle
  change a.lt b = true at h
  change b.le a = true at hle
  rcases a with a | _ | (_ | _) | _ <;> rcases b with b | _ | (_ | _) | _ <;> first
    | exact absurd (of_decide_eq_true h) (not_lt.2 (of_decide_eq_true hle))
    | simp [le, lt] at h hle

theorem isZero_of_pos {a : PyFloat} (h : 0 < a) : a.isZero = false := by
  cases a with
  | fin q => exact decide_eq_false ((fin_lt 0 q).1 h).ne'
  | negZero => exact absurd ((fin_lt 0 0).1 h) (lt_irrefl 0)
  | inf _ | nan => rfl

theorem isFinite_round64 (q : ℚ) : (round64 q).isFinite = true ↔ |q| < overflowBound := by
  by_cases h : overflowBound ≤ |q|
  · rw [round64, if_pos h]
    exact iff_of_false Bool.false_ne_true h.not_gt
  · rw [round64, if_neg h]
    refine iff_of_true ?_ (not_le.1 h)
    dsimp only
    split_ifs <;> rfl

theorem isFinite_add {a b : PyFloat} (ha : a.isFinite = true) (hb : b.isFinite = true) :
    (a + b).isFinite = true ↔ |a.rat + b.rat| < overflowBound := by
  have hzero : |(0 : ℚ) + 0| < overflowBound := by
    rw [add_zero, abs_zero, overflowBound, sub_pos]
    exact pow_lt_pow_right₀ (by norm_num) (by norm_num)
  cases a with
  | fin a => cases b <;> first | exact isFinite_round64 _ | cases hb
  | negZero =>
    cases b with
    | fin b => exact isFinite_round64 _
    | negZero => exact iff_of_true rfl hzero
    | inf _ | nan => cases hb
  | inf _ | nan => cases ha

theorem rat_neg (a : PyFloat) : a.neg.rat = -a.rat := by
  cases a with
  | fin a => by_cases h : a = 0 <;> simp [neg, rat, h]
  | negZero | inf _ | nan => simp [neg, rat]

theorem isFinite_neg (a : PyFloat) : a.neg.isFinite = a.isFinite := by
  cases a with
  | fin a => by_cases h : a = 0 <;> simp [neg, isFinite, h]
  | negZero | inf _ | nan => rfl

theorem isFinite_sub {a b : PyFloat} (ha : a.isFinite = true) (hb : b.isFinite = true) :
    (a - b).isFinite = true ↔ |a.rat - b.rat| < overflowBound := by
  change (a + b.neg).isFinite = true ↔ _
  rw [isFinite_add ha ((isFinite_neg b).trans hb), rat_neg, sub_eq_add_neg]

section
open scoped Exact

@[simp] theorem round_exact (q : ℚ) : FloatArith.round q = fin q := rfl

@[simp] theorem fin_add (a b : ℚ) : fin a + fin b = fin (a + b) := rfl

@[simp] theorem fin_sub (a b : ℚ) : fin a - fin b = fin (a - b) := by
  change fin a + (if b = 0 then negZero else fin (-b)) = _
  split_ifs with h
  · rw [h]
    change fin (a + 0) = fin (a - 0)
    rw [add_zero, sub_zero]
  · rw [fin_add, sub_eq_add_neg]

@[simp] theorem fin_mul (a b : ℚ) : fin a * fin b = fin (a * b) := by
  change (if a * b = 0 then fin 0 else fin (a * b)) = _
  split_ifs with h
  · rw [h]
  · rfl

@[simp] theorem fin_div (a b : ℚ) : fin a / fin b = fin (a / b) := by
  change (if a = 0 then fin 0 else fin (a / b)) = _
  split_ifs with h
  · rw [h, zero_div]
  · rfl

end

/-! The grammar `float` accepts for a string. -/

private def isSpace (c : Char) : Bool :=
  c ∈ [' ', '\t', '\n', '\r', Char.ofNat 11, Char.ofNat 12]

def strip (cs : List Char) : List Char :=
  ((cs.dropWhile isSpace).reverse.dropWhile isSpace).reverse

def digitsValue (ds : List Char) : ℕ := Nat.ofDigitChars 10 ds 0

/-- The digits at the front, single underscores between digits dropped. -/
def digitPart (cs : List Char) : Option (List Char × List Char) :=
  let front := cs.takeWhile fun c => c.isDigit || c == '_'
  if front = [] then some ([], cs)
  else if (front.splitOn '_').all (· ≠ []) then
    some (front.filter Char.isDigit, cs.dropWhile fun c => c.isDigit || c == '_')
  else none

def sign : List Char → Bool × List Char
  | '+' :: cs => (false, cs)
  | '-' :: cs => (true, cs)
  | cs => (false, cs)

def exponent : List Char → Option ℤ
  | [] => some 0
  | 'e' :: cs =>
    match digitPart (sign cs).2 with
    | some (d :: ds, []) =>
      some (if (sign cs).1 then -(digitsValue (d :: ds) : ℤ) else digitsValue (d :: ds))
    | _ => none
  | _ => none

def fraction : List Char → Option (List Char × List Char)
  | '.' :: cs => digitPart cs
  | cs => some ([], cs)

/-- The number that an unsigned decimal denotes. -/
def decimal (cs : List Char) : Option ℚ := do
  let (ip, rest) ← digitPart cs
  let (fp, rest) ← fraction rest
  let e ← exponent rest
  if ip = [] ∧ fp = [] then none
  else some (digitsValue (ip ++ fp) * (10 : ℚ) ^ (e - (fp.length : ℤ)))

/-- The number that a decimal text denotes, without rounding. -/
def textValue (s : String) : Option ℚ :=
  (decimal (sign s.toList).2).map fun q => if (sign s.toList).1 then -q else q

section
variable [FloatArith]

/-- `float(s)` for ASCII bytes, `none` for `ValueError`. -/
def ofAscii? (cs : List Char) : Option PyFloat :=
  let (neg, cs) := sign ((strip cs).map Char.toLower)
  if cs = "inf".toList ∨ cs = "infinity".toList then some (inf neg)
  else if cs = "nan".toList then some nan
  else (decimal cs).map (ofDecimal neg)

/-- The zeros of the decimal digits there are beyond ASCII; each is followed by its nine. -/
private def zeroDigits : List ℕ :=
  [0x660, 0x6F0, 0x7C0, 0x966, 0x9E6, 0xA66, 0xAE6, 0xB66, 0xBE6, 0xC66, 0xCE6, 0xD66, 0xDE6,
    0xE50, 0xED0, 0xF20, 0x1040, 0x1090, 0x17E0, 0x1810, 0x1946, 0x19D0, 0x1A80, 0x1A90, 0x1B50,
    0x1BB0, 0x1C40, 0x1C50, 0xA620, 0xA8D0, 0xA900, 0xA9D0, 0xA9F0, 0xAA50, 0xABF0, 0xFF10,
    0x104A0, 0x10D30, 0x11066, 0x110F0, 0x11136, 0x111D0, 0x112F0, 0x11450, 0x114D0, 0x11650,
    0x116C0, 0x11730, 0x118E0, 0x11950, 0x11C50, 0x11D50, 0x11DA0, 0x11F50, 0x16A60, 0x16AC0,
    0x16B50, 0x1D7CE, 0x1D7D8, 0x1D7E2, 0x1D7EC, 0x1D7F6, 0x1E140, 0x1E2F0, 0x1E4F0, 0x1E950,
    0x1FBF0]

private def isWideSpace (n : ℕ) : Bool :=
  (28 ≤ n && n ≤ 31) || (0x2000 ≤ n && n ≤ 0x200A) ||
    n ∈ [0x85, 0xA0, 0x1680, 0x2028, 0x2029, 0x202F, 0x205F, 0x3000]

/-- What a character of a text that is not all ASCII counts as. -/
def asAscii (c : Char) : Char :=
  if isWideSpace c.toNat then ' '
  else if c.toNat < 128 then c
  else
    match zeroDigits.find? fun z => z ≤ c.toNat && c.toNat < z + 10 with
    | some z => Char.ofNat ('0'.toNat + (c.toNat - z))
    | none => '?'

/-- What `float` and `int` read of a string. -/
def asciiText (s : String) : List Char :=
  if s.toList.all (·.toNat < 128) then s.toList else s.toList.map asAscii

/-- `float(s)` for a string, `none` for `ValueError`. -/
def ofString? (s : String) : Option PyFloat := ofAscii? (asciiText s)

end

section
open scoped Exact

example : ofString? "8186.6" = some (fin (81866 / 10)) := by decide +kernel
example : ofString? " -1_0.5e1\n" = some (fin (-105)) := by decide +kernel
example : ofString? "1__0" = none := by decide +kernel

end

example : ofString? "0.1" = some (fin (3602879701896397 / 2 ^ 55)) := by decide +kernel
example : ofString? "-1e-400" = some negZero := by decide +kernel

end PyFloat

/-- `int(s)`, `none` for `ValueError`. Single underscores may stand between digits; more than
4300 digits are refused. -/
def readInt (s : String) : Option ℤ :=
  let (neg, cs) := sign (strip (asciiText s))
  let groups := cs.splitOn '_'
  let digits := groups.flatten
  if groups.all (fun g => g ≠ [] && g.all Char.isDigit) && digits.length ≤ 4300 then
    let n : ℤ := digitsValue digits
    some (if neg then -n else n)
  else none

end Base
