import TinoHelm.Base.PyFloat

/-! The format specifications `.Nf` and `.Ng` of a `float`, rounding half to even, and the
numbers that the texts denote. -/

namespace Base
open PyFloat

/-- A number to `n` decimals. -/
def fixedRound (n : ℕ) (q : ℚ) : ℚ := roundEven (q * 10 ^ n) / 10 ^ n

/-- A number to `p` significant digits. -/
def sigRound (p : ℕ) (q : ℚ) : ℚ :=
  let e := Int.log 10 |q| - (p - 1)
  roundEven (q / 10 ^ e) * 10 ^ e

private def zeros (n : ℕ) : List Char := List.replicate n '0'

private def withPoint (whole frac : List Char) : List Char :=
  if frac = [] then whole else whole ++ '.' :: frac

private def stripZeros (cs : List Char) : List Char := (cs.reverse.dropWhile (· = '0')).reverse

private def fixedDigits (n : ℕ) (q : ℚ) : List Char :=
  let ds := Nat.toDigits 10 (roundEven (q * 10 ^ n)).natAbs
  let ds := zeros (n + 1 - ds.length) ++ ds
  withPoint (ds.take (ds.length - n)) (ds.drop (ds.length - n))

private def exponentText (e : ℤ) : List Char :=
  let ds := Nat.toDigits 10 e.natAbs
  'e' :: (if e < 0 then '-' else '+') :: (zeros (2 - ds.length) ++ ds)

/-- The `p` digits a positive number is shown with, and the exponent of the first one. -/
def significand (p : ℕ) (q : ℚ) : ℕ × ℤ :=
  let m := (roundEven (q / (10 : ℚ) ^ (Int.log 10 q - (p - 1)))).natAbs
  -- rounding up may carry into one more digit
  if m = 10 ^ p then (10 ^ (p - 1), Int.log 10 q + 1) else (m, Int.log 10 q)

private def generalDigits (p : ℕ) (q : ℚ) : List Char :=
  if q = 0 then ['0']
  else
    let (m, e) := significand p q
    let ds := Nat.toDigits 10 m
    if e < -4 ∨ p ≤ e then withPoint (ds.take 1) (stripZeros (ds.drop 1)) ++ exponentText e
    else if e < 0 then withPoint ['0'] (stripZeros (zeros (e.natAbs - 1) ++ ds))
    else withPoint (ds.take (e.natAbs + 1)) (stripZeros (ds.drop (e.natAbs + 1)))

private def signed (digits : ℚ → List Char) : PyFloat → String
  | .nan => "nan"
  | .inf neg => if neg then "-inf" else "inf"
  | .negZero => String.ofList ('-' :: digits 0)
  | .fin q => String.ofList (if q < 0 then '-' :: digits (-q) else digits q)

/-- `f"{x:.nf}"` -/
def formatF (n : ℕ) (x : PyFloat) : String := signed (fixedDigits n) x

/-- `f"{x:.pg}"`, with `p` at least 1. -/
def formatG (p : ℕ) (x : PyFloat) : String := signed (generalDigits p) x

/-! Rounding is symmetric and stays between whole numbers. -/

theorem roundEven_of_lt {q : ℚ} (h : q - ⌊q⌋ < 1 / 2) : roundEven q = ⌊q⌋ := if_pos (Or.inl h)

theorem roundEven_of_gt {q : ℚ} (h : 1 / 2 < q - ⌊q⌋) : roundEven q = ⌊q⌋ + 1 := by
  refine if_neg ?_
  rintro (hlt | ⟨heq, -⟩) <;> linarith

theorem roundEven_of_half {q : ℚ} (h : q - ⌊q⌋ = 1 / 2) :
    roundEven q = if ⌊q⌋ % 2 = 0 then ⌊q⌋ else ⌊q⌋ + 1 := by
  simp only [roundEven, h, lt_irrefl, false_or, true_and]

theorem roundEven_intCast (n : ℤ) : roundEven (n : ℚ) = n := by
  rw [roundEven_of_lt (by norm_num), Int.floor_intCast]

theorem roundEven_neg (q : ℚ) : roundEven (-q) = -roundEven q := by
  rcases (Int.floor_le q).eq_or_lt with hq | hlt
  · rw [← hq, ← Int.cast_neg, roundEven_intCast, roundEven_intCast]
  · have hneg : ⌊-q⌋ = -⌊q⌋ - 1 := by
      have hlt' := Int.lt_floor_add_one q
      rw [Int.floor_eq_iff]
      push_cast
      exact ⟨by linarith, by linarith⟩
    have hfrac : -q - (⌊-q⌋ : ℚ) = 1 - (q - ⌊q⌋) := by
      rw [hneg]
      push_cast
      ring
    rcases lt_trichotomy (q - ⌊q⌋) (1 / 2) with h | h | h
    · rw [roundEven_of_lt h, roundEven_of_gt (by linarith), hneg]
      omega
    · rw [roundEven_of_half h, roundEven_of_half (by linarith), hneg]
      split_ifs <;> omega
    · rw [roundEven_of_gt h, roundEven_of_lt (by linarith), hneg]
      omega

theorem abs_roundEven_sub (q : ℚ) : |(roundEven q : ℚ) - q| ≤ 1 / 2 := by
  rw [abs_le]
  rcases lt_trichotomy (q - ⌊q⌋) (1 / 2) with h | h | h
  · have hle := Int.floor_le q
    rw [roundEven_of_lt h]
    exact ⟨by linarith, by linarith⟩
  · rw [roundEven_of_half h]
    split_ifs
    · exact ⟨by linarith, by linarith⟩
    · push_cast
      exact ⟨by linarith, by linarith⟩
  · have hlt := Int.lt_floor_add_one q
    rw [roundEven_of_gt h]
    push_cast
    exact ⟨by linarith, by linarith⟩

theorem le_roundEven {n : ℤ} {q : ℚ} (h : (n : ℚ) ≤ q) : n ≤ roundEven q := by
  have hle := (abs_le.1 (abs_roundEven_sub q)).1
  have hlt : (n : ℚ) - 1 < roundEven q := by linarith
  exact Int.sub_one_lt_iff.1 (by exact_mod_cast hlt)

theorem roundEven_le {n : ℤ} {q : ℚ} (h : q ≤ n) : roundEven q ≤ n := by
  have hneg : -n ≤ roundEven (-q) := le_roundEven (by push_cast; linarith)
  rw [roundEven_neg] at hneg
  omega

theorem sigRound_neg (p : ℕ) (q : ℚ) : sigRound p (-q) = -sigRound p q := by
  simp only [sigRound, abs_neg, neg_div, roundEven_neg, Int.cast_neg, neg_mul]

theorem fixedRound_neg (n : ℕ) (q : ℚ) : fixedRound n (-q) = -fixedRound n q := by
  simp only [fixedRound, neg_mul, roundEven_neg, Int.cast_neg, neg_div]

@[simp] theorem sigRound_zero (p : ℕ) : sigRound p 0 = 0 := by
  have h : roundEven 0 = 0 := roundEven_intCast 0
  simp [sigRound, h]

/-! Reading a text back. -/

theorem digitPart_append {ds rest : List Char} (hds : ∀ c ∈ ds, c.isDigit = true)
    (hrest : ∀ c ∈ rest.head?, c.isDigit = false ∧ c ≠ '_') :
    digitPart (ds ++ rest) = some (ds, rest) := by
  have hall : ∀ c ∈ ds, (c.isDigit || c == '_') = true := fun c hc => by simp [hds c hc]
  have hfront : (ds ++ rest).takeWhile (fun c => c.isDigit || c == '_') = ds := by
    rw [List.takeWhile_append_of_pos hall]
    cases rest with
    | nil => simp
    | cons c rest => simp [hrest c rfl]
  have hback : (ds ++ rest).dropWhile (fun c => c.isDigit || c == '_') = rest := by
    rw [List.dropWhile_append_of_pos hall]
    cases rest with
    | nil => rfl
    | cons c rest => simp [hrest c rfl]
  unfold digitPart
  dsimp only
  rw [hfront, hback]
  split_ifs with hnil hsplit
  · rw [hnil, List.nil_append]
  · rw [List.filter_eq_self.2 hds]
  · refine absurd ?_ hsplit
    have hnone : '_' ∉ ds := fun h => absurd (hds _ h) (by decide)
    simp [List.splitOn_eq_singleton hnone, hnil]

private def AllDigits (cs : List Char) : Prop := ∀ c ∈ cs, c.isDigit = true

private theorem allDigits_toDigits (n : ℕ) : AllDigits (Nat.toDigits 10 n) :=
  fun _ h => Nat.isDigit_of_mem_toDigits (by decide) (by decide) h

private theorem allDigits_zeros (n : ℕ) : AllDigits (zeros n) := by
  intro c hc
  rw [List.eq_of_mem_replicate hc]
  rfl

private theorem AllDigits.append {cs ds : List Char} (h : AllDigits cs) (h' : AllDigits ds) :
    AllDigits (cs ++ ds) := fun c hc => (List.mem_append.1 hc).elim (h c) (h' c)

private theorem AllDigits.take {cs : List Char} (h : AllDigits cs) (n : ℕ) :
    AllDigits (cs.take n) := fun c hc => h c (List.mem_of_mem_take hc)

private theorem AllDigits.drop {cs : List Char} (h : AllDigits cs) (n : ℕ) :
    AllDigits (cs.drop n) := fun c hc => h c (List.mem_of_mem_drop hc)

/-- What an exponent of no digits may be: nothing, or `e` and a number. -/
private structure ReadsExponent (tail : List Char) (e : ℤ) : Prop where
  value : exponent tail = some e
  head : ∀ c ∈ tail.head?, c = 'e'

private theorem readsExponent_nil : ReadsExponent [] 0 := ⟨rfl, by simp⟩

private theorem digitsValue_zeros_append (n : ℕ) (ds : List Char) :
    digitsValue (zeros n ++ ds) = digitsValue ds := by
  rw [digitsValue, Nat.ofDigitChars_append, zeros, Nat.ofDigitChars_replicate_zero, mul_zero]
  rfl

private theorem digitsValue_toDigits (n : ℕ) : digitsValue (Nat.toDigits 10 n) = n :=
  Nat.ofDigitChars_ten_toDigits

private theorem readsExponent_exponentText (e : ℤ) : ReadsExponent (exponentText e) e := by
  refine ⟨?_, by simp [exponentText]⟩
  set ds := zeros (2 - (Nat.toDigits 10 e.natAbs).length) ++ Nat.toDigits 10 e.natAbs with hds
  have hne : ds ≠ [] := by simp [hds, Nat.toDigits_ne_nil]
  have hvalue : digitsValue ds = e.natAbs := by
    rw [hds, digitsValue_zeros_append, digitsValue_toDigits]
  have hdigits : AllDigits ds := (allDigits_zeros _).append (allDigits_toDigits _)
  have hpart : digitPart ds = some (ds, []) := by
    simpa using digitPart_append hdigits (by simp : ∀ c ∈ ([] : List Char).head?, _)
  obtain ⟨d, ds', hcons⟩ := List.exists_cons_of_ne_nil hne
  have htext : exponentText e = 'e' :: (if e < 0 then '-' else '+') :: ds := rfl
  rw [htext]
  split_ifs with he
  · simp only [exponent, sign, hpart]
    rw [hcons] at hvalue ⊢
    simp only [hvalue, if_true]
    congr 1
    omega
  · simp only [exponent, sign, hpart]
    rw [hcons] at hvalue ⊢
    simp only [hvalue, Bool.false_eq_true, if_false]
    congr 1
    omega

/-- A number with a point, and an exponent or none. -/
private theorem decimal_withPoint {whole frac tail : List Char} {e : ℤ} (hw : AllDigits whole)
    (hf : AllDigits frac) (hne : whole ≠ []) (ht : ReadsExponent tail e) :
    decimal (withPoint whole frac ++ tail) =
      some (digitsValue (whole ++ frac) * (10 : ℚ) ^ (e - (frac.length : ℤ))) := by
  have htail : ∀ c ∈ tail.head?, c.isDigit = false ∧ c ≠ '_' := by
    intro c hc
    rw [ht.head c hc]
    decide
  unfold withPoint
  split_ifs with hfrac
  · have hfraction : fraction tail = some ([], tail) := by
      unfold fraction
      split
      · rename_i cs
        exact absurd (ht.head '.' rfl) (by decide)
      · rfl
    simp [decimal, digitPart_append hw htail, hfraction, ht.value, hne, hfrac]
  · have hpoint : digitPart (whole ++ '.' :: (frac ++ tail)) = some (whole, '.' :: (frac ++ tail)) :=
      digitPart_append hw (by simp)
    simp [decimal, hpoint, fraction, digitPart_append hf htail, ht.value, hne]

private theorem stripZeros_append (cs : List Char) : ∃ k, cs = stripZeros cs ++ zeros k := by
  set k := (cs.reverse.takeWhile (· = '0')).length with hk
  refine ⟨k, ?_⟩
  have hrev := List.takeWhile_append_dropWhile (p := (· = '0')) (l := cs.reverse)
  have hzeros : cs.reverse.takeWhile (· = '0') = zeros k := by
    rw [zeros, List.eq_replicate_iff]
    exact ⟨hk.symm, fun c hc => of_decide_eq_true (List.all_eq_true.1 List.all_takeWhile c hc)⟩
  rw [hzeros] at hrev
  have hcs := congrArg List.reverse hrev
  rw [List.reverse_append, List.reverse_reverse, zeros, List.reverse_replicate] at hcs
  exact hcs.symm

private theorem decimal_stripZeros {whole frac tail : List Char} {e : ℤ} (hw : AllDigits whole)
    (hf : AllDigits frac) (hne : whole ≠ []) (ht : ReadsExponent tail e) :
    decimal (withPoint whole (stripZeros frac) ++ tail) =
      some (digitsValue (whole ++ frac) * (10 : ℚ) ^ (e - (frac.length : ℤ))) := by
  obtain ⟨k, hsplit⟩ := stripZeros_append frac
  have hstrip : AllDigits (stripZeros frac) := fun c hc => hf c (by
    rw [hsplit]
    exact List.mem_append_left _ hc)
  rw [decimal_withPoint hw hstrip hne ht]
  have hvalue : digitsValue (whole ++ frac) = 10 ^ k * digitsValue (whole ++ stripZeros frac) := by
    conv_lhs => rw [hsplit, ← List.append_assoc]
    rw [digitsValue, Nat.ofDigitChars_append, zeros, Nat.ofDigitChars_replicate_zero]
    rfl
  have hlength : (frac.length : ℤ) = (stripZeros frac).length + k := by
    conv_lhs => rw [hsplit]
    rw [List.length_append, zeros, List.length_replicate]
    push_cast
    rfl
  have hpow : (10 : ℚ) ^ (e - ((stripZeros frac).length : ℤ)) =
      10 ^ k * 10 ^ (e - (frac.length : ℤ)) := by
    rw [← zpow_natCast, ← zpow_add₀ (by norm_num), hlength]
    congr 1
    ring
  rw [hvalue, hpow]
  push_cast
  congr 1
  ring

/-- Scaled to `p` digits in front of the point, a positive number rounds to as many or to
the least number with one more. -/
private theorem roundEven_scaled {p : ℕ} (hp : 0 < p) {q : ℚ} (hq : 0 < q) :
    ((10 ^ (p - 1) : ℕ) : ℤ) ≤ roundEven (q / (10 : ℚ) ^ (Int.log 10 q - (p - 1))) ∧
      roundEven (q / (10 : ℚ) ^ (Int.log 10 q - (p - 1))) ≤ ((10 ^ p : ℕ) : ℤ) := by
  constructor
  · refine le_roundEven ?_
    rw [le_div_iff₀ (zpow_pos (by norm_num) _)]
    have hle := Int.zpow_log_le_self (b := 10) (by norm_num) hq
    refine le_trans (le_of_eq ?_) hle
    push_cast
    rw [← zpow_natCast, ← zpow_add₀ (by norm_num), Nat.cast_sub hp]
    congr 1
    push_cast
    ring
  · refine roundEven_le ?_
    rw [div_le_iff₀ (zpow_pos (by norm_num) _)]
    refine (Int.lt_zpow_succ_log_self (b := 10) (by norm_num) q).le.trans (le_of_eq ?_)
    push_cast
    rw [← zpow_natCast, ← zpow_add₀ (by norm_num)]
    congr 1
    ring

/-- The digits shown are as many as asked for, and make the rounded number. -/
theorem significand_spec {p : ℕ} (hp : 0 < p) {q : ℚ} (hq : 0 < q) :
    (10 ^ (p - 1) ≤ (significand p q).1 ∧ (significand p q).1 < 10 ^ p) ∧
      ((significand p q).1 : ℚ) * 10 ^ ((significand p q).2 - (p - 1)) = sigRound p q := by
  obtain ⟨hlow, hhigh⟩ := roundEven_scaled hp hq
  set e := Int.log 10 q with he
  set x := q / (10 : ℚ) ^ (e - (p - 1)) with hx
  have hnonneg : 0 ≤ roundEven x := le_trans (by positivity) hlow
  have habs : ((roundEven x).natAbs : ℤ) = roundEven x := Int.natAbs_of_nonneg hnonneg
  have habs' : ((roundEven x).natAbs : ℚ) = roundEven x := by
    rw [Nat.cast_natAbs, abs_of_nonneg hnonneg]
  have hsig : sigRound p q = ((roundEven x).natAbs : ℚ) * 10 ^ (e - (p - 1)) := by
    rw [sigRound, abs_of_pos hq, habs']
  have hpow : 10 ^ (p - 1) < 10 ^ p := Nat.pow_lt_pow_right (by norm_num) (by omega)
  unfold significand
  dsimp only
  rw [← he, ← hx, hsig]
  split_ifs with hcarry
  · refine ⟨⟨le_rfl, hpow⟩, ?_⟩
    rw [hcarry]
    push_cast
    rw [← zpow_natCast, ← zpow_natCast, ← zpow_add₀ (by norm_num), ← zpow_add₀ (by norm_num),
      Nat.cast_sub hp]
    congr 1
    push_cast
    ring
  · exact ⟨⟨by omega, by omega⟩, rfl⟩

theorem length_toDigits_of_digits {p m : ℕ} (hp : 0 < p) (hlow : 10 ^ (p - 1) ≤ m)
    (hhigh : m < 10 ^ p) : (Nat.toDigits 10 m).length = p := by
  refine le_antisymm ((Nat.length_toDigits_le_iff (by norm_num) hp).2 hhigh) ?_
  by_contra hlt
  have hle : (Nat.toDigits 10 m).length ≤ p - 1 := by omega
  have hpos : 0 < p - 1 := lt_of_lt_of_le Nat.length_toDigits_pos hle
  exact absurd ((Nat.length_toDigits_le_iff (by norm_num) hpos).1 hle) (by omega)

private theorem decimal_generalDigits {p : ℕ} (hp : 0 < p) {q : ℚ} (hq : 0 ≤ q) :
    decimal (generalDigits p q) = some (sigRound p q) := by
  rcases hq.eq_or_lt with rfl | hq
  · rw [sigRound_zero, generalDigits, if_pos rfl]
    decide +kernel
  · obtain ⟨⟨hlow, hhigh⟩, hvalue⟩ := significand_spec hp hq
    have hlen := length_toDigits_of_digits hp hlow hhigh
    unfold generalDigits
    rw [if_neg hq.ne', ← hvalue]
    generalize significand p q = s at *
    obtain ⟨m, e⟩ := s
    set ds := Nat.toDigits 10 m with hds
    have hdigits : AllDigits ds := allDigits_toDigits m
    have hne (n : ℕ) : ds.take (n + 1) ≠ [] := by
      rw [← List.length_pos_iff, List.length_take]
      omega
    have hm : digitsValue ds = m := digitsValue_toDigits m
    dsimp only
    split_ifs with hsci hneg
    · rw [decimal_stripZeros (hdigits.take 1) (hdigits.drop 1) (hne 0) (readsExponent_exponentText e),
        List.take_append_drop, hm, List.length_drop, hlen, Nat.cast_sub hp, Nat.cast_one]
    · have hread := decimal_stripZeros (allDigits_zeros 1)
        ((allDigits_zeros (e.natAbs - 1)).append hdigits) (List.cons_ne_nil _ _) readsExponent_nil
      rw [List.append_nil] at hread
      have hzero : ['0'] = zeros 1 := rfl
      rw [hzero, hread, digitsValue_zeros_append, digitsValue_zeros_append, hm, List.length_append,
        zeros, List.length_replicate, hlen]
      congr 3
      omega
    · have hread := decimal_stripZeros (hdigits.take (e.natAbs + 1)) (hdigits.drop (e.natAbs + 1))
        (hne _) readsExponent_nil
      rw [List.append_nil] at hread
      rw [hread, List.take_append_drop, hm, List.length_drop, hlen]
      congr 3
      omega

private theorem decimal_fixedDigits (n : ℕ) {q : ℚ} (hq : 0 ≤ q) :
    decimal (fixedDigits n q) = some (fixedRound n q) := by
  set m := (roundEven (q * 10 ^ n)).natAbs with hm
  have hnonneg : 0 ≤ roundEven (q * 10 ^ n) :=
    le_roundEven (by push_cast; exact mul_nonneg hq (by positivity))
  have hvalue : fixedRound n q = m * (10 : ℚ) ^ (0 - (n : ℤ)) := by
    rw [fixedRound, hm, Nat.cast_natAbs, abs_of_nonneg hnonneg, zero_sub, zpow_neg, zpow_natCast,
      div_eq_mul_inv]
  set ds := zeros (n + 1 - (Nat.toDigits 10 m).length) ++ Nat.toDigits 10 m with hds
  have hdigits : AllDigits ds := (allDigits_zeros _).append (allDigits_toDigits m)
  have hlen : n + 1 ≤ ds.length := by
    rw [hds, List.length_append, zeros, List.length_replicate]
    omega
  have hne : ds.take (ds.length - n) ≠ [] := by
    rw [← List.length_pos_iff, List.length_take]
    omega
  have hread := decimal_withPoint (hdigits.take (ds.length - n)) (hdigits.drop (ds.length - n)) hne
    readsExponent_nil
  rw [List.append_nil, List.take_append_drop, List.length_drop] at hread
  have hfixed : fixedDigits n q = withPoint (ds.take (ds.length - n)) (ds.drop (ds.length - n)) := rfl
  have hback : ds.length - (ds.length - n) = n := by omega
  rw [hfixed, hread, hvalue, hds, digitsValue_zeros_append, digitsValue_toDigits, ← hds, hback]

/-- The characters of an unsigned number. -/
structure NumberText (cs : List Char) : Prop where
  head : ∀ c ∈ cs.head?, c.isDigit = true
  chars : ∀ c ∈ cs, c.isDigit = true ∨ c ∈ ['.', 'e', '+', '-']

theorem NumberText.sign {cs : List Char} (h : NumberText cs) : sign cs = (false, cs) := by
  unfold PyFloat.sign
  split
  · rename_i cs
    exact absurd (h.head '+' rfl) (by decide)
  · rename_i cs
    exact absurd (h.head '-' rfl) (by decide)
  · rfl

private theorem AllDigits.numberText {cs : List Char} (h : AllDigits cs) : NumberText cs :=
  ⟨fun c hc => h c (List.mem_of_mem_head? hc), fun c hc => Or.inl (h c hc)⟩

private theorem numberText_withPoint {whole frac tail : List Char} (hw : AllDigits whole)
    (hf : AllDigits frac) (hne : whole ≠ [])
    (ht : ∀ c ∈ tail, c.isDigit = true ∨ c ∈ ['.', 'e', '+', '-']) :
    NumberText (withPoint whole frac ++ tail) := by
  obtain ⟨w, whole, rfl⟩ := List.exists_cons_of_ne_nil hne
  unfold withPoint
  split_ifs
  · refine ⟨fun c hc => hw c ?_, fun c hc => ?_⟩
    · rw [← Option.mem_some.1 hc]
      exact List.mem_cons_self
    · exact (List.mem_append.1 hc).elim (fun h => Or.inl (hw c h)) (ht c)
  · refine ⟨fun c hc => hw c ?_, fun c hc => ?_⟩
    · rw [← Option.mem_some.1 hc]
      exact List.mem_cons_self
    · rcases List.mem_append.1 hc with hc | hc
      · rcases List.mem_append.1 hc with hc | hc
        · exact Or.inl (hw c hc)
        · rcases List.mem_cons.1 hc with rfl | hc
          · exact Or.inr (by decide)
          · exact Or.inl (hf c hc)
      · exact ht c hc

private theorem AllDigits.stripZeros {cs : List Char} (h : AllDigits cs) :
    AllDigits (stripZeros cs) := fun c hc =>
  h c (List.mem_reverse.1 ((List.dropWhile_sublist _).mem (List.mem_reverse.1 hc)))

private theorem exponentText_chars (e : ℤ) :
    ∀ c ∈ exponentText e, c.isDigit = true ∨ c ∈ ['.', 'e', '+', '-'] := by
  intro c hc
  simp only [exponentText, List.mem_cons] at hc
  rcases hc with rfl | rfl | hc
  · exact Or.inr (by decide)
  · split_ifs <;> exact Or.inr (by decide)
  · exact Or.inl ((allDigits_zeros _).append (allDigits_toDigits _) c hc)

private theorem numberText_generalDigits {p : ℕ} (q : ℚ) : NumberText (generalDigits p q) := by
  unfold generalDigits
  dsimp only
  set ds := Nat.toDigits 10 (significand p q).1 with hds
  have hdigits : AllDigits ds := allDigits_toDigits _
  have hne (n : ℕ) : ds.take (n + 1) ≠ [] := by
    simp [hds, Nat.toDigits_ne_nil]
  split_ifs
  · exact (allDigits_zeros 1).numberText
  · exact numberText_withPoint (hdigits.take 1) (hdigits.drop 1).stripZeros (hne 0)
      (exponentText_chars _)
  · rw [← List.append_nil (withPoint _ _)]
    exact numberText_withPoint (allDigits_zeros 1) ((allDigits_zeros _).append hdigits).stripZeros
      (List.cons_ne_nil _ _) (by simp)
  · rw [← List.append_nil (withPoint _ _)]
    exact numberText_withPoint (hdigits.take _) (hdigits.drop _).stripZeros (hne _) (by simp)

private theorem numberText_fixedDigits (n : ℕ) (q : ℚ) : NumberText (fixedDigits n q) := by
  unfold fixedDigits
  dsimp only
  set ds := zeros (n + 1 - (Nat.toDigits 10 (roundEven (q * 10 ^ n)).natAbs).length) ++
    Nat.toDigits 10 (roundEven (q * 10 ^ n)).natAbs with hds
  have hdigits : AllDigits ds := (allDigits_zeros _).append (allDigits_toDigits _)
  have hlen : n + 1 ≤ ds.length := by
    rw [hds, List.length_append, zeros, List.length_replicate]
    omega
  have hne : ds.take (ds.length - n) ≠ [] := by
    rw [← List.length_pos_iff, List.length_take]
    omega
  rw [← List.append_nil (withPoint _ _)]
  exact numberText_withPoint (hdigits.take _) (hdigits.drop _) hne (by simp)

private theorem textValue_signed {digits : ℚ → List Char} {round : ℚ → ℚ}
    (hread : ∀ q, 0 ≤ q → decimal (digits q) = some (round q)) (hneg : ∀ q, round (-q) = -round q)
    (htext : ∀ q, NumberText (digits q)) {x : PyFloat} (hx : x.isFinite = true) :
    textValue (signed digits x) = some (round x.rat) := by
  cases x with
  | fin q =>
    by_cases hq : q < 0
    · simp [signed, hq, textValue, sign, hread (-q) (by linarith), hneg, rat]
    · simp [signed, hq, textValue, (htext q).sign, hread q (not_lt.1 hq), rat]
  | negZero =>
    have hzero : -round 0 = round 0 := by rw [← hneg, neg_zero]
    simp [signed, textValue, sign, hread 0 le_rfl, hzero, rat]
  | inf _ | nan => cases hx

/-- A finite float is shown as its value to `p` significant digits. -/
theorem textValue_formatG {p : ℕ} (hp : 0 < p) {x : PyFloat} (hx : x.isFinite = true) :
    textValue (formatG p x) = some (sigRound p x.rat) :=
  textValue_signed (fun _ => decimal_generalDigits hp) (sigRound_neg p) numberText_generalDigits hx

/-- A finite float is shown as its value to `n` decimals. -/
theorem textValue_formatF (n : ℕ) {x : PyFloat} (hx : x.isFinite = true) :
    textValue (formatF n x) = some (fixedRound n x.rat) :=
  textValue_signed (fun _ => decimal_fixedDigits n) (fixedRound_neg n) (numberText_fixedDigits n) hx

private theorem chars_signed {digits : ℚ → List Char} (htext : ∀ q, NumberText (digits q))
    {x : PyFloat} (hx : x.isFinite = true) :
    ∀ c ∈ (signed digits x).toList, c.isDigit = true ∨ c ∈ ['.', 'e', '+', '-'] := by
  cases x with
  | fin q =>
    intro c hc
    rw [signed, String.toList_ofList] at hc
    split_ifs at hc
    · rcases List.mem_cons.1 hc with rfl | hc
      · exact Or.inr (by decide)
      · exact (htext (-q)).chars c hc
    · exact (htext q).chars c hc
  | negZero =>
    intro c hc
    rw [signed, String.toList_ofList] at hc
    rcases List.mem_cons.1 hc with rfl | hc
    · exact Or.inr (by decide)
    · exact (htext 0).chars c hc
  | inf _ | nan => cases hx

theorem chars_formatG (p : ℕ) {x : PyFloat} (hx : x.isFinite = true) :
    ∀ c ∈ (formatG p x).toList, c.isDigit = true ∨ c ∈ ['.', 'e', '+', '-'] :=
  chars_signed numberText_generalDigits hx

/-! The digits of a whole number. -/

theorem chars_toString (z : ℤ) :
    ∀ c ∈ (toString z).toList, c.isDigit = true ∨ c ∈ ['.', 'e', '+', '-'] := by
  intro c hc
  cases z with
  | ofNat n =>
    change c ∈ (Nat.repr n).toList at hc
    rw [Nat.toList_repr] at hc
    exact Or.inl (allDigits_toDigits n c hc)
  | negSucc n =>
    change c ∈ ("-" ++ Nat.repr (n + 1)).toList at hc
    rw [String.toList_append, Nat.toList_repr, List.mem_append] at hc
    rcases hc with hc | hc
    · exact Or.inr (by rw [List.mem_singleton.1 hc]; decide)
    · exact Or.inl (allDigits_toDigits _ c hc)

private theorem decimal_toDigits (n : ℕ) : decimal (Nat.toDigits 10 n) = some (n : ℚ) := by
  have h := decimal_withPoint (allDigits_toDigits n) (allDigits_zeros 0) Nat.toDigits_ne_nil
    readsExponent_nil
  simpa [withPoint, zeros, digitsValue_toDigits] using h

theorem textValue_toString (z : ℤ) : textValue (toString z) = some (z : ℚ) := by
  cases z with
  | ofNat n =>
    have htext : (toString (Int.ofNat n)).toList = Nat.toDigits 10 n := Nat.toList_repr
    rw [textValue, htext, (allDigits_toDigits n).numberText.sign, decimal_toDigits]
    rfl
  | negSucc n =>
    have htext : (toString (Int.negSucc n)).toList = '-' :: Nat.toDigits 10 (n + 1) := by
      change ("-" ++ Nat.repr (n + 1)).toList = _
      rw [String.toList_append, Nat.toList_repr]
      rfl
    rw [textValue, htext]
    simp [sign, decimal_toDigits, Int.cast_negSucc]

/-! How long the texts are. -/

def digitCount (n : ℕ) : ℕ := Nat.log 10 n + 1

def trailingZeros (n : ℕ) : ℕ := Nat.findGreatest (10 ^ · ∣ n) (Nat.log 10 n)

/-- The characters of a number that is not negative, to `n` decimals. -/
def fixedWidth (n : ℕ) (q : ℚ) : ℕ :=
  max 1 (digitCount (roundEven (q * 10 ^ n)).natAbs - n) + if n = 0 then 0 else n + 1

/-- The characters of a number that is not negative, to `p` significant digits. -/
def generalWidth (p : ℕ) (q : ℚ) : ℕ :=
  if q = 0 then 1
  else
    let (m, e) := significand p q
    let shown := p - trailingZeros m
    if e < -4 ∨ p ≤ e then
      shown + (if 1 < shown then 1 else 0) + 2 + max 2 (digitCount e.natAbs)
    else if e < 0 then 1 + e.natAbs + shown
    else if shown ≤ e.natAbs + 1 then e.natAbs + 1 else shown + 1

def signedWidth (width : ℚ → ℕ) : PyFloat → ℕ
  | .nan => 3
  | .inf neg => if neg then 4 else 3
  | .negZero => width 0 + 1
  | .fin q => width |q| + if q < 0 then 1 else 0

theorem length_toDigits (n : ℕ) : (Nat.toDigits 10 n).length = digitCount n := by
  refine le_antisymm ((Nat.length_toDigits_le_iff (by norm_num) (Nat.succ_pos _)).2
    (Nat.lt_pow_succ_log_self (by norm_num) n)) ?_
  by_contra hlt
  have hle : (Nat.toDigits 10 n).length ≤ Nat.log 10 n := by
    unfold digitCount at hlt
    omega
  have hpos : 0 < Nat.log 10 n := lt_of_lt_of_le Nat.length_toDigits_pos hle
  have hn : n ≠ 0 := by
    rintro rfl
    simp at hpos
  exact absurd ((Nat.length_toDigits_le_iff (by norm_num) hpos).1 hle)
    (not_lt.2 (Nat.pow_log_le_self 10 hn))

private theorem length_withPoint (whole frac : List Char) :
    (withPoint whole frac).length =
      whole.length + if frac.length = 0 then 0 else frac.length + 1 := by
  unfold withPoint
  by_cases h : frac = []
  · simp [h]
  · simp [h]

private theorem length_fixedDigits (n : ℕ) (q : ℚ) : (fixedDigits n q).length = fixedWidth n q := by
  unfold fixedDigits fixedWidth
  dsimp only
  rw [length_withPoint, ← length_toDigits]
  generalize Nat.toDigits 10 (roundEven (q * 10 ^ n)).natAbs = ds
  have hlen : (zeros (n + 1 - ds.length) ++ ds).length = max (n + 1) ds.length := by
    rw [List.length_append, zeros, List.length_replicate]
    omega
  rw [List.length_take, List.length_drop, hlen]
  split_ifs <;> omega

private theorem length_exponentText (e : ℤ) :
    (exponentText e).length = 2 + max 2 (digitCount e.natAbs) := by
  rw [exponentText, ← length_toDigits, List.length_cons, List.length_cons, List.length_append, zeros,
    List.length_replicate]
  omega

private theorem getLast?_stripZeros (cs : List Char) : (stripZeros cs).getLast? ≠ some '0' := by
  intro h
  rw [stripZeros, List.getLast?_reverse] at h
  have hhead := List.head?_dropWhile_not (fun c => decide (c = '0')) cs.reverse
  rw [h] at hhead
  simp at hhead

private theorem stripZeros_append_zeros {cs : List Char} (h : cs.getLast? ≠ some '0') (k : ℕ) :
    stripZeros (cs ++ zeros k) = cs := by
  have hzeros : ∀ c ∈ zeros k, decide (c = '0') = true :=
    fun c hc => decide_eq_true (List.eq_of_mem_replicate hc)
  have hrev : (zeros k).reverse = zeros k := List.reverse_replicate
  rw [stripZeros, List.reverse_append, hrev, List.dropWhile_append_of_pos hzeros]
  rw [← List.head?_reverse] at h
  cases hcs : cs.reverse with
  | nil =>
    rw [List.reverse_eq_nil_iff.1 hcs]
    rfl
  | cons c rest =>
    rw [hcs] at h
    have hc : ¬decide (c = '0') = true := by simpa using h
    rw [List.dropWhile_cons, if_neg hc, ← hcs, List.reverse_reverse]

private theorem length_stripZeros_drop (cs : List Char) (n : ℕ) :
    (stripZeros (cs.drop n)).length = (stripZeros cs).length - n := by
  obtain ⟨k, hsplit⟩ := stripZeros_append cs
  have hlast : ((stripZeros cs).drop n).getLast? ≠ some '0' := by
    rw [List.getLast?_drop]
    split_ifs
    · simp
    · exact getLast?_stripZeros cs
  have hdrop : cs.drop n = (stripZeros cs).drop n ++ zeros (k - (n - (stripZeros cs).length)) := by
    conv_lhs => rw [hsplit]
    rw [List.drop_append, zeros, zeros, List.drop_replicate]
  rw [hdrop, stripZeros_append_zeros hlast, List.length_drop]

private theorem length_stripZeros_zeros_append {cs : List Char} (h : stripZeros cs ≠ []) (n : ℕ) :
    (stripZeros (zeros n ++ cs)).length = n + (stripZeros cs).length := by
  obtain ⟨k, hsplit⟩ := stripZeros_append cs
  have hlast : (zeros n ++ stripZeros cs).getLast? ≠ some '0' := by
    rw [List.getLast?_append_of_ne_nil _ h]
    exact getLast?_stripZeros cs
  have happend : zeros n ++ cs = zeros n ++ stripZeros cs ++ zeros k := by
    rw [List.append_assoc, ← hsplit]
  rw [happend, stripZeros_append_zeros hlast, List.length_append, zeros, List.length_replicate]

/-- A digit that is no zero keeps the number from being a multiple of ten. -/
private theorem not_ten_dvd_digitsValue {cs : List Char} (h : AllDigits cs) (hne : cs ≠ [])
    (hlast : cs.getLast? ≠ some '0') : ¬10 ∣ digitsValue cs := by
  obtain ⟨front, c, rfl⟩ := List.eq_nil_or_concat' cs |>.resolve_left hne
  have hc : c.isDigit = true := h c (by simp)
  have hzero : c ≠ '0' := by simpa using hlast
  have hvalue : digitsValue (front ++ [c]) = 10 * digitsValue front + (c.toNat - '0'.toNat) := by
    rw [digitsValue, Nat.ofDigitChars_append, Nat.ofDigitChars_cons, Nat.ofDigitChars_nil]
    rfl
  have hrange : '0'.toNat ≤ c.toNat ∧ c.toNat ≤ '9'.toNat := by
    simpa [Char.isDigit, Char.le_def, UInt32.le_iff_toNat_le] using hc
  have hnat : c.toNat ≠ '0'.toNat := fun heq => hzero (Char.toNat_inj.1 heq)
  have h0 : '0'.toNat = 48 := rfl
  have h9 : '9'.toNat = 57 := rfl
  rw [hvalue]
  omega

private theorem length_stripZeros_toDigits {m : ℕ} (hm : 0 < m) :
    (stripZeros (Nat.toDigits 10 m)).length = digitCount m - trailingZeros m ∧
      stripZeros (Nat.toDigits 10 m) ≠ [] := by
  obtain ⟨k, hsplit⟩ := stripZeros_append (Nat.toDigits 10 m)
  set cs := stripZeros (Nat.toDigits 10 m) with hcs
  have hvalue : m = 10 ^ k * digitsValue cs := by
    conv_lhs => rw [← digitsValue_toDigits m, hsplit]
    rw [digitsValue, Nat.ofDigitChars_append, zeros, Nat.ofDigitChars_replicate_zero]
    rfl
  have hne : cs ≠ [] := by
    intro hnil
    rw [hnil] at hvalue
    change m = 10 ^ k * 0 at hvalue
    omega
  have hndvd := not_ten_dvd_digitsValue (allDigits_toDigits m).stripZeros hne
    (getLast?_stripZeros _)
  have hk : trailingZeros m = k := by
    refine Nat.findGreatest_eq_iff.2 ⟨?_, fun _ => ⟨_, hvalue⟩, fun n hkn _ hdvd => ?_⟩
    · exact Nat.le_log_of_pow_le (by norm_num) (Nat.le_of_dvd hm ⟨_, hvalue⟩)
    · have hsucc : 10 ^ k * 10 ∣ 10 ^ k * digitsValue cs := by
        rw [← pow_succ, ← hvalue]
        exact (pow_dvd_pow 10 hkn).trans hdvd
      exact hndvd (Nat.dvd_of_mul_dvd_mul_left (by positivity) hsucc)
  refine ⟨?_, hne⟩
  have hlen := congrArg List.length hsplit
  rw [length_toDigits, List.length_append, zeros, List.length_replicate] at hlen
  omega

private theorem length_generalDigits {p : ℕ} (hp : 0 < p) {q : ℚ} (hq : 0 ≤ q) :
    (generalDigits p q).length = generalWidth p q := by
  unfold generalDigits generalWidth
  split_ifs with hzero
  · rfl
  · obtain ⟨⟨hlow, hhigh⟩, -⟩ := significand_spec hp (lt_of_le_of_ne hq (Ne.symm hzero))
    generalize significand p q = s at *
    obtain ⟨m, e⟩ := s
    have hm : 0 < m := lt_of_lt_of_le (by positivity) hlow
    have hlen : (Nat.toDigits 10 m).length = p := length_toDigits_of_digits hp hlow hhigh
    obtain ⟨hshown, hne⟩ := length_stripZeros_toDigits hm
    rw [← length_toDigits, hlen] at hshown
    have hpos := List.length_pos_iff.2 hne
    dsimp only
    rw [← hshown]
    by_cases hsci : e < -4 ∨ (p : ℤ) ≤ e
    · rw [if_pos hsci, if_pos hsci, List.length_append, length_withPoint, length_exponentText,
        length_stripZeros_drop, List.length_take, hlen]
      split_ifs <;> omega
    · rw [if_neg hsci, if_neg hsci]
      by_cases hneg : e < 0
      · rw [if_pos hneg, if_pos hneg, length_withPoint, length_stripZeros_zeros_append hne,
          List.length_singleton]
        split_ifs <;> omega
      · rw [if_neg hneg, if_neg hneg, length_withPoint, length_stripZeros_drop, List.length_take,
          hlen]
        split_ifs <;> omega

private theorem length_signed {digits : ℚ → List Char} {width : ℚ → ℕ}
    (h : ∀ q, 0 ≤ q → (digits q).length = width q) (x : PyFloat) :
    (signed digits x).length = signedWidth width x := by
  cases x with
  | fin q =>
    rw [signed, signedWidth, String.length_ofList]
    split_ifs with hq
    · rw [List.length_cons, h (-q) (by linarith), abs_of_neg hq]
    · rw [h q (not_lt.1 hq), abs_of_nonneg (not_lt.1 hq), add_zero]
  | negZero => rw [signed, signedWidth, String.length_ofList, List.length_cons, h 0 le_rfl]
  | inf s => cases s <;> simp only [signed, signedWidth] <;> decide
  | nan =>
    simp only [signed, signedWidth]
    decide

theorem length_formatF (n : ℕ) (x : PyFloat) :
    (formatF n x).length = signedWidth (fixedWidth n) x :=
  length_signed (fun q _ => length_fixedDigits n q) x

theorem length_formatG {p : ℕ} (hp : 0 < p) (x : PyFloat) :
    (formatG p x).length = signedWidth (generalWidth p) x :=
  length_signed (fun _ => length_generalDigits hp) x

theorem length_toString (z : ℤ) :
    (toString z).length = digitCount z.natAbs + if z < 0 then 1 else 0 := by
  cases z with
  | ofNat n =>
    change (Nat.repr n).length = _
    rw [← String.length_toList, Nat.toList_repr, length_toDigits]
    rfl
  | negSucc n =>
    change ("-" ++ Nat.repr (n + 1)).length = _
    rw [String.length_append, ← String.length_toList (s := Nat.repr _), Nat.toList_repr, length_toDigits,
      if_pos (Int.negSucc_lt_zero n), add_comm]
    rfl

example : formatG 8 (.fin (6636 / 100)) = "66.36" := by decide +kernel
example : formatG 6 (.fin (-1234567)) = "-1.23457e+06" := by decide +kernel
example : sigRound 6 (-1234567) = -1234570 := by decide +kernel
example : formatF 1 (.fin (9995 / 100)) = "100.0" := by decide +kernel

end Base
