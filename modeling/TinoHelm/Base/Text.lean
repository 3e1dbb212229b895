import Mathlib.Algebra.Ring.Nat
import Mathlib.Data.List.Basic
import Mathlib.Data.List.Infix

/-! The string operations of the program, on the characters of a string. -/

namespace Base

def startsWith (s p : String) : Bool := p.toList.isPrefixOf s.toList

def endsWith (s p : String) : Bool := p.toList.isSuffixOf s.toList

/-- A lower-case hexadecimal digit. -/
def hexDigit (n : ℕ) : Char := if n < 10 then Char.ofNat (48 + n) else Char.ofNat (87 + n)

/-- The characters behind the last occurrence of `sep`, all of them if there is none. -/
def afterLast (sep : Char) : List Char → List Char
  | [] => []
  | c :: cs => if c = sep ∨ sep ∈ cs then afterLast sep cs else c :: cs

def lastSegment (sep : Char) (s : String) : String := String.ofList (afterLast sep s.toList)

/-- The characters `str.strip` takes off. -/
def isWhitespace (c : Char) : Bool :=
  (9 ≤ c.toNat && c.toNat ≤ 13) || (28 ≤ c.toNat && c.toNat ≤ 32) ||
    (0x2000 ≤ c.toNat && c.toNat ≤ 0x200A) ||
    c.toNat ∈ [0x85, 0xA0, 0x1680, 0x2028, 0x2029, 0x202F, 0x205F, 0x3000]

def strip (s : String) : String :=
  String.ofList ((s.toList.dropWhile isWhitespace).reverse.dropWhile isWhitespace).reverse

/-- Nothing that could be stripped is left in front. -/
theorem strip_head {s : String} {c : Char} {r : List Char} (h : (strip s).toList = c :: r) :
    isWhitespace c = false := by
  rw [strip, String.toList_ofList] at h
  generalize hl : s.toList.dropWhile isWhitespace = l at h
  -- what is taken off behind leaves a prefix
  have hpre : (l.reverse.dropWhile isWhitespace).reverse <+: l :=
    List.reverse_suffix.1 (by rw [List.reverse_reverse]; exact List.dropWhile_suffix _)
  rw [h] at hpre
  obtain ⟨t, ht⟩ := hpre
  rw [← ht, List.cons_append] at hl
  have hne : s.toList.dropWhile isWhitespace ≠ [] := by simp [hl]
  have hhead := List.head_dropWhile_not isWhitespace hne
  simpa only [hl, List.head_cons] using hhead

theorem length_intercalate (sep : String) {l : List String} (h : l ≠ []) :
    (sep.intercalate l).length + sep.length = (l.map fun s => s.length + sep.length).sum := by
  induction l with
  | nil => exact absurd rfl h
  | cons s l ih =>
    by_cases hl : l = []
    · rw [hl, String.intercalate_singleton, List.map_cons, List.map_nil, List.sum_cons,
        List.sum_nil, Nat.add_zero]
    · rw [String.intercalate_cons_of_ne_nil hl, String.length_append, String.length_append,
        List.map_cons, List.sum_cons, ← ih hl]
      omega

theorem intercalate_cons (sep s : String) (l : List String) :
    sep.intercalate (s :: l) = s ++ String.join (l.map (sep ++ ·)) := by
  induction l generalizing s with
  | nil => simp
  | cons t l ih => rw [String.intercalate_cons_cons, ih t]; simp [String.append_assoc]

/-- A part with what is joined in front of it and behind it. -/
theorem intercalate_append_cons (sep : String) (l₁ : List String) (s : String) (l₂ : List String) :
    sep.intercalate (l₁ ++ s :: l₂) =
      String.join (l₁.map (· ++ sep)) ++ s ++ String.join (l₂.map (sep ++ ·)) := by
  induction l₁ with
  | nil => simp [intercalate_cons]
  | cons t l₁ ih =>
    rw [List.cons_append, String.intercalate_cons_of_ne_nil (by simp), ih]
    simp [String.append_assoc]

theorem mem_intercalate {sep : String} {l : List String} {c : Char}
    (h : c ∈ (sep.intercalate l).toList) : c ∈ sep.toList ∨ ∃ s ∈ l, c ∈ s.toList := by
  induction l with
  | nil => simp at h
  | cons s l ih =>
    by_cases hl : l = []
    · exact Or.inr ⟨s, List.mem_cons_self, by simpa [hl] using h⟩
    · rw [String.intercalate_cons_of_ne_nil hl, String.toList_append, String.toList_append,
        List.mem_append, List.mem_append] at h
      rcases h with (h | h) | h
      · exact Or.inr ⟨s, List.mem_cons_self, h⟩
      · exact Or.inl h
      · exact (ih h).imp_right fun ⟨t, ht, hc⟩ => ⟨t, List.mem_cons_of_mem s ht, hc⟩

theorem startsWith_iff (s p : String) : startsWith s p = true ↔ p.toList <+: s.toList := by
  simp [startsWith]

theorem endsWith_iff (s p : String) : endsWith s p = true ↔ p.toList <:+ s.toList := by
  simp [endsWith]

/-- The text in front of the first separator decides where it stands. -/
theorem append_sep_inj {sep : Char} {a a' b b' : List Char} (ha : sep ∉ a) (ha' : sep ∉ a')
    (h : a ++ sep :: b = a' ++ sep :: b') : a = a' ∧ b = b' := by
  induction a generalizing a' with
  | nil =>
    cases a' with
    | nil => simpa using h
    | cons c a' =>
      simp only [List.nil_append, List.cons_append, List.cons.injEq] at h
      simp [h.1] at ha'
  | cons c a ih =>
    cases a' with
    | nil =>
      simp only [List.nil_append, List.cons_append, List.cons.injEq] at h
      simp [h.1] at ha
    | cons c' a' =>
      simp only [List.mem_cons, not_or] at ha ha'
      simp only [List.cons_append, List.cons.injEq] at h
      obtain ⟨rfl, rfl⟩ := ih ha.2 ha'.2 h.2
      exact ⟨by rw [h.1], rfl⟩

/-- Glob matching where `*` stands for any run of characters. -/
def globMatch : List Char → List Char → Bool
  | [], s => s.isEmpty
  | '*' :: p, s => s.tails.any fun t => globMatch p t
  | c :: p, s =>
    match s with
    | [] => false
    | d :: s => c = d && globMatch p s

def matchesGlob (s pattern : String) : Bool := globMatch pattern.toList s.toList

/-- A pattern without `*` in front asks for a prefix and leaves the rest to the rest. -/
theorem globMatch_append {p q s : List Char} (h : '*' ∉ p) :
    globMatch (p ++ q) s = true ↔ ∃ t, s = p ++ t ∧ globMatch q t = true := by
  induction p generalizing s with
  | nil => simp
  | cons c p ih =>
    simp only [List.mem_cons, not_or] at h
    have hc : c ≠ '*' := Ne.symm h.1
    cases s with
    | nil => simp [globMatch]
    | cons d s =>
      simp only [List.cons_append, globMatch, Bool.and_eq_true, decide_eq_true_eq, ih h.2,
        List.cons.injEq]
      constructor
      · rintro ⟨rfl, t, rfl, ht⟩
        exact ⟨t, ⟨rfl, rfl⟩, ht⟩
      · rintro ⟨t, ⟨rfl, rfl⟩, ht⟩
        exact ⟨rfl, t, rfl, ht⟩

theorem globMatch_star_cons (q s : List Char) :
    globMatch ('*' :: q) s = true ↔ ∃ t, t <:+ s ∧ globMatch q t = true := by
  simp [globMatch]

theorem globMatch_self {q s : List Char} (h : '*' ∉ q) : globMatch q s = true ↔ s = q := by
  have := @globMatch_append q [] s h
  simpa [globMatch] using this

/-- A pattern with one `*` asks for what stands before and behind it. -/
theorem globMatch_star_between {p q s : List Char} (hp : '*' ∉ p) (hq : '*' ∉ q) :
    globMatch (p ++ '*' :: q) s = true ↔ ∃ t, s = p ++ t ∧ q <:+ t := by
  simp only [globMatch_append hp, globMatch_star_cons, globMatch_self hq, exists_eq_right]

theorem matchesGlob_append_star {s p : String} (h : '*' ∉ p.toList) :
    matchesGlob s (p ++ "*") = startsWith s p := by
  rw [Bool.eq_iff_iff, matchesGlob, String.toList_append, startsWith_iff]
  refine (globMatch_star_between h List.not_mem_nil).trans ?_
  simp only [List.nil_suffix, and_true]
  exact exists_congr fun t => eq_comm

/-- Wildcard matching where `*` stands for any run of characters and `?` for one. -/
def wildcardMatch : List Char → List Char → Bool
  | [], s => s.isEmpty
  | c :: p, s =>
    if c = '*' then s.tails.any fun t => wildcardMatch p t
    else
      match s with
      | [] => false
      | d :: s => (c = '?' || c = d) && wildcardMatch p s

/-- A pattern that ends in `*` matches every text that starts like itself, wildcards or
not. -/
theorem wildcardMatch_append_star (p t : List Char) :
    wildcardMatch (p ++ ['*']) (p ++ t) = true := by
  induction p with
  | nil => simp [wildcardMatch]
  | cons c p ih =>
    simp only [List.cons_append, wildcardMatch]
    split_ifs with hc
    · exact List.any_eq_true.2 ⟨p ++ t, by simp, ih⟩
    · simp [ih]

theorem afterLast_append_cons (sep : Char) (p t : List Char) :
    afterLast sep (p ++ sep :: t) = afterLast sep t := by
  induction p with
  | nil => rw [List.nil_append, afterLast, if_pos (Or.inl rfl)]
  | cons c p ih => rw [List.cons_append, afterLast, if_pos (Or.inr (by simp)), ih]

theorem afterLast_of_not_mem {sep : Char} {s : List Char} (h : sep ∉ s) : afterLast sep s = s := by
  cases s with
  | nil => rfl
  | cons c s =>
    rw [List.mem_cons, not_or] at h
    rw [afterLast, if_neg (by simp [Ne.symm h.1, h.2])]

theorem not_mem_afterLast (sep : Char) (s : List Char) : sep ∉ afterLast sep s := by
  induction s with
  | nil => exact List.not_mem_nil
  | cons c s ih =>
    rw [afterLast]
    split_ifs with h
    · exact ih
    · simpa [not_or, eq_comm] using h

theorem exists_eq_append_afterLast {sep : Char} {s : List Char} (h : sep ∈ s) :
    ∃ p, s = p ++ sep :: afterLast sep s := by
  induction s with
  | nil => cases h
  | cons c s ih =>
    by_cases hs : sep ∈ s
    · obtain ⟨p, hp⟩ := ih hs
      rw [afterLast, if_pos (Or.inr hs)]
      exact ⟨c :: p, congrArg (c :: ·) hp⟩
    · obtain rfl : sep = c := (List.mem_cons.1 h).resolve_right hs
      rw [afterLast, if_pos (Or.inl rfl), afterLast_of_not_mem hs]
      exact ⟨[], rfl⟩

theorem lastSegment_append (sep : Char) (p t : String) :
    lastSegment sep (p ++ String.singleton sep ++ t) = lastSegment sep t := by
  simp [lastSegment, afterLast_append_cons]

theorem lastSegment_of_not_mem {sep : Char} {s : String} (h : sep ∉ s.toList) :
    lastSegment sep s = s := by
  rw [lastSegment, afterLast_of_not_mem h, String.ofList_toList]

theorem not_mem_lastSegment (sep : Char) (s : String) : sep ∉ (lastSegment sep s).toList := by
  rw [lastSegment, String.toList_ofList]
  exact not_mem_afterLast sep s.toList

theorem exists_eq_append_lastSegment {sep : Char} {s : String} (h : sep ∈ s.toList) :
    ∃ p, s = p ++ String.singleton sep ++ lastSegment sep s := by
  obtain ⟨p, hp⟩ := exists_eq_append_afterLast h
  refine ⟨String.ofList p, String.toList_injective ?_⟩
  simpa [lastSegment] using hp

example : lastSegment ':' "tinohelm:control:FOO-001" = "FOO-001" := by decide

end Base
