import TinoHelm.Spec.Registry

/-! `_resolve_handle` picks the longest key the id ends with behind a hyphen. A class
name has no hyphen, so nothing longer than the handle can match `C-h`. -/

namespace TinoHelm
open Base

/-- `key` matches `strategyId` in the suffix search. -/
def IsSuffixKey (strategyId key : String) : Prop := endsWith strategyId ("-" ++ key) = true

/-- Two matches of one length are the same text behind the hyphen. -/
theorem IsSuffixKey.eq_of_length {strategyId key other : String} (h : IsSuffixKey strategyId key)
    (h' : IsSuffixKey strategyId other) (hl : key.length = other.length) : key = other := by
  rw [IsSuffixKey, endsWith_iff, String.toList_append] at h h'
  have hs : ("-".toList ++ key.toList) <:+ ("-".toList ++ other.toList) := by
    refine List.suffix_of_suffix_length_le h h' ?_
    simp [String.length_toList, hl]
  have he := hs.eq_of_length (by simp [String.length_toList, hl])
  exact String.toList_inj.1 (List.append_cancel_left he)

def bestStep (strategyId : String) (best : Option String) (key : String) : Option String :=
  if endsWith strategyId ("-" ++ key) && best.all (fun b => b.length < key.length) then some key
  else best

/-- The search has seen the keys `seen` and holds the longest match among them. -/
def BestOf (strategyId : String) (seen : List String) (best : Option String) : Prop :=
  match best with
  | none => ∀ key ∈ seen, ¬IsSuffixKey strategyId key
  | some b => b ∈ seen ∧ IsSuffixKey strategyId b ∧
      ∀ key ∈ seen, IsSuffixKey strategyId key → key.length ≤ b.length

theorem BestOf.step {strategyId : String} {seen : List String} {best : Option String}
    (h : BestOf strategyId seen best) (key : String) :
    BestOf strategyId (seen ++ [key]) (bestStep strategyId best key) := by
  unfold bestStep
  split_ifs with hc
  · rw [Bool.and_eq_true] at hc
    refine ⟨by simp, hc.1, fun k hk hm => ?_⟩
    rcases List.mem_append.1 hk with hk | hk
    · cases best with
      | none => exact absurd hm (h k hk)
      | some b =>
        have hlt : b.length < key.length := by simpa using hc.2
        exact (h.2.2 k hk hm).trans hlt.le
    · rw [List.mem_singleton.1 hk]
  · cases best with
    | none =>
      intro k hk
      rcases List.mem_append.1 hk with hk | hk
      · exact h k hk
      · rw [List.mem_singleton.1 hk]
        simpa [IsSuffixKey] using hc
    | some b =>
      refine ⟨List.mem_append_left _ h.1, h.2.1, fun k hk hm => ?_⟩
      rcases List.mem_append.1 hk with hk | hk
      · exact h.2.2 k hk hm
      · rw [List.mem_singleton.1 hk] at hm ⊢
        rw [Bool.and_eq_true, not_and] at hc
        simpa using hc hm

theorem bestOf_foldl {strategyId : String} {seen : List String} {best : Option String}
    (h : BestOf strategyId seen best) (keys : List String) :
    BestOf strategyId (seen ++ keys) (keys.foldl (bestStep strategyId) best) := by
  induction keys generalizing seen best with
  | nil => simpa using h
  | cons key keys ih =>
    rw [List.foldl_cons, show seen ++ key :: keys = (seen ++ [key]) ++ keys by simp]
    exact ih (h.step key)

theorem resolveHandle_of_not_mem {strategyId : String} {registry : Registry}
    (h : strategyId ∉ registry.keys) :
    ∃ best, BestOf strategyId registry.keys best ∧
      resolveHandle strategyId registry = best.getD strategyId := by
  have h0 : BestOf strategyId [] none := by simp [BestOf]
  refine ⟨_, bestOf_foldl h0 registry.keys, ?_⟩
  rw [resolveHandle, if_neg h]
  rfl

theorem resolveHandle_of_mem {strategyId : String} {registry : Registry}
    (h : strategyId ∈ registry.keys) : resolveHandle strategyId registry = strategyId := by
  rw [resolveHandle, if_pos h]

/-- NT's `StrategyId`: `{ClassName}-{order_id_tag}`. -/
def ntStrategyId (className tag : String) : String := className ++ "-" ++ tag

theorem ntStrategyId_ne_empty (className tag : String) : ntStrategyId className tag ≠ "" := by
  intro he
  rw [← String.toList_inj] at he
  simp [ntStrategyId] at he

theorem isSuffixKey_ntStrategyId (className tag : String) :
    IsSuffixKey (ntStrategyId className tag) tag := by
  rw [IsSuffixKey, endsWith_iff]
  simp only [ntStrategyId, String.toList_append, List.append_assoc]
  exact List.suffix_append _ _

theorem eq_of_isSuffixKey {className tag key : String} (hy : '-' ∉ className.toList)
    (hm : IsSuffixKey (ntStrategyId className tag) key) (hl : tag.length ≤ key.length) :
    key = tag := by
  rw [IsSuffixKey, endsWith_iff] at hm
  simp only [ntStrategyId, String.toList_append, List.append_assoc] at hm
  obtain ⟨q, hq⟩ := hm
  have hdash : ("-" : String).toList = ['-'] := rfl
  rw [hdash, List.singleton_append, List.singleton_append] at hq
  have hsuf : ('-' :: tag.toList) <:+ ('-' :: key.toList) := by
    refine List.suffix_of_suffix_length_le (List.suffix_append className.toList _) ⟨q, hq⟩ ?_
    simpa [String.length_toList] using hl
  obtain ⟨p, hp⟩ := hsuf
  have hclass : className.toList = q ++ p := by
    rw [← hp, ← List.append_assoc] at hq
    exact (List.append_cancel_right hq).symm
  cases p with
  | nil =>
    simp only [List.nil_append, List.cons.injEq, true_and] at hp
    exact (String.toList_inj.1 hp).symm
  | cons c p =>
    -- the hyphen in front of a longer key would stand inside the class name
    rw [List.cons_append, List.cons.injEq] at hp
    exact absurd (by rw [hclass, hp.1]; simp) hy

/-- A class name has no hyphen, so the keys that match are the tag and those it ends in. -/
theorem isSuffixKey_ntStrategyId_iff {className tag key : String} (hy : '-' ∉ className.toList) :
    IsSuffixKey (ntStrategyId className tag) key ↔ key = tag ∨ IsSuffixKey tag key := by
  constructor
  · intro h
    rcases Nat.lt_or_ge key.length tag.length with hl | hl
    · right
      have htag : tag.toList <:+ (ntStrategyId className tag).toList := by
        rw [ntStrategyId, String.toList_append]
        exact List.suffix_append _ _
      rw [IsSuffixKey, endsWith_iff] at h ⊢
      refine List.suffix_of_suffix_length_le h htag ?_
      simp only [String.toList_append, List.length_append, String.length_toList]
      change 1 + key.length ≤ tag.length
      omega
    · exact Or.inl (eq_of_isSuffixKey hy h hl)
  · rintro (rfl | h)
    · exact isSuffixKey_ntStrategyId className key
    · rw [IsSuffixKey, endsWith_iff] at h ⊢
      refine h.trans ?_
      rw [ntStrategyId, String.toList_append]
      exact List.suffix_append _ _

/-- A registered handle is what an id `C-h` resolves to, unless `C-h` is a key. -/
theorem resolveHandle_ntStrategyId {className tag : String} {registry : Registry}
    (hy : '-' ∉ className.toList) (ht : tag ∈ registry.keys)
    (hn : ntStrategyId className tag ∉ registry.keys) :
    resolveHandle (ntStrategyId className tag) registry = tag := by
  obtain ⟨best, hbest, hr⟩ := resolveHandle_of_not_mem hn
  rw [hr]
  cases best with
  | none => exact absurd (isSuffixKey_ntStrategyId className tag) (hbest tag ht)
  | some b =>
    obtain ⟨-, hb, hmax⟩ := hbest
    exact eq_of_isSuffixKey hy hb (hmax tag ht (isSuffixKey_ntStrategyId className tag))

/-- `key` is the most specific key that `strategyId` ends in behind a hyphen. -/
def LongestMatch (strategyId : String) (registry : Registry) (key : String) : Prop :=
  key ∈ registry.keys ∧ IsSuffixKey strategyId key ∧
    ∀ other ∈ registry.keys, IsSuffixKey strategyId other → other.length ≤ key.length

theorem LongestMatch.unique {strategyId key other : String} {registry : Registry}
    (h : LongestMatch strategyId registry key) (h' : LongestMatch strategyId registry other) :
    key = other := by
  have hle : key.length ≤ other.length := h'.2.2 key h.1 h.2.1
  have hge : other.length ≤ key.length := h.2.2 other h'.1 h'.2.1
  exact h.2.1.eq_of_length h'.2.1 (hle.antisymm hge)

theorem longestMatch_resolveHandle {strategyId : String} {registry : Registry}
    (hn : strategyId ∉ registry.keys) (h : ∃ key ∈ registry.keys, IsSuffixKey strategyId key) :
    LongestMatch strategyId registry (resolveHandle strategyId registry) := by
  obtain ⟨best, hbest, hr⟩ := resolveHandle_of_not_mem hn
  obtain ⟨key, hkey, hm⟩ := h
  rw [hr]
  cases best with
  | none => exact absurd hm (hbest key hkey)
  | some b => exact hbest

theorem resolveHandle_of_no_match {strategyId : String} {registry : Registry}
    (hn : strategyId ∉ registry.keys) (h : ∀ key ∈ registry.keys, ¬IsSuffixKey strategyId key) :
    resolveHandle strategyId registry = strategyId := by
  obtain ⟨best, hbest, hr⟩ := resolveHandle_of_not_mem hn
  rw [hr]
  cases best with
  | none => rfl
  | some b => exact absurd hbest.2.1 (h b hbest.1)

/-- Only the set of keys matters, not the order they were announced in. -/
theorem resolveHandle_congr {registry registry' : Registry} (strategyId : String)
    (h : ∀ key, key ∈ registry'.keys ↔ key ∈ registry.keys) :
    resolveHandle strategyId registry' = resolveHandle strategyId registry := by
  by_cases hs : strategyId ∈ registry.keys
  · rw [resolveHandle_of_mem hs, resolveHandle_of_mem ((h strategyId).2 hs)]
  · have hs' : strategyId ∉ registry'.keys := fun hmem => hs ((h strategyId).1 hmem)
    by_cases hm : ∃ key ∈ registry.keys, IsSuffixKey strategyId key
    · have hm' : ∃ key ∈ registry'.keys, IsSuffixKey strategyId key := by
        simpa only [h] using hm
      obtain ⟨hmem, hsuf, hmax⟩ := longestMatch_resolveHandle hs' hm'
      have hl : LongestMatch strategyId registry (resolveHandle strategyId registry') :=
        ⟨(h _).1 hmem, hsuf, fun other ho => hmax other ((h other).2 ho)⟩
      exact hl.unique (longestMatch_resolveHandle hs hm)
    · push Not at hm
      rw [resolveHandle_of_no_match hs hm,
        resolveHandle_of_no_match hs' fun key hkey => hm key ((h key).1 hkey)]

/-- `_resolve_handle` is the longest suffix match, whatever the order of the registry, and
an id `C-h` of a registered handle resolves to the handle. -/
theorem resolve_handle_longest_suffix (strategyId : String) (registry : Registry) :
    (strategyId ∈ registry.keys → resolveHandle strategyId registry = strategyId) ∧
      (strategyId ∉ registry.keys → (∃ key ∈ registry.keys, IsSuffixKey strategyId key) →
        LongestMatch strategyId registry (resolveHandle strategyId registry) ∧
          ∀ key, LongestMatch strategyId registry key →
            key = resolveHandle strategyId registry) ∧
      (strategyId ∉ registry.keys → (∀ key ∈ registry.keys, ¬IsSuffixKey strategyId key) →
        resolveHandle strategyId registry = strategyId) ∧
      (∀ registry' : Registry, registry'.entries.Perm registry.entries →
        resolveHandle strategyId registry' = resolveHandle strategyId registry) ∧
      ∀ className handle, '-' ∉ className.toList → handle ∈ registry.keys →
        strategyId = ntStrategyId className handle → strategyId ∉ registry.keys →
          resolveHandle strategyId registry = handle := by
  refine ⟨resolveHandle_of_mem, fun hn hm => ?_, resolveHandle_of_no_match, fun registry' hp => ?_,
    fun className handle hy hh hs hn => ?_⟩
  · have hl := longestMatch_resolveHandle hn hm
    exact ⟨hl, fun key hkey => hkey.unique hl⟩
  · exact resolveHandle_congr strategyId fun key => (hp.map Prod.fst).mem_iff
  · subst hs
    exact resolveHandle_ntStrategyId hy hh hn

example : resolveHandle "Ema-alpha-1" ((Dict.empty.set "1" "live").set "alpha-1" "sandbox") =
    "alpha-1" := by decide

end TinoHelm
