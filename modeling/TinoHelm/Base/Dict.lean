import Mathlib.Data.Finset.Card
import Mathlib.Data.List.Induction
import Mathlib.Data.List.Nodup
import Mathlib.Data.List.Basic

/-! Finite maps that remember insertion order: assigning to a present key keeps
its place, a new key goes to the end. Distinctness of the keys is a field, so a
map with two entries for one key cannot be built. -/

namespace Base

structure Dict (κ ν : Type*) where
  entries : List (κ × ν)
  nodup : (entries.map Prod.fst).Nodup

namespace Dict

variable {κ ν : Type*}

def empty : Dict κ ν := ⟨[], List.nodup_nil⟩

def keys (d : Dict κ ν) : List κ := d.entries.map Prod.fst

def size (d : Dict κ ν) : ℕ := d.entries.length

@[simp] theorem entries_empty : (empty : Dict κ ν).entries = [] := rfl

@[simp] theorem keys_empty : (empty : Dict κ ν).keys = [] := rfl

theorem keys_nodup (d : Dict κ ν) : d.keys.Nodup := d.nodup

/-- `popitem(last=False)`, `n` times. -/
def dropFirst (d : Dict κ ν) (n : ℕ) : Dict κ ν where
  entries := d.entries.drop n
  nodup := by
    rw [List.map_drop]
    exact d.nodup.sublist (List.drop_sublist _ _)

theorem keys_dropFirst (d : Dict κ ν) (n : ℕ) : (d.dropFirst n).keys = d.keys.drop n := by
  rw [keys, dropFirst, List.map_drop, keys]

theorem length_keys (d : Dict κ ν) : d.keys.length = d.size := List.length_map _

@[simp] theorem dropFirst_zero (d : Dict κ ν) : d.dropFirst 0 = d := rfl

/-- `{k: f(v) for k, v in d.items()}`. -/
def mapValues {ν' : Type*} (f : ν → ν') (d : Dict κ ν) : Dict κ ν' where
  entries := d.entries.map fun e => (e.1, f e.2)
  nodup := by
    rw [List.map_map]
    exact d.nodup

variable [DecidableEq κ]

/-- Keys are distinct, so there are no more of them than there are to choose from. -/
theorem size_le_card (d : Dict κ ν) {keys : Finset κ} (h : ∀ k ∈ d.keys, k ∈ keys) :
    d.size ≤ keys.card := by
  rw [size, ← List.length_map Prod.fst, ← List.toFinset_card_of_nodup d.nodup]
  exact Finset.card_le_card fun k hk => h k (List.mem_toFinset.1 hk)

def get? (d : Dict κ ν) (k : κ) : Option ν := d.entries.lookup k

/-- Drop the entry of `k`, if there is one. -/
def erase (d : Dict κ ν) (k : κ) : Dict κ ν where
  entries := d.entries.filter fun e => e.1 ≠ k
  nodup := d.nodup.sublist (List.filter_sublist.map _)

private theorem map_fst_assign (l : List (κ × ν)) (k : κ) (v : ν) :
    (l.map fun e => if e.1 = k then (k, v) else e).map Prod.fst = l.map Prod.fst := by
  rw [List.map_map]
  apply List.map_congr_left
  intro e _
  by_cases h : e.1 = k <;> simp [h]

/-- `d[k] = v`. -/
def set (d : Dict κ ν) (k : κ) (v : ν) : Dict κ ν :=
  if h : k ∈ d.keys then
    ⟨d.entries.map fun e => if e.1 = k then (k, v) else e, by
      rw [map_fst_assign]; exact d.nodup⟩
  else
    ⟨d.entries ++ [(k, v)], by
      rw [List.map_append, List.map_singleton]
      exact d.nodup.append (List.nodup_singleton k) (by simpa [keys] using h)⟩

def setdefault (d : Dict κ ν) (k : κ) (v : ν) : Dict κ ν :=
  if k ∈ d.keys then d else d.set k v

/-- `{k: v for k, v in l}`. -/
def ofList (l : List (κ × ν)) : Dict κ ν := l.foldl (fun d e => d.set e.1 e.2) empty

/-- The entry of `k` becomes the last one. -/
def moveToEnd (d : Dict κ ν) (k : κ) : Dict κ ν :=
  match d.get? k with
  | none => d
  | some v => (d.erase k).set k v

private theorem lookup_cons_ite (l : List (κ × ν)) (j k : κ) (v : ν) :
    ((k, v) :: l).lookup j = if j = k then some v else l.lookup j := by
  by_cases h : j = k
  · simp [h]
  · rw [List.lookup_cons, beq_eq_false_iff_ne.2 h, if_neg h]

@[simp] theorem get?_empty (k : κ) : (empty : Dict κ ν).get? k = none := rfl

theorem get?_isSome_iff (d : Dict κ ν) (k : κ) : (d.get? k).isSome ↔ k ∈ d.keys := by
  simp [get?, keys, List.lookup_isSome_iff]

theorem get?_eq_none_iff (d : Dict κ ν) (k : κ) : d.get? k = none ↔ k ∉ d.keys := by
  rw [← get?_isSome_iff, Option.not_isSome_iff_eq_none]

theorem mem_keys_of_get? {d : Dict κ ν} {k : κ} {v : ν} (h : d.get? k = some v) : k ∈ d.keys := by
  rw [← get?_isSome_iff, h]; rfl

theorem get?_eq_some_iff (d : Dict κ ν) (k : κ) (v : ν) :
    d.get? k = some v ↔ (k, v) ∈ d.entries := by
  obtain ⟨l, hl⟩ := d
  simp only [get?]
  induction l with
  | nil => simp
  | cons e l ih =>
    obtain ⟨j, w⟩ := e
    simp only [List.map_cons, List.nodup_cons] at hl
    rw [lookup_cons_ite, List.mem_cons, Prod.mk.injEq]
    by_cases h : k = j
    · subst h
      have hmem : (k, v) ∉ l := fun hv => hl.1 (List.mem_map_of_mem (f := Prod.fst) hv)
      simp [hmem, eq_comm]
    · simp [h, ih hl.2]

private theorem lookup_assign (l : List (κ × ν)) (j k : κ) (v : ν) (h : k ∈ l.map Prod.fst) :
    (l.map fun e => if e.1 = k then (k, v) else e).lookup j =
      if j = k then some v else l.lookup j := by
  induction l with
  | nil => simp at h
  | cons e l ih =>
    obtain ⟨i, w⟩ := e
    rw [lookup_cons_ite, List.map_cons]
    by_cases hik : i = k
    · subst hik
      rw [if_pos rfl, lookup_cons_ite]
      by_cases hj : j = i
      · simp [hj]
      · simp only [if_neg hj]
        by_cases hm : i ∈ l.map Prod.fst
        · rw [ih hm, if_neg hj]
        · -- no later entry has the key, so nothing is reassigned
          have hid : (l.map fun e => if e.1 = i then (i, v) else e) = l := by
            refine (List.map_congr_left fun e he => ?_).trans (List.map_id l)
            have hne : e.1 ≠ i := fun h => hm (h ▸ List.mem_map_of_mem he)
            rw [if_neg hne, id]
          rw [hid]
    · have hm : k ∈ l.map Prod.fst := by
        simpa [Ne.symm hik] using h
      rw [if_neg hik, lookup_cons_ite, ih hm]
      by_cases hj : j = i
      · simp [hj, hik]
      · simp [hj]

theorem get?_set (d : Dict κ ν) (j k : κ) (v : ν) :
    (d.set k v).get? j = if j = k then some v else d.get? j := by
  unfold set
  split_ifs with h hj hj
  · rw [get?, lookup_assign _ _ _ _ h, if_pos hj]
  · rw [get?, lookup_assign _ _ _ _ h, if_neg hj, get?]
  · subst hj
    have hn : d.entries.lookup j = none := (d.get?_eq_none_iff j).2 h
    simp [get?, List.lookup_append, hn]
  · simp [get?, List.lookup_append, lookup_cons_ite, hj]

@[simp] theorem get?_set_self (d : Dict κ ν) (k : κ) (v : ν) : (d.set k v).get? k = some v := by
  rw [get?_set, if_pos rfl]

theorem get?_set_ne (d : Dict κ ν) {j k : κ} (v : ν) (h : j ≠ k) :
    (d.set k v).get? j = d.get? j := by
  rw [get?_set, if_neg h]

theorem mem_keys_set (d : Dict κ ν) (j k : κ) (v : ν) :
    j ∈ (d.set k v).keys ↔ j = k ∨ j ∈ d.keys := by
  rw [← get?_isSome_iff, ← get?_isSome_iff, get?_set]
  by_cases h : j = k <;> simp [h]

private theorem entries_foldl_set {l : List (κ × ν)} {d : Dict κ ν}
    (hl : (l.map Prod.fst).Nodup) (hd : ∀ e ∈ l, e.1 ∉ d.keys) :
    (l.foldl (fun d e => d.set e.1 e.2) d).entries = d.entries ++ l := by
  induction l generalizing d with
  | nil => simp
  | cons e l ih =>
    rw [List.map_cons, List.nodup_cons] at hl
    have hset : (d.set e.1 e.2).entries = d.entries ++ [e] := by
      rw [set, dif_neg (hd e List.mem_cons_self)]
    rw [List.foldl_cons, ih hl.2, hset, List.append_assoc, List.singleton_append]
    intro x hx hmem
    rcases (d.mem_keys_set x.1 e.1 e.2).1 hmem with he | he
    · exact hl.1 (he ▸ List.mem_map_of_mem hx)
    · exact hd x (List.mem_cons_of_mem e hx) he

theorem entries_ofList {l : List (κ × ν)} (h : (l.map Prod.fst).Nodup) :
    (ofList l).entries = l := by
  rw [ofList, entries_foldl_set h (by simp)]
  rfl

theorem mem_of_mem_ofList {l : List (κ × ν)} {e : κ × ν} (h : e ∈ (ofList l).entries) :
    e ∈ l := by
  induction l using List.reverseRecOn with
  | nil => simp [ofList] at h
  | append_singleton l x ih =>
    obtain ⟨k, v⟩ := e
    rw [← get?_eq_some_iff, ofList, List.foldl_append] at h
    change ((ofList l).set x.1 x.2).get? k = some v at h
    rw [get?_set] at h
    split_ifs at h with hk
    · obtain rfl := Option.some.inj h
      simp [hk]
    · exact List.mem_append_left _ (ih ((get?_eq_some_iff _ _ _).1 h))

/-- Of entries with the same key the last one counts. -/
theorem get?_ofList (l : List (κ × ν)) (k : κ) : (ofList l).get? k = l.reverse.lookup k := by
  induction l using List.reverseRecOn with
  | nil => rfl
  | append_singleton l x ih =>
    have hset : ofList (l ++ [x]) = (ofList l).set x.1 x.2 := by
      rw [ofList, List.foldl_append]
      rfl
    rw [hset, get?_set, ih, List.reverse_append, List.reverse_singleton, List.singleton_append,
      lookup_cons_ite]

theorem get?_setdefault (d : Dict κ ν) (j k : κ) (v : ν) :
    (d.setdefault k v).get? j = if j = k then some ((d.get? k).getD v) else d.get? j := by
  unfold setdefault
  split_ifs with hk hj hj
  · subst hj
    obtain ⟨w, hw⟩ := Option.isSome_iff_exists.1 ((d.get?_isSome_iff j).2 hk)
    simp [hw]
  · rfl
  · subst hj
    simp [(d.get?_eq_none_iff j).2 hk]
  · exact d.get?_set_ne v hj

theorem mem_keys_setdefault (d : Dict κ ν) (j k : κ) (v : ν) :
    j ∈ (d.setdefault k v).keys ↔ j = k ∨ j ∈ d.keys := by
  rw [← get?_isSome_iff, ← get?_isSome_iff, get?_setdefault]
  by_cases h : j = k <;> simp [h]

theorem keys_setdefault (d : Dict κ ν) (k : κ) (v : ν) :
    (d.setdefault k v).keys = if k ∈ d.keys then d.keys else d.keys ++ [k] := by
  unfold setdefault
  split_ifs with hk
  · rfl
  · rw [set, dif_neg hk]
    simp [keys]

/-- Keys that are only ever defaulted keep the order of their first occurrences. -/
theorem keys_foldl_setdefault (l : List κ) (v : ν) :
    (l.foldl (fun d k => d.setdefault k v) empty).keys = l.reverse.dedup.reverse := by
  induction l using List.reverseRecOn with
  | nil => rfl
  | append_singleton l k ih =>
    rw [List.foldl_append, List.foldl_cons, List.foldl_nil, keys_setdefault, ih, List.reverse_append,
      List.reverse_singleton, List.singleton_append, List.dedup_cons]
    by_cases h : k ∈ l <;> simp [h]

theorem get?_erase (d : Dict κ ν) (j k : κ) :
    (d.erase k).get? j = if j = k then none else d.get? j := by
  ext v
  rw [get?_eq_some_iff]
  simp only [erase, List.mem_filter, decide_eq_true_eq]
  by_cases h : j = k
  · simp [h]
  · simp [h, get?_eq_some_iff]

@[simp] theorem get?_erase_self (d : Dict κ ν) (k : κ) : (d.erase k).get? k = none := by
  rw [get?_erase, if_pos rfl]

theorem get?_dropFirst (d : Dict κ ν) (n : ℕ) (k : κ) :
    (d.dropFirst n).get? k = none ∨ (d.dropFirst n).get? k = d.get? k := by
  cases h : (d.dropFirst n).get? k with
  | none => exact Or.inl rfl
  | some v =>
    rw [get?_eq_some_iff] at h
    exact Or.inr ((d.get?_eq_some_iff k v).2 (List.mem_of_mem_drop h)).symm

theorem entries_moveToEnd {d : Dict κ ν} {k : κ} {v : ν} (h : d.get? k = some v) :
    (d.moveToEnd k).entries = (d.erase k).entries ++ [(k, v)] := by
  have hk : k ∉ (d.erase k).keys := by
    rw [← get?_eq_none_iff, get?_erase_self]
  simp only [moveToEnd, h, set, dif_neg hk]

/-- The last entry survives dropping all but `m > 0` entries, also when it is reassigned. -/
theorem get?_moveToEnd_set_dropFirst {d : Dict κ ν} {k : κ} (h : k ∈ d.keys) (w : ν) {m : ℕ}
    (hm : 0 < m) :
    (((d.moveToEnd k).set k w).dropFirst (((d.moveToEnd k).set k w).size - m)).get? k = some w := by
  obtain ⟨v, hv⟩ := Option.isSome_iff_exists.1 ((d.get?_isSome_iff k).2 h)
  have he := entries_moveToEnd hv
  have hk : k ∈ (d.moveToEnd k).keys := by simp [keys, he]
  have hset : ((d.moveToEnd k).set k w).entries =
      (d.moveToEnd k).entries.map fun e => if e.1 = k then (k, w) else e := by
    simp only [set, dif_pos hk]
  have hlast : ((d.moveToEnd k).set k w).entries =
      ((d.erase k).entries.map fun e => if e.1 = k then (k, w) else e) ++ [(k, w)] := by
    rw [hset, he]
    simp
  rw [get?_eq_some_iff]
  change _ ∈ List.drop (((d.moveToEnd k).set k w).entries.length - m) _
  rw [hlast, List.drop_append_of_le_length]
  · simp
  · simp only [List.length_append, List.length_singleton]
    omega

theorem get?_moveToEnd (d : Dict κ ν) (j k : κ) : (d.moveToEnd k).get? j = d.get? j := by
  unfold moveToEnd
  split
  · rfl
  · rename_i v hv
    rw [get?_set, get?_erase]
    by_cases h : j = k
    · simp [h, hv]
    · simp [h]

theorem keys_set_of_mem {d : Dict κ ν} {k : κ} (h : k ∈ d.keys) (v : ν) :
    (d.set k v).keys = d.keys := by
  rw [set, dif_pos h]
  exact map_fst_assign d.entries k v

theorem keys_erase (d : Dict κ ν) (k : κ) : (d.erase k).keys = d.keys.filter (· ≠ k) := by
  rw [keys, erase, keys, List.filter_map]
  rfl

theorem keys_moveToEnd {d : Dict κ ν} {k : κ} (h : k ∈ d.keys) :
    (d.moveToEnd k).keys = d.keys.filter (· ≠ k) ++ [k] := by
  obtain ⟨v, hv⟩ := Option.isSome_iff_exists.1 ((d.get?_isSome_iff k).2 h)
  rw [keys, entries_moveToEnd hv, List.map_append, ← keys, keys_erase]
  rfl

theorem keys_moveToEnd_setdefault (d : Dict κ ν) (k : κ) (v : ν) :
    ((d.setdefault k v).moveToEnd k).keys = d.keys.filter (· ≠ k) ++ [k] := by
  rw [keys_moveToEnd ((d.mem_keys_setdefault k k v).2 (Or.inl rfl))]
  congr 1
  unfold setdefault
  split_ifs with hk
  · rfl
  · simp [set, keys, show k ∉ d.entries.map Prod.fst from hk]

/-- Assigning the entry just moved keeps it the last one. -/
theorem keys_set_moveToEnd_setdefault (d : Dict κ ν) (k : κ) (v w : ν) :
    (((d.setdefault k v).moveToEnd k).set k w).keys = d.keys.filter (· ≠ k) ++ [k] := by
  rw [keys_set_of_mem, keys_moveToEnd_setdefault]
  rw [keys_moveToEnd_setdefault]
  simp

end Dict
end Base
