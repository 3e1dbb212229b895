import Mathlib.Algebra.Order.BigOperators.Group.List
import Mathlib.Algebra.Order.Ring.Nat
import Mathlib.Data.List.Induction
import Mathlib.Data.List.Sort
import Mathlib.Data.Prod.Lex
import Mathlib.Order.BoundedOrder.Basic

/-! Append-only logs with strictly increasing entry ids, and what a reader sees
that keeps one id as its cursor: `after c` is still to be read, `between t c`
has been read by a reader that started behind `t`. -/

namespace Base

variable {ι α : Type*}

/-- The cursor of a reader that moved it to each entry of a batch in turn. -/
def Log.cursorAfter (c : ι) (batch : List (ι × α)) : ι := batch.foldl (fun _ e => e.1) c

@[simp] theorem Log.cursorAfter_nil (c : ι) : Log.cursorAfter c ([] : List (ι × α)) = c := rfl

@[simp] theorem Log.cursorAfter_cons (c : ι) (e : ι × α) (batch : List (ι × α)) :
    Log.cursorAfter c (e :: batch) = Log.cursorAfter e.1 batch := rfl

variable [LinearOrder ι] [OrderBot ι]

/-- `⊥` is the id before every entry; no entry has it. -/
structure Log (ι α : Type*) [LinearOrder ι] [OrderBot ι] where
  entries : List (ι × α)
  sorted : (entries.map Prod.fst).Pairwise (· < ·)
  pos : ∀ e ∈ entries, ⊥ < e.1

namespace Log

def empty : Log ι α := ⟨[], List.Pairwise.nil, by simp⟩

/-- The id of the newest entry, `⊥` for an empty log. -/
def lastId (l : Log ι α) : ι := (l.entries.getLast?.map Prod.fst).getD ⊥

def after (l : Log ι α) (c : ι) : List (ι × α) := l.entries.filter fun e => c < e.1

def between (l : Log ι α) (t c : ι) : List (ι × α) :=
  l.entries.filter fun e => decide (t < e.1) && decide (e.1 ≤ c)

theorem le_lastId (l : Log ι α) {e : ι × α} (he : e ∈ l.entries) : e.1 ≤ l.lastId := by
  have hs := l.sorted
  obtain h | ⟨pre, x, h⟩ := List.eq_nil_or_concat' l.entries
  · exact absurd he (by simp [h])
  · rw [h] at he hs
    simp only [List.map_append, List.map_singleton, List.pairwise_append] at hs
    simp only [lastId, h, List.getLast?_append, List.getLast?_singleton, Option.some_or,
      Option.map_some, Option.getD_some]
    rcases List.mem_append.1 he with h | h
    · exact (hs.2.2 e.1 (List.mem_map_of_mem h) x.1 (by simp)).le
    · rw [List.mem_singleton.1 h]

/-- Add an entry at the end; an id that does not grow is refused. -/
def push (l : Log ι α) (id : ι) (a : α) : Log ι α :=
  if h : l.lastId < id then
    { entries := l.entries ++ [(id, a)]
      sorted := by
        rw [List.map_append, List.map_singleton, List.pairwise_append]
        refine ⟨l.sorted, List.pairwise_singleton _ _, fun x hx y hy => ?_⟩
        obtain ⟨e, he, rfl⟩ := List.mem_map.1 hx
        rw [List.mem_singleton.1 hy]
        exact (l.le_lastId he).trans_lt h
      pos := by
        intro e he
        rcases List.mem_append.1 he with he | he
        · exact l.pos e he
        · rw [List.mem_singleton.1 he]
          exact bot_le.trans_lt h }
  else l

@[simp] theorem lastId_empty : (empty : Log ι α).lastId = ⊥ := rfl

@[simp] theorem after_empty (c : ι) : (empty : Log ι α).after c = [] := rfl

@[simp] theorem between_empty (t c : ι) : (empty : Log ι α).between t c = [] := rfl

@[simp] theorem after_bot (l : Log ι α) : l.after ⊥ = l.entries :=
  List.filter_eq_self.2 fun e he => decide_eq_true (l.pos e he)

@[simp] theorem after_lastId (l : Log ι α) : l.after l.lastId = [] := by
  rw [after, List.filter_eq_nil_iff]
  intro e he
  simpa using l.le_lastId he

theorem between_of_le (l : Log ι α) {t c : ι} (h : c ≤ t) : l.between t c = [] := by
  rw [between, List.filter_eq_nil_iff]
  intro e _
  simpa using fun ht => h.trans_lt ht

@[simp] theorem between_self (l : Log ι α) (t : ι) : l.between t t = [] := l.between_of_le le_rfl

theorem sorted_entries (l : Log ι α) : l.entries.Pairwise fun a b => a.1 < b.1 :=
  List.pairwise_map.1 l.sorted

theorem mem_after (l : Log ι α) (c : ι) (e : ι × α) :
    e ∈ l.after c ↔ e ∈ l.entries ∧ c < e.1 := by
  simp [after]

/-- What lies behind `t` splits at any later cursor. -/
theorem between_append_after (l : Log ι α) {t c : ι} (h : t ≤ c) :
    l.between t c ++ l.after c = l.after t := by
  obtain ⟨es, hs, hp⟩ := l
  simp only [between, after]
  clear hp
  induction es with
  | nil => rfl
  | cons e es ih =>
    simp only [List.map_cons, List.pairwise_cons] at hs
    by_cases hec : e.1 ≤ c
    · by_cases hte : t < e.1
      · simp [hec, hte, ih hs.2, not_lt.2 hec]
      · simp [hte, ih hs.2, not_lt.2 hec]
    · -- the rest is above `c` too, nothing of it has been read
      have hnil : es.filter (fun e => decide (t < e.1) && decide (e.1 ≤ c)) = [] := by
        rw [List.filter_eq_nil_iff]
        intro x hx
        have := hs.1 x.1 (List.mem_map_of_mem hx)
        simpa using fun _ => (not_le.1 hec).trans this
      have hct := not_le.1 hec
      have hrest := ih hs.2
      rw [hnil, List.nil_append] at hrest
      simp [hec, hct, h.trans_lt hct, hnil, hrest]

/-- Reading one entry: it is the oldest unread one, and becomes the cursor. -/
theorem after_head (l : Log ι α) {c : ι} {e : ι × α} {rest : List (ι × α)}
    (h : l.after c = e :: rest) : l.after e.1 = rest := by
  have hce : c < e.1 := ((l.mem_after c e).1 (h ▸ List.mem_cons_self)).2
  have hsplit := l.between_append_after hce.le
  have hs : (l.after c).Pairwise fun a b => a.1 < b.1 := l.sorted_entries.filter _
  rw [h, List.pairwise_cons] at hs
  have hrest : l.after e.1 = (l.after c).filter fun x => e.1 < x.1 := by
    rw [after, after, List.filter_filter]
    refine List.filter_congr fun x _ => ?_
    by_cases hx : e.1 < x.1
    · simp [hx, hce.trans hx]
    · simp [hx]
  rw [hrest, h, List.filter_cons_of_neg (by simp), List.filter_eq_self]
  exact fun x hx => decide_eq_true (hs.1 x hx)

theorem between_head (l : Log ι α) {t c : ι} {e : ι × α} {rest : List (ι × α)} (ht : t ≤ c)
    (h : l.after c = e :: rest) : l.between t e.1 = l.between t c ++ [e] := by
  have hce : c < e.1 := ((l.mem_after c e).1 (h ▸ List.mem_cons_self)).2
  have h1 := l.between_append_after (ht.trans hce.le)
  have h2 := l.between_append_after ht
  rw [l.after_head h] at h1
  rw [h] at h2
  have h3 : l.between t e.1 ++ rest = (l.between t c ++ [e]) ++ rest := by
    rw [h1, ← h2, List.append_assoc, List.singleton_append]
  exact List.append_cancel_right h3

theorem head_mem (l : Log ι α) {c : ι} {e : ι × α} {rest : List (ι × α)}
    (h : l.after c = e :: rest) : e ∈ l.entries ∧ c < e.1 :=
  (l.mem_after c e).1 (h ▸ List.mem_cons_self)

theorem push_of_not_lt (l : Log ι α) {id : ι} (a : α) (h : ¬ l.lastId < id) :
    l.push id a = l := by
  rw [push, dif_neg h]

theorem entries_push (l : Log ι α) {id : ι} (a : α) (h : l.lastId < id) :
    (l.push id a).entries = l.entries ++ [(id, a)] := by
  rw [push, dif_pos h]

theorem lastId_le_push (l : Log ι α) (id : ι) (a : α) : l.lastId ≤ (l.push id a).lastId := by
  by_cases h : l.lastId < id
  · simp [lastId, l.entries_push a h]
    exact h.le
  · rw [l.push_of_not_lt a h]

theorem between_push (l : Log ι α) {t c : ι} (id : ι) (a : α) (hc : c ≤ l.lastId) :
    (l.push id a).between t c = l.between t c := by
  by_cases h : l.lastId < id
  · have hid : ¬ id ≤ c := not_le.2 (hc.trans_lt h)
    simp [between, l.entries_push a h, hid]
  · rw [l.push_of_not_lt a h]

/-- Reading a batch from the front of what is unread, entry by entry. -/
theorem read_batch (l : Log ι α) {c : ι} {batch rest : List (ι × α)}
    (h : l.after c = batch ++ rest) :
    l.after (cursorAfter c batch) = rest ∧ c ≤ cursorAfter c batch ∧
      (c ≤ l.lastId → cursorAfter c batch ≤ l.lastId) ∧
      ∀ t ≤ c, l.between t (cursorAfter c batch) = l.between t c ++ batch := by
  induction batch generalizing c with
  | nil => exact ⟨h, le_rfl, id, fun t _ => by simp⟩
  | cons e batch ih =>
    rw [List.cons_append] at h
    obtain ⟨hmem, hce⟩ := l.head_mem h
    obtain ⟨hafter, hle, hlast, hbetween⟩ := ih (l.after_head h)
    refine ⟨hafter, hce.le.trans hle, fun _ => hlast (l.le_lastId hmem), fun t ht => ?_⟩
    rw [cursorAfter_cons, hbetween t (ht.trans hce.le), l.between_head ht h, List.append_assoc,
      List.singleton_append]

end Log

theorem filterMap_getElem?_range (l : List α) (n : ℕ) :
    ((List.range n).filterMap fun k => l[k]?) = l.take n := by
  induction n with
  | zero => rfl
  | succ n ih =>
    rw [List.range_succ, List.filterMap_append, ih, List.take_add_one]
    cases h : l[n]? with
    | none => simp [h]
    | some a => simp [h]

/-- What is picked by growing positions comes in the order of the list. -/
theorem sublist_of_increasing (l : List α) {ks : List ℕ} (h : ks.Pairwise (· < ·)) :
    (ks.filterMap fun k => l[k]?).Sublist l := by
  obtain ⟨n, hn⟩ : ∃ n, ∀ k ∈ ks, k < n :=
    ⟨ks.sum + 1, fun k hk => Nat.lt_succ_of_le (List.le_sum_of_mem hk)⟩
  have hks : ks = (List.range n).filter (· ∈ ks) := by
    refine List.Pairwise.eq_of_mem_iff h (List.pairwise_lt_range.filter _) fun k => ?_
    rw [List.mem_filter, List.mem_range, decide_eq_true_iff]
    exact ⟨fun hk => ⟨hn k hk, hk⟩, And.right⟩
  have hsub : ks.Sublist (List.range n) := hks ▸ List.filter_sublist
  have hpicked := hsub.filterMap fun k => l[k]?
  rw [filterMap_getElem?_range] at hpicked
  exact hpicked.trans (List.take_sublist n l)

theorem getElem?_of_prefix {l l' : List α} (h : l <+: l') {n : ℕ} {a : α} (ha : l[n]? = some a) :
    l'[n]? = some a := by
  obtain ⟨more, rfl⟩ := h
  rw [List.getElem?_append_left (List.getElem?_eq_some_iff.1 ha).1]
  exact ha

end Base
