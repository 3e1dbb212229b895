import Mathlib.Data.Finset.Card
import Mathlib.Data.List.Dedup
import TinoHelm.Base.Machine

/-! Least-recently-used bookkeeping: the keys in order of last touch, oldest first. A
touch puts its key last and drops the oldest keys beyond the cap, a release takes its
key out. A key is gone only if it was released or crowded out. -/

namespace Base.Lru

inductive Use (κ : Type*) where
  | touch (k : κ)
  | release (k : κ)

variable {κ : Type*}

def Use.touched : Use κ → Option κ
  | .touch k => some k
  | .release _ => none

/-- The keys that were touched, one entry for each touch. -/
def touched (uses : List (Use κ)) : List κ := uses.filterMap Use.touched

theorem touched_append (uses uses' : List (Use κ)) :
    touched (uses ++ uses') = touched uses ++ touched uses' := by
  simp [touched]

variable [DecidableEq κ]

def step (cap : ℕ) (keys : List κ) : Use κ → List κ
  | .touch k =>
    let keys := keys.filter (· ≠ k) ++ [k]
    keys.drop (keys.length - cap)
  | .release k => keys.filter (· ≠ k)

def keysAfter (cap : ℕ) (uses : List (Use κ)) : List κ := run (step cap) [] uses

variable {cap : ℕ}

theorem keysAfter_snoc (uses : List (Use κ)) (u : Use κ) :
    keysAfter cap (uses ++ [u]) = step cap (keysAfter cap uses) u :=
  run_snoc _ _ uses u

theorem length_step_le {keys : List κ} (h : keys.length ≤ cap) (u : Use κ) :
    (step cap keys u).length ≤ cap := by
  cases u with
  | touch k =>
    simp only [step, List.length_drop]
    omega
  | release k => exact (List.length_filter_le _ _).trans h

theorem length_keysAfter_le (uses : List (Use κ)) : (keysAfter cap uses).length ≤ cap :=
  run_invariant (I := fun keys : List κ => keys.length ≤ cap) (Nat.zero_le _)
    (fun _ u h => length_step_le h u) uses

theorem nodup_step {keys : List κ} (h : keys.Nodup) (u : Use κ) : (step cap keys u).Nodup := by
  cases u with
  | touch k =>
    have hk : (keys.filter (· ≠ k) ++ [k]).Nodup :=
      (h.filter _).append (List.nodup_singleton k) (by simp)
    exact hk.sublist (List.drop_sublist _ _)
  | release k => exact h.filter _

theorem nodup_keysAfter (uses : List (Use κ)) : (keysAfter cap uses).Nodup :=
  run_invariant (I := List.Nodup) List.nodup_nil (fun _ u h => nodup_step h u) uses

/-- With room for it, the key just touched is the last one. -/
theorem step_touch (keys : List κ) (k : κ) (hc : 0 < cap) :
    ∃ front, step cap keys (.touch k) = front ++ [k] := by
  refine ⟨(keys.filter (· ≠ k)).drop ((keys.filter (· ≠ k) ++ [k]).length - cap), ?_⟩
  rw [step, List.drop_append_of_le_length]
  simp only [List.length_append, List.length_singleton]
  omega

theorem dedup_snoc (l : List κ) (k : κ) : (l ++ [k]).dedup = l.dedup.filter (· ≠ k) ++ [k] := by
  induction l with
  | nil => simp
  | cons a l ih =>
    rw [List.cons_append]
    by_cases ha : a ∈ l
    · rw [List.dedup_cons_of_mem (List.mem_append_left _ ha), List.dedup_cons_of_mem ha, ih]
    · rw [List.dedup_cons_of_notMem ha]
      by_cases hk : a = k
      · subst hk
        rw [List.dedup_cons_of_mem (by simp), ih]
        simp
      · rw [List.dedup_cons_of_notMem (by simp [ha, hk]), ih]
        simp [hk]

/-- The keys stand in the order in which they were last touched. -/
theorem keysAfter_sublist (uses : List (Use κ)) :
    (keysAfter cap uses).Sublist (touched uses).dedup := by
  induction uses using List.reverseRecOn with
  | nil => exact List.Sublist.refl _
  | append_singleton uses u ih =>
    rw [keysAfter_snoc, touched_append]
    cases u with
    | touch k =>
      rw [show touched [Use.touch k] = [k] from rfl, dedup_snoc]
      exact (List.drop_sublist _ _).trans ((ih.filter _).append (List.Sublist.refl _))
    | release k =>
      rw [show touched [Use.release k] = [] from rfl, List.append_nil]
      exact List.filter_sublist.trans ih

/-- `k` is in place and only keys of `later` were touched after it. -/
def Behind (keys : List κ) (k : κ) (later : List κ) : Prop :=
  ∃ front back, keys = front ++ k :: back ∧ ∀ j ∈ back, j ∈ later

/-- A touch of another key leaves `k` in place unless `cap` others are behind it. -/
theorem Behind.touch {keys : List κ} {k j : κ} {later : List κ} (h : Behind keys k later)
    (hn : keys.Nodup) (hjk : j ≠ k) :
    Behind (step cap keys (.touch j)) k (later ++ [j]) ∨ cap ≤ (later ++ [j]).toFinset.card := by
  obtain ⟨front, back, rfl, hback⟩ := h
  set front' := front.filter (· ≠ j)
  set back' := back.filter (· ≠ j) ++ [j]
  have hkeys : (front ++ k :: back).filter (· ≠ j) ++ [j] = front' ++ k :: back' := by
    simp [front', back', hjk.symm]
  have hmem : ∀ i ∈ back', i ∈ later ++ [j] := by
    intro i hi
    rcases List.mem_append.1 hi with hi | hi
    · exact List.mem_append_left _ (hback i (List.mem_of_mem_filter hi))
    · exact List.mem_append_right _ hi
  have hnodup : back'.Nodup := by
    have hb : back.Nodup := (List.nodup_append.1 hn).2.1.of_cons
    exact (hb.filter _).append (List.nodup_singleton j) (by simp)
  rw [step]
  simp only [hkeys]
  by_cases hd : (front' ++ k :: back').length - cap ≤ front'.length
  · refine Or.inl ⟨_, back', List.drop_append_of_le_length hd, hmem⟩
  · right
    have hlen : cap ≤ back'.length := by
      simp only [List.length_append, List.length_cons] at hd
      omega
    calc cap ≤ back'.length := hlen
      _ = back'.toFinset.card := (List.toFinset_card_of_nodup hnodup).symm
      _ ≤ (later ++ [j]).toFinset.card :=
        Finset.card_le_card fun i hi => List.mem_toFinset.2 (hmem i (List.mem_toFinset.1 hi))

theorem Behind.release {keys : List κ} {k j : κ} {later : List κ} (h : Behind keys k later)
    (hjk : j ≠ k) : Behind (step cap keys (.release j)) k later := by
  obtain ⟨front, back, rfl, hback⟩ := h
  refine ⟨front.filter (· ≠ j), back.filter (· ≠ j), by simp [step, hjk.symm], fun i hi => ?_⟩
  exact hback i (List.mem_of_mem_filter hi)

/-- Since its last touch, a key is in place, was released or was crowded out by `cap`
others. -/
theorem behind_or {pre post : List (Use κ)} {k : κ} (hc : 0 < cap) (hk : k ∉ touched post) :
    Behind (keysAfter cap (pre ++ .touch k :: post)) k (touched post) ∨ .release k ∈ post ∨
      cap ≤ (touched post).toFinset.card := by
  induction post using List.reverseRecOn with
  | nil =>
    obtain ⟨front, hf⟩ := step_touch (keysAfter cap pre) k hc
    exact Or.inl ⟨front, [], by rw [keysAfter_snoc, hf], by simp⟩
  | append_singleton post u ih =>
    rw [touched_append, List.mem_append, not_or] at hk
    rw [touched_append, ← List.cons_append, ← List.append_assoc, keysAfter_snoc]
    rcases ih hk.1 with hb | hr | hcap
    · cases u with
      | touch j =>
        have hjk : j ≠ k := by
          rintro rfl
          exact hk.2 List.mem_cons_self
        exact (hb.touch (nodup_keysAfter _) hjk).imp_right Or.inr
      | release j =>
        by_cases hjk : j = k
        · subst hjk
          exact Or.inr (Or.inl (by simp))
        · refine Or.inl ?_
          rw [show touched [Use.release j] = [] from rfl, List.append_nil]
          exact hb.release hjk
    · exact Or.inr (Or.inl (List.mem_append_left _ hr))
    · refine Or.inr (Or.inr (hcap.trans (Finset.card_le_card fun i hi => ?_)))
      rw [List.mem_toFinset] at hi ⊢
      exact List.mem_append_left _ hi

theorem absent_of_touched {pre post : List (Use κ)} {k : κ} (hc : 0 < cap)
    (hk : k ∉ touched post) (ha : k ∉ keysAfter cap (pre ++ .touch k :: post)) :
    .release k ∈ post ∨ cap ≤ (touched post).toFinset.card := by
  have hgone : ¬Behind (keysAfter cap (pre ++ .touch k :: post)) k (touched post) := by
    rintro ⟨front, back, hkeys, -⟩
    exact ha (by simp [hkeys])
  exact (behind_or hc hk).resolve_left hgone

end Base.Lru
