import Mathlib.Data.Finset.Insert

/-! Passing on only the first item of each key, with a set of the keys already seen. -/

namespace Base

structure Once (κ α : Type*) where
  seen : Finset κ := ∅
  out : List α := []

namespace Once

variable {κ α : Type*} [DecidableEq κ] (key : α → κ)

def offer (s : Once κ α) (a : α) : Once κ α :=
  if key a ∈ s.seen then s else ⟨insert (key a) s.seen, s.out ++ [a]⟩

def offerAll (s : Once κ α) (items : List α) : Once κ α := items.foldl (offer key) s

/-- `s` has been offered `items`: the first item of each key has come out, nothing else. -/
structure Offered (s : Once κ α) (items : List α) : Prop where
  seen : ∀ k, k ∈ s.seen ↔ ∃ a ∈ items, key a = k
  out : ∀ k, (s.out.filter fun a => key a = k) = (items.find? fun a => key a = k).toList

theorem offered_empty : Offered key {} [] := ⟨by simp, by simp⟩

variable {key} {s : Once κ α} {items : List α}

theorem Offered.offer (h : Offered key s items) (a : α) :
    Offered key (s.offer key a) (items ++ [a]) := by
  have hfind (k : κ) : (items ++ [a]).find? (fun b => key b = k) =
      (items.find? fun b => key b = k).or (if key a = k then some a else none) := by
    rw [List.find?_append]
    by_cases hk : key a = k <;> simp [hk]
  have hseen (k : κ) : (∃ b ∈ items ++ [a], key b = k) ↔ (∃ b ∈ items, key b = k) ∨ key a = k := by
    simp only [List.mem_append, List.mem_singleton, or_and_right, exists_or, exists_eq_left]
  unfold Once.offer
  split_ifs with ha
  · refine ⟨fun k => ?_, fun k => ?_⟩
    · rw [hseen, h.seen]
      constructor
      · exact Or.inl
      · rintro (hk | rfl)
        · exact hk
        · exact (h.seen _).1 ha
    · rw [hfind, h.out]
      -- the key of `a` has come out already
      by_cases hk : key a = k
      · obtain ⟨b, hb, hbk⟩ := (h.seen _).1 ha
        have hsome : (items.find? fun b => key b = k).isSome :=
          List.find?_isSome.2 ⟨b, hb, by simp [hbk, hk]⟩
        obtain ⟨c, hc⟩ := Option.isSome_iff_exists.1 hsome
        rw [hc, Option.some_or]
      · rw [if_neg hk, Option.or_none]
  · refine ⟨fun k => ?_, fun k => ?_⟩
    · rw [hseen, ← h.seen, Finset.mem_insert, or_comm, eq_comm]
    · rw [hfind, List.filter_append, h.out]
      by_cases hk : key a = k
      · have hnone : items.find? (fun b => key b = k) = none := by
          rw [List.find?_eq_none]
          intro b hb hbk
          exact ha ((h.seen _).2 ⟨b, hb, by simpa [hk] using hbk⟩)
        simp [hnone, hk]
      · simp [hk]

theorem Offered.offerAll (h : Offered key s items) (items' : List α) :
    Offered key (s.offerAll key items') (items ++ items') := by
  induction items' generalizing s items with
  | nil =>
    rw [List.append_nil]
    exact h
  | cons a items' ih =>
    rw [List.append_cons]
    exact ih (h.offer a)

end Once
end Base
