import Mathlib.Data.List.DropRight
import Mathlib.Data.List.Infix

/-! A log whose oldest entries may be dropped while it holds more than `cap`: whatever was
dropped, its newest `cap` entries are those of everything ever written. -/

namespace Base

variable {α : Type*}

/-- Append an entry, then drop up to `trim` of the oldest that `cap` does not protect. -/
def pushCapped (cap trim : ℕ) (log : List α) (a : α) : List α :=
  (log ++ [a]).drop (min trim (log.length + 1 - cap))

/-- The log is an end of what was written, all of it or at least `cap` entries. -/
structure Retains (cap : ℕ) (log written : List α) : Prop where
  suffix : log <:+ written
  enough : min cap written.length ≤ log.length

variable {cap : ℕ} {log written : List α}

theorem retains_nil (cap : ℕ) : Retains cap ([] : List α) [] := ⟨List.suffix_rfl, Nat.min_le_right _ _⟩

theorem Retains.pushCapped (h : Retains cap log written) (trim : ℕ) (a : α) :
    Retains cap (pushCapped cap trim log a) (written ++ [a]) := by
  obtain ⟨dropped, rfl⟩ := h.suffix
  have henough := h.enough
  refine ⟨?_, ?_⟩
  · refine (List.drop_suffix _ _).trans ⟨dropped, ?_⟩
    rw [List.append_assoc]
  · simp only [Base.pushCapped, List.length_drop, List.length_append, List.length_singleton]
      at henough ⊢
    omega

/-- A reader of at most `cap` of the newest entries cannot tell what was dropped. -/
theorem Retains.rtake (h : Retains cap log written) {n : ℕ} (hn : n ≤ cap) :
    log.rtake n = written.rtake n := by
  obtain ⟨dropped, rfl⟩ := h.suffix
  have henough := h.enough
  rw [List.length_append] at henough
  rw [List.rtake, List.rtake, List.length_append]
  rcases Nat.lt_or_ge log.length n with hlt | hge
  · have hd : dropped = [] := List.length_eq_zero_iff.1 (by omega)
    rw [hd, List.nil_append, List.length_nil, Nat.zero_add]
  · have hpast : dropped.length ≤ dropped.length + log.length - n := by omega
    rw [List.drop_append, List.drop_eq_nil_of_le hpast, List.nil_append]
    congr 1
    omega

end Base
