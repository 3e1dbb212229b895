import Mathlib.Data.List.Induction

/-! Runs of a deterministic step function over a list of operations, and the
two induction rules every safety result uses: an invariant of the state, and an
invariant that relates the state to the operations already performed. -/

namespace Base

variable {σ ο : Type*}

def run (step : σ → ο → σ) (s : σ) (ops : List ο) : σ := ops.foldl step s

variable (step : σ → ο → σ) (s : σ)

@[simp] theorem run_nil : run step s [] = s := rfl

@[simp] theorem run_cons (o : ο) (ops : List ο) :
    run step s (o :: ops) = run step (step s o) ops := rfl

theorem run_append (ops ops' : List ο) :
    run step s (ops ++ ops') = run step (run step s ops) ops' := by
  simp [run]

theorem run_snoc (ops : List ο) (o : ο) :
    run step s (ops ++ [o]) = step (run step s ops) o := by
  simp [run]

variable {step} {s}

theorem run_invariant {I : σ → Prop} (h0 : I s) (hs : ∀ s o, I s → I (step s o))
    (ops : List ο) : I (run step s ops) := by
  induction ops generalizing s with
  | nil => exact h0
  | cons o ops ih => exact ih (hs s o h0)

/-- The invariant may mention the operations performed so far. -/
theorem run_history {I : List ο → σ → Prop} (h0 : I [] s)
    (hs : ∀ pre o, I pre (run step s pre) → I (pre ++ [o]) (step (run step s pre) o))
    (ops : List ο) : I ops (run step s ops) := by
  induction ops using List.reverseRecOn with
  | nil => exact h0
  | append_singleton pre o ih =>
    rw [run_snoc]
    exact hs pre o ih

/-- What the operations put out along the run. -/
def trace {α : Type*} (step : σ → ο → σ) (out : σ → ο → List α) : σ → List ο → List α
  | _, [] => []
  | s, o :: ops => out s o ++ trace step out (step s o) ops

theorem trace_append {α : Type*} (step : σ → ο → σ) (out : σ → ο → List α) (s : σ)
    (ops ops' : List ο) :
    trace step out s (ops ++ ops') = trace step out s ops ++ trace step out (run step s ops) ops' := by
  induction ops generalizing s with
  | nil => rfl
  | cons o ops ih => simp [trace, ih]

theorem trace_snoc {α : Type*} (step : σ → ο → σ) (out : σ → ο → List α) (s : σ)
    (ops : List ο) (o : ο) :
    trace step out s (ops ++ [o]) = trace step out s ops ++ out (run step s ops) o := by
  rw [trace_append]
  simp [trace]

/-- What holds of every output of a state that keeps the invariant holds along the run. -/
theorem trace_invariant {α : Type*} {step : σ → ο → σ} {out : σ → ο → List α} {s : σ} {I : σ → Prop}
    {P : α → Prop} (h0 : I s) (hs : ∀ s o, I s → I (step s o)) (hout : ∀ s o, I s → ∀ a ∈ out s o, P a)
    (ops : List ο) : ∀ a ∈ trace step out s ops, P a := by
  induction ops generalizing s with
  | nil => exact fun a ha => absurd ha List.not_mem_nil
  | cons o ops ih =>
    intro a ha
    rcases List.mem_append.1 ha with ha | ha
    · exact hout s o h0 a ha
    · exact ih (hs s o h0) a ha

end Base
