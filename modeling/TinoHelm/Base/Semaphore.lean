import Mathlib.Data.List.Basic

/-! `asyncio.Semaphore`: the free permits and the tasks that wait, in the order of their
calls of `acquire`. `release` hands a permit to the oldest task that still sleeps, and
the loop runs the woken tasks in the order they were woken in, so a task that has
permits to take never overtakes one that came before it. -/

namespace Base

/-- `woken` tasks hold a permit and have yet to run. As long as a task sleeps, there is
no permit left, or a task will run and look again. -/
structure Semaphore (τ : Type*) where
  value : ℕ
  woken : List τ
  sleeping : List τ
  awake : sleeping ≠ [] → value = 0 ∨ woken ≠ []

namespace Semaphore

variable {τ : Type*}

def new (value : ℕ) : Semaphore τ := ⟨value, [], [], fun h => absurd rfl h⟩

/-- `acquire` would not return at once. -/
def locked (s : Semaphore τ) : Bool :=
  s.value = 0 || !s.woken.isEmpty || !s.sleeping.isEmpty

/-- `acquire` that returns at once. -/
def take (s : Semaphore τ) : Semaphore τ :=
  ⟨s.value - 1, s.woken, s.sleeping, fun h => (s.awake h).imp_left fun h => by rw [h]⟩

/-- `acquire` that goes to sleep. -/
def wait (s : Semaphore τ) (t : τ) (h : s.locked = true) : Semaphore τ where
  value := s.value
  woken := s.woken
  sleeping := s.sleeping ++ [t]
  awake := by
    intro _
    by_cases hs : s.sleeping = []
    · simpa [locked, hs] using h
    · exact s.awake hs

def release (s : Semaphore τ) : Semaphore τ :=
  match s.sleeping with
  | [] => ⟨s.value + 1, s.woken, [], fun h => absurd rfl h⟩
  | t :: rest => ⟨s.value, s.woken ++ [t], rest, fun _ => Or.inr (by simp)⟩

/-- The end of the `acquire` of the oldest woken task, which wakes another one if there
is a permit for it. -/
def resume (s : Semaphore τ) : Semaphore τ :=
  match s.value, s.sleeping with
  | value + 1, t :: rest => ⟨value, s.woken.tail ++ [t], rest, fun _ => Or.inr (by simp)⟩
  | 0, sleeping => ⟨0, s.woken.tail, sleeping, fun _ => Or.inl rfl⟩
  | value + 1, [] => ⟨value + 1, s.woken.tail, [], fun h => absurd rfl h⟩

/-- The tasks inside `acquire`. -/
def queue (s : Semaphore τ) : List τ := s.woken ++ s.sleeping

/-- The permits that no task outside `acquire` holds. -/
def permits (s : Semaphore τ) : ℕ := s.value + s.woken.length

variable {s : Semaphore τ} {t : τ}

@[simp] theorem queue_new (value : ℕ) : (new value : Semaphore τ).queue = [] := rfl
@[simp] theorem permits_new (value : ℕ) : (new value : Semaphore τ).permits = value := rfl
@[simp] theorem queue_take : s.take.queue = s.queue := rfl
@[simp] theorem permits_wait (h : s.locked = true) : (s.wait t h).permits = s.permits := rfl

@[simp] theorem queue_wait (h : s.locked = true) : (s.wait t h).queue = s.queue ++ [t] :=
  (List.append_assoc _ _ _).symm

theorem queue_of_unlocked (h : s.locked = false) : s.queue = [] := by
  simp only [locked, Bool.or_eq_false_iff, Bool.not_eq_false', List.isEmpty_iff] at h
  rw [queue, h.1.2, h.2, List.append_nil]

theorem permits_take (h : s.locked = false) : s.take.permits + 1 = s.permits := by
  simp only [locked, Bool.or_eq_false_iff, decide_eq_false_iff_not] at h
  have := h.1.1
  simp only [permits, take]
  omega

@[simp] theorem queue_release : s.release.queue = s.queue := by
  unfold release queue
  cases hs : s.sleeping with
  | nil => rfl
  | cons t rest => simp

@[simp] theorem permits_release : s.release.permits = s.permits + 1 := by
  unfold release permits
  cases hs : s.sleeping with
  | nil => dsimp only; omega
  | cons t rest => simp only [List.length_append, List.length_singleton]; omega

theorem queue_resume (h : s.woken ≠ []) : s.resume.queue = s.queue.tail := by
  unfold resume queue
  rw [List.tail_append_of_ne_nil h]
  split
  · rename_i rest _ hs
    simp [hs]
  · rfl
  · rename_i hs
    rw [hs]

theorem permits_resume (h : s.woken ≠ []) : s.resume.permits + 1 = s.permits := by
  have hlen := List.length_pos_iff.2 h
  unfold resume permits
  split
  · rename_i hv _
    simp only [List.length_append, List.length_tail, List.length_singleton, hv]
    omega
  · rename_i hv
    simp only [List.length_tail, hv]
    omega
  · rename_i hv _
    simp only [List.length_tail, hv]
    omega

/-- A task that sleeps while no task is about to run: every permit is in use. -/
theorem permits_of_asleep (hw : s.woken = []) (h : s.queue ≠ []) : s.permits = 0 := by
  have hs : s.sleeping ≠ [] := by simpa [queue, hw] using h
  obtain hv | hn := s.awake hs
  · rw [permits, hv, hw, List.length_nil]
  · exact absurd hw hn

theorem queue_of_woken {rest : List τ} (h : s.woken = t :: rest) :
    s.queue = t :: s.queue.tail := by
  simp [queue, h]

end Semaphore
end Base
