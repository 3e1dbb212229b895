import Mathlib.Data.List.Pairwise

/-! A FIFO queue of numbered jobs. Every submission takes the next number, whether
or not it queues a job, so the jobs stand in the order of their numbers and a
number that has left the queue never comes back. -/

namespace Base

structure Fifo (α : Type*) where
  next : ℕ
  jobs : List (ℕ × α)
  sorted : jobs.Pairwise fun i j => i.1 < j.1
  bound : ∀ j ∈ jobs, j.1 < next

namespace Fifo

variable {α : Type*}

def empty : Fifo α := ⟨0, [], List.Pairwise.nil, by simp⟩

/-- Take a number and queue no job. -/
def skip (q : Fifo α) : Fifo α :=
  ⟨q.next + 1, q.jobs, q.sorted, fun j hj => Nat.lt_succ_of_lt (q.bound j hj)⟩

def push (q : Fifo α) (a : α) : Fifo α where
  next := q.next + 1
  jobs := q.jobs ++ [(q.next, a)]
  sorted := List.pairwise_append.2
    ⟨q.sorted, List.pairwise_singleton _ _, fun i hi j hj => by
      rw [List.mem_singleton.1 hj]
      exact q.bound i hi⟩
  bound := by
    intro j hj
    rcases List.mem_append.1 hj with h | h
    · exact Nat.lt_succ_of_lt (q.bound j h)
    · rw [List.mem_singleton.1 h]
      exact Nat.lt_succ_self _

def tail (q : Fifo α) : Fifo α :=
  ⟨q.next, q.jobs.tail, q.sorted.tail, fun j hj => q.bound j (List.mem_of_mem_tail hj)⟩

def Queued (q : Fifo α) (n : ℕ) : Prop := n ∈ q.jobs.map Prod.fst

/-- Number `n` was taken, and its job, if there was one, has left the queue. -/
def Gone (q : Fifo α) (n : ℕ) : Prop := n < q.next ∧ ¬q.Queued n

variable {q : Fifo α} {n : ℕ} {a : α}

@[simp] theorem next_skip : q.skip.next = q.next + 1 := rfl
@[simp] theorem next_push : (q.push a).next = q.next + 1 := rfl
@[simp] theorem next_tail : q.tail.next = q.next := rfl
@[simp] theorem jobs_skip : q.skip.jobs = q.jobs := rfl
@[simp] theorem jobs_push : (q.push a).jobs = q.jobs ++ [(q.next, a)] := rfl
@[simp] theorem jobs_tail : q.tail.jobs = q.jobs.tail := rfl

theorem queued_push : (q.push a).Queued n ↔ q.Queued n ∨ n = q.next := by
  simp [Queued]

theorem queued_of_tail (h : q.tail.Queued n) : q.Queued n := by
  obtain ⟨j, hj, rfl⟩ := List.mem_map.1 h
  exact List.mem_map_of_mem (List.mem_of_mem_tail hj)

theorem Gone.skip (h : q.Gone n) : q.skip.Gone n := ⟨Nat.lt_succ_of_lt h.1, h.2⟩

theorem Gone.push (h : q.Gone n) : (q.push a).Gone n := by
  refine ⟨Nat.lt_succ_of_lt h.1, fun hq => ?_⟩
  rcases queued_push.1 hq with hq | hq
  · exact h.2 hq
  · exact absurd h.1 (by omega)

theorem Gone.tail (h : q.Gone n) : q.tail.Gone n := ⟨h.1, fun hq => h.2 (queued_of_tail hq)⟩

/-- The job that leaves the queue is older than those that stay. -/
theorem head_lt_of_tail (hh : q.jobs.head? = some (n, a)) :
    ∀ j ∈ q.tail.jobs, n < j.1 := by
  intro j hj
  obtain ⟨rest, hr⟩ := List.head?_eq_some_iff.1 hh
  have hs := q.sorted
  rw [hr, List.pairwise_cons] at hs
  rw [jobs_tail, hr] at hj
  exact hs.1 j hj

theorem gone_tail (hh : q.jobs.head? = some (n, a)) : q.tail.Gone n := by
  refine ⟨q.bound _ (List.mem_of_mem_head? hh), fun hq => ?_⟩
  obtain ⟨j, hj, hn⟩ := List.mem_map.1 hq
  have := head_lt_of_tail hh j hj
  omega

end Fifo
end Base
