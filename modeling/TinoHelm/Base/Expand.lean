import Mathlib.Data.List.TakeWhile

/-! `posixpath.expandvars`: every `$` with a name behind it, bare or in braces, is replaced
from left to right by what an environment has under the name. What was put in is not
scanned again, and a name without a value stays as it is written. -/

namespace Base

/-- `\w` of an ASCII pattern. -/
def isWordChar (c : Char) : Bool := c.isAlphanum || c = '_'

/-- The name of the variable that a text behind a `$` begins with, and how many of its
characters that takes. -/
def reference? : List Char → Option (List Char × ℕ)
  | '\x7b' :: s =>
    let name := s.takeWhile (· ≠ '\x7d')
    if '\x7d' ∈ s then some (name, name.length + 2) else none
  | s =>
    let name := s.takeWhile isWordChar
    if name = [] then none else some (name, name.length)

/-- `expandvars` behind the first `n` characters. -/
def expandFrom (env : String → Option String) : ℕ → List Char → List Char
  | _, [] => []
  | n + 1, _ :: s => expandFrom env n s
  | 0, c :: s =>
    if c = '$' then
      match reference? s with
      | none => c :: expandFrom env 0 s
      | some (name, n) =>
        ((env (String.ofList name)).map String.toList).getD (c :: s.take n) ++ expandFrom env n s
    else c :: expandFrom env 0 s

def expandVars (env : String → Option String) (s : String) : String :=
  String.ofList (expandFrom env 0 s.toList)

/-- The names that are looked up, in their order. -/
def namesFrom : ℕ → List Char → List String
  | _, [] => []
  | n + 1, _ :: s => namesFrom n s
  | 0, c :: s =>
    if c = '$' then
      match reference? s with
      | none => namesFrom 0 s
      | some (name, n) => String.ofList name :: namesFrom n s
    else namesFrom 0 s

def expandNames (s : String) : List String := namesFrom 0 s.toList

variable {env env' : String → Option String}

theorem expandFrom_congr {s : List Char} {n : ℕ} (h : ∀ name ∈ namesFrom n s, env' name = env name) :
    expandFrom env' n s = expandFrom env n s := by
  induction s generalizing n with
  | nil => cases n <;> rfl
  | cons c s ih =>
    cases n with
    | succ n => exact ih h
    | zero =>
      rw [expandFrom, expandFrom]
      rw [namesFrom] at h
      split_ifs with hc
      · rw [if_pos hc] at h
        cases hr : reference? s with
        | none =>
          rw [hr] at h
          exact congrArg _ (ih h)
        | some r =>
          rw [hr] at h
          dsimp only
          rw [h _ List.mem_cons_self, ih fun name hn => h name (List.mem_cons_of_mem _ hn)]
      · rw [if_neg hc] at h
        exact congrArg _ (ih h)

/-- Nothing of an environment matters but the names that a text refers to. -/
theorem expandVars_congr {s : String} (h : ∀ name ∈ expandNames s, env' name = env name) :
    expandVars env' s = expandVars env s :=
  congrArg String.ofList (expandFrom_congr h)

end Base
