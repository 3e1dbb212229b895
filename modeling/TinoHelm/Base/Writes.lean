import TinoHelm.Base.Dict

/-! Two kinds of writers on one map: those that assign, and those that only fill a
missing key. Whatever the interleaving, the last assignment wins over every fill, and
the first fill over the later ones. -/

namespace Base

inductive Write (κ ν : Type*) where
  | put (k : κ) (v : ν)
  | fill (k : κ) (v : ν)

variable {κ ν : Type*} [DecidableEq κ]

def Write.apply (d : Dict κ ν) : Write κ ν → Dict κ ν
  | put k v => d.set k v
  | fill k v => d.setdefault k v

def writeAll (d : Dict κ ν) (ws : List (Write κ ν)) : Dict κ ν := ws.foldl Write.apply d

def lastPut (k : κ) : List (Write κ ν) → Option ν
  | [] => none
  | .put j v :: ws => (lastPut k ws).or (if j = k then some v else none)
  | .fill _ _ :: ws => lastPut k ws

/-- What the first fill of `k` wants to write. -/
def firstFill (k : κ) : List (Write κ ν) → Option ν
  | [] => none
  | .put _ _ :: ws => firstFill k ws
  | .fill j v :: ws => if j = k then some v else firstFill k ws

theorem get?_writeAll (d : Dict κ ν) (ws : List (Write κ ν)) (k : κ) :
    (writeAll d ws).get? k = (lastPut k ws).or ((d.get? k).or (firstFill k ws)) := by
  induction ws generalizing d with
  | nil => simp [writeAll, lastPut, firstFill]
  | cons w ws ih =>
    change (writeAll (w.apply d) ws).get? k = _
    rw [ih]
    cases w with
    | put j v =>
      simp only [Write.apply, lastPut, firstFill, Dict.get?_set]
      by_cases hj : j = k
      · simp [hj]
      · simp [hj, Ne.symm hj]
    | fill j v =>
      simp only [Write.apply, lastPut, firstFill, Dict.get?_setdefault]
      by_cases hj : j = k
      · subst hj
        cases hd : d.get? j <;> simp
      · simp [hj, Ne.symm hj]

end Base
