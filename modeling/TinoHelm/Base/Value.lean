import TinoHelm.Base.PyFloat

/-! What a msgpack or JSON decoder can return, with the operations the program
performs on such values: dictionary lookup, truth, hashing, `float()`. -/

namespace Base

inductive PyError where
  | typeError
  | valueError
  | overflowError
  | unicodeDecodeError
  | recursionError
  | attributeError
  | indexError
  | keyError
  | csvError
deriving DecidableEq, Repr

inductive Value where
  | none
  | bool (b : Bool)
  | int (n : ℤ)
  | float (x : PyFloat)
  | str (s : String)
  | bytes (b : ByteArray)
  | datetime (us : ℤ)
  | list (xs : List Value)
  | dict (kvs : List (Value × Value))

@[simp] theorem ok_bind {ε α β : Type} (a : α) (f : α → Except ε β) :
    (Except.ok a >>= f) = f a := rfl

@[simp] theorem error_bind {ε α β : Type} (e : ε) (f : α → Except ε β) :
    (Except.error e >>= f) = .error e := rfl

@[simp] theorem pure_eq_ok {ε α : Type} (a : α) : (pure a : Except ε α) = .ok a := rfl

/-- A computation succeeds through both of its steps. -/
theorem bind_eq_ok {ε α β : Type} {x : Except ε α} {f : α → Except ε β} {b : β} :
    (x >>= f) = .ok b ↔ ∃ a, x = .ok a ∧ f a = .ok b := by
  cases x <;> simp

theorem map_eq_ok {ε α β : Type} {x : Except ε α} {f : α → β} {b : β} :
    x.map f = .ok b ↔ ∃ a, x = .ok a ∧ f a = b := by
  cases x <;> simp [Except.map]

theorem map_bind_eq {ε α β γ : Type} (x : Except ε α) (f : α → Except ε β) (g : β → γ) :
    (x >>= f).map g = x >>= fun a => (f a).map g := by
  cases x <;> rfl

theorem toOption_eq_some {ε α : Type} {x : Except ε α} {a : α} :
    x.toOption = some a ↔ x = .ok a := by
  cases x <;> simp [Except.toOption]

/-- A result gets past a check that lets it through. -/
theorem gate_eq_ok {ε α : Type} {x : Except ε Bool} {rest : Except ε (Option α)} {a : α} :
    (x >>= fun b => if !b then .ok Option.none else rest) = .ok (some a) ↔
      x = .ok true ∧ rest = .ok (some a) := by
  rw [bind_eq_ok]
  constructor
  · rintro ⟨b, hx, h⟩
    cases b with
    | false => simp at h
    | true => exact ⟨hx, h⟩
  · rintro ⟨hx, h⟩
    exact ⟨true, hx, h⟩

/-- The computation does not raise. -/
def Returns {ε α : Type} (x : Except ε α) : Prop := ∃ a, x = .ok a

@[simp] theorem returns_ok {ε α : Type} (a : α) : Returns (.ok a : Except ε α) := ⟨a, rfl⟩

@[simp] theorem not_returns_error {ε α : Type} (e : ε) : ¬Returns (.error e : Except ε α) := by
  rintro ⟨a, ha⟩
  cases ha

@[simp] theorem returns_map {ε α β : Type} (x : Except ε α) (f : α → β) :
    Returns (x.map f) ↔ Returns x := by
  cases x <;> simp [Except.map]

theorem returns_bind {ε α β : Type} (x : Except ε α) (f : α → Except ε β) :
    Returns (x >>= f) ↔ ∃ a, x = .ok a ∧ Returns (f a) := by
  cases x <;> simp

/-- Two steps of which the second raises whatever the first one returned, or never. -/
theorem returns_bind_iff {ε α β : Type} (x : Except ε α) {f : α → Except ε β} {P : Prop}
    (h : ∀ a, Returns (f a) ↔ P) : Returns (x >>= f) ↔ Returns x ∧ P := by
  rw [returns_bind]
  simp only [h, exists_and_right]
  exact Iff.rfl

theorem returns_bind_of {ε α β : Type} (x : Except ε α) {f : α → Except ε β}
    (h : ∀ a, Returns (f a)) : Returns (x >>= f) ↔ Returns x := by
  rw [returns_bind]
  exact exists_congr fun a => and_iff_left (h a)

theorem returns_mapM {ε α β : Type} {f : α → Except ε β} {l : List α} :
    Returns (l.mapM f) ↔ ∀ a ∈ l, Returns (f a) := by
  induction l with
  | nil => simp [List.mapM_nil]
  | cons a l ih =>
    have hrest (b : β) : Returns (l.mapM f >>= fun bs => (pure (b :: bs) : Except ε (List β))) ↔
        ∀ a ∈ l, Returns (f a) := by
      rw [returns_bind_of _ fun bs => by rw [pure_eq_ok]; exact returns_ok _, ih]
    rw [List.mapM_cons, returns_bind, List.forall_mem_cons]
    simp only [hrest]
    exact exists_and_right

theorem mapM_eq_ok {ε α β : Type} {f : α → Except ε β} {g : α → β} {l : List α}
    (h : ∀ a ∈ l, f a = .ok (g a)) : l.mapM f = .ok (l.map g) := by
  induction l with
  | nil => rfl
  | cons a l ih =>
    rw [List.mapM_cons, h a List.mem_cons_self, ih fun b hb => h b (List.mem_cons_of_mem a hb)]
    rfl

theorem mapM_eq_some_iff {α β : Type} {f : α → Option β} {l : List α} {r : List β} :
    l.mapM f = some r ↔ List.Forall₂ (fun a b => f a = some b) l r := by
  induction l generalizing r with
  | nil =>
    rw [List.mapM_nil, List.forall₂_nil_left_iff]
    exact ⟨fun h => (Option.some.inj h).symm, fun h => h ▸ rfl⟩
  | cons a l ih =>
    simp only [List.mapM_cons, List.forall₂_cons_left_iff, Option.bind_eq_bind,
      Option.bind_eq_some_iff, Option.pure_def, Option.some.injEq, ih]
    constructor
    · rintro ⟨b, hb, r', hr, he⟩
      exact ⟨b, r', hb, hr, he.symm⟩
    · rintro ⟨b, r', hb, hr, he⟩
      exact ⟨b, hb, r', hr, he.symm⟩

theorem mapM_eq_ok_iff {ε α β : Type} {f : α → Except ε β} {l : List α} {r : List β} :
    l.mapM f = .ok r ↔ List.Forall₂ (fun a b => f a = .ok b) l r := by
  induction l generalizing r with
  | nil =>
    rw [List.mapM_nil, pure_eq_ok, List.forall₂_nil_left_iff]
    exact ⟨fun h => (Except.ok.inj h).symm, fun h => h ▸ rfl⟩
  | cons a l ih =>
    simp only [List.mapM_cons, List.forall₂_cons_left_iff, bind_eq_ok, pure_eq_ok, Except.ok.injEq, ih]
    constructor
    · rintro ⟨b, hb, r', hr, he⟩
      exact ⟨b, r', hb, hr, he.symm⟩
    · rintro ⟨b, r', hb, hr, he⟩
      exact ⟨b, hb, r', hr, he.symm⟩

theorem exists_of_forall₂ {α β : Type} {R : α → β → Prop} {l : List α} {r : List β}
    (h : List.Forall₂ R l r) {b : β} (hb : b ∈ r) : ∃ a ∈ l, R a b := by
  induction h with
  | nil => cases hb
  | @cons a c l r hac _ ih =>
    rcases List.mem_cons.1 hb with rfl | hb
    · exact ⟨a, List.mem_cons_self, hac⟩
    · obtain ⟨a', ha', hab⟩ := ih hb
      exact ⟨a', List.mem_cons_of_mem _ ha', hab⟩

theorem exists_of_mem_mapM {ε α β : Type} {f : α → Except ε β} {l : List α} {r : List β}
    (h : l.mapM f = .ok r) {b : β} (hb : b ∈ r) : ∃ a ∈ l, f a = .ok b :=
  exists_of_forall₂ (mapM_eq_ok_iff.1 h) hb

/-- Lists of items that are computed alike in pairs are computed alike. -/
theorem mapM_congr_forall₂ {ε α α' β : Type} {f : α → Except ε β} {g : α' → Except ε β} {l : List α}
    {l' : List α'} (h : List.Forall₂ (fun a a' => f a = g a') l l') : l.mapM f = l'.mapM g := by
  induction h with
  | nil => rfl
  | cons ha _ ih => rw [List.mapM_cons, List.mapM_cons, ha, ih]

theorem mapError_eq_ok {ε ε' α : Type} {x : Except ε α} {f : ε → ε'} {a : α} :
    x.mapError f = .ok a ↔ x = .ok a := by
  cases x <;> simp [Except.mapError]

/-- What a hashable value is as a dictionary key. Equal numbers are one key
whatever their type; so are all NaNs, since object identity is not modelled. -/
inductive HashKey where
  | none
  | num (x : PyFloat)
  | str (s : String)
  | bytes (b : List UInt8)
  | datetime (us : ℤ)
deriving DecidableEq

/-- The bytes of a Redis value or field, decoded as strict UTF-8. -/
def decodeUtf8 (b : ByteArray) : Except PyError String :=
  match String.fromUTF8? b with
  | some s => .ok s
  | none => .error .unicodeDecodeError

theorem decodeUtf8_ok_iff (b : ByteArray) (s : String) :
    decodeUtf8 b = .ok s ↔ String.fromUTF8? b = some s := by
  unfold decodeUtf8
  cases String.fromUTF8? b <;> simp

@[simp] theorem decodeUtf8_toByteArray (s : String) : decodeUtf8 s.toByteArray = .ok s := by
  simp [decodeUtf8, String.fromUTF8?, s.isValidUTF8, String.fromUTF8]

namespace Value

def isStr : Value → String → Bool
  | str s, t => s = t
  | _, _ => false

def isDict : Value → Bool
  | dict _ => true
  | _ => false

def isNone : Value → Bool
  | none => true
  | _ => false

/-- The value of a string key, if the receiver is a dictionary that has it. -/
def lookup? : Value → String → Option Value
  | dict kvs, field => (kvs.find? fun kv => kv.1.isStr field).map Prod.snd
  | _, _ => Option.none

/-- `d.get(field)`: the value of a string key, `None` when it is absent or when
the receiver is no dictionary. -/
def get (v : Value) (field : String) : Value := (v.lookup? field).getD none

/-- `d.get(field, default)` of a dictionary. -/
def getOr (v : Value) (field : String) (default : Value) : Value := (v.lookup? field).getD default

def truthy : Value → Bool
  | none => false
  | bool b => b
  | int n => n ≠ 0
  | float x => !x.isZero
  | str s => s ≠ ""
  | bytes b => b.size ≠ 0
  | datetime _ => true
  | list xs => !xs.isEmpty
  | dict kvs => !kvs.isEmpty

def hash : Value → Except PyError HashKey
  | none => .ok .none
  | bool b => .ok (.num (.fin (if b then 1 else 0)))
  | int n => .ok (.num (.fin n))
  | float x => .ok (.num x.unsigned)
  | str s => .ok (.str s)
  | bytes b => .ok (.bytes b.toList)
  | datetime us => .ok (.datetime us)
  | list _ | dict _ => .error .typeError

/-- `x in names` for a `frozenset` of strings. -/
def inNames (x : Value) (names : List String) : Except PyError Bool :=
  match x with
  | str s => .ok (names.contains s)
  | x => x.hash.map fun _ => false

/-- `float(x)`, with `TypeError` and `ValueError` caught as `None`. An integer
beyond the range of a double raises `OverflowError`, which is not caught. -/
def toFloat [FloatArith] : Value → Except PyError (Option PyFloat)
  | none | datetime _ | list _ | dict _ => .ok Option.none
  | bool b => .ok (some (.fin (if b then 1 else 0)))
  | int n =>
    if PyFloat.overflowBound ≤ |(n : ℚ)| then .error .overflowError
    else .ok (some (FloatArith.round n))
  | float x => .ok (some x.norm)
  | str s => .ok (PyFloat.ofString? s)
  | bytes b => .ok ((String.fromUTF8? b).bind fun s => PyFloat.ofAscii? s.toList)

/-- A number as a key is one whatever its type. -/
def number? : Value → Option PyFloat
  | bool b => some (.fin (if b then 1 else 0))
  | int n => some (.fin n)
  | float x => some x.unsigned
  | _ => Option.none

mutual

/-- `x == y` -/
def eq : Value → Value → Bool
  | none, none => true
  | str s, str t => s = t
  | bytes a, bytes b => a = b
  | datetime a, datetime b => a = b
  | list xs, list ys => eqList xs ys
  | dict a, dict b => a.length = b.length && eqDict a b
  | x, y =>
    match x.number?, y.number? with
    | some a, some b => a ≠ .nan && a = b
    | _, _ => false

def eqList : List Value → List Value → Bool
  | [], [] => true
  | x :: xs, y :: ys => x.eq y && eqList xs ys
  | _, _ => false

/-- Every member has its match. -/
def eqDict : List (Value × Value) → List (Value × Value) → Bool
  | [], _ => true
  | (k, v) :: kvs, b =>
    (match b.find? fun kv => k.hash = kv.1.hash with
      | some kv => v.eq kv.2
      | Option.none => false) && eqDict kvs b

end

/-- `json.dumps(x)` takes the value: no bytes and no timestamps, keys of plain types, and at
most `depth` containers in each other. -/
def dumpable : ℕ → Value → Bool
  | _, none | _, bool _ | _, int _ | _, float _ | _, str _ => true
  | _, bytes _ | _, datetime _ => false
  | 0, list _ | 0, dict _ => false
  | depth + 1, list xs => xs.all (dumpable depth)
  | depth + 1, dict kvs => kvs.all fun kv =>
    (match kv.1 with
      | none | bool _ | int _ | float _ | str _ => true
      | bytes _ | datetime _ | list _ | dict _ => false) && dumpable depth kv.2

/-- `list(x)` -/
def toList : Value → Except PyError (List Value)
  | list xs => .ok xs
  | dict kvs => .ok (kvs.map Prod.fst)
  | str s => .ok (s.toList.map fun c => .str (String.singleton c))
  | bytes b => .ok (b.toList.map fun x => .int x.toNat)
  | _ => .error .typeError

@[simp] theorem get_none (field : String) : none.get field = none := rfl

@[simp] theorem isStr_str (s t : String) : (str s).isStr t = decide (s = t) := rfl

theorem isStr_iff (x : Value) (t : String) : x.isStr t = true ↔ x = str t := by
  cases x <;> simp [isStr]

@[simp] theorem hash_str (s : String) : (str s).hash = .ok (.str s) := rfl

theorem hash_eq_str (x : Value) (s : String) : x.hash = .ok (.str s) ↔ x = str s := by
  cases x <;> simp [hash]

@[simp] theorem inNames_str (s : String) (names : List String) :
    (str s).inNames names = .ok (names.contains s) := rfl

@[simp] theorem truthy_str (s : String) : (str s).truthy = decide (s ≠ "") := by
  simp [truthy]

end Value
end Base
