import TinoHelm.Base.Json
import TinoHelm.Base.Machine
import Mathlib.Logic.Function.Basic

/-! `sandbox_recovery.py` and the hooks of `bridge_actor.py` that call it: a sandbox pod
saves the totals of its accounts when it stops and replays them when it starts. -/

namespace TinoHelm
open Base

/-- A trader id that is one segment of a Redis key. -/
abbrev Identifier := { s : String // ':' ∉ s.toList }

/-- NT's fixed-point amounts, in the smallest unit of the currency. -/
structure Money (γ : Type) where
  raw : ℤ
  currency : γ
deriving DecidableEq, Repr

/-- NT refuses balances whose parts differ in currency or do not add up. -/
structure AccountBalance (γ : Type) where
  total : Money γ
  locked : Money γ
  free : Money γ
  locked_currency : locked.currency = total.currency
  free_currency : free.currency = total.currency
  adds_up : total.raw - locked.raw = free.raw

/-- An account with `balances()`, one for each currency. -/
structure Account (γ : Type) where
  balances : Dict γ (AccountBalance γ)
  keyed : ∀ e ∈ balances.entries, e.2.total.currency = e.1

/-- Totals by their own currency. -/
structure Totals (γ : Type) where
  amounts : Dict γ (Money γ)
  keyed : ∀ e ∈ amounts.entries, e.2.currency = e.1

structure Order where
  instrumentId : String
  accountId : String
  isEmulated : Bool
deriving DecidableEq, Repr

structure Exchange where
  id : String
  matchingEngines : List String
deriving DecidableEq

/-- A registered execution client; only a sandbox client has an exchange. -/
structure ExecClient where
  id : String
  exchange : Option Exchange
deriving DecidableEq

structure Cache (γ : Type) where
  accountForVenue : String → Option (Account γ)
  ordersOpen : String → List Order

/-- `_sandbox_clients` on the registered clients of `trader._exec_engine`. -/
def sandboxClients (execEngine : Option (List ExecClient)) : List (ExecClient × Exchange) :=
  (execEngine.getD []).filterMap fun client => client.exchange.map fun exchange => (client, exchange)

structure Trader (γ : Type) where
  execEngine : Option (List ExecClient)
  cache : Cache γ

def Trader.venues {γ : Type} (trader : Trader γ) : List String :=
  (sandboxClients trader.execEngine).map fun p => p.2.id

/-- The text forms of NT's currencies and amounts. `fromStr` is `none` where
`Money.from_str` raises. -/
structure MoneyText (γ : Type) where
  code : γ → String
  str : Money γ → String
  fromStr : String → Option (Money γ)

/-- What NT documents of them. -/
structure MoneyText.Lawful {γ : Type} (nt : MoneyText γ) : Prop where
  fromStr_str : ∀ m, nt.fromStr (nt.str m) = some m
  code_injective : Function.Injective nt.code

abbrev Redis := String → Option ByteArray

def Redis.set (redis : Redis) (key value : String) : Redis :=
  Function.update redis key (some value.toByteArray)

def defaultBalanceKeyPrefix : String := "tinohelm:sandbox:balance"

def balanceKey (keyPrefix traderId venue : String) : String :=
  keyPrefix ++ ":" ++ traderId ++ ":" ++ venue

section
variable {γ : Type}

/-- One balance for each currency, nothing of it locked. -/
def buildAccountBalances (target : Totals γ) : List (AccountBalance γ) :=
  target.amounts.entries.attach.map fun e =>
    { total := e.1.2
      locked := ⟨0, e.1.1⟩
      free := e.1.2
      locked_currency := (target.keyed e.1 e.2).symm
      free_currency := rfl
      adds_up := sub_zero _ }

def snapshotAccountTotals : Option (Account γ) → Totals γ
  | none => ⟨.empty, by simp⟩
  | some account =>
    { amounts := account.balances.mapValues AccountBalance.total
      keyed := by
        intro e he
        obtain ⟨b, hb, rfl⟩ := List.mem_map.1 he
        exact account.keyed b hb }

def openOrdersToRehydrate (openOrders : List Order) : List Order :=
  openOrders.filter fun order => !order.isEmulated

variable [DecidableEq γ] (nt : MoneyText γ)

/-- `{currency.code: str(money)}`. -/
def serializeBalances (totals : Totals γ) : Dict String String :=
  .ofList (totals.amounts.entries.map fun e => (nt.code e.1, nt.str e.2))

def restoreMoney : Value → Option (Money γ)
  | .str s => nt.fromStr s
  | _ => none

/-- The totals behind a decoded snapshot, none at all if one value is not an amount. -/
def deserializeBalances (raw : Option (List (Value × Value))) : Totals γ :=
  match (raw.getD []).mapM fun kv => restoreMoney nt kv.2 with
  | none => ⟨.empty, by simp⟩
  | some monies =>
    { amounts := .ofList (monies.map fun m => (m.currency, m))
      keyed := by
        intro e he
        obtain ⟨m, -, rfl⟩ := List.mem_map.1 (Dict.mem_of_mem_ofList he)
        rfl }

/-- `_redis_get_json`. Bytes that are not UTF-8 are decoded outside its `try`, and the
`RecursionError` of a JSON text too deep for the interpreter is none of those it catches. -/
def redisGetJson (jsonDepth : ℕ) (redis : Redis) (key : String) :
    Except PyError (Option (List (Value × Value))) :=
  match redis key with
  | none => .ok none
  | some bytes => do
    let value ← decodeUtf8 bytes
    match ← Json.loadsWithin jsonDepth value with
    | some (.dict decoded) => .ok (some decoded)
    | _ => .ok none

inductive NtCall (γ : Type) where
  | generateAccountState (client : ExecClient) (balances : List (AccountBalance γ))
      (margins : List (Money γ)) (reported : Bool) (tsEvent : ℕ)
  | processOrder (exchange : Exchange) (order : Order) (accountId : String)

/-- The open orders of a venue go to the matching engines of their instruments. -/
def rehydrateOrders (cache : Cache γ) (exchange : Exchange) : List (NtCall γ) :=
  (openOrdersToRehydrate (cache.ordersOpen exchange.id)).filterMap fun order =>
    if order.instrumentId ∈ exchange.matchingEngines then
      some (.processOrder exchange order order.accountId)
    else none

/-- The replay of one client. `clock` is the time read at the client's turn. -/
def replayBalances (clock : ExecClient → ℕ) (client : ExecClient) (target : Totals γ) :
    List (NtCall γ) :=
  if target.amounts.entries = [] then []
  else [.generateAccountState client (buildAccountBalances target) [] true (clock client)]

/-- The loop of `recover_on_start`: the calls made, and the exception that ended it. -/
def recoverClients (jsonDepth : ℕ) (cache : Cache γ) (clock : ExecClient → ℕ) (redis : Redis)
    (keyPrefix traderId : String) :
    List (ExecClient × Exchange) → List (NtCall γ) × Option PyError
  | [] => ([], none)
  | (client, exchange) :: pairs =>
    match redisGetJson jsonDepth redis (balanceKey keyPrefix traderId exchange.id) with
    | .error e => ([], some e)
    | .ok raw =>
      let rest := recoverClients jsonDepth cache clock redis keyPrefix traderId pairs
      (replayBalances clock client (deserializeBalances nt raw) ++
        rehydrateOrders cache exchange ++ rest.1, rest.2)

def recoverOnStart (jsonDepth : ℕ) (trader : Trader γ) (clock : ExecClient → ℕ) (redis : Redis)
    (keyPrefix traderId : String) : List (NtCall γ) × Option PyError :=
  recoverClients nt jsonDepth trader.cache clock redis keyPrefix traderId
    (sandboxClients trader.execEngine)

/-- The body of the loop of `snapshot_on_stop`. -/
def snapshotClient (cache : Cache γ) (keyPrefix traderId : String) (redis : Redis)
    (pair : ExecClient × Exchange) : Redis :=
  let totals := snapshotAccountTotals (cache.accountForVenue pair.2.id)
  if totals.amounts.entries = [] then redis
  else
    redis.set (balanceKey keyPrefix traderId pair.2.id)
      (Json.dumps (serializeBalances nt totals).entries)

def snapshotOnStop (trader : Trader γ) (redis : Redis) (keyPrefix traderId : String) : Redis :=
  (sandboxClients trader.execEngine).foldl (snapshotClient nt trader.cache keyPrefix traderId) redis

/-- A pod as its `BridgeActor` sees it at a start or a stop. Its venues are distinct, and
its interpreter has room for `jsonDepth` nested containers. -/
structure Pod (γ : Type) where
  mode : String
  sandboxPersist : Bool
  traderId : Identifier
  trader : Trader γ
  venues_nodup : trader.venues.Nodup
  jsonDepth : ℕ
  jsonDepth_pos : 0 < jsonDepth

def Pod.recoveryEnabled (pod : Pod γ) : Bool := pod.mode = "sandbox" && pod.sandboxPersist

def Pod.onStart (pod : Pod γ) (clock : ExecClient → ℕ) (redis : Redis) :
    List (NtCall γ) × Option PyError :=
  if pod.recoveryEnabled then
    recoverOnStart nt pod.jsonDepth pod.trader clock redis defaultBalanceKeyPrefix
      pod.traderId.1
  else ([], none)

def Pod.onStop (pod : Pod γ) (redis : Redis) : Redis :=
  if pod.recoveryEnabled then
    snapshotOnStop nt pod.trader redis defaultBalanceKeyPrefix pod.traderId.1
  else redis

inductive PodEvent (γ : Type) where
  | start (pod : Pod γ)
  | stop (pod : Pod γ)

def PodEvent.pod : PodEvent γ → Pod γ
  | start pod | stop pod => pod

/-- A start only reads the balance keys. -/
def stepRedis (redis : Redis) : PodEvent γ → Redis
  | .start _ => redis
  | .stop pod => pod.onStop nt redis

/-- From a Redis without balance keys. -/
def redisAfter (history : List (PodEvent γ)) : Redis := run (stepRedis nt) (fun _ => none) history

end

/-! The text forms NT has for crypto currencies, whose code is any name and whose amounts
have eight decimals. -/

def amountDigits (n : ℕ) : List Char :=
  List.replicate (9 - (Nat.toDigits 10 n).length) '0' ++ Nat.toDigits 10 n

def amountText (raw : ℤ) : List Char :=
  let ds := amountDigits raw.natAbs
  (if raw < 0 then ['-'] else []) ++ (ds.take (ds.length - 8) ++ '.' :: ds.drop (ds.length - 8))

def readAmount (cs : List Char) : ℤ :=
  let n : ℤ := Nat.ofDigitChars 10 (cs.filter Char.isDigit) 0
  if '-' ∈ cs then -n else n

def cryptoText : MoneyText String where
  code c := c
  str m := String.ofList (amountText m.raw ++ ' ' :: m.currency.toList)
  fromStr s :=
    match s.toList.dropWhile (fun c => c ≠ ' ') with
    | _ :: code =>
      some ⟨readAmount (s.toList.takeWhile fun c => c ≠ ' '), String.ofList code⟩
    | [] => none

theorem isDigit_amountDigits {n : ℕ} {c : Char} (h : c ∈ amountDigits n) : c.isDigit = true := by
  rcases List.mem_append.1 h with h | h
  · rw [List.eq_of_mem_replicate h]
    rfl
  · exact Nat.isDigit_of_mem_toDigits (by decide) (by decide) h

theorem mem_amountText {raw : ℤ} {c : Char} (h : c ∈ amountText raw) :
    (raw < 0 ∧ c = '-') ∨ c = '.' ∨ c.isDigit = true := by
  simp only [amountText, List.mem_append, List.mem_cons] at h
  rcases h with h | h | h | h
  · split_ifs at h with hr
    · exact Or.inl ⟨hr, List.mem_singleton.1 h⟩
    · cases h
  · exact Or.inr (Or.inr (isDigit_amountDigits (List.mem_of_mem_take h)))
  · exact Or.inr (Or.inl h)
  · exact Or.inr (Or.inr (isDigit_amountDigits (List.mem_of_mem_drop h)))

theorem filter_isDigit_amountText (raw : ℤ) :
    (amountText raw).filter Char.isDigit = amountDigits raw.natAbs := by
  have hsign : (if raw < 0 then ['-'] else []).filter Char.isDigit = [] := by
    split_ifs <;> rfl
  have hdot (l : List Char) : ('.' :: l).filter Char.isDigit = l.filter Char.isDigit := rfl
  rw [amountText, List.filter_append, hsign, List.nil_append, List.filter_append, hdot,
    ← List.filter_append, List.take_append_drop]
  exact List.filter_eq_self.2 fun c => isDigit_amountDigits

theorem readAmount_amountText (raw : ℤ) : readAmount (amountText raw) = raw := by
  have hn : Nat.ofDigitChars 10 (amountDigits raw.natAbs) 0 = raw.natAbs := by
    simp [amountDigits, Nat.ofDigitChars_append]
  rw [readAmount, filter_isDigit_amountText, hn]
  by_cases h : raw < 0
  · rw [if_pos (by simp [amountText, h])]
    omega
  · rw [if_neg]
    · omega
    · intro hm
      rcases mem_amountText hm with hc | hc | hc
      · exact h hc.1
      · exact absurd hc (by decide)
      · exact absurd hc (by decide)

example : amountText (-50000000) = "-0.50000000".toList := by decide

theorem cryptoText_lawful : cryptoText.Lawful where
  fromStr_str m := by
    have hspace : ∀ c ∈ amountText m.raw, decide (c ≠ ' ') = true := by
      intro c hc
      rcases mem_amountText hc with ⟨-, rfl⟩ | rfl | hd
      · rfl
      · rfl
      · exact decide_eq_true (by rintro rfl; exact absurd hd (by decide))
    simp only [cryptoText, String.toList_ofList]
    rw [List.dropWhile_append_of_pos hspace, List.takeWhile_append_of_pos hspace]
    simp [readAmount_amountText]
  code_injective := Function.injective_id

end TinoHelm
