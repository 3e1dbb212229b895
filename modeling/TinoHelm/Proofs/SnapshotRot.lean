import TinoHelm.Proofs.BalanceRecovery

/-! Rotten snapshots: what a start makes of arbitrary bytes under the balance keys. It
recovers every venue as meant exactly when none of them is malformed UTF-8 or nested
too deep for the interpreter. -/

namespace TinoHelm
open Base

section
variable {γ : Type} (nt : MoneyText γ)

/-- The amounts behind the stored bytes, which are a non-empty JSON object of nothing else. -/
def SnapshotOf (stored : Option ByteArray) (monies : List (Money γ)) : Prop :=
  ∃ bytes text members, stored = some bytes ∧ String.fromUTF8? bytes = some text ∧
    Json.loads text = some (.dict members) ∧ members ≠ [] ∧
    List.Forall₂ (fun m money => ∃ s, m.2 = Value.str s ∧ nt.fromStr s = some money) members monies

/-- One balance for each currency, its total the last of the amounts. -/
structure BalancesOf [DecidableEq γ] (monies : List (Money γ))
    (balances : List (AccountBalance γ)) : Prop where
  currencies : (balances.map fun b => b.total.currency).Nodup
  totals : ∀ m, m ∈ balances.map AccountBalance.total ↔
    (monies.reverse.find? fun m' => m'.currency = m.currency) = some m
  unlocked : ∀ b ∈ balances, b.locked = ⟨0, b.total.currency⟩ ∧ b.free = b.total

def openOrderCalls (cache : Cache γ) (exchange : Exchange) : List (NtCall γ) :=
  ((cache.ordersOpen exchange.id).filter fun order =>
    !order.isEmulated && order.instrumentId ∈ exchange.matchingEngines).map fun order =>
      .processOrder exchange order order.accountId

/-- What a start is to do about a client: replay its snapshot, if there is one, and then
the open orders. -/
def ClientRecovered [DecidableEq γ] (cache : Cache γ) (clock : ExecClient → ℕ)
    (stored : Option ByteArray) (pair : ExecClient × Exchange) (calls : List (NtCall γ)) : Prop :=
  ∃ replay, calls = replay ++ openOrderCalls cache pair.2 ∧
    ((∃ monies balances, SnapshotOf nt stored monies ∧ BalancesOf monies balances ∧
        replay = [.generateAccountState pair.1 balances [] true (clock pair.1)]) ∨
      (∀ monies, ¬ SnapshotOf nt stored monies) ∧ replay = [])

structure Recovered [DecidableEq γ] (trader : Trader γ) (clock : ExecClient → ℕ)
    (stored : String → Option ByteArray) (result : List (NtCall γ) × Option PyError) : Prop where
  returns : result.2 = none
  calls : ∃ perClient, result.1 = perClient.flatten ∧
    List.Forall₂ (fun pair => ClientRecovered nt trader.cache clock (stored pair.2.id) pair)
      (sandboxClients trader.execEngine) perClient

/-- Bytes that are UTF-8 and, as JSON, fit on the stack. -/
def Readable (jsonDepth : ℕ) (bytes : ByteArray) : Prop :=
  ∃ text, String.fromUTF8? bytes = some text ∧
    Json.deeperThan jsonDepth (Json.skipSpace text.toList) = false

variable {nt}

theorem redisGetJson_ok_iff (jsonDepth : ℕ) (redis : Redis) (key : String) :
    (∃ raw, redisGetJson jsonDepth redis key = .ok raw) ↔
      ∀ bytes, redis key = some bytes → Readable jsonDepth bytes := by
  unfold redisGetJson
  cases redis key with
  | none => simp
  | some bytes =>
    simp only [Option.some.injEq, forall_eq', Readable, decodeUtf8]
    cases String.fromUTF8? bytes with
    | none => simp [bind, Except.bind]
    | some text =>
      by_cases hdeep : Json.deeperThan jsonDepth (Json.skipSpace text.toList)
      · simp [Json.loadsWithin, hdeep, bind, Except.bind]
      · simp only [Json.loadsWithin, hdeep, ok_bind, Option.some.injEq, exists_eq_left']
        refine iff_of_true ?_ (by simp)
        simp only [Bool.false_eq_true, if_false, ok_bind]
        split <;> exact ⟨_, rfl⟩

theorem redisGetJson_some_iff {jsonDepth : ℕ} {redis : Redis} {key : String}
    {raw : Option (List (Value × Value))} (h : redisGetJson jsonDepth redis key = .ok raw)
    (members : List (Value × Value)) :
    raw = some members ↔ ∃ bytes text, redis key = some bytes ∧
      String.fromUTF8? bytes = some text ∧ Json.loads text = some (.dict members) := by
  unfold redisGetJson at h
  cases hb : redis key with
  | none =>
    rw [hb] at h
    obtain rfl := Except.ok.inj h
    simp
  | some bytes =>
    simp only [hb, decodeUtf8] at h
    cases ht : String.fromUTF8? bytes with
    | none => simp [ht, bind, Except.bind] at h
    | some text =>
      simp only [ht, ok_bind, Json.loadsWithin] at h
      split_ifs at h with hdeep
      · cases h
      · simp only [ok_bind] at h
        have hstored : (∃ b t, some bytes = some b ∧ String.fromUTF8? b = some t ∧
            Json.loads t = some (.dict members)) ↔ Json.loads text = some (.dict members) := by
          simp [ht]
        rw [hstored]
        split at h
        · rename_i decoded hl
          obtain rfl := Except.ok.inj h
          simp [hl]
        · rename_i hl
          obtain rfl := Except.ok.inj h
          simpa using hl members

theorem restoreMoney_eq_some {v : Value} {money : Money γ} :
    restoreMoney nt v = some money ↔ ∃ s, v = .str s ∧ nt.fromStr s = some money := by
  cases v <;> simp [restoreMoney]

theorem mapM_restoreMoney_eq_some (members : List (Value × Value)) (monies : List (Money γ)) :
    (members.mapM fun kv => restoreMoney nt kv.2) = some monies ↔
      List.Forall₂ (fun m money => ∃ s, m.2 = Value.str s ∧ nt.fromStr s = some money)
        members monies := by
  simp only [mapM_eq_some_iff, restoreMoney_eq_some]

theorem rehydrateOrders_eq (cache : Cache γ) (exchange : Exchange) :
    rehydrateOrders cache exchange = openOrderCalls cache exchange := by
  unfold rehydrateOrders openOrderCalls openOrdersToRehydrate
  induction cache.ordersOpen exchange.id with
  | nil => rfl
  | cons order orders ih =>
    by_cases he : order.isEmulated
    · simpa [he] using ih
    · by_cases hm : order.instrumentId ∈ exchange.matchingEngines
      · simpa [he, hm] using ih
      · simpa [he, hm] using ih

section
variable [DecidableEq γ]

theorem lookup_map_currency (monies : List (Money γ)) (currency : γ) :
    (monies.map fun m => (m.currency, m)).lookup currency =
      monies.find? fun m => m.currency = currency := by
  induction monies with
  | nil => rfl
  | cons m monies ih =>
    by_cases h : m.currency = currency
    · subst h
      simp
    · rw [List.map_cons, List.lookup_cons, beq_eq_false_iff_ne.2 (Ne.symm h), ih]
      simp [h]

theorem balancesOf_build {monies : List (Money γ)} {target : Totals γ}
    (h : target.amounts = .ofList (monies.map fun m => (m.currency, m))) :
    BalancesOf monies (buildAccountBalances target) := by
  have htotals : (buildAccountBalances target).map AccountBalance.total =
      target.amounts.entries.map Prod.snd := by
    rw [buildAccountBalances, List.map_map]
    exact List.attach_map_val (f := Prod.snd)
  have hcurrencies : target.amounts.entries.map (fun e => e.2.currency) = target.amounts.keys :=
    List.map_congr_left fun e he => target.keyed e he
  refine ⟨?_, fun m => ?_, fun b hb => ?_⟩
  · have hsplit : (buildAccountBalances target).map (fun b => b.total.currency) =
        ((buildAccountBalances target).map AccountBalance.total).map Money.currency := by
      rw [List.map_map]
      rfl
    rw [hsplit, htotals, List.map_map]
    exact hcurrencies ▸ target.amounts.keys_nodup
  · rw [htotals, ← lookup_map_currency, List.map_reverse, ← Dict.get?_ofList, ← h,
      Dict.get?_eq_some_iff, List.mem_map]
    refine ⟨fun hm => ?_, fun hm => ⟨_, hm, rfl⟩⟩
    obtain ⟨e, he, rfl⟩ := hm
    rw [target.keyed e he]
    exact he
  · obtain ⟨e, -, rfl⟩ := List.mem_map.1 hb
    exact ⟨congrArg (Money.mk 0) (target.keyed e.1 e.2).symm, rfl⟩

theorem clientRecovered {jsonDepth : ℕ} {redis : Redis} {key : String}
    {raw : Option (List (Value × Value))} (h : redisGetJson jsonDepth redis key = .ok raw)
    (cache : Cache γ) (clock : ExecClient → ℕ) (pair : ExecClient × Exchange) :
    ClientRecovered nt cache clock (redis key) pair
      (replayBalances clock pair.1 (deserializeBalances nt raw) ++ rehydrateOrders cache pair.2) := by
  have hraw := redisGetJson_some_iff h
  refine ⟨_, by rw [rehydrateOrders_eq], ?_⟩
  unfold deserializeBalances
  split
  · -- one of the values is no amount
    rename_i hm
    refine Or.inr ⟨fun monies hs => ?_, by simp [replayBalances]⟩
    obtain ⟨bytes, text, members, hb, ht, hl, -, hf⟩ := hs
    rw [(hraw members).2 ⟨bytes, text, hb, ht, hl⟩, Option.getD_some,
      (mapM_restoreMoney_eq_some members monies).2 hf] at hm
    cases hm
  · rename_i monies hm
    rw [mapM_restoreMoney_eq_some] at hm
    cases monies with
    | nil =>
      rw [List.forall₂_nil_right_iff] at hm
      refine Or.inr ⟨fun monies hs => ?_, by simp [replayBalances, Dict.ofList]⟩
      obtain ⟨bytes, text, members, hb, ht, hl, hne, -⟩ := hs
      rw [(hraw members).2 ⟨bytes, text, hb, ht, hl⟩] at hm
      exact hne hm
    | cons money monies =>
      obtain ⟨members, rfl⟩ : ∃ members, raw = some members := by
        cases raw with
        | none => cases hm
        | some members => exact ⟨members, rfl⟩
      obtain ⟨bytes, text, hb, ht, hl⟩ := (hraw members).1 rfl
      refine Or.inl ⟨money :: monies, _, ⟨bytes, text, members, hb, ht, hl, ?_, hm⟩, ?_,
        if_neg ?_⟩
      · rintro rfl
        cases hm
      · exact balancesOf_build rfl
      · -- the last amount is the last of its currency
        have hlast : ((Dict.ofList ((money :: monies).map fun m => (m.currency, m))).get?
            money.currency).isSome := by
          rw [Dict.get?_ofList, ← List.map_reverse, lookup_map_currency, List.find?_isSome]
          exact ⟨money, by simp, by simp⟩
        intro hnil
        rw [Dict.get?, hnil] at hlast
        cases hlast

theorem recoverClients_returns (jsonDepth : ℕ) (cache : Cache γ) (clock : ExecClient → ℕ)
    (redis : Redis) (keyPrefix traderId : String)
    (pairs : List (ExecClient × Exchange)) :
    (recoverClients nt jsonDepth cache clock redis keyPrefix traderId pairs).2 = none ↔
      ∀ pair ∈ pairs, ∃ raw,
        redisGetJson jsonDepth redis (balanceKey keyPrefix traderId pair.2.id) = .ok raw := by
  induction pairs with
  | nil => simp [recoverClients]
  | cons pair pairs ih =>
    obtain ⟨client, exchange⟩ := pair
    rw [recoverClients, List.forall_mem_cons, ← ih]
    cases redisGetJson jsonDepth redis (balanceKey keyPrefix traderId exchange.id) with
    | error e => simp
    | ok raw => simp

theorem recoverClients_calls {jsonDepth : ℕ} {cache : Cache γ} {clock : ExecClient → ℕ}
    {redis : Redis} {keyPrefix traderId : String}
    {pairs : List (ExecClient × Exchange)}
    (h : ∀ pair ∈ pairs, ∃ raw,
      redisGetJson jsonDepth redis (balanceKey keyPrefix traderId pair.2.id) = .ok raw) :
    ∃ perClient, (recoverClients nt jsonDepth cache clock redis keyPrefix traderId pairs).1 =
        perClient.flatten ∧
      List.Forall₂ (fun pair => ClientRecovered nt cache clock
        (redis (balanceKey keyPrefix traderId pair.2.id)) pair) pairs perClient := by
  induction pairs with
  | nil => exact ⟨[], rfl, .nil⟩
  | cons pair pairs ih =>
    obtain ⟨client, exchange⟩ := pair
    obtain ⟨raw, hraw⟩ := h _ List.mem_cons_self
    obtain ⟨perClient, hcalls, hrest⟩ := ih fun p hp => h p (List.mem_cons_of_mem _ hp)
    refine ⟨_ :: perClient, ?_, .cons (clientRecovered hraw cache clock (client, exchange)) hrest⟩
    rw [recoverClients, hraw, List.flatten_cons, ← hcalls]

/-- A start recovers every sandbox venue from its snapshot, or as if it had none, and
re-processes the open orders, exactly when the bytes under each balance key are UTF-8 and
not nested too deep. -/
theorem rotten_snapshot_iff (nt : MoneyText γ) (jsonDepth : ℕ) (trader : Trader γ)
    (clock : ExecClient → ℕ) (redis : Redis) (keyPrefix traderId : String) :
    Recovered nt trader clock (fun venue => redis (balanceKey keyPrefix traderId venue))
        (recoverOnStart nt jsonDepth trader clock redis keyPrefix traderId) ↔
      ∀ pair ∈ sandboxClients trader.execEngine, ∀ bytes,
        redis (balanceKey keyPrefix traderId pair.2.id) = some bytes →
          Readable jsonDepth bytes := by
  simp only [← redisGetJson_ok_iff]
  refine ⟨fun h => ?_, fun h => ⟨?_, recoverClients_calls h⟩⟩
  · exact (recoverClients_returns jsonDepth _ clock redis keyPrefix traderId _).1 h.returns
  · exact (recoverClients_returns jsonDepth _ clock redis keyPrefix traderId _).2 h

end

/-- One byte that is not UTF-8 under the key of a venue ends the start of its pod. -/
theorem malformed_snapshot_raises :
    let pod := venuePod ⟨"TINO-001", by decide⟩ [] (by decide)
    let redis : Redis := fun key =>
      if key = "tinohelm:sandbox:balance:TINO-001:BINANCE" then some ⟨#[0xFF]⟩ else none
    ¬ Recovered cryptoText pod.trader (fun _ => 0)
      (fun venue => redis (balanceKey defaultBalanceKeyPrefix pod.traderId.1 venue))
      (recoverOnStart cryptoText 1000 pod.trader (fun _ => 0) redis defaultBalanceKeyPrefix
        pod.traderId.1) := by
  intro pod redis h
  have hraise := h.returns
  revert hraise
  decide

end
end TinoHelm
