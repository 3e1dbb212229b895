import TinoHelm.Spec.Recovery

/-! Balances survive restarts: whatever the starts and stops of the pods on one Redis,
a starting pod replays for each of its sandbox venues the last totals its own trader id
saved there. -/

namespace TinoHelm
open Base

section
variable {γ : Type}

/-! The key scheme: equal keys are of the same pod and venue. -/

theorem balanceKey_inj {keyPrefix : String} {t t' : Identifier} {v v' : String}
    (h : balanceKey keyPrefix t.1 v = balanceKey keyPrefix t'.1 v') : t = t' ∧ v = v' := by
  have hl := congrArg String.toList h
  simp only [balanceKey, String.toList_append, List.append_assoc, List.append_cancel_left_eq] at hl
  obtain ⟨ht, hv⟩ := append_sep_inj t.2 t'.2 hl
  exact ⟨Subtype.ext (String.toList_inj.1 ht), String.toList_inj.1 hv⟩

variable {nt : MoneyText γ}

/-! The round trip of one snapshot. -/

theorem Totals.ext_entries {a b : Totals γ} (h : a.amounts.entries = b.amounts.entries) :
    a = b := by
  obtain ⟨⟨ea, _⟩, _⟩ := a
  obtain ⟨⟨eb, _⟩, _⟩ := b
  subst h
  rfl

/-- Distinct currencies have distinct codes, so no amount is lost. -/
theorem entries_serializeBalances (hn : nt.Lawful) (totals : Totals γ) :
    (serializeBalances nt totals).entries =
      totals.amounts.entries.map fun e => (nt.code e.1, nt.str e.2) := by
  refine Dict.entries_ofList ?_
  rw [List.map_map]
  have h : Prod.fst ∘ (fun e : γ × Money γ => (nt.code e.1, nt.str e.2)) = nt.code ∘ Prod.fst := rfl
  rw [h, ← List.map_map]
  exact totals.amounts.nodup.map hn.code_injective

theorem mapM_restoreMoney (hn : nt.Lawful) (l : List (γ × Money γ)) :
    (l.map fun e => (Value.str (nt.code e.1), Value.str (nt.str e.2))).mapM
      (fun kv => restoreMoney nt kv.2) = some (l.map Prod.snd) := by
  induction l with
  | nil => rfl
  | cons e l ih =>
    rw [List.map_cons, List.mapM_cons, ih]
    simp [restoreMoney, hn.fromStr_str]

theorem deserialize_serialize [DecidableEq γ] (hn : nt.Lawful) (totals : Totals γ) :
    deserializeBalances nt (some ((serializeBalances nt totals).entries.map
      fun m => (.str m.1, .str m.2))) = totals := by
  have hm : (totals.amounts.entries.map Prod.snd).map (fun m => (m.currency, m)) =
      totals.amounts.entries := by
    rw [List.map_map]
    refine (List.map_congr_left fun e he => ?_).trans (List.map_id _)
    exact Prod.ext (totals.keyed e he) rfl
  apply Totals.ext_entries
  unfold deserializeBalances
  rw [Option.getD_some, entries_serializeBalances hn, List.map_map]
  have hmap := mapM_restoreMoney hn totals.amounts.entries
  split
  · rename_i h
    exact absurd (h.symm.trans hmap) (by simp)
  · rename_i monies h
    obtain rfl := Option.some.inj (h.symm.trans hmap)
    simp only [hm]
    exact Dict.entries_ofList totals.amounts.nodup

def snapshotBytes (nt : MoneyText γ) (totals : Totals γ) : ByteArray :=
  (Json.dumps (serializeBalances nt totals).entries).toByteArray

theorem redisGetJson_snapshotBytes {depth : ℕ} (hd : 0 < depth) (redis : Redis) {key : String}
    {totals : Totals γ} (h : redis key = some (snapshotBytes nt totals)) :
    redisGetJson depth redis key =
      .ok (some ((serializeBalances nt totals).entries.map fun m => (.str m.1, .str m.2))) := by
  obtain ⟨n, rfl⟩ := Nat.exists_eq_succ_of_ne_zero hd.ne'
  simp only [redisGetJson, h, snapshotBytes, decodeUtf8_toByteArray, ok_bind]
  rw [Json.loadsWithin_dumps n _ (serializeBalances nt totals).nodup]
  rfl

/-! What a stop leaves in Redis. -/

/-- The totals a stop of the pod saves for a venue. -/
def Pod.snapshot (pod : Pod γ) (venue : String) : Option (Totals γ) :=
  if pod.recoveryEnabled ∧ venue ∈ pod.trader.venues then
    let totals := snapshotAccountTotals (pod.trader.cache.accountForVenue venue)
    if totals.amounts.entries = [] then none else some totals
  else none

/-- The most recent non-empty snapshot of a trader id and a venue. -/
def lastSnapshot (traderId : Identifier) (venue : String) (history : List (PodEvent γ)) :
    Option (Totals γ) :=
  (history.filterMap fun
    | .start _ => none
    | .stop pod => if pod.traderId = traderId then pod.snapshot venue else none).getLast?

theorem lastSnapshot_snoc (t : Identifier) (v : String) (history : List (PodEvent γ)) (e : PodEvent γ) :
    lastSnapshot t v (history ++ [e]) = (match e with
      | .start _ => none
      | .stop pod => if pod.traderId = t then pod.snapshot v else none).or
        (lastSnapshot t v history) := by
  simp only [lastSnapshot, List.filterMap_append, List.getLast?_append, List.filterMap_cons,
    List.filterMap_nil]
  congr 1
  split <;> simp_all

theorem snapshotClients_of_ne (cache : Cache γ) (keyPrefix : String) {t : String}
    (pairs : List (ExecClient × Exchange)) (redis : Redis) {key : String}
    (h : ∀ p ∈ pairs, key ≠ balanceKey keyPrefix t p.2.id) :
    pairs.foldl (snapshotClient nt cache keyPrefix t) redis key = redis key := by
  induction pairs generalizing redis with
  | nil => rfl
  | cons p pairs ih =>
    rw [List.foldl_cons, ih _ fun q hq => h q (List.mem_cons_of_mem p hq), snapshotClient]
    split_ifs
    · rfl
    · exact Function.update_of_ne (h p List.mem_cons_self) _ _

theorem snapshotClients_balanceKey (cache : Cache γ) (keyPrefix : String) (t : Identifier)
    (v : String) (pairs : List (ExecClient × Exchange)) (redis : Redis) :
    pairs.foldl (snapshotClient nt cache keyPrefix t.1) redis (balanceKey keyPrefix t.1 v) =
      let totals := snapshotAccountTotals (cache.accountForVenue v)
      if (v ∈ pairs.map fun p => p.2.id) ∧ totals.amounts.entries ≠ [] then
        some (snapshotBytes nt totals)
      else redis (balanceKey keyPrefix t.1 v) := by
  induction pairs generalizing redis with
  | nil => simp
  | cons p pairs ih =>
    rw [List.foldl_cons, ih, List.map_cons]
    by_cases hv : v = p.2.id
    · subst hv
      by_cases he : (snapshotAccountTotals (cache.accountForVenue p.2.id)).amounts.entries = []
      · simp [snapshotClient, he]
      · have hset : snapshotClient nt cache keyPrefix t.1 redis p
            (balanceKey keyPrefix t.1 p.2.id) =
            some (snapshotBytes nt (snapshotAccountTotals (cache.accountForVenue p.2.id))) := by
          simp only [snapshotClient, he, if_false, Redis.set, snapshotBytes, Function.update_self]
        simp [he, hset]
    · have hk : balanceKey keyPrefix t.1 v ≠ balanceKey keyPrefix t.1 p.2.id :=
        fun h => hv (balanceKey_inj h).2
      have hset : snapshotClient nt cache keyPrefix t.1 redis p (balanceKey keyPrefix t.1 v) =
          redis (balanceKey keyPrefix t.1 v) := by
        rw [snapshotClient]
        split_ifs
        · rfl
        · exact Function.update_of_ne hk _ _
      simp only [List.mem_cons, hv, false_or, hset]

theorem onStop_balanceKey (pod : Pod γ) (redis : Redis) (t : Identifier) (v : String) :
    pod.onStop nt redis (balanceKey defaultBalanceKeyPrefix t.1 v) =
      ((if pod.traderId = t then pod.snapshot v else none).map (snapshotBytes nt)).or
        (redis (balanceKey defaultBalanceKeyPrefix t.1 v)) := by
  unfold Pod.onStop Pod.snapshot
  by_cases hp : pod.recoveryEnabled
  · by_cases ht : pod.traderId = t
    · subst ht
      rw [if_pos hp, snapshotOnStop, snapshotClients_balanceKey]
      simp only [hp, true_and, Trader.venues, if_true]
      split_ifs <;> simp_all
    · rw [if_pos hp, snapshotOnStop, if_neg ht, snapshotClients_of_ne]
      · rfl
      · exact fun p _ h => ht (balanceKey_inj h).1.symm
  · simp [hp]

/-- At every point of a history, Redis holds the last snapshot of each pod and venue. -/
theorem redisAfter_balanceKey (history : List (PodEvent γ)) (t : Identifier) (v : String) :
    redisAfter nt history (balanceKey defaultBalanceKeyPrefix t.1 v) =
      (lastSnapshot t v history).map (snapshotBytes nt) := by
  refine run_history (I := fun pre (redis : Redis) =>
    redis (balanceKey defaultBalanceKeyPrefix t.1 v) =
      (lastSnapshot t v pre).map (snapshotBytes nt)) rfl ?_ history
  intro pre e ih
  rw [lastSnapshot_snoc]
  cases e with
  | start pod => exact ih
  | stop pod =>
    change pod.onStop nt _ _ = _
    rw [onStop_balanceKey, ih, Option.map_or]

/-! What a start replays. -/

theorem lastSnapshot_ne_nil {t : Identifier} {v : String} {history : List (PodEvent γ)} {totals : Totals γ}
    (h : lastSnapshot t v history = some totals) : totals.amounts.entries ≠ [] := by
  obtain ⟨e, -, he⟩ := List.mem_filterMap.1 (List.mem_of_getLast? h)
  cases e with
  | start pod => cases he
  | stop pod =>
    simp only [Pod.snapshot] at he
    split_ifs at he with _ _ hn
    obtain rfl := Option.some.inj he
    exact hn

/-- Only the stops under a pod's own trader id count. -/
theorem lastSnapshot_filter (t : Identifier) (v : String) (history : List (PodEvent γ)) :
    lastSnapshot t v (history.filter fun e => e.pod.traderId = t) = lastSnapshot t v history := by
  simp only [lastSnapshot, List.filterMap_filter]
  congr 2
  funext e
  cases e with
  | start pod => simp
  | stop pod => by_cases h : pod.traderId = t <;> simp [PodEvent.pod, h]

def clientCalls (cache : Cache γ) (clock : ExecClient → ℕ) (snapshot : String → Option (Totals γ))
    (pair : ExecClient × Exchange) : List (NtCall γ) :=
  ((snapshot pair.2.id).elim [] (replayBalances clock pair.1)) ++ rehydrateOrders cache pair.2

theorem recoverClients_eq [DecidableEq γ] (hn : nt.Lawful) {depth : ℕ} (hd : 0 < depth)
    (cache : Cache γ) (clock : ExecClient → ℕ) {redis : Redis} {keyPrefix t : String}
    {snapshot : String → Option (Totals γ)}
    (h : ∀ v, redis (balanceKey keyPrefix t v) = (snapshot v).map (snapshotBytes nt))
    (pairs : List (ExecClient × Exchange)) :
    recoverClients nt depth cache clock redis keyPrefix t pairs =
      (pairs.flatMap (clientCalls cache clock snapshot), none) := by
  induction pairs with
  | nil => rfl
  | cons p pairs ih =>
    obtain ⟨client, exchange⟩ := p
    have hv := h exchange.id
    rw [recoverClients, ih, List.flatMap_cons, clientCalls]
    cases hs : snapshot exchange.id with
    | none =>
      rw [hs, Option.map_none] at hv
      simp [redisGetJson, hv, deserializeBalances, replayBalances, Dict.ofList]
    | some totals =>
      rw [hs, Option.map_some] at hv
      simp only [redisGetJson_snapshotBytes hd redis hv, deserialize_serialize hn, Option.elim_some]

theorem onStart_eq [DecidableEq γ] (hn : nt.Lawful) (history : List (PodEvent γ)) {pod : Pod γ}
    (hp : pod.recoveryEnabled = true) (clock : ExecClient → ℕ) :
    pod.onStart nt clock (redisAfter nt history) =
      ((sandboxClients pod.trader.execEngine).flatMap (clientCalls pod.trader.cache clock
        fun v => lastSnapshot pod.traderId v history), none) := by
  rw [Pod.onStart, if_pos hp, recoverOnStart]
  exact recoverClients_eq hn pod.jsonDepth_pos _ clock (redisAfter_balanceKey history pod.traderId) _

/-- The receiver of a `generate_account_state` and the parts of its balances. -/
def NtCall.accountState :
    NtCall γ → Option (ExecClient × List (Money γ × Money γ × Money γ))
  | .generateAccountState client balances _ _ _ =>
    some (client, balances.map fun b => (b.total, b.locked, b.free))
  | .processOrder _ _ _ => none

/-- The balances that give these totals back with nothing locked. -/
def Totals.unlocked (totals : Totals γ) : List (Money γ × Money γ × Money γ) :=
  totals.amounts.entries.map fun e => (e.2, ⟨0, e.1⟩, e.2)

theorem parts_buildAccountBalances (totals : Totals γ) :
    (buildAccountBalances totals).map (fun b => (b.total, b.locked, b.free)) = totals.unlocked := by
  rw [buildAccountBalances, Totals.unlocked, List.map_map]
  exact List.attach_map_val (f := fun e : γ × Money γ => (e.2, (⟨0, e.1⟩ : Money γ), e.2))

theorem accountStates_clientCalls (cache : Cache γ) (clock : ExecClient → ℕ)
    {snapshot : String → Option (Totals γ)}
    (h : ∀ v totals, snapshot v = some totals → totals.amounts.entries ≠ [])
    (pair : ExecClient × Exchange) :
    (clientCalls cache clock snapshot pair).filterMap NtCall.accountState =
      ((snapshot pair.2.id).map fun totals => (pair.1, totals.unlocked)).toList := by
  have horders : (rehydrateOrders cache pair.2).filterMap NtCall.accountState = [] := by
    rw [rehydrateOrders, List.filterMap_filterMap, List.filterMap_eq_nil_iff]
    intro order _
    split_ifs <;> rfl
  rw [clientCalls, List.filterMap_append, horders, List.append_nil]
  cases hs : snapshot pair.2.id with
  | none => rfl
  | some totals =>
    simp [replayBalances, h _ _ hs, NtCall.accountState, parts_buildAccountBalances]

theorem accountStates_onStart [DecidableEq γ] (hn : nt.Lawful) (history : List (PodEvent γ))
    {pod : Pod γ} (hp : pod.recoveryEnabled = true) (clock : ExecClient → ℕ) :
    (pod.onStart nt clock (redisAfter nt history)).1.filterMap NtCall.accountState =
      (sandboxClients pod.trader.execEngine).filterMap fun p =>
        (lastSnapshot pod.traderId p.2.id history).map fun totals => (p.1, totals.unlocked) := by
  rw [onStart_eq hn history hp clock, List.filterMap_flatMap]
  simp only [accountStates_clientCalls _ _ fun _ _ => lastSnapshot_ne_nil]
  exact (List.filterMap_eq_flatMap_toList _ _).symm

theorem exchange_of_mem_sandboxClients {execEngine : Option (List ExecClient)}
    {p : ExecClient × Exchange} (h : p ∈ sandboxClients execEngine) : p.1.exchange = some p.2 := by
  obtain ⟨client, -, hc⟩ := List.mem_filterMap.1 h
  obtain ⟨exchange, he, rfl⟩ := Option.map_eq_some_iff.1 hc
  exact he

/-- Venues are distinct, so at most one client is of a given venue. -/
theorem countP_venue {α β : Type} (f : String → Option α) (g : α → β) (venue : String)
    {pairs : List (ExecClient × Exchange)} (hex : ∀ p ∈ pairs, p.1.exchange = some p.2)
    (hnodup : (pairs.map fun p => p.2.id).Nodup) :
    (pairs.filterMap fun p => (f p.2.id).map fun a => (p.1, g a)).countP
        (fun c => c.1.exchange.map Exchange.id = some venue) =
      if (venue ∈ pairs.map fun p => p.2.id) ∧ (f venue).isSome then 1 else 0 := by
  induction pairs with
  | nil => simp
  | cons p pairs ih =>
    rw [List.map_cons, List.nodup_cons] at hnodup
    have htail := ih (fun q hq => hex q (List.mem_cons_of_mem p hq)) hnodup.2
    have hp := hex p List.mem_cons_self
    rw [List.map_cons, List.filterMap_cons]
    by_cases hv : venue = p.2.id
    · subst hv
      rw [if_neg fun h => hnodup.1 h.1] at htail
      cases hf : f p.2.id with
      | none =>
        rw [if_neg fun h => Bool.false_ne_true h.2]
        exact htail
      | some a =>
        rw [Option.map_some, List.countP_cons, htail]
        simp [hp]
    · cases hf : f p.2.id with
      | none => simp only [Option.map_none, htail, List.mem_cons, hv, false_or]
      | some a =>
        simp only [Option.map_some, List.countP_cons, htail, hp, List.mem_cons, hv, false_or]
        simp [Ne.symm hv]

/-- At each start of a pod in a history, its sandbox clients whose venue the trader id
has a snapshot of get that snapshot, one call each; nothing raises, and the pods of
other trader ids do not matter. -/
theorem balances_survive_restarts [DecidableEq γ] (hn : nt.Lawful) (history : List (PodEvent γ))
    (pod : Pod γ) (hp : pod.recoveryEnabled = true) (clock : ExecClient → ℕ) :
    let started := fun history => pod.onStart nt clock (redisAfter nt history)
    let accountStates := (started history).1.filterMap NtCall.accountState
    (started history).2 = none ∧
      (accountStates = (sandboxClients pod.trader.execEngine).filterMap fun p =>
        (lastSnapshot pod.traderId p.2.id history).map fun totals => (p.1, totals.unlocked)) ∧
      (∀ venue ∈ pod.trader.venues,
        accountStates.countP (fun c => c.1.exchange.map Exchange.id = some venue) =
          if (lastSnapshot pod.traderId venue history).isSome then 1 else 0) ∧
      started (history.filter fun e => e.pod.traderId = pod.traderId) = started history := by
  intro started accountStates
  have hstates := accountStates_onStart hn history hp clock
  refine ⟨?_, hstates, fun venue hv => ?_, ?_⟩
  · exact congrArg Prod.snd (onStart_eq hn history hp clock)
  · simp only [accountStates, started, hstates]
    rw [countP_venue (fun v => lastSnapshot pod.traderId v history) Totals.unlocked venue
      (fun p => exchange_of_mem_sandboxClients) pod.venues_nodup]
    exact if_congr (and_iff_right hv) rfl rfl
  · simp only [started, onStart_eq hn _ hp clock, lastSnapshot_filter]

end

/-- A persisted pod with one sandbox client, whose account has these totals. -/
def venuePod (traderId : Identifier) (totals : List (Money String))
    (h : (totals.map Money.currency).Nodup) : Pod String where
  mode := "sandbox"
  sandboxPersist := true
  traderId := traderId
  trader :=
    { execEngine := some
        [⟨"BINANCE", some ⟨"BINANCE", []⟩⟩, ⟨"BYBIT", none⟩]
      cache :=
        { accountForVenue := fun _ => some
            { balances := ⟨totals.map fun m =>
                  (m.currency, ⟨m, ⟨0, m.currency⟩, m, rfl, rfl, sub_zero _⟩), by
                rw [List.map_map]
                exact h⟩
              keyed := by
                intro e he
                obtain ⟨m, -, rfl⟩ := List.mem_map.1 he
                rfl }
          ordersOpen := fun _ => [] } }
  venues_nodup := List.nodup_singleton _
  jsonDepth := 1000
  jsonDepth_pos := by decide

/-- A pod of another trader id stops after it, yet the pod gets its own balances back. -/
theorem balances_survive_restarts_twoPods :
    let pod := venuePod ⟨"TINO-001", by decide⟩ [⟨1234567000000, "USDT"⟩, ⟨50000000, "BTC"⟩] (by decide)
    let other := venuePod ⟨"TINO-002", by decide⟩ [⟨-100000000, "USDT"⟩] (by decide)
    (pod.onStart cryptoText (fun _ => 0)
        (redisAfter cryptoText [.start pod, .stop pod, .stop other])).1.filterMap
      NtCall.accountState =
      [(⟨"BINANCE", some ⟨"BINANCE", []⟩⟩,
        [(⟨1234567000000, "USDT"⟩, ⟨0, "USDT"⟩, ⟨1234567000000, "USDT"⟩),
          (⟨50000000, "BTC"⟩, ⟨0, "BTC"⟩, ⟨50000000, "BTC"⟩)])] := by
  intro pod other
  have h := balances_survive_restarts cryptoText_lawful [.start pod, .stop pod, .stop other] pod rfl
    fun _ => 0
  exact h.2.1

end TinoHelm
