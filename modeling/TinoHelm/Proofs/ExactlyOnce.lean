import Mathlib.Algebra.Order.BigOperators.Group.List
import TinoHelm.Spec.EventLoop

/-! The event loop hands over every entry behind the tail it recorded, once and in
order. A cursor stands at the last entry handed over, whether or not that call raised,
so an exception only postpones what `XREAD` had answered behind it. -/

namespace TinoHelm
open Base

variable {σ α : Type} (forward : σ → α → σ × Bool) (skip : List String)

namespace EventLoop

/-- What was handed over of each stream lies between its tail and its cursor. -/
structure Synced (s : EventLoop σ α) : Prop where
  fresh : ∀ key, s.cursors.get? key = none → s.tails.get? key = none ∧ s.handedOf key = []
  watched : ∀ key c, s.cursors.get? key = some c → key ∉ skip ∧ c ≤ (s.streams key).lastId ∧
    ∃ t ≤ c, s.tails.get? key = some t ∧ s.handedOf key = (s.streams key).between t c

/-- The entries are the next ones of the stream behind its cursor. -/
def Next (s : EventLoop σ α) (key : String) (batch : List (StreamId × α)) : Prop :=
  ∃ c rest, s.cursors.get? key = some c ∧ (s.streams key).after c = batch ++ rest

/-- Reading changes no stream and no tail, watches the same keys, and only reads on. -/
structure Reads (s s' : EventLoop σ α) : Prop where
  streams : s'.streams = s.streams
  tails : s'.tails = s.tails
  watched : ∀ key, s'.cursors.get? key = none ↔ s.cursors.get? key = none
  unread : ∀ key, s'.unread key ≤ s.unread key

theorem Reads.refl (s : EventLoop σ α) : Reads s s := ⟨rfl, rfl, fun _ => Iff.rfl, fun _ => le_rfl⟩

theorem Reads.trans {a b c : EventLoop σ α} (h1 : Reads a b) (h2 : Reads b c) : Reads a c :=
  ⟨h2.streams.trans h1.streams, h2.tails.trans h1.tails,
    fun key => (h2.watched key).trans (h1.watched key),
    fun key => (h2.unread key).trans (h1.unread key)⟩

theorem synced_init (streams : Streams α) (f : σ) :
    Synced skip ({ streams, forwarder := f } : EventLoop σ α) :=
  ⟨fun key _ => ⟨rfl, rfl⟩, fun key c h => by simp at h⟩

variable {skip} {s : EventLoop σ α}

theorem Synced.arrive (h : Synced skip s) (key : String) (id : StreamId) (entry : α) :
    Synced skip (s.arrive key id entry) := by
  refine ⟨h.fresh, fun k c hc => ?_⟩
  obtain ⟨hskip, hle, t, ht, htail, hhanded⟩ := h.watched k c hc
  rw [streams_arrive]
  split_ifs
  · refine ⟨hskip, hle.trans ((s.streams k).lastId_le_push id entry), t, ht, htail, ?_⟩
    rw [(s.streams k).between_push id entry hle]
    exact hhanded
  · exact ⟨hskip, hle, t, ht, htail, hhanded⟩

theorem Synced.watch (h : Synced skip s) {key : String} (hskip : key ∉ skip) :
    Synced skip (s.watch key) := by
  unfold EventLoop.watch
  split_ifs with hmem
  · exact h
  rw [← Dict.get?_eq_none_iff] at hmem
  refine ⟨fun k hk => ?_, fun k c hc => ?_⟩
  · rw [Dict.get?_set] at hk
    split_ifs at hk with hkey
    rw [Dict.get?_set, if_neg hkey]
    exact h.fresh k hk
  · rw [Dict.get?_set] at hc
    split_ifs at hc with hkey
    · cases hc
      subst hkey
      refine ⟨hskip, le_rfl, _, le_rfl, by rw [Dict.get?_set_self], ?_⟩
      rw [Log.between_self]
      exact (h.fresh k hmem).2
    · rw [Dict.get?_set, if_neg hkey]
      exact h.watched k c hc

theorem Synced.discover (h : Synced skip s) {keys : List String} (hskip : ∀ k ∈ keys, k ∉ skip) :
    Synced skip (keys.foldl EventLoop.watch s) := by
  induction keys generalizing s with
  | nil => exact h
  | cons key keys ih =>
    exact ih (h.watch (hskip key List.mem_cons_self))
      fun k hk => hskip k (List.mem_cons_of_mem key hk)

theorem handedOf_handOver (s : EventLoop σ α) (key : String) (e : StreamId × α) (k : String) :
    (s.handOver forward key e).1.handedOf k =
      if key = k then s.handedOf k ++ [e] else s.handedOf k := by
  simp only [handOver, handedOf, List.filter_append, List.map_append]
  by_cases h : key = k <;> simp [h]

theorem cursor_handOver (s : EventLoop σ α) (key : String) (e : StreamId × α) (k : String) :
    (s.handOver forward key e).1.cursors.get? k =
      if k = key then some e.1 else s.cursors.get? k :=
  s.cursors.get?_set k key e.1

theorem Synced.handOver (h : Synced skip s) {key : String} {c : StreamId} {e : StreamId × α}
    {rest : List (StreamId × α)} (hc : s.cursors.get? key = some c)
    (ha : (s.streams key).after c = e :: rest) :
    Synced skip (s.handOver forward key e).1 ∧ Reads s (s.handOver forward key e).1 ∧
      (s.handOver forward key e).1.unread key < s.unread key := by
  obtain ⟨hskip, hle, t, ht, htail, hhanded⟩ := h.watched key c hc
  obtain ⟨hmem, hce⟩ := (s.streams key).head_mem ha
  have hunread : (s.handOver forward key e).1.unread key < s.unread key := by
    simp only [unread, cursor_handOver, if_pos, hc]
    change ((s.streams key).after e.1).length < _
    rw [(s.streams key).after_head ha, ha]
    exact Nat.lt_succ_self _
  refine ⟨⟨fun k hk => ?_, fun k d hd => ?_⟩, ⟨rfl, rfl, fun k => ?_, fun k => ?_⟩, hunread⟩
  · rw [cursor_handOver] at hk
    split_ifs at hk with hkey
    rw [handedOf_handOver, if_neg (Ne.symm hkey)]
    exact h.fresh k hk
  · rw [cursor_handOver] at hd
    rw [handedOf_handOver]
    split_ifs at hd with hkey
    · cases hd
      subst hkey
      refine ⟨hskip, (s.streams k).le_lastId hmem, t, ht.trans hce.le, htail, ?_⟩
      rw [if_pos rfl, hhanded]
      exact ((s.streams k).between_head ht ha).symm
    · rw [if_neg (Ne.symm hkey)]
      exact h.watched k d hd
  · rw [cursor_handOver]
    split_ifs with hkey
    · simp [hkey, hc]
    · rfl
  · by_cases hkey : k = key
    · rw [hkey]
      exact hunread.le
    · simp only [unread, cursor_handOver, if_neg hkey]
      exact le_rfl

theorem Next.cons {key : String} {e : StreamId × α} {batch : List (StreamId × α)}
    (h : s.Next key (e :: batch)) : (s.handOver forward key e).1.Next key batch := by
  obtain ⟨c, rest, hc, ha⟩ := h
  refine ⟨e.1, rest, by rw [cursor_handOver, if_pos rfl], ?_⟩
  exact (s.streams key).after_head ha

/-- One batch, up to an exception if there is one. -/
theorem Synced.handBatch (h : Synced skip s) {key : String} {batch : List (StreamId × α)}
    (hn : s.Next key batch) :
    Synced skip (s.handBatch forward key batch).1 ∧ Reads s (s.handBatch forward key batch).1 ∧
      (batch ≠ [] → (s.handBatch forward key batch).1.unread key < s.unread key) ∧
      ∀ k ≠ key, (s.handBatch forward key batch).1.cursors.get? k = s.cursors.get? k := by
  induction batch generalizing s with
  | nil => exact ⟨h, .refl s, fun hne => absurd rfl hne, fun _ _ => rfl⟩
  | cons e batch ih =>
    obtain ⟨c, rest, hc, ha⟩ := hn
    obtain ⟨h1, hr1, hu1⟩ := h.handOver forward hc ha
    have hother : ∀ k ≠ key, (s.handOver forward key e).1.cursors.get? k = s.cursors.get? k :=
      fun k hk => by rw [cursor_handOver, if_neg hk]
    have hnext := Next.cons forward ⟨c, rest, hc, ha⟩
    rw [EventLoop.handBatch]
    cases hs : s.handOver forward key e with
    | mk s' raised =>
      rw [hs] at h1 hr1 hu1 hother hnext
      cases raised with
      | true => exact ⟨h1, hr1, fun _ => hu1, hother⟩
      | false =>
        obtain ⟨h2, hr2, -, ho2⟩ := ih h1 hnext
        exact ⟨h2, hr1.trans hr2, fun _ => (hr2.unread key).trans_lt hu1,
          fun k hk => (ho2 k hk).trans (hother k hk)⟩

/-- A whole response, up to an exception: if there was anything in it, something is read. -/
theorem Synced.handAll (h : Synced skip s) {response : List (String × List (StreamId × α))}
    (hn : (response.map Prod.fst).Nodup) (hnext : ∀ b ∈ response, s.Next b.1 b.2) :
    Synced skip (s.handAll forward response) ∧ Reads s (s.handAll forward response) ∧
      ∀ b ∈ response.head?, b.2 ≠ [] → (s.handAll forward response).unread b.1 < s.unread b.1 := by
  induction response generalizing s with
  | nil => exact ⟨h, .refl s, by simp⟩
  | cons b response ih =>
    obtain ⟨key, batch⟩ := b
    rw [List.map_cons, List.nodup_cons] at hn
    obtain ⟨h1, hr1, hu1, ho1⟩ := h.handBatch forward (hnext _ List.mem_cons_self)
    have hnext1 : ∀ b ∈ response, (s.handBatch forward key batch).1.Next b.1 b.2 := by
      intro b hb
      have hne : b.1 ≠ key := fun he => hn.1 (List.mem_map.2 ⟨b, hb, he⟩)
      obtain ⟨c, rest, hc, ha⟩ := hnext b (List.mem_cons_of_mem _ hb)
      exact ⟨c, rest, by rw [ho1 b.1 hne, hc], by rw [hr1.streams, ha]⟩
    simp only [List.head?_cons, Option.mem_some_iff, forall_eq']
    rw [EventLoop.handAll]
    cases hs : s.handBatch forward key batch with
    | mk s' raised =>
      rw [hs] at h1 hr1 hu1 hnext1
      cases raised with
      | true => exact ⟨h1, hr1, hu1⟩
      | false =>
        obtain ⟨h2, hr2, -⟩ := ih h1 hn.2 hnext1
        exact ⟨h2, hr1.trans hr2, fun hne => (hr2.unread key).trans_lt (hu1 hne)⟩

theorem response_nodup (s : EventLoop σ α) (count : String → ℕ) :
    ((s.response count).map Prod.fst).Nodup := by
  refine List.Nodup.sublist ((List.filter_sublist).map Prod.fst) ?_
  rw [List.map_map]
  exact s.cursors.nodup

theorem mem_response {count : String → ℕ} {b : String × List (StreamId × α)}
    (h : b ∈ s.response count) : s.Next b.1 b.2 ∧ b.2 ≠ [] := by
  rw [response, List.mem_filter, List.mem_map] at h
  obtain ⟨⟨e, he, rfl⟩, hne⟩ := h
  refine ⟨⟨e.2, _, (s.cursors.get?_eq_some_iff e.1 e.2).2 he, (List.take_append_drop _ _).symm⟩, ?_⟩
  intro hnil
  rw [hnil] at hne
  simp at hne

theorem discover_not_mem {keys : List String} :
    ∀ key ∈ discoverEventStreams keys skip, key ∉ skip := by
  intro key hk
  rw [discoverEventStreams, List.mem_mergeSort, List.mem_filter, Bool.and_eq_true] at hk
  simpa using hk.2.2

theorem Synced.step (h : Synced skip s) (op : EventLoopOp α) :
    Synced skip (eventLoopStep forward skip s op) := by
  cases op with
  | arrive key id entry => exact h.arrive key id entry
  | discover keys => exact h.discover discover_not_mem
  | poll count =>
    exact (h.handAll forward (s.response_nodup count) fun b hb => (mem_response hb).1).1

/-- A poll that can answer everything reads something, or there is nothing to read. -/
theorem Synced.poll_reads (h : Synced skip s) {count : String → ℕ}
    (hc : ∀ key, (s.streams key).entries.length ≤ count key) :
    (∃ key ∈ s.cursors.keys,
      (s.handAll forward (s.response count)).unread key < s.unread key) ∨
      ∀ key, s.unread key = 0 := by
  obtain ⟨-, -, hread⟩ :=
    h.handAll forward (s.response_nodup count) fun b hb => (mem_response hb).1
  cases hr : s.response count with
  | cons b rest =>
    left
    have hb : b ∈ s.response count := by rw [hr]; exact List.mem_cons_self
    obtain ⟨⟨c, -, hcur, -⟩, hne⟩ := mem_response hb
    rw [hr] at hread
    exact ⟨b.1, Dict.mem_keys_of_get? hcur, hread b rfl hne⟩
  | nil =>
    right
    intro key
    unfold unread
    cases hcur : s.cursors.get? key with
    | none => rfl
    | some c =>
      have hmem := (s.cursors.get?_eq_some_iff key c).1 hcur
      have hlen : ((s.streams key).after c).length ≤ count key :=
        (List.length_filter_le _ _).trans (hc key)
      rw [response, List.filter_eq_nil_iff] at hr
      have hempty := hr _ (List.mem_map_of_mem hmem)
      simpa [List.take_of_length_le hlen] using hempty

def backlog (s : EventLoop σ α) : ℕ := (s.cursors.keys.map s.unread).sum

/-- Enough room for any answer of `XREAD`. -/
def lengths (s : EventLoop σ α) : String → ℕ := fun key => (s.streams key).entries.length

theorem Synced.drain (h : Synced skip s) (count : String → ℕ) (watched : List String)
    (hc : ∀ key, (s.streams key).entries.length ≤ count key) {n : ℕ}
    (hw : ∀ key, s.cursors.get? key ≠ none → key ∈ watched)
    (hn : (watched.map s.unread).sum ≤ n) :
    Synced skip (run (eventLoopStep forward skip) s (List.replicate n (.poll count))) ∧
      Reads s (run (eventLoopStep forward skip) s (List.replicate n (.poll count))) ∧
      ∀ key, (run (eventLoopStep forward skip) s (List.replicate n (.poll count))).unread key = 0 := by
  induction n generalizing s with
  | zero =>
    refine ⟨h, .refl s, fun key => ?_⟩
    by_cases hk : s.cursors.get? key = none
    · simp [unread, hk]
    · exact Nat.le_zero.1 ((List.le_sum_of_mem (List.mem_map_of_mem (hw key hk))).trans hn)
  | succ n ih =>
    obtain ⟨h1, hr1, -⟩ :=
      h.handAll forward (s.response_nodup count) fun b hb => (mem_response hb).1
    have hle : (watched.map (s.handAll forward (s.response count)).unread).sum ≤ n := by
      rcases h.poll_reads forward hc with ⟨key, hmem, hlt⟩ | hzero
      · have hkey := hw key fun hnone => (Dict.get?_eq_none_iff _ _).1 hnone hmem
        have := List.sum_lt_sum _ _ (fun k _ => hr1.unread k) ⟨key, hkey, hlt⟩
        omega
      · have hall : ∀ k ∈ watched, (s.handAll forward (s.response count)).unread k = 0 :=
          fun k _ => Nat.le_zero.1 (hzero k ▸ hr1.unread k)
        rw [List.map_congr_left hall]
        simp
    obtain ⟨h2, hr2, hz⟩ := ih h1 (by rw [hr1.streams]; exact hc)
      (fun key hk => hw key fun hnone => hk ((hr1.watched key).2 hnone)) hle
    exact ⟨h2, hr1.trans hr2, hz⟩

/-- After the drain, what was handed over is all that lies behind the tail. -/
theorem Synced.handed_all (h : Synced skip s) {key : String} {t c : StreamId}
    (ht : s.tails.get? key = some t) (hc : s.cursors.get? key = some c) :
    (run (eventLoopStep forward skip) s (List.replicate s.backlog (.poll s.lengths))).handedOf key =
      (s.streams key).after t := by
  have hall : ∀ k, s.cursors.get? k ≠ none → k ∈ s.cursors.keys :=
    fun k hk => not_not.1 fun hm => hk ((s.cursors.get?_eq_none_iff k).2 hm)
  obtain ⟨h', hr, hzero⟩ :=
    h.drain forward s.lengths s.cursors.keys (fun _ => le_rfl) hall (Nat.le_refl s.backlog)
  generalize run (eventLoopStep forward skip) s (List.replicate s.backlog (.poll s.lengths)) = s'
    at h' hr hzero
  cases hc' : s'.cursors.get? key with
  | none => exact absurd ((hr.watched key).1 hc') (by simp [hc])
  | some c' =>
    obtain ⟨-, -, t', ht', htail, hhanded⟩ := h'.watched key c' hc'
    rw [hr.tails, ht] at htail
    cases htail
    have hnil : (s.streams key).after c' = [] := by
      have := hzero key
      rw [unread, hc', hr.streams] at this
      exact List.length_eq_zero_iff.1 this
    rw [hhanded, hr.streams, ← Log.between_append_after _ ht', hnil, List.append_nil]

@[simp] theorem streams_watch (s : EventLoop σ α) (k : String) :
    (s.watch k).streams = s.streams := by
  unfold EventLoop.watch
  split_ifs <;> rfl

theorem Synced.tails_watch (h : Synced skip s) (k key : String) :
    (s.watch k).tails.get? key =
      (s.tails.get? key).or (if key = k then some (s.streams key).lastId else none) := by
  unfold EventLoop.watch
  split_ifs with hmem hkey hkey
  · subst hkey
    obtain ⟨c, hc⟩ := Option.isSome_iff_exists.1 ((s.cursors.get?_isSome_iff key).2 hmem)
    obtain ⟨-, -, t, -, ht, -⟩ := h.watched key c hc
    rw [ht, Option.some_or]
  · rw [Option.or_none]
  · subst hkey
    rw [(h.fresh key ((s.cursors.get?_eq_none_iff key).2 hmem)).1, Option.none_or]
    exact Dict.get?_set_self _ _ _
  · rw [Option.or_none]
    exact Dict.get?_set_ne _ _ hkey

theorem Synced.tails_discover (h : Synced skip s) {keys : List String}
    (hskip : ∀ k ∈ keys, k ∉ skip) (key : String) :
    (keys.foldl EventLoop.watch s).tails.get? key =
      (s.tails.get? key).or (if key ∈ keys then some (s.streams key).lastId else none) := by
  induction keys generalizing s with
  | nil => simp
  | cons k keys ih =>
    rw [List.foldl_cons, ih (h.watch (hskip k List.mem_cons_self))
      fun j hj => hskip j (List.mem_cons_of_mem k hj), h.tails_watch, streams_watch,
      Option.or_assoc]
    by_cases hk : key = k
    · simp [hk]
    · simp [hk]

end EventLoop

def Discovers (skip : List String) (key : String) (op : EventLoopOp α) : Prop :=
  ∃ keys, op = .discover keys ∧ key ∈ discoverEventStreams keys skip

variable {skip}

/-- A tail is recorded by the first pass that discovers the stream and never changed. -/
theorem EventLoop.Synced.tails_step {s : EventLoop σ α} (h : s.Synced skip) (op : EventLoopOp α)
    (key : String) :
    (∀ t, s.tails.get? key = some t →
      (eventLoopStep forward skip s op).tails.get? key = some t) ∧
    (s.tails.get? key = none → Discovers skip key op →
      (eventLoopStep forward skip s op).tails.get? key = some (s.streams key).lastId) ∧
    (s.tails.get? key = none → ¬Discovers skip key op →
      (eventLoopStep forward skip s op).tails.get? key = none) := by
  cases op with
  | arrive k id entry =>
    refine ⟨fun t ht => ht, fun _ hd => ?_, fun hnone _ => hnone⟩
    obtain ⟨keys, hop, -⟩ := hd
    cases hop
  | poll count =>
    obtain ⟨-, hr, -⟩ :=
      h.handAll forward (s.response_nodup count) fun b hb => (mem_response hb).1
    simp only [eventLoopStep, hr.tails]
    refine ⟨fun t ht => ht, fun _ hd => ?_, fun hnone _ => hnone⟩
    obtain ⟨keys, hop, -⟩ := hd
    cases hop
  | discover keys =>
    simp only [eventLoopStep, h.tails_discover discover_not_mem]
    refine ⟨fun t ht => by rw [ht, Option.some_or], fun hnone hd => ?_, fun hnone hd => ?_⟩
    · obtain ⟨keys', hop, hmem⟩ := hd
      cases hop
      rw [hnone, Option.none_or, if_pos hmem]
    · rw [hnone, Option.none_or, if_neg fun hmem => hd ⟨keys, rfl, hmem⟩]

variable {forward}

def eventLoopAfter (forward : σ → α → σ × Bool) (skip : List String) (streams : Streams α) (f : σ)
    (ops : List (EventLoopOp α)) : EventLoop σ α :=
  run (eventLoopStep forward skip) { streams, forwarder := f } ops

theorem synced_eventLoopAfter (streams : Streams α) (f : σ) (ops : List (EventLoopOp α)) :
    (eventLoopAfter forward skip streams f ops).Synced skip :=
  run_invariant (EventLoop.synced_init skip streams f) (fun _ op h => h.step forward op) ops

theorem tails_of_not_discovered (streams : Streams α) (f : σ) {ops : List (EventLoopOp α)}
    {key : String} (h : ∀ op ∈ ops, ¬Discovers skip key op) :
    (eventLoopAfter forward skip streams f ops).tails.get? key = none := by
  induction ops using List.reverseRecOn with
  | nil => rfl
  | append_singleton ops op ih =>
    rw [eventLoopAfter, run_snoc, ← eventLoopAfter]
    exact ((synced_eventLoopAfter streams f ops).tails_step forward op key).2.2
      (ih fun o ho => h o (List.mem_append_left _ ho)) (h op (by simp))

theorem tails_of_discovered (streams : Streams α) (f : σ) {pre : List (EventLoopOp α)}
    {op : EventLoopOp α} {key : String} (hpre : ∀ op ∈ pre, ¬Discovers skip key op)
    (hop : Discovers skip key op) (post : List (EventLoopOp α)) :
    (eventLoopAfter forward skip streams f (pre ++ op :: post)).tails.get? key =
      some ((eventLoopAfter forward skip streams f pre).streams key).lastId := by
  have hs : (eventLoopAfter forward skip streams f pre).Synced skip :=
    synced_eventLoopAfter streams f pre
  have hfirst := (hs.tails_step forward op key).2.1 (tails_of_not_discovered streams f hpre) hop
  induction post using List.reverseRecOn with
  | nil =>
    rw [eventLoopAfter, run_append]
    exact hfirst
  | append_singleton post o ih =>
    rw [← List.cons_append, ← List.append_assoc, eventLoopAfter, run_snoc, ← eventLoopAfter]
    exact ((synced_eventLoopAfter streams f _).tails_step forward o key).1 _ ih

/-- The pass `op` discovers the stream for the first time in the run. -/
structure FirstDiscovered (skip : List String) (key : String) (ops pre : List (EventLoopOp α)) :
    Prop where
  inRun : ∃ op post, ops = pre ++ op :: post ∧ Discovers skip key op
  first : ∀ op ∈ pre, ¬Discovers skip key op

/-- For any run: nothing of an undiscovered stream is handed over. Of a discovered one,
which is none that NT reads, exactly the entries between its tail at that moment and its
cursor are, in order; and as many more rounds as there are unread entries hand over all
the rest, however many calls raise. -/
theorem entries_handed_exactly_once (forward : σ → α → σ × Bool) (skip : List String)
    (streams : Streams α) (f : σ) (ops : List (EventLoopOp α)) (key : String) :
    ((∀ op ∈ ops, ¬Discovers skip key op) →
      (eventLoopAfter forward skip streams f ops).handedOf key = []) ∧
    ∀ pre, FirstDiscovered skip key ops pre →
      key ∉ skip ∧
      (∃ c ≥ ((eventLoopAfter forward skip streams f pre).streams key).lastId,
        (eventLoopAfter forward skip streams f ops).handedOf key =
          ((eventLoopAfter forward skip streams f ops).streams key).between
            ((eventLoopAfter forward skip streams f pre).streams key).lastId c) ∧
      (eventLoopAfter forward skip streams f (ops ++
        List.replicate (eventLoopAfter forward skip streams f ops).backlog
          (.poll (eventLoopAfter forward skip streams f ops).lengths))).handedOf key =
        ((eventLoopAfter forward skip streams f ops).streams key).after
          ((eventLoopAfter forward skip streams f pre).streams key).lastId := by
  have hs : (eventLoopAfter forward skip streams f ops).Synced skip :=
    synced_eventLoopAfter streams f ops
  constructor
  · intro hnone
    have htail : (eventLoopAfter forward skip streams f ops).tails.get? key = none :=
      tails_of_not_discovered streams f hnone
    cases hc : (eventLoopAfter forward skip streams f ops).cursors.get? key with
    | none => exact (hs.fresh key hc).2
    | some c =>
      obtain ⟨-, -, t, -, ht, -⟩ := hs.watched key c hc
      simp [htail] at ht
  · rintro pre ⟨⟨op, post, hops, hop⟩, hpre⟩
    have htail : (eventLoopAfter forward skip streams f ops).tails.get? key =
        some ((eventLoopAfter forward skip streams f pre).streams key).lastId := by
      rw [hops]
      exact tails_of_discovered streams f hpre hop post
    generalize ((eventLoopAfter forward skip streams f pre).streams key).lastId = t at htail
    have hrest : eventLoopAfter forward skip streams f (ops ++
        List.replicate (eventLoopAfter forward skip streams f ops).backlog
          (.poll (eventLoopAfter forward skip streams f ops).lengths)) =
        run (eventLoopStep forward skip) (eventLoopAfter forward skip streams f ops)
          (List.replicate (eventLoopAfter forward skip streams f ops).backlog
            (.poll (eventLoopAfter forward skip streams f ops).lengths)) := run_append _ _ _ _
    rw [hrest]
    generalize eventLoopAfter forward skip streams f ops = s at hs htail
    cases hc : s.cursors.get? key with
    | none => simp [(hs.fresh key hc).1] at htail
    | some c =>
      obtain ⟨hskip, -, t', htc, htail', hhanded⟩ := hs.watched key c hc
      obtain rfl : t' = t := by simpa [htail'] using htail
      refine ⟨hskip, ⟨c, htc, hhanded⟩, ?_⟩
      exact hs.handed_all forward htail hc

end TinoHelm
