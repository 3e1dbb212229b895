import TinoHelm.Base.Machine
import TinoHelm.Spec.Intake

/-! When the fill that completes an order reaches Discord. The tracker is compared
with the order's own history of events: a slot knows the events of its order
since it was created, the operator means all of them. -/

namespace TinoHelm
open Base OrderProgressTracker

section
variable [FloatArith] (dec : Decoders) (ch : Channels)

/-- What happens to the tracker: a stream entry is taken in, or a finished `_send`
releases the slot of its order. -/
inductive IntakeOp where
  | entry (registry : Registry) (fields : StreamEntry)
  | release (body : Value)

def intakeStep (t : OrderProgressTracker) : IntakeOp → OrderProgressTracker
  | .entry registry fields => ((forwardStreamEntry dec fields (some t) registry ch).tracker).getD t
  | .release body => (t.forgetIfTerminal body).1

def trackerAfter (cap : ℕ) (ops : List IntakeOp) : OrderProgressTracker :=
  run (intakeStep dec ch) { maxOrders := cap } ops

/-- The event of order `k` an operation brings, if it brings one. -/
def eventOf (k : HashKey) : IntakeOp → Option Value
  | .entry _ fields =>
    match observed dec fields with
    | some (_, body) => if orderKey body = .ok (some k) then some body else none
    | none => none
  | .release _ => none

def orderEvents (k : HashKey) (ops : List IntakeOp) : List Value := ops.filterMap (eventOf dec k)

/-- The quantity carried by the latest event of one of the given types that has one. -/
def latestQuantity (types : List String) (events : List Value) : Option PyFloat :=
  events.foldl
    (fun q e => if types.any ((e.get "type").isStr ·) then (numField e "quantity").or q else q) none

/-- The order's current quantity: `OrderUpdated` carries `quantity` too. -/
def currentQuantity (events : List Value) : Option PyFloat :=
  latestQuantity ["OrderInitialized", "OrderUpdated"] events

def initializedQuantity (events : List Value) : Option PyFloat :=
  latestQuantity ["OrderInitialized"] events

def filledQuantity (events : List Value) : PyFloat :=
  events.foldl
    (fun s e =>
      if (e.get "type").isStr "OrderFilled" then ((numField e "last_qty").map (s + ·)).getD s else s)
    0

/-- `body` is the fill of order `k` that brings its sum up to its current quantity. -/
def Completes (k : HashKey) (pre : List IntakeOp) (body : Value) : Prop :=
  body.get "type" = .str "OrderFilled" ∧
    ∃ q, currentQuantity (orderEvents dec k pre) = some q ∧
      filledQuantity (orderEvents dec k pre) < q ∧
      q ≤ filledQuantity (orderEvents dec k pre ++ [body])

/-- The gates let the event through and `enqueue` is called with it. -/
def Forwarded (t : OrderProgressTracker) (registry : Registry) (fields : StreamEntry) : Prop :=
  ∃ env channel, (forwardStreamEntry dec fields (some t) registry ch).result =
    .ok (some (env, channel))

/-- The events of order `k` since its slot was last absent, next to the tracker. -/
def slotStep (k : HashKey) (s : OrderProgressTracker × List Value) (op : IntakeOp) :
    OrderProgressTracker × List Value :=
  let t := intakeStep dec ch s.1 op
  (t, if (t.slot k).isNone then [] else s.2 ++ (eventOf dec k op).toList)

def slotEvents (cap : ℕ) (k : HashKey) (ops : List IntakeOp) : List Value :=
  (run (slotStep dec ch k) ({ maxOrders := cap }, []) ops).2

/-- The slot agrees with a history of its order. -/
def Tracks (p : OrderProgress) (events : List Value) : Prop :=
  p.qtyTotal = initializedQuantity events ∧ p.qtyFilled = filledQuantity events

variable {dec ch}

theorem trackerAfter_snoc (cap : ℕ) (pre : List IntakeOp) (op : IntakeOp) :
    trackerAfter dec ch cap (pre ++ [op]) = intakeStep dec ch (trackerAfter dec ch cap pre) op :=
  run_snoc _ _ pre op

theorem latestQuantity_snoc (types : List String) (events : List Value) (e : Value) :
    latestQuantity types (events ++ [e]) =
      if types.any ((e.get "type").isStr ·) then
        (numField e "quantity").or (latestQuantity types events)
      else latestQuantity types events := by
  simp [latestQuantity]

theorem filledQuantity_snoc (events : List Value) (e : Value) :
    filledQuantity (events ++ [e]) =
      if (e.get "type").isStr "OrderFilled" then
        ((numField e "last_qty").map (filledQuantity events + ·)).getD (filledQuantity events)
      else filledQuantity events := by
  simp [filledQuantity]

theorem tracks_new : Tracks {} [] := ⟨rfl, rfl⟩

theorem Tracks.record {p : OrderProgress} {events : List Value} (h : Tracks p events)
    (body : Value) : Tracks (p.record body).1 (events ++ [body]) := by
  obtain ⟨ht, hf⟩ := h
  have hl : (p.latchIdentity body).qtyTotal = p.qtyTotal ∧
      (p.latchIdentity body).qtyFilled = p.qtyFilled := ⟨rfl, rfl⟩
  unfold Tracks initializedQuantity
  rw [latestQuantity_snoc, filledQuantity_snoc]
  by_cases hi : body.get "type" = .str "OrderInitialized"
  · obtain ⟨h1, h2⟩ := recordInitialized_fst (p.latchIdentity body) body
    rw [record_of_initialized p hi, h1, h2, hl.1, hl.2, ht, hf]
    simp [hi, initializedQuantity]
  · by_cases hg : body.get "type" = .str "OrderFilled"
    · obtain ⟨h1, h2⟩ := recordFilled_fst (p.latchIdentity body) body
      rw [record_of_filled p hg, h1, h2, hl.1, hl.2, ht, hf]
      simp [hg, initializedQuantity]
    · rw [record_of_other p hi hg]
      rw [← Value.isStr_iff, Bool.not_eq_true] at hi hg
      simp [hi, hg, hl.1, hl.2, ht, hf, initializedQuantity]

/-- One operation on the slots: it brings an event of the order into its slot, and
every other slot is kept or dropped whole. -/
theorem intakeStep_slot (t : OrderProgressTracker) (op : IntakeOp) (k : HashKey) :
    (intakeStep dec ch t op).slot k = none ∨
      (intakeStep dec ch t op).slot k =
        match eventOf dec k op with
        | some body => some (((t.slot k).getD {}).record body).1
        | none => t.slot k := by
  cases op with
  | release body => exact forgetIfTerminal_slot t body k
  | entry registry fields =>
    simp only [intakeStep, eventOf]
    cases ho : observed dec fields with
    | none =>
      rw [forwardStreamEntry_not_observed ho]
      exact Or.inr rfl
    | some tb =>
      obtain ⟨topic, body⟩ := tb
      rw [forwardStreamEntry_tracker ho, feed, Option.getD_some]
      cases hk : orderKey body with
      | error e =>
        rw [observe_of_orderKey_none (by simp [hk])]
        exact Or.inr (by simp [hk])
      | ok j =>
        cases j with
        | none =>
          rw [observe_of_orderKey_none (by simp [hk])]
          exact Or.inr (by simp [hk])
        | some j =>
          refine (observe_slot hk k).imp id fun h => h.trans ?_
          by_cases hj : k = j
          · simp [hk, hj]
          · simp [hk, hj, Ne.symm hj]

theorem slotStep_run_fst (cap : ℕ) (k : HashKey) (ops : List IntakeOp) :
    (run (slotStep dec ch k) ({ maxOrders := cap }, []) ops).1 = trackerAfter dec ch cap ops := by
  induction ops using List.reverseRecOn with
  | nil => rfl
  | append_singleton pre op ih => rw [run_snoc, trackerAfter_snoc, slotStep, ih]

theorem slotEvents_snoc (cap : ℕ) (k : HashKey) (pre : List IntakeOp) (op : IntakeOp) :
    slotEvents dec ch cap k (pre ++ [op]) =
      if ((trackerAfter dec ch cap (pre ++ [op])).slot k).isNone then []
      else slotEvents dec ch cap k pre ++ (eventOf dec k op).toList := by
  rw [slotEvents, run_snoc, slotStep, slotStep_run_fst, trackerAfter_snoc]
  rfl

/-- Along every run a slot is in step with the events since its creation, in every sense
that recording one more event preserves. -/
theorem slot_follows {R : OrderProgress → List Value → Prop} (hnew : R {} [])
    (hrecord : ∀ p events body, R p events → R (p.record body).1 (events ++ [body])) (cap : ℕ)
    (k : HashKey) (ops : List IntakeOp) :
    R (((trackerAfter dec ch cap ops).slot k).getD {}) (slotEvents dec ch cap k ops) := by
  induction ops using List.reverseRecOn with
  | nil => exact hnew
  | append_singleton pre op ih =>
    rw [slotEvents_snoc]
    cases hs : (trackerAfter dec ch cap (pre ++ [op])).slot k with
    | none => exact hnew
    | some p =>
      have hrun : (intakeStep dec ch (trackerAfter dec ch cap pre) op).slot k = some p := by
        rw [← hs, trackerAfter_snoc]
      have hstep := (intakeStep_slot (trackerAfter dec ch cap pre) op k).resolve_left
        (by rw [hrun]; simp)
      rw [hrun] at hstep
      simp only [Option.isNone_some, Bool.false_eq_true, if_false, Option.getD_some]
      cases he : eventOf dec k op with
      | none =>
        rw [he] at hstep
        simpa [← hstep] using ih
      | some body =>
        rw [he, Option.some.injEq] at hstep
        rw [hstep]
        exact hrecord _ _ body ih

theorem slot_tracks (cap : ℕ) (k : HashKey) (ops : List IntakeOp) :
    Tracks (((trackerAfter dec ch cap ops).slot k).getD {}) (slotEvents dec ch cap k ops) :=
  slot_follows tracks_new (fun _ _ body h => h.record body) cap k ops

/-- A fill passes the deny-lists; the fill gate asks whether its slot is complete. -/
theorem forwarded_fill_iff {t : OrderProgressTracker} {fields : StreamEntry} {topic : String}
    {body : Value} {k : HashKey} {last : PyFloat} (ho : observed dec fields = some (topic, body))
    (hk : orderKey body = .ok (some k)) (hf : body.get "type" = .str "OrderFilled")
    (hq : numField body "last_qty" = some last) (registry : Registry) :
    Forwarded dec ch t registry fields ↔
      (∃ px, (body.get "last_px").toFloat = .ok px) ∧
        ((t.observe body).1.slot k).all OrderProgress.isComplete = true := by
  obtain ⟨hd, hc, hh⟩ := orderKey_eq_some hk
  have hcomp : componentStatePasses body = true := by simp [componentStatePasses, hd, hf]
  have horder : shouldForwardOrderEvent body = .ok true := typeNotIn_str hd hf
  have htype : shouldForwardEventType body = .ok true := typeNotIn_str hd hf
  have hfill : shouldForwardFill body (some (t.observe body).1) =
      .ok (((t.observe body).1.slot k).all OrderProgress.isComplete) := by
    simp [shouldForwardFill, hd, hf, hc, snapshot, hh, Except.map]
  rw [← recordFilled_snd (((t.slot k).getD {}).latchIdentity body) body hq,
    ← record_of_filled _ hf, ← observe_snd hk]
  unfold Forwarded
  rw [forwardStreamEntry_observed ho]
  cases he : (t.observe body).2 with
  | some e => simp [feed, he]
  | none =>
    simp only [feed, he, hcomp, horder, htype, hfill, true_and]
    cases ((t.observe body).1.slot k).all OrderProgress.isComplete with
    | false => simp
    | true => simp

theorem trackerAfter_maxOrders (cap : ℕ) (ops : List IntakeOp) :
    (trackerAfter dec ch cap ops).maxOrders = cap := by
  refine run_invariant (I := fun t : OrderProgressTracker => t.maxOrders = cap) rfl (fun t op ht => ?_) ops
  cases op with
  | release body => simpa [intakeStep] using ht
  | entry registry fields =>
    cases ho : observed dec fields with
    | none => simpa [intakeStep, forwardStreamEntry_not_observed ho] using ht
    | some tb =>
      obtain ⟨topic, body⟩ := tb
      simpa [intakeStep, forwardStreamEntry_tracker ho, feed] using ht

/-- The fills a slot knows of reach the quantity its order was initialised with. -/
def ReachesInitialized (events : List Value) : Prop :=
  ∀ q, initializedQuantity events = some q → q - FloatArith.round (1 / 10 ^ 9) ≤ filledQuantity events

theorem Tracks.isComplete_iff {p : OrderProgress} {events : List Value} (h : Tracks p events) :
    p.isComplete = true ↔ ReachesInitialized events := by
  obtain ⟨ht, hf⟩ := h
  unfold OrderProgress.isComplete ReachesInitialized
  rw [← ht, ← hf]
  cases p.qtyTotal <;> simp

omit [FloatArith] in
theorem eventOf_entry {k : HashKey} {registry : Registry} {fields : StreamEntry} {body : Value}
    (h : eventOf dec k (.entry registry fields) = some body) :
    ∃ topic, observed dec fields = some (topic, body) ∧ orderKey body = .ok (some k) := by
  simp only [eventOf] at h
  cases ho : observed dec fields with
  | none => simp [ho] at h
  | some tb =>
    obtain ⟨topic, b⟩ := tb
    simp only [ho] at h
    split_ifs at h with hk
    cases h
    exact ⟨topic, rfl, hk⟩

theorem Completes.last_qty {k : HashKey} {pre : List IntakeOp} {body : Value}
    (h : Completes dec k pre body) : ∃ last, numField body "last_qty" = some last := by
  obtain ⟨hf, q, -, hlt, hle⟩ := h
  rw [filledQuantity_snoc, hf] at hle
  cases hq : numField body "last_qty" with
  | some last => exact ⟨last, rfl⟩
  | none =>
    simp only [hq, Value.isStr_str, decide_true, if_true, Option.map_none, Option.getD_none] at hle
    exact absurd hle (PyFloat.not_le_of_lt hlt)

theorem complete_slot_iff {cap : ℕ} (hc : 0 < cap) (pre : List IntakeOp) {body : Value}
    {k : HashKey} (hk : orderKey body = .ok (some k)) :
    (((trackerAfter dec ch cap pre).observe body).1.slot k).all OrderProgress.isComplete = true ↔
      ReachesInitialized (slotEvents dec ch cap k pre ++ [body]) := by
  have hprog : Tracks _ (slotEvents dec ch cap k pre) := slot_tracks cap k pre
  rw [observe_slot_self hk (by rwa [trackerAfter_maxOrders])]
  simp [(hprog.record body).isComplete_iff]

structure CompletingFill (dec : Decoders) (ops pre : List IntakeOp) (registry : Registry)
    (fields : StreamEntry) (k : HashKey) (body : Value) : Prop where
  inRun : ∃ post, ops = pre ++ .entry registry fields :: post
  event : eventOf dec k (.entry registry fields) = some body
  completes : Completes dec k pre body

theorem CompletingFill.forwarded_iff {cap : ℕ} (hc : 0 < cap) {ops pre : List IntakeOp}
    {registry : Registry} {fields : StreamEntry} {k : HashKey} {body : Value}
    (h : CompletingFill dec ops pre registry fields k body) :
    Forwarded dec ch (trackerAfter dec ch cap pre) registry fields ↔
      (∃ px, (body.get "last_px").toFloat = .ok px) ∧
        ReachesInitialized (slotEvents dec ch cap k pre ++ [body]) := by
  obtain ⟨topic, ho, hk⟩ := eventOf_entry h.event
  obtain ⟨last, hq⟩ := h.completes.last_qty
  rw [forwarded_fill_iff ho hk h.completes.1 hq registry, complete_slot_iff hc pre hk]

/-- The stream entry of an order event of strategy `S-h`. -/
def orderEntry (body : List (String × String)) : StreamEntry :=
  ⟨some "events.order.S-h".toByteArray, .bytes (Json.dumps body).toByteArray⟩

def textBody (body : List (String × String)) : Value :=
  .dict (body.map fun m => (.str m.1, .str m.2))

omit [FloatArith] in
theorem observed_orderEntry {body : List (String × String)} (h : (body.map Prod.fst).Nodup) :
    observed textDecoders (orderEntry body) = some ("events.order.S-h", textBody body) := by
  have hp : parsePayload textDecoders (.bytes (Json.dumps body).toByteArray) = .ok (textBody body) := by
    simp [parsePayload, textDecoders, Json.loads_dumps body h, textBody]
  have ht : shouldForwardTopic "events.order.S-h" = true := by decide
  simp [observed, orderEntry, hp, ht, Except.toOption]

/-! An order for 10 that fills 4, is amended down to 6 and then fills 2. -/

def initializedTen : List (String × String) :=
  [("type", "OrderInitialized"), ("client_order_id", "O-1"), ("quantity", "10")]

def filledFour : List (String × String) :=
  [("type", "OrderFilled"), ("client_order_id", "O-1"), ("last_qty", "4"), ("last_px", "1")]

def updatedSix : List (String × String) :=
  [("type", "OrderUpdated"), ("client_order_id", "O-1"), ("quantity", "6")]

def filledTwo : List (String × String) :=
  [("type", "OrderFilled"), ("client_order_id", "O-1"), ("last_qty", "2"), ("last_px", "1")]

def amendedDown : List IntakeOp :=
  [initializedTen, filledFour, updatedSix, filledTwo].map fun b => .entry .empty (orderEntry b)

omit [FloatArith] in
theorem orderEvents_orderEntries {k : HashKey} {bodies : List (List (String × String))}
    (h : ∀ b ∈ bodies, (b.map Prod.fst).Nodup ∧ orderKey (textBody b) = .ok (some k)) :
    orderEvents textDecoders k (bodies.map fun b => .entry .empty (orderEntry b)) =
      bodies.map textBody := by
  induction bodies with
  | nil => rfl
  | cons b bodies ih =>
    obtain ⟨hb, hk⟩ := h b List.mem_cons_self
    have he : eventOf textDecoders k (.entry .empty (orderEntry b)) = some (textBody b) := by
      simp [eventOf, observed_orderEntry hb, hk]
    rw [List.map_cons, orderEvents, List.filterMap_cons_some he, List.map_cons]
    exact congrArg _ (ih fun b' hb' => h b' (List.mem_cons_of_mem b hb'))

theorem trackerAfter_orderEntries (ch : Channels) (cap : ℕ)
    {bodies : List (List (String × String))} (h : ∀ b ∈ bodies, (b.map Prod.fst).Nodup) :
    trackerAfter textDecoders ch cap (bodies.map fun b => .entry .empty (orderEntry b)) =
      run (fun t b => (t.observe (textBody b)).1) { maxOrders := cap } bodies := by
  unfold trackerAfter
  generalize ({ maxOrders := cap } : OrderProgressTracker) = t
  induction bodies generalizing t with
  | nil => rfl
  | cons b bodies ih =>
    rw [List.map_cons, run_cons, run_cons, ih fun b' hb' => h b' (List.mem_cons_of_mem b hb')]
    simp [intakeStep, forwardStreamEntry_tracker (observed_orderEntry (h b List.mem_cons_self)),
      feed]

/-- No completed order of a run is silent exactly when every completing fill has a
price `float` can hold, and also reaches the quantity the order's slot was
initialised with: `observe` never reads the quantity of an `OrderUpdated`. -/
theorem completing_fills_forwarded_iff (dec : Decoders) (ch : Channels) {cap : ℕ} (hc : 0 < cap)
    (ops : List IntakeOp) :
    (∀ pre registry fields k body, CompletingFill dec ops pre registry fields k body →
        Forwarded dec ch (trackerAfter dec ch cap pre) registry fields) ↔
      ∀ pre registry fields k body, CompletingFill dec ops pre registry fields k body →
        (∃ px, (body.get "last_px").toFloat = .ok px) ∧
          ReachesInitialized (slotEvents dec ch cap k pre ++ [body]) := by
  constructor
  · intro h pre registry fields k body hf
    exact (hf.forwarded_iff hc).1 (h pre registry fields k body hf)
  · intro h pre registry fields k body hf
    exact (hf.forwarded_iff hc).2 (h pre registry fields k body hf)

end

section
open scoped Exact

theorem completing_fills_forwarded_iff_amendedDown :
    0 < 2000 ∧
      ((∀ pre registry fields k body,
        CompletingFill textDecoders amendedDown pre registry fields k body →
          Forwarded textDecoders ⟨1, 2, 3⟩ (trackerAfter textDecoders ⟨1, 2, 3⟩ 2000 pre) registry
            fields) ↔
        ∀ pre registry fields k body,
          CompletingFill textDecoders amendedDown pre registry fields k body →
            (∃ px, (body.get "last_px").toFloat = .ok px) ∧
              ReachesInitialized (slotEvents textDecoders ⟨1, 2, 3⟩ 2000 k pre ++ [body])) :=
  ⟨by decide, completing_fills_forwarded_iff textDecoders ⟨1, 2, 3⟩ (by decide) amendedDown⟩

/-- The fill of 2 completes the amended order and is suppressed. -/
theorem amended_order_fills_silently :
    ¬ ∀ pre registry fields k body,
      CompletingFill textDecoders amendedDown pre registry fields k body →
        Forwarded textDecoders ⟨1, 2, 3⟩ (trackerAfter textDecoders ⟨1, 2, 3⟩ 2000 pre) registry
          fields := by
  intro h
  have hkeys : ∀ b ∈ [initializedTen, filledFour, updatedSix], (b.map Prod.fst).Nodup ∧
      orderKey (textBody b) = .ok (some (.str "O-1")) := by
    simp only [List.forall_mem_cons]
    refine ⟨⟨by decide, rfl⟩, ⟨by decide, rfl⟩, ⟨by decide, rfl⟩, by simp⟩
  have hfill : observed textDecoders (orderEntry filledTwo) = _ := observed_orderEntry (by decide)
  have hkey : orderKey (textBody filledTwo) = .ok (some (.str "O-1")) := rfl
  have hcompl : Completes textDecoders (.str "O-1")
      ([initializedTen, filledFour, updatedSix].map fun b => .entry .empty (orderEntry b))
      (textBody filledTwo) := by
    refine ⟨rfl, .fin 6, ?_⟩
    rw [orderEvents_orderEntries hkeys]
    decide +kernel
  have hfwd := h _ .empty _ _ _ ⟨⟨[], rfl⟩, by simp [eventOf, hfill, hkey], hcompl⟩
  have hlast : numField (textBody filledTwo) "last_qty" = some (.fin 2) := by decide +kernel
  rw [forwarded_fill_iff hfill hkey rfl hlast, trackerAfter_orderEntries _ _ fun b hb => (hkeys b hb).1] at hfwd
  exact absurd hfwd.2 (by decide +kernel)

end

end TinoHelm
