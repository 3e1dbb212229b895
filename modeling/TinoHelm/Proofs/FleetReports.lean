import TinoHelm.Proofs.CommandDelivery
import TinoHelm.Proofs.NodeModes
import TinoHelm.Proofs.RegistryConfluence
import TinoHelm.Spec.Fleet

/-! Reports of the whole fleet: however Redis trims the announce stream, a report command
goes once to each pod among the newest announces, and each of these pods that runs sends
one report to the logging channel. -/

namespace TinoHelm
open Base

variable {Cls Inst : Type} {nt : NtBus} {encode : Value → ByteArray} {repr : Value → String}

/-! ### What is in the stream -/

namespace Boot

def announce (repr : Value → String) (b : Boot Cls Inst) : Option Announce := do
  let file ← b.file?
  let _ ← b.announced repr
  some ⟨file.strategyId, file.mode, b.ntVersion, tinoProtocolVersion⟩

end Boot

def FleetOp.announced (repr : Value → String) : FleetOp Cls Inst → Option Fields
  | .boot b => b.announced repr
  | _ => none

def FleetOp.announce (repr : Value → String) : FleetOp Cls Inst → Option Announce
  | .boot b => b.announce repr
  | _ => none

/-- The announces of a run that reached Redis, the oldest first. -/
def announcesOf (repr : Value → String) (ops : List (FleetOp Cls Inst)) : List Announce :=
  ops.filterMap (FleetOp.announce repr)

theorem retains_fleetAfter (nt : NtBus) (encode : Value → ByteArray) (repr : Value → String)
    (ops : List (FleetOp Cls Inst)) :
    Retains announceMaxlen (fleetAfter nt encode repr ops).stream
      (ops.filterMap (FleetOp.announced repr)) := by
  refine run_history (I := fun ops (f : Fleet) =>
    Retains announceMaxlen f.stream (ops.filterMap (FleetOp.announced repr))) (retains_nil _)
    (fun pre op ih => ?_) ops
  rw [List.filterMap_append]
  cases op with
  | boot b =>
    simp only [fleetStep, FleetOp.announced, List.filterMap_cons, List.filterMap_nil]
    cases b.announced repr with
    | none => simpa using ih
    | some fields => exact ih.pushCapped b.trim fields
  | exit i => rwa [List.filterMap_cons_none rfl, List.filterMap_nil, List.append_nil]
  | command c => rwa [List.filterMap_cons_none rfl, List.filterMap_nil, List.append_nil]

def announceFields (a : Announce) (traderId ts : ByteArray) : Fields :=
  [("strategy_id", a.strategyId.toByteArray), ("mode", a.mode.toByteArray), ("trader_id", traderId),
    ("ts", ts), ("nt_version", a.ntVersion.toByteArray),
    ("tino_protocol_version", a.protoVersion.toByteArray)]

def IsAnnounce (fields : Fields) (a : Announce) : Prop :=
  ∃ traderId ts, fields = announceFields a traderId ts

theorem announceEntry_ok {file : TinoStrategyFile} {ntVersion : String} {tsMs : ℕ} {fields : Fields}
    (h : announceEntry repr file ntVersion tsMs = some fields) :
    IsAnnounce fields ⟨file.strategyId, file.mode, ntVersion, tinoProtocolVersion⟩ := by
  simp only [announceEntry, publishAnnounce, List.mapM_cons, List.mapM_nil, redisField,
    Option.map_some, Option.bind_eq_bind, Option.bind_some, Option.pure_def,
    Option.bind_eq_some_iff, Option.map_eq_some_iff, Option.some.injEq] at h
  obtain ⟨_, ⟨_, ⟨_, ⟨traderId, -, rfl⟩, rfl⟩, rfl⟩, rfl⟩ := h
  exact ⟨traderId, _, rfl⟩

namespace IsAnnounce

variable {fields : Fields} {a : Announce}

theorem lookup (h : IsAnnounce fields a) :
    fields.lookup "strategy_id" = some a.strategyId.toByteArray := by
  obtain ⟨traderId, ts, rfl⟩ := h
  rfl

theorem readAnnounce (h : IsAnnounce fields a) : readAnnounce fields = .ok (some a) := by
  obtain ⟨traderId, ts, rfl⟩ := h
  simp [TinoHelm.readAnnounce, announceFields, List.lookup_cons, decodeOr]

theorem wellEncoded (h : IsAnnounce fields a) : WellEncoded fields := by
  obtain ⟨traderId, ts, rfl⟩ := h
  intro name hn b hb
  simp only [List.mem_cons, List.not_mem_nil, or_false] at hn
  rcases hn with rfl | rfl | rfl | rfl
  all_goals
    obtain rfl := Option.some.inj hb
    exact ⟨_, decodeUtf8_toByteArray _⟩

end IsAnnounce

theorem announced_step (repr : Value → String) (op : FleetOp Cls Inst) :
    Option.Rel IsAnnounce (op.announced repr) (op.announce repr) := by
  cases op with
  | exit i => exact Option.Rel.none
  | command c => exact Option.Rel.none
  | boot b =>
    simp only [FleetOp.announced, FleetOp.announce, Boot.announce]
    cases hf : b.file? with
    | none =>
      have hnone : b.announced repr = none := by
        rw [Boot.announced, hf]
        exact ite_self _
      rw [hnone]
      exact Option.Rel.none
    | some file =>
      cases ha : b.announced repr with
      | none => exact Option.Rel.none
      | some fields =>
        rw [Boot.announced, hf, Option.bind_some] at ha
        split_ifs at ha
        exact Option.Rel.some (announceEntry_ok ha)

theorem forall₂_announces (repr : Value → String) (ops : List (FleetOp Cls Inst)) :
    List.Forall₂ IsAnnounce (ops.filterMap (FleetOp.announced repr)) (announcesOf repr ops) := by
  induction ops with
  | nil => exact .nil
  | cons op ops ih =>
    rw [announcesOf, List.filterMap_cons, List.filterMap_cons]
    have hstep := announced_step repr op
    cases hf : op.announced repr with
    | none =>
      rw [hf] at hstep
      cases ha : op.announce repr with
      | none => exact ih
      | some a =>
        rw [ha] at hstep
        cases hstep
    | some fields =>
      rw [hf] at hstep
      cases ha : op.announce repr with
      | none =>
        rw [ha] at hstep
        cases hstep
      | some a =>
        rw [ha] at hstep
        cases hstep with
        | some hstep => exact .cons hstep ih

/-! ### Who is asked -/

/-- The distinct ids, the one with the newest announce first. -/
def fanOutIds (announces : List Announce) : List String :=
  ((announces.map Announce.strategyId).dedup).reverse

theorem announcedIds_eq {newestFirst : List Fields} {announces : List Announce}
    (h : List.Forall₂ IsAnnounce newestFirst announces) :
    announcedIds newestFirst = .ok (fanOutIds announces.reverse) := by
  have hfold : ∀ seen, newestFirst.foldlM noteId seen =
      .ok ((announces.map Announce.strategyId).foldl (fun d k => d.setdefault k ()) seen) := by
    induction h with
    | nil => exact fun _ => rfl
    | cons ha _ ih =>
      intro seen
      simp only [List.foldlM_cons, noteId, ha.lookup, decodeUtf8_toByteArray, ok_bind]
      exact ih _
  rw [announcedIds, hfold]
  simp only [ok_bind, Dict.keys_foldl_setdefault, fanOutIds, List.map_reverse]

theorem fanOutIds_eq_nil (announces : List Announce) : fanOutIds announces = [] ↔ announces = [] := by
  rw [fanOutIds, List.reverse_eq_nil_iff, List.dedup_eq_nil, List.map_eq_nil_iff]

def fanOutOf (announces : List Announce) (action : String) : FanOut :=
  if announces = [] then .echoed noStrategiesYet
  else .published ((fanOutIds announces).map fun sid => publishCommand sid action none)

theorem entries_of_fanOutOf {announces : List Announce} {action : String}
    {entries : List ControlEntry} (h : fanOutOf announces action = .published entries) :
    entries = (fanOutIds announces).map fun sid => publishCommand sid action none := by
  unfold fanOutOf at h
  split_ifs at h
  exact (FanOut.published.inj h).symm

theorem fanOutCommand_eq (nt : NtBus) (encode : Value → ByteArray) (repr : Value → String)
    (ops : List (FleetOp Cls Inst)) (action : String) :
    fanOutCommand (fleetAfter nt encode repr ops).stream action none =
      .ok (fanOutOf ((announcesOf repr ops).rtake 1000) action) := by
  have hall := forall₂_announces repr ops
  have hnewest : List.Forall₂ IsAnnounce ((fleetAfter nt encode repr ops).stream.reverse.take 1000)
      ((announcesOf repr ops).rtake 1000).reverse := by
    have hread := (retains_fleetAfter nt encode repr ops).rtake (le_refl 1000)
    rw [← List.reverse_reverse (List.take _ _), ← List.rtake_eq_reverse_take_reverse, hread,
      List.forall₂_reverse_iff, List.rtake, List.rtake, hall.length_eq]
    exact List.forall₂_drop _ hall
  rw [fanOutCommand, Option.filter_none]
  simp only [announcedIds_eq hnewest, List.reverse_reverse, ok_bind, fanOutOf]
  by_cases h : (announcesOf repr ops).rtake 1000 = []
  · rw [if_pos h, if_pos (by rw [(fanOutIds_eq_nil _).2 h]; rfl)]
  · rw [if_neg h, if_neg]
    intro he
    exact h ((fanOutIds_eq_nil _).1 (List.isEmpty_iff.1 he))

/-! ### What a notifier reads that starts now -/

theorem exists_rawEntries {entries : List (StreamId × Fields)} {announces : List Announce}
    (h : List.Forall₂ IsAnnounce (entries.map Prod.snd) announces) :
    ∃ es, rawEntries es = entries ∧ announcesIn es = announces := by
  induction entries generalizing announces with
  | nil =>
    cases h
    exact ⟨[], rfl, rfl⟩
  | cons e entries ih =>
    cases h with
    | cons ha htail =>
      obtain ⟨es, hes, hin⟩ := ih htail
      refine ⟨(e.1, ⟨e.2, ha.wellEncoded⟩) :: es, congrArg (e :: ·) hes, ?_⟩
      have hread : AnnounceEntry.announce ⟨e.2, ha.wellEncoded⟩ = some _ :=
        congrArg (fun x => (x.toOption).join) ha.readAnnounce
      rw [announcesIn, List.filterMap_cons, hread, ← announcesIn, hin]

theorem newestMode_isSome {announces : List Announce} {a : Announce} (ha : a ∈ announces) :
    (newestMode announces a.strategyId).isSome := by
  have hmem : a ∈ announces.filter fun b => b.strategyId = a.strategyId :=
    List.mem_filter.2 ⟨ha, by simp⟩
  rw [newestMode, List.getLast?_eq_some_getLast (List.ne_nil_of_mem hmem)]
  rfl

/-- The announces of an end of the stream give each of their ids its newest mode. -/
theorem newestMode_suffix {announces kept : List Announce} (h : kept <:+ announces) {a : Announce}
    (ha : a ∈ kept) : newestMode kept a.strategyId = newestMode announces a.strategyId := by
  obtain ⟨dropped, rfl⟩ := h
  rw [newestMode_append, Option.or_of_isSome (newestMode_isSome ha)]

theorem exists_kept (nt : NtBus) (encode : Value → ByteArray) (repr : Value → String)
    (ops : List (FleetOp Cls Inst)) : ∃ kept, Retains announceMaxlen kept (announcesOf repr ops) ∧
      List.Forall₂ IsAnnounce (fleetAfter nt encode repr ops).stream kept := by
  have hwritten := forall₂_announces repr ops
  obtain ⟨hsuffix, henough⟩ := retains_fleetAfter nt encode repr ops
  have hkept := List.forall₂_drop ((ops.filterMap (FleetOp.announced repr)).length -
    (fleetAfter nt encode repr ops).stream.length) hwritten
  rw [← List.suffix_iff_eq_drop.1 hsuffix] at hkept
  refine ⟨_, ⟨List.drop_suffix _ _, ?_⟩, hkept⟩
  rw [← hkept.length_eq, ← hwritten.length_eq]
  exact henough

/-- However Redis trimmed the stream: a report command without an id goes to the distinct
ids of the newest thousand announces, and a notifier that starts now knows each of them
with the mode of its newest announce. -/
theorem fan_out_recent (nt : NtBus) (encode : Value → ByteArray) (repr : Value → String)
    (ops : List (FleetOp Cls Inst)) (action : String) :
    fanOutCommand (fleetAfter nt encode repr ops).stream action none =
        .ok (fanOutOf ((announcesOf repr ops).rtake 1000) action) ∧
      ∀ entries, entries.map Prod.snd = (fleetAfter nt encode repr ops).stream →
        ∃ registry cursor, loadAnnounceHistory entries = .ok (registry, cursor) ∧
          ∀ a ∈ (announcesOf repr ops).rtake 1000, ∃ mode,
            newestMode (announcesOf repr ops) a.strategyId = some mode ∧
              registry.get? a.strategyId = some mode := by
  refine ⟨fanOutCommand_eq nt encode repr ops action, fun entries hentries => ?_⟩
  obtain ⟨kept, hkept, hall⟩ := exists_kept nt encode repr ops
  rw [← hentries] at hall
  obtain ⟨es, rfl, hin⟩ := exists_rawEntries hall
  refine ⟨_, _, loadAnnounceHistory_rawEntries es, fun a ha => ?_⟩
  rw [← hkept.rtake (le_refl 1000)] at ha
  have hmem : a ∈ kept := List.mem_of_mem_drop ha
  obtain ⟨mode, hmode⟩ := Option.isSome_iff_exists.1 (newestMode_isSome hmem)
  refine ⟨mode, (newestMode_suffix hkept.suffix hmem).symm.trans hmode, ?_⟩
  rw [get?_applyAnnounces, hin, hmode, Option.some_or]

/-! ### Who answers -/

/-- The file lists no control stream of another pod, and its own at most once. -/
def OwnControlStream (file : TinoStrategyFile) : Prop :=
  ∀ user, userStreams file.raw = .ok user →
    user.countP (·.isStr (controlStreamKey file.strategyId)) ≤ 1 ∧
    ∀ h, h ≠ file.strategyId → user.countP (·.isStr (controlStreamKey h)) = 0

theorem assembled_pod {b : Boot Cls Inst} {p : StrategyPod} (h : b.pod? = some p)
    (hown : ∀ file, b.file? = some file → OwnControlStream file) (handles : List String) :
    Assembled handles p := by
  simp only [Boot.pod?, Option.bind_eq_bind, Option.bind_eq_some_iff, toOption_eq_some] at h
  obtain ⟨file, hfile, config, hconfig, registered, -, hstart⟩ := h
  split_ifs at hstart
  obtain rfl := Option.some.inj hstart
  have hbuilt := (builtFrom_of_ok hconfig).busAndController
  obtain ⟨user, huser, -⟩ := bind_eq_ok.1 hbuilt
  rw [mapError_eq_ok] at huser
  obtain ⟨hone, hnone⟩ := hown file hfile user huser
  simp only [Boot.file?, Option.bind_eq_bind, Option.bind_eq_some_iff, toOption_eq_some] at hfile
  obtain ⟨path, -, raw, -, hload⟩ := hfile
  exact ⟨b.loadEnv, path, raw, file, b.node.bus, config.toTradingNodeConfig, user, hload, hbuilt, rfl,
    huser, hone, fun other _ hne => hnone other hne⟩

/-- In a run whose files are like that, each pod reads its own control stream only. -/
theorem listens_fleetAfter (nt : NtBus) (encode : Value → ByteArray) (repr : Value → String)
    (handles : List String) {ops : List (FleetOp Cls Inst)}
    (hown : ∀ b, .boot b ∈ ops → ∀ file, b.file? = some file → OwnControlStream file) :
    ∀ p ∈ (fleetAfter nt encode repr ops).pods, Listens handles p := by
  revert hown
  refine run_history (I := fun ops (f : Fleet) =>
    (∀ b, FleetOp.boot b ∈ ops → ∀ file, b.file? = some file → OwnControlStream file) →
      ∀ p ∈ f.pods, Listens handles p) (fun _ p hp => absurd hp List.not_mem_nil)
    (fun pre op ih hown p hp => ?_) ops
  have hpods := ih fun b hb => hown b (List.mem_append_left _ hb)
  cases op with
  | boot b =>
    rcases List.mem_append.1 hp with hp | hp
    · exact hpods p hp
    · exact (assembled_pod (Option.mem_toList.1 hp) (hown b (by simp)) handles).listens
  | exit i => exact hpods p (List.mem_of_mem_eraseIdx hp)
  | command c =>
    obtain ⟨q, hq, rfl⟩ := List.mem_map.1 hp
    exact StrategyPod.listens_obey (hpods q hq) nt encode c

/-- One report of the pod, under the topic of the command; it reaches the logging channel. -/
def Reports (encode : Value → ByteArray) (dec : Decoders) (kind : ReportCommand) (handle : String)
    (calls : List BridgeCall) : Prop :=
  ∃ body, ReportBody handle body ∧ calls = [.publish kind.reportTopic (encode body)] ∧
    (dec.msgpack (encode body) = .ok body → ∀ tracker registry ch,
      (forwardStreamEntry dec ⟨some kind.reportTopic.toByteArray, .bytes (encode body)⟩ tracker
        registry ch).result = .ok (some (⟨kind.reportTopic, body⟩, ch.logging)))

/-- The command can be read back, and the pod it is for has loaded its strategy. -/
structure Command.Answerable (nt : NtBus) (encode : Value → ByteArray) (c : Command) : Prop where
  readable : nt.deserialize (encode (c.entry.body c.ts)) = .ok (c.entry.body c.ts)
  loaded : (c.runtime c.strategy).strategyIds ≠ []

namespace StrategyPod

variable {p : StrategyPod} {handles : List String} {cs : List Command}

theorem calls_cons (p : StrategyPod) (c : Command) (cs : List Command) :
    p.calls nt encode (c :: cs) =
      (p.obey nt encode c).2 ++ (p.obey nt encode c).1.calls nt encode cs := rfl

theorem calls_of_others (hp : Listens handles p) (hcs : ∀ c ∈ cs, c.strategy ∈ handles)
    (hne : ∀ c ∈ cs, c.strategy ≠ p.handle) : p.calls nt encode cs = [] := by
  induction cs with
  | nil => rfl
  | cons c cs ih =>
    have hquiet : p.obey nt encode c = (p, []) := by
      refine obey_of_unlisted ?_ nt encode
      rw [c.entry_key]
      exact hp.other _ (hcs c List.mem_cons_self) (hne c List.mem_cons_self)
    rw [calls_cons, hquiet, List.nil_append]
    exact ih (fun c' hc' => hcs c' (List.mem_cons_of_mem c hc'))
      fun c' hc' => hne c' (List.mem_cons_of_mem c hc')

theorem reports_obey (hnt : DocumentedWildcards nt.isMatching) (dec : Decoders)
    (hp : Listens handles p) {kind : ReportCommand} {c : Command} (hc : c.strategy = p.handle)
    (ha : c.action = kind.action) (hanswer : c.Answerable nt encode) :
    Reports encode dec kind p.handle (p.obey nt encode c).2 := by
  have hknown : c.action ∈ actions := by
    rw [ha]
    cases kind <;> decide
  obtain ⟨sid, -, hobeyed⟩ := obeyed_obey dec hp hc.symm (topic_matches hnt hp hc) hknown
    hanswer.readable hanswer.loaded
  obtain ⟨body, hbody, hcalls, -⟩ := hobeyed.report kind ha
  refine ⟨body, hc ▸ hbody, hcalls, fun hround tracker registry ch => ?_⟩
  have hparse : parsePayload dec (.bytes (encode body)) = .ok body := by
    simp only [parsePayload, hround]
  exact deliver_report (reportTopic_onDemand kind) hparse hbody .stream tracker registry ch

theorem calls_of_reports (hnt : DocumentedWildcards nt.isMatching) (dec : Decoders)
    (hp : Listens handles p) {kind : ReportCommand} (hcs : ∀ c ∈ cs, c.strategy ∈ handles)
    (hnodup : (cs.map Command.strategy).Nodup) (ha : ∀ c ∈ cs, c.action = kind.action)
    (hanswer : ∀ c ∈ cs, c.Answerable nt encode) :
    if p.handle ∈ cs.map Command.strategy then Reports encode dec kind p.handle (p.calls nt encode cs)
    else p.calls nt encode cs = [] := by
  induction cs with
  | nil => rfl
  | cons c cs ih =>
    rw [List.map_cons, List.nodup_cons] at hnodup
    have hrest := ih (fun c' hc' => hcs c' (List.mem_cons_of_mem c hc')) hnodup.2
      (fun c' hc' => ha c' (List.mem_cons_of_mem c hc'))
      fun c' hc' => hanswer c' (List.mem_cons_of_mem c hc')
    by_cases hc : c.strategy = p.handle
    · have hothers : (p.obey nt encode c).1.calls nt encode cs = [] := by
        refine calls_of_others (listens_obey hp nt encode c)
          (fun c' hc' => hcs c' (List.mem_cons_of_mem c hc')) fun c' hc' he => hnodup.1 ?_
        rw [hc, ← handle_obey nt encode p c, ← he]
        exact List.mem_map_of_mem hc'
      rw [if_pos (by simp [hc]), calls_cons, hothers, List.append_nil]
      exact reports_obey hnt dec hp hc (ha c List.mem_cons_self) (hanswer c List.mem_cons_self)
    · have hquiet : p.obey nt encode c = (p, []) := by
        refine obey_of_unlisted ?_ nt encode
        rw [c.entry_key]
        exact hp.other _ (hcs c List.mem_cons_self) hc
      rw [calls_cons, hquiet, List.nil_append]
      simpa [Ne.symm hc] using hrest

end StrategyPod

theorem publishCommand_inj {c : Command} {sid action : String}
    (h : c.entry = publishCommand sid action none) : c.strategy = sid ∧ c.action = action := by
  have hkey := congrArg ControlEntry.key h
  rw [c.entry_key] at hkey
  have haction := congrArg ControlEntry.action h
  rw [c.entry_action] at haction
  exact ⟨controlStreamKey_inj hkey, haction⟩

theorem strategies_of_entries {cs : List Command} {ids : List String} {action : String}
    (h : cs.map Command.entry = ids.map fun sid => publishCommand sid action none) :
    cs.map Command.strategy = ids ∧ ∀ c ∈ cs, c.action = action := by
  induction cs generalizing ids with
  | nil =>
    have hnil : ids = [] := List.map_eq_nil_iff.1 h.symm
    exact ⟨hnil.symm, by simp⟩
  | cons c cs ih =>
    cases ids with
    | nil => cases h
    | cons sid ids =>
      rw [List.map_cons, List.map_cons, List.cons.injEq] at h
      obtain ⟨hid, haction⟩ := publishCommand_inj h.1
      obtain ⟨hids, hactions⟩ := ih h.2
      refine ⟨by rw [List.map_cons, hid, hids], fun c' hc' => ?_⟩
      rcases List.mem_cons.1 hc' with rfl | hc'
      · exact haction
      · exact hactions c' hc'

/-- After any run of boots, exits and commands: the entries of a report command without an
id make each running pod among the newest thousand announces send one report, which
reaches the logging channel under its handle, and no other pod. -/
theorem fan_out_reports (hnt : DocumentedWildcards nt.isMatching) (encode : Value → ByteArray)
    (dec : Decoders) (repr : Value → String) {ops : List (FleetOp Cls Inst)}
    (hown : ∀ b, .boot b ∈ ops → ∀ file, b.file? = some file → OwnControlStream file)
    (kind : ReportCommand) {cs : List Command}
    (hcs : fanOutCommand (fleetAfter nt encode repr ops).stream kind.action none =
      .ok (.published (cs.map Command.entry)))
    (hanswer : ∀ c ∈ cs, c.Answerable nt encode) :
    ∀ p ∈ (fleetAfter nt encode repr ops).pods,
      if p.handle ∈ ((announcesOf repr ops).rtake 1000).map Announce.strategyId then
        Reports encode dec kind p.handle (p.calls nt encode cs)
      else p.calls nt encode cs = [] := by
  intro p hp
  rw [fanOutCommand_eq] at hcs
  generalize (announcesOf repr ops).rtake 1000 = recent at hcs
  obtain ⟨hids, haction⟩ := strategies_of_entries (entries_of_fanOutOf (Except.ok.inj hcs))
  have hnodup : (cs.map Command.strategy).Nodup := by
    rw [hids, fanOutIds, List.nodup_reverse]
    exact List.nodup_dedup _
  have hcalls := StrategyPod.calls_of_reports hnt dec
    (listens_fleetAfter nt encode repr (cs.map Command.strategy) hown p hp)
    (fun c hc => List.mem_map_of_mem hc) hnodup haction hanswer
  have hmem : p.handle ∈ cs.map Command.strategy ↔ p.handle ∈ recent.map Announce.strategyId := by
    rw [hids, fanOutIds, List.mem_reverse, List.mem_dedup]
  simpa only [hmem] using hcalls

/-! Two pods that start one after the other, and `fills` for the fleet. -/

def fleetFile (id : String) : Value :=
  .dict [(.str "strategy", .dict [(.str "id", .str id), (.str "class", .str "foo:Foo")])]

def fleetBoot (id : String) : Boot String String where
  strategyId := some id
  config := none
  files path := if path = "strategies/" ++ id ++ "/tinohelm.toml" then some (fleetFile id) else none
  loadEnv := ⟨none, none⟩
  node := plainNode
  ntVersion := "1.0"
  tsMs := 0
  redisUp := true
  trim := 5
  ntBuilds := true

def fleetOps : List (FleetOp String String) := [.boot (fleetBoot "h"), .boot (fleetBoot "g")]

def fleetFills (id : String) : Command := { fillsCommand with writer := .cli, strategy := id }

def fleetRepr : Value → String
  | .int n => toString n
  | _ => ""

theorem fleetOps_recent : (announcesOf fleetRepr fleetOps).rtake 1000 =
    [⟨"h", "live", "1.0", "1"⟩, ⟨"g", "live", "1.0", "1"⟩] := by
  have hall : announcesOf fleetRepr fleetOps =
      [⟨"h", "live", "1.0", "1"⟩, ⟨"g", "live", "1.0", "1"⟩] := rfl
  rw [hall, List.rtake]
  simp

theorem fleetOps_fills : fanOutOf ((announcesOf fleetRepr fleetOps).rtake 1000) "fills" =
    .published ([fleetFills "g", fleetFills "h"].map Command.entry) := by
  rw [fleetOps_recent]
  rfl

theorem fan_out_recent_pair :
    fanOutCommand (fleetAfter twoBus fixMap fleetRepr fleetOps).stream "fills" none =
        .ok (.published ([fleetFills "g", fleetFills "h"].map Command.entry)) ∧
      ∃ registry cursor, loadAnnounceHistory ((fleetAfter twoBus fixMap fleetRepr
          fleetOps).stream.map fun fields => (⊥, fields)) = .ok (registry, cursor) ∧
        registry.get? "g" = some "live" := by
  obtain ⟨hasked, hread⟩ := fan_out_recent twoBus fixMap fleetRepr fleetOps "fills"
  obtain ⟨registry, cursor, hload, hknown⟩ := hread
    ((fleetAfter twoBus fixMap fleetRepr fleetOps).stream.map fun fields => (⊥, fields)) (by simp)
  refine ⟨hasked.trans (congrArg _ fleetOps_fills), registry, cursor, hload, ?_⟩
  obtain ⟨mode, hmode, hget⟩ := hknown ⟨"g", "live", "1.0", "1"⟩ (by simp [fleetOps_recent])
  rw [hget, ← hmode]
  rfl

theorem fan_out_reports_pair :
    (fleetAfter twoBus fixMap fleetRepr fleetOps).pods.map StrategyPod.handle = ["h", "g"] ∧
      ∀ p ∈ (fleetAfter twoBus fixMap fleetRepr fleetOps).pods,
        if p.handle ∈ ((announcesOf fleetRepr fleetOps).rtake 1000).map Announce.strategyId then
          Reports fixMap plainDecoders .fills p.handle
            (p.calls twoBus fixMap [fleetFills "g", fleetFills "h"])
        else p.calls twoBus fixMap [fleetFills "g", fleetFills "h"] = [] := by
  have hasked : fanOutCommand (fleetAfter twoBus fixMap fleetRepr fleetOps).stream
      ReportCommand.fills.action none =
        .ok (.published ([fleetFills "g", fleetFills "h"].map Command.entry)) := by
    rw [fanOutCommand_eq]
    exact congrArg _ fleetOps_fills
  have hown : ∀ b, .boot b ∈ fleetOps → ∀ file, b.file? = some file → OwnControlStream file := by
    intro b hb file hf
    simp only [fleetOps, List.mem_cons, FleetOp.boot.injEq, List.not_mem_nil, or_false] at hb
    rcases hb with rfl | rfl
    all_goals
      obtain rfl := Option.some.inj hf
      intro user huser
      obtain rfl := Except.ok.inj huser
      exact ⟨by simp, by simp⟩
  have hanswer : ∀ c ∈ [fleetFills "g", fleetFills "h"], c.Answerable twoBus fixMap := by
    intro c hc
    simp only [List.mem_cons, List.not_mem_nil, or_false] at hc
    rcases hc with rfl | rfl
    all_goals exact ⟨if_pos (beq_self_eq_true _), by decide⟩
  exact ⟨rfl, @fan_out_reports _ _ twoBus (fun _ _ => rfl) fixMap plainDecoders fleetRepr fleetOps
    hown .fills _ hasked hanswer⟩

end TinoHelm
