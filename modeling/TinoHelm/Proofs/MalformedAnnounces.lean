import TinoHelm.Proofs.RegistryConfluence

/-! Malformed announces: an incomplete entry is stepped over, but one that is complete and
not UTF-8 holds the cursor of the loop in front of it. -/

namespace TinoHelm
open Base

def fieldText (fields : Fields) (name : String) (default : Option String) : Option String :=
  match fields.lookup name with
  | none => default
  | some b => String.fromUTF8? b

/-- The announce in a well-formed entry. The versions may be missing. -/
def announceOf (fields : Fields) : Option Announce := do
  let sid ← fieldText fields "strategy_id" none
  let mode ← fieldText fields "mode" none
  let ntVersion ← fieldText fields "nt_version" (some "")
  let protoVersion ← fieldText fields "tino_protocol_version" (some "")
  some ⟨sid, mode, ntVersion, protoVersion⟩

def wellFormed (entries : List (StreamId × Fields)) : List Announce :=
  entries.filterMap fun e => announceOf e.2

def Complete (fields : Fields) : Prop :=
  (fields.lookup "strategy_id").isSome ∧ (fields.lookup "mode").isSome

/-- After the turns the stream is read to its end, and every well-formed announce was
applied. -/
structure ReachesEnd (stream : Log StreamId Fields) (s : AnnounceLoop) (turns : List Turn) :
    Prop where
  ends : stream.after (run (AnnounceLoop.turn stream) s turns).cursor = []
  applied : trace (AnnounceLoop.turn stream) (AnnounceLoop.applied stream) s turns =
    wellFormed (stream.after s.cursor)
  registered : ∀ sid mode, newestMode (wellFormed (stream.after s.cursor)) sid = some mode →
    (run (AnnounceLoop.turn stream) s turns).registry.get? sid = some mode

/-- A loop that nothing unread holds up: each answer of `XREAD` moves the cursor to its last
entry, and as many turns as there are unread entries reach the end. -/
structure Unwedged (stream : Log StreamId Fields) (s : AnnounceLoop) : Prop where
  reads : ∀ cursor ≥ s.cursor, ∀ count last,
    ((stream.after cursor).take count).getLast? = some last →
      readNewAnnounces cursor ((stream.after cursor).take count) =
        .ok (wellFormed ((stream.after cursor).take count), last.1)
  progress : ∀ turns : List Turn, (∀ t ∈ turns, 0 < t.count) →
    (stream.after s.cursor).length ≤ turns.length → ReachesEnd stream s turns

/-! Reading an entry. -/

theorem decodeOr_ok_iff (fields : Fields) (name : String) (s : String) :
    decodeOr fields name = .ok s ↔ fieldText fields name (some "") = some s := by
  unfold decodeOr fieldText
  cases fields.lookup name with
  | none => simp
  | some b => exact decodeUtf8_ok_iff b s

theorem readAnnounce_ok {fields : Fields} (h : Complete fields → WellEncoded fields) :
    readAnnounce fields = .ok (announceOf fields) := by
  unfold readAnnounce announceOf
  cases hs : fields.lookup "strategy_id" with
  | none => simp [fieldText, hs]
  | some sid =>
    cases hm : fields.lookup "mode" with
    | none => simp [fieldText, hm]
    | some mode =>
      have hw : WellEncoded fields := h ⟨by simp [hs], by simp [hm]⟩
      obtain ⟨s, hs'⟩ := hw "strategy_id" (by simp) sid hs
      obtain ⟨m, hm'⟩ := hw "mode" (by simp) mode hm
      obtain ⟨nt, hnt⟩ := decodeOr_wellEncoded hw "nt_version" (by simp)
      obtain ⟨pv, hpv⟩ := decodeOr_wellEncoded hw "tino_protocol_version" (by simp)
      simp only [hs', hm', hnt, hpv, ok_bind]
      rw [decodeOr_ok_iff] at hnt hpv
      rw [decodeUtf8_ok_iff] at hs' hm'
      have hsid : fieldText fields "strategy_id" none = some s := by rw [fieldText, hs]; exact hs'
      have hmode : fieldText fields "mode" none = some m := by rw [fieldText, hm]; exact hm'
      simp [hsid, hmode, hnt, hpv]

theorem wellEncoded_of_ok {fields : Fields} {a : Option Announce}
    (h : readAnnounce fields = .ok a) (hc : Complete fields) : WellEncoded fields := by
  obtain ⟨sid, hs⟩ := Option.isSome_iff_exists.1 hc.1
  obtain ⟨mode, hm⟩ := Option.isSome_iff_exists.1 hc.2
  simp only [readAnnounce, hs, hm, bind_eq_ok] at h
  obtain ⟨s, hs', m, hm', nt, hnt, pv, hpv, -⟩ := h
  have hversion : ∀ {name v}, decodeOr fields name = .ok v →
      ∀ b, fields.lookup name = some b → ∃ s, decodeUtf8 b = .ok s := by
    intro name v hv b hb
    rw [decodeOr, hb] at hv
    exact ⟨v, hv⟩
  intro name hname b hb
  simp only [List.mem_cons, List.not_mem_nil, or_false] at hname
  rcases hname with rfl | rfl | rfl | rfl
  · exact ⟨s, Option.some.inj (hs.symm.trans hb) ▸ hs'⟩
  · exact ⟨m, Option.some.inj (hm.symm.trans hb) ▸ hm'⟩
  · exact hversion hnt b hb
  · exact hversion hpv b hb

/-- A batch is read as a whole, or not at all. -/
theorem readAnnounce_of_readNewAnnounces {response : List (StreamId × Fields)}
    {cursor : StreamId} {r : List Announce × StreamId}
    (h : readNewAnnounces cursor response = .ok r) :
    ∀ e ∈ response, ∃ a, readAnnounce e.2 = .ok a := by
  have hfold : ∀ acc : List Announce × StreamId,
      response.foldlM
        (fun (acc : List Announce × StreamId) e => do
          let a ← readAnnounce e.2
          (.ok (acc.1 ++ a.toList, e.1) : Except PyError _)) acc = .ok r →
        ∀ e ∈ response, ∃ a, readAnnounce e.2 = .ok a := by
    clear h
    induction response with
    | nil => exact fun _ _ e he => absurd he List.not_mem_nil
    | cons e response ih =>
      intro acc h
      rw [List.foldlM_cons, bind_eq_ok] at h
      obtain ⟨acc', hacc, hrest⟩ := h
      obtain ⟨a, ha, -⟩ := bind_eq_ok.1 hacc
      exact List.forall_mem_cons.2 ⟨⟨a, ha⟩, ih acc' hrest⟩
  exact hfold _ h

/-! Turns of the loop. -/

section
variable {stream : Log StreamId Fields} {s : AnnounceLoop}

def Undamaged (stream : Log StreamId Fields) (cursor : StreamId) : Prop :=
  ∀ e ∈ stream.entries, cursor < e.1 → Complete e.2 → WellEncoded e.2

theorem Undamaged.mono {c c' : StreamId} (h : Undamaged stream c) (hc : c ≤ c') :
    Undamaged stream c' :=
  fun e he hlt => h e he (hc.trans_lt hlt)

theorem Undamaged.read {c : StreamId} (h : Undamaged stream c) (count : ℕ) :
    readNewAnnounces c ((stream.after c).take count) =
      .ok (wellFormed ((stream.after c).take count),
        Log.cursorAfter c ((stream.after c).take count)) := by
  refine readNewAnnounces_ok announceOf (fun e he => readAnnounce_ok ?_) c
  obtain ⟨hmem, hlt⟩ := (stream.mem_after c e).1 (List.mem_of_mem_take he)
  exact h e hmem hlt

/-- If whatever is unread can be read at once, no complete entry of it is damaged. -/
theorem undamaged_of_read {r : List Announce × StreamId}
    (h : readNewAnnounces s.cursor (stream.after s.cursor) = .ok r) :
    Undamaged stream s.cursor := by
  intro e he hlt hc
  obtain ⟨a, ha⟩ := readAnnounce_of_readNewAnnounces h e ((stream.mem_after s.cursor e).2 ⟨he, hlt⟩)
  exact wellEncoded_of_ok ha hc

theorem cursorAfter_of_getLast? {batch : List (StreamId × Fields)} {last : StreamId × Fields}
    (h : batch.getLast? = some last) (c : StreamId) : Log.cursorAfter c batch = last.1 := by
  obtain ⟨pre, rfl⟩ := List.getLast?_eq_some_iff.1 h
  rw [Log.cursorAfter, List.foldl_append]
  rfl

theorem turn_undamaged (h : Undamaged stream s.cursor) (t : Turn) :
    (s.turn stream t).cursor = Log.cursorAfter s.cursor ((stream.after s.cursor).take t.count) ∧
      s.applied stream t = wellFormed ((stream.after s.cursor).take t.count) ∧
      ∀ sid mode, (newestMode (wellFormed ((stream.after s.cursor).take t.count)) sid).or
          (s.registry.get? sid) = some mode → (s.turn stream t).registry.get? sid = some mode := by
  have hread : s.read stream t = _ := h.read t.count
  unfold AnnounceLoop.turn AnnounceLoop.applied
  rw [hread]
  refine ⟨rfl, rfl, fun sid mode hm => ?_⟩
  rw [← get?_applyAnnounces] at hm
  cases t.scan with
  | none => exact hm
  | some keys =>
    -- a scan changes no mode that is there
    change (applyFallbackScan keys _).get? sid = some mode
    rw [get?_applyFallbackScan, hm, Option.some_or]

theorem wellFormed_append (xs ys : List (StreamId × Fields)) :
    wellFormed (xs ++ ys) = wellFormed xs ++ wellFormed ys :=
  List.filterMap_append

theorem run_undamaged (turns : List Turn) (h : Undamaged stream s.cursor)
    (hpos : ∀ t ∈ turns, 0 < t.count) (hlen : (stream.after s.cursor).length ≤ turns.length) :
    stream.after (run (AnnounceLoop.turn stream) s turns).cursor = [] ∧
      trace (AnnounceLoop.turn stream) (AnnounceLoop.applied stream) s turns =
        wellFormed (stream.after s.cursor) ∧
      ∀ sid mode, (newestMode (wellFormed (stream.after s.cursor)) sid).or
          (s.registry.get? sid) = some mode →
        (run (AnnounceLoop.turn stream) s turns).registry.get? sid = some mode := by
  induction turns generalizing s with
  | nil =>
    have hnil : stream.after s.cursor = [] := List.length_eq_zero_iff.1 (Nat.le_zero.1 hlen)
    rw [hnil]
    exact ⟨hnil, rfl, fun sid mode hm => hm⟩
  | cons t turns ih =>
    obtain ⟨hcursor, happlied, hregistry⟩ := turn_undamaged h t
    have hsplit := (List.take_append_drop t.count (stream.after s.cursor)).symm
    obtain ⟨hafter, hle, -, -⟩ := stream.read_batch hsplit
    rw [← hcursor] at hafter hle
    have hshorter : (stream.after (s.turn stream t).cursor).length ≤ turns.length := by
      have ht := hpos t List.mem_cons_self
      rw [hafter, List.length_drop]
      rw [List.length_cons] at hlen
      omega
    obtain ⟨hend, htrace, hreg⟩ := ih (h.mono hle) (fun t' ht => hpos t' (List.mem_cons_of_mem t ht))
      hshorter
    rw [hafter] at htrace hreg
    have hwell := congrArg wellFormed hsplit
    rw [wellFormed_append] at hwell
    refine ⟨hend, ?_, fun sid mode hm => hreg sid mode ?_⟩
    · rw [trace, happlied, htrace, hwell]
    · rw [hwell, newestMode_append, Option.or_assoc] at hm
      cases hnew : newestMode (wellFormed ((stream.after s.cursor).drop t.count)) sid with
      | none =>
        rw [hnew, Option.none_or] at hm
        exact hregistry sid mode hm
      | some mode' =>
        rw [hnew] at hm
        exact hm

end

/-- The loop gets through what is unread, turn by turn to the end of the stream, exactly when
every complete entry of it is UTF-8. -/
theorem announces_unwedged_iff (stream : Log StreamId Fields) (s : AnnounceLoop) :
    Unwedged stream s ↔
      ∀ e ∈ stream.entries, s.cursor < e.1 → Complete e.2 → WellEncoded e.2 := by
  constructor
  · intro h
    cases hlast : (stream.after s.cursor).getLast? with
    | none =>
      have hnil := List.getLast?_eq_none_iff.1 hlast
      intro e he hlt
      have hmem := (stream.mem_after s.cursor e).2 ⟨he, hlt⟩
      rw [hnil] at hmem
      cases hmem
    | some last =>
      have hread := h.reads s.cursor le_rfl (stream.after s.cursor).length last
      rw [List.take_length] at hread
      exact undamaged_of_read (hread hlast)
  · intro h
    refine ⟨fun cursor hc count last hlast => ?_, fun turns hpos hlen => ?_⟩
    · rw [← cursorAfter_of_getLast? hlast cursor]
      exact Undamaged.read (Undamaged.mono h hc) count
    · obtain ⟨hend, htrace, hreg⟩ := run_undamaged turns h hpos hlen
      exact ⟨hend, htrace, fun sid mode hm => hreg sid mode (by rw [hm]; rfl)⟩

/-- A handle that is not UTF-8, and the announce of another pod behind it. -/
def damagedStream : Log StreamId Fields where
  entries :=
    [(toLex (1, 0), [("strategy_id", ⟨#[0xFF]⟩), ("mode", "live".toByteArray)]),
      (toLex (2, 0), [("strategy_id", "pod".toByteArray), ("mode", "live".toByteArray)])]
  sorted := by decide
  pos := by decide

/-- The loop stays in front of the damaged entry and never gets to the pod. -/
theorem damaged_announce_wedges : ¬ Unwedged damagedStream ⟨.empty, ⊥⟩ := by
  intro h
  have hreach := h.progress (List.replicate 2 ⟨2, none⟩) (by decide) (by decide)
  have hend := hreach.ends
  revert hend
  decide

end TinoHelm
