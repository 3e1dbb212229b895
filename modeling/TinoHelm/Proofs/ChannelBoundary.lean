import TinoHelm.Proofs.LiveFlow

/-! Which channel a command on a control stream came from. A target is decided when the
slash command is validated or fanned out, from a registry in which announces win over
scans, so the newest announce of the target decides the channel. -/

namespace TinoHelm
open Base

structure Channels.Distinct (ch : Channels) : Prop where
  sandbox_live : ch.sandbox ≠ ch.live
  sandbox_logging : ch.sandbox ≠ ch.logging
  live_logging : ch.live ≠ ch.logging

def SlashCommand.isLifecycle : SlashCommand → Bool
  | .lifecycle .. => true
  | .report .. => false

/-- A report command that names no strategy. -/
def SlashCommand.isUnscoped : SlashCommand → Bool
  | .report _ strategy => (strategy.filter (· ≠ "")).isNone
  | .lifecycle .. => false

def channelOf (ch : Channels) (mode : String) : ℤ :=
  if mode = "live" then ch.live else if mode = "sandbox" then ch.sandbox else ch.logging

theorem channelMode_cases {ch : Channels} {channelId : Option ℤ} {mode : String}
    (h : channelMode ch channelId = some mode) :
    mode ∈ ["live", "sandbox", "logging"] ∧ channelId = some (channelOf ch mode) := by
  unfold channelMode at h
  split_ifs at h with h1 h2 h3 <;> cases h <;> simp [channelOf, *]

/-- What an accepted command says about the channel and the registry. -/
theorem validateCommandChannel_ok {strategyId mode : String} {registry : Registry}
    (h : validateCommandChannel strategyId mode registry = .ok ()) :
    mode = if (registry.get? strategyId).getD "sandbox" = "live" then "live" else "sandbox" := by
  unfold validateCommandChannel at h
  by_cases hlog : mode = "logging"
  · simp [hlog] at h
  by_contra hne
  rw [if_neg hlog] at h
  dsimp only at h
  rw [if_pos (Ne.symm hne)] at h
  cases h

theorem mem_strategiesForChannel {mode : String} {registry : Registry} {sid : String}
    (h : sid ∈ strategiesForChannel mode registry) :
    mode = "live" ∧ registry.get? sid = some "live" ∨
      mode = "sandbox" ∧ registry.get? sid = some "sandbox" ∨
      mode ≠ "live" ∧ mode ≠ "sandbox" := by
  have hmem : ∀ m, sid ∈ (registry.entries.filter fun e => e.2 = m).map Prod.fst →
      registry.get? sid = some m := by
    intro m hm
    obtain ⟨e, he, rfl⟩ := List.mem_map.1 hm
    rw [List.mem_filter, decide_eq_true_eq] at he
    exact (registry.get?_eq_some_iff e.1 m).2 (he.2 ▸ he.1)
  unfold strategiesForChannel at h
  split_ifs at h with h1 h2
  · exact Or.inl ⟨h1, hmem _ h⟩
  · exact Or.inr (Or.inl ⟨h2, hmem _ h⟩)
  · exact Or.inr (Or.inr ⟨h1, h2⟩)

/-- Both authorisation paths: a named target was validated, an unnamed one fanned out. -/
theorem targetsOf_cases {ch : Channels} {registry : Registry} {i : Interaction} {target : String}
    (h : target ∈ targetsOf ch registry i) :
    ∃ mode, channelMode ch i.channelId = some mode ∧
      (validateCommandChannel target mode registry = .ok () ∨
        i.command.isUnscoped = true ∧ target ∈ strategiesForChannel mode registry) := by
  unfold targetsOf at h
  cases hc : i.command with
  | lifecycle action strategy reason =>
    simp only [hc, command] at h
    cases hm : channelMode ch i.channelId with
    | none => simp [hm] at h
    | some mode =>
      cases hv : validateCommandChannel strategy mode registry with
      | error e => simp [hm, hv] at h
      | ok u =>
        simp only [hm, hv, List.mem_singleton] at h
        subst h
        exact ⟨mode, rfl, Or.inl hv⟩
  | report kind strategy =>
    simp only [hc, requestTargets] at h
    cases hm : channelMode ch i.channelId with
    | none => simp [hm, Except.toOption] at h
    | some mode =>
      refine ⟨mode, rfl, ?_⟩
      cases hs : strategy.filter (· ≠ "") with
      | some sid =>
        cases hv : validateCommandChannel sid mode registry with
        | error e =>
          simp only [hm, hs, hv] at h
          simp [Except.toOption] at h
        | ok u =>
          simp only [hm, hs, hv, Except.toOption, Option.getD_some, List.mem_singleton] at h
          subst h
          exact Or.inl hv
      | none =>
        simp only [hm, hs] at h
        split_ifs at h
        · simp [Except.toOption] at h
        · exact Or.inr ⟨by rw [SlashCommand.isUnscoped, hs]; rfl, h⟩

/-- What holds of a command that was let through after the operations `pre`. -/
structure Authorised (ch : Channels) (pre : List NotifierOp) (i : Interaction) (target : String) :
    Prop where
  channel : i.channelId = some ch.sandbox ∨ i.channelId = some ch.live ∨
    i.channelId = some ch.logging
  lifecycle : i.command.isLifecycle = true → i.channelId ≠ some ch.logging
  live : newestMode (announced pre) target = some "live" →
    i.channelId = some ch.live ∨ i.command.isUnscoped = true ∧ i.channelId = some ch.logging
  sandbox : newestMode (announced pre) target = some "sandbox" →
    i.channelId = some ch.sandbox ∨ i.command.isUnscoped = true ∧ i.channelId = some ch.logging

theorem authorised_of_mem_targetsOf {ch : Channels} (hd : ch.Distinct) {pre : List NotifierOp}
    {i : Interaction} {target : String}
    (h : target ∈ targetsOf ch (notifierAfter ch pre).registry i) :
    Authorised ch pre i target := by
  obtain ⟨mode, hm, hpath⟩ := targetsOf_cases h
  obtain ⟨hmode, hch⟩ := channelMode_cases hm
  have hannounced : ∀ m, newestMode (announced pre) target = some m →
      (notifierAfter ch pre).registry.get? target = some m := by
    intro m hnew
    rw [determined_notifierAfter ch pre target, hnew, Option.some_or]
  have hsome : i.channelId = some ch.sandbox ∨ i.channelId = some ch.live ∨
      i.channelId = some ch.logging := by
    rw [hch]
    simp only [List.mem_cons, List.not_mem_nil, or_false] at hmode
    rcases hmode with rfl | rfl | rfl <;> simp [channelOf]
  rcases hpath with hv | ⟨hun, hfan⟩
  · have hv := validateCommandChannel_ok hv
    refine ⟨hsome, fun _ => ?_, fun hnew => Or.inl ?_, fun hnew => Or.inl ?_⟩
    · rw [hch, hv]
      split_ifs
      · simp [channelOf, hd.live_logging]
      · simp [channelOf, hd.sandbox_logging]
    · rw [hch, hv, hannounced _ hnew]
      rfl
    · rw [hch, hv, hannounced _ hnew]
      rfl
  · refine ⟨hsome, fun hl => ?_, fun hnew => ?_, fun hnew => ?_⟩
    · cases hc : i.command <;> simp [hc, SlashCommand.isLifecycle, SlashCommand.isUnscoped] at hl hun
    · rcases mem_strategiesForChannel hfan with ⟨rfl, -⟩ | ⟨-, hs⟩ | ⟨hl, hs⟩
      · exact Or.inl hch
      · rw [hannounced _ hnew] at hs
        simp at hs
      · exact Or.inr ⟨hun, by rw [hch, channelOf, if_neg hl, if_neg hs]⟩
    · rcases mem_strategiesForChannel hfan with ⟨-, hl⟩ | ⟨rfl, -⟩ | ⟨hl, hs⟩
      · rw [hannounced _ hnew] at hl
        simp at hl
      · exact Or.inl hch
      · exact Or.inr ⟨hun, by rw [hch, channelOf, if_neg hl, if_neg hs]⟩

/-- A command in flight or written was issued by a slash command of the run, for a
target it was let through for. -/
def IssuedIn (ch : Channels) (ops : List NotifierOp) (w : Issued) : Prop :=
  ∃ pre post, ops = pre ++ .slash w.interaction :: post ∧ pre.length = w.position ∧
    w.target ∈ targetsOf ch (notifierAfter ch pre).registry w.interaction

theorem IssuedIn.snoc {ch : Channels} {ops : List NotifierOp} {w : Issued}
    (h : IssuedIn ch ops w) (op : NotifierOp) : IssuedIn ch (ops ++ [op]) w := by
  obtain ⟨pre, post, rfl, hp, ht⟩ := h
  exact ⟨pre, post ++ [op], by simp, hp, ht⟩

/-- Where the commands in flight and on the streams come from, step by step. -/
theorem mem_commands_step {ch : Channels} {s : Notifier} {op : NotifierOp} {w : Issued}
    (h : w ∈ (notifierStep ch s op).inFlight ++ (notifierStep ch s op).written) :
    w ∈ s.inFlight ++ s.written ∨
      op = .slash w.interaction ∧ w.position = s.clock ∧
        w.target ∈ targetsOf ch s.registry w.interaction := by
  cases op with
  | announces entries => exact Or.inl h
  | scan keys => exact Or.inl h
  | cli strategyId action reason => exact Or.inl h
  | slash i =>
    simp only [notifierStep, Notifier.perform, Notifier.issue, List.mem_append] at h
    rcases h with (h | h) | h
    · exact Or.inl (List.mem_append_left _ h)
    · obtain ⟨target, ht, rfl⟩ := List.mem_map.1 h
      exact Or.inr ⟨rfl, rfl, ht⟩
    · exact Or.inl (List.mem_append_right _ h)
  | xadd n =>
    left
    simp only [notifierStep, Notifier.perform, Notifier.xadd] at h
    cases hn : s.inFlight[n]? with
    | none =>
      rw [hn] at h
      exact h
    | some v =>
      rw [hn] at h
      simp only [Notifier.addKey, List.mem_append, List.mem_singleton] at h
      rcases h with h | h | rfl
      · exact List.mem_append_left _ (List.mem_of_mem_eraseIdx h)
      · exact List.mem_append_right _ h
      · exact List.mem_append_left _ (List.mem_of_getElem? hn)

theorem clock_notifierAfter (ch : Channels) (ops : List NotifierOp) :
    (notifierAfter ch ops).clock = ops.length := by
  refine run_history (I := fun pre (s : Notifier) => s.clock = pre.length) rfl ?_ ops
  intro pre op ih
  rw [List.length_append, List.length_singleton, ← ih]
  rfl

theorem issuedIn_notifierAfter (ch : Channels) (ops : List NotifierOp) :
    ∀ w ∈ (notifierAfter ch ops).inFlight ++ (notifierAfter ch ops).written,
      IssuedIn ch ops w := by
  refine run_history
    (I := fun pre (s : Notifier) => ∀ w ∈ s.inFlight ++ s.written, IssuedIn ch pre w) ?_ ?_ ops
  · simp
  · intro pre op ih w hw
    rcases mem_commands_step hw with hold | ⟨rfl, hp, ht⟩
    · exact (ih w hold).snoc op
    · exact ⟨pre, [], rfl, by rw [hp, ← notifierAfter, clock_notifierAfter], ht⟩

/-- No command crosses the boundary between sandbox and live. -/
theorem no_command_crosses {ch : Channels} (hd : ch.Distinct) (ops : List NotifierOp) :
    ∀ w ∈ (notifierAfter ch ops).written,
      ∃ pre post, ops = pre ++ .slash w.interaction :: post ∧ pre.length = w.position ∧
        Authorised ch pre w.interaction w.target := by
  intro w hw
  obtain ⟨pre, post, hops, hp, ht⟩ :=
    issuedIn_notifierAfter ch ops w (List.mem_append_right _ hw)
  exact ⟨pre, post, hops, hp, authorised_of_mem_targetsOf hd ht⟩

/-- A live strategy is flattened from the live channel, and fanned out to from logging. -/
def flattenLive : List NotifierOp :=
  [.announces [⟨"foo", "live", "1", "1"⟩], .slash ⟨some 2, .lifecycle .flatten "foo" none⟩,
    .slash ⟨some 1, .lifecycle .flatten "foo" none⟩, .slash ⟨some 3, .report .fills none⟩,
    .xadd 0, .xadd 0]

theorem no_command_crosses_flattenLive :
    (⟨1, 2, 3⟩ : Channels).Distinct ∧
      ∀ w ∈ (notifierAfter ⟨1, 2, 3⟩ flattenLive).written,
        ∃ pre post, flattenLive = pre ++ .slash w.interaction :: post ∧
          pre.length = w.position ∧ Authorised ⟨1, 2, 3⟩ pre w.interaction w.target :=
  ⟨⟨by decide, by decide, by decide⟩,
    no_command_crosses ⟨by decide, by decide, by decide⟩ flattenLive⟩

example : ((notifierAfter ⟨1, 2, 3⟩ flattenLive).written.map Issued.target) = ["foo", "foo"] := by
  decide

end TinoHelm
