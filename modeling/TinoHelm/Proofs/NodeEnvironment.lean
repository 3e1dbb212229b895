import TinoHelm.Proofs.NodeModes

/-! What a pod's configuration takes from the environment of its process: the log level and
the variables its client tables name, in sandbox mode those of `[data_clients]` alone. -/

namespace TinoHelm
open Base

variable {Cls Inst : Type} {environ environ' : String → Option String}

/-- The variables that `_resolve_env_refs` looks up in a text. -/
def textRefs (s : String) : List String :=
  if startsWith s "$ENV:" then [String.ofList (s.toList.drop 5)] else expandNames s

mutual

def envRefs : Value → List String
  | .dict kvs => dictRefs kvs
  | .list xs => listRefs xs
  | .str s => textRefs s
  | _ => []

def listRefs : List Value → List String
  | [] => []
  | x :: xs => envRefs x ++ listRefs xs

def dictRefs : List (Value × Value) → List String
  | [] => []
  | (_, v) :: kvs => envRefs v ++ dictRefs kvs

end

mutual

theorem resolveEnvRefs_congr (v : Value) (h : ∀ name ∈ envRefs v, environ' name = environ name) :
    resolveEnvRefs environ' v = resolveEnvRefs environ v := by
  cases v with
  | dict kvs =>
    rw [resolveEnvRefs, resolveEnvRefs, resolveDict_congr kvs h]
  | list xs =>
    rw [resolveEnvRefs, resolveEnvRefs, resolveList_congr xs h]
  | str s =>
    rw [envRefs, textRefs] at h
    rw [resolveEnvRefs, resolveEnvRefs]
    split_ifs at h ⊢
    · rw [h _ List.mem_cons_self]
    · rw [expandVars_congr h]
  | _ => rfl

theorem resolveList_congr (xs : List Value) (h : ∀ name ∈ listRefs xs, environ' name = environ name) :
    resolveList environ' xs = resolveList environ xs := by
  cases xs with
  | nil => rfl
  | cons x xs =>
    rw [listRefs] at h
    rw [resolveList, resolveList,
      resolveEnvRefs_congr x fun name hn => h name (List.mem_append_left _ hn),
      resolveList_congr xs fun name hn => h name (List.mem_append_right _ hn)]

theorem resolveDict_congr (kvs : List (Value × Value))
    (h : ∀ name ∈ dictRefs kvs, environ' name = environ name) :
    resolveDict environ' kvs = resolveDict environ kvs := by
  cases kvs with
  | nil => rfl
  | cons kv kvs =>
    rw [dictRefs] at h
    rw [resolveDict, resolveDict,
      resolveEnvRefs_congr kv.2 fun name hn => h name (List.mem_append_left _ hn),
      resolveDict_congr kvs fun name hn => h name (List.mem_append_right _ hn)]

end

theorem mem_dictRefs {kvs : List (Value × Value)} {m : Value × Value} (hm : m ∈ kvs) {name : String}
    (hn : name ∈ envRefs m.2) : name ∈ dictRefs kvs := by
  induction kvs with
  | nil => exact absurd hm List.not_mem_nil
  | cons kv kvs ih =>
    rw [dictRefs]
    rcases List.mem_cons.1 hm with rfl | hm
    · exact List.mem_append_left _ hn
    · exact List.mem_append_right _ (ih hm)

/-- The tables of a file whose texts are resolved. -/
def clientTables (mode : String) : List String :=
  if mode = "live" then ["data_clients", "exec_clients"] else ["data_clients"]

/-- The variables a pod may read, next to `REDIS_URL`. -/
def TinoStrategyFile.environment (file : TinoStrategyFile) : List String :=
  "TINO_LOG_LEVEL" :: (clientTables file.mode).flatMap fun name => envRefs (file.raw.get name)

section
variable {nt : NtLibrary Cls Inst} {file : TinoStrategyFile}

/-- The two environments agree on what a table of the file names. -/
def AgreeOn (environ environ' : String → Option String) (raw : Value) (table : String) : Prop :=
  ∀ name ∈ envRefs (raw.get table), environ' name = environ name

theorem AgreeOn.member {raw : Value} {table : String} (h : AgreeOn environ environ' raw table)
    {members : List (Value × Value)} (hv : venues table raw = .ok members) {m : Value × Value}
    (hm : m ∈ members) : resolveEnvRefs environ' m.2 = resolveEnvRefs environ m.2 := by
  obtain ⟨sec, hsec, rfl⟩ := map_eq_ok.1 hv
  refine resolveEnvRefs_congr m.2 fun name hn => h name ?_
  rw [tomlSection] at hsec
  rw [Value.get]
  split at hsec
  · obtain rfl := Except.ok.inj hsec
    exact absurd hm List.not_mem_nil
  · rename_i kvs hraw
    obtain rfl := Except.ok.inj hsec
    rw [hraw, Option.getD_some, envRefs]
    exact mem_dictRefs hm hn
  · cases hsec

theorem upgradeAll_congr {members : List (Value × Value)}
    (h : ∀ m ∈ members, resolveEnvRefs environ' m.2 = resolveEnvRefs environ m.2) :
    upgradeAll nt environ' members = upgradeAll nt environ members :=
  mapM_congr_forall₂ (List.forall₂_same.2 fun m hm => by rw [h m hm])

theorem AgreeOn.buildDataClients (h : AgreeOn environ environ' file.raw "data_clients") :
    buildDataClients nt environ' file = TinoHelm.buildDataClients nt environ file := by
  unfold TinoHelm.buildDataClients
  cases hv : venues "data_clients" file.raw with
  | error e => simp only [Except.mapError, error_bind]
  | ok members => exact upgradeAll_congr fun m hm => h.member hv hm

theorem AgreeOn.dataClientProvider (h : AgreeOn environ environ' file.raw "data_clients")
    (venue : Value) :
    dataClientProvider nt environ' file venue = TinoHelm.dataClientProvider nt environ file venue := by
  unfold TinoHelm.dataClientProvider
  cases hv : venues "data_clients" file.raw with
  | error e => simp only [Except.mapError, error_bind]
  | ok members =>
    simp only [Except.mapError, ok_bind]
    cases hf : members.find? fun m => m.1.eq venue with
    | none => rfl
    | some m =>
      have hm := h.member hv (List.mem_of_find?_eq_some hf)
      obtain ⟨key, payload⟩ := m
      cases payload with
      | dict kvs => simp only [Option.map_some, hm]
      | _ => rfl

theorem buildExecClients_environ {accepts : SandboxExecutionClientConfig Inst → Except String Unit}
    (h : ∀ table ∈ clientTables file.mode, AgreeOn environ environ' file.raw table) :
    buildExecClients nt environ' accepts file = buildExecClients nt environ accepts file := by
  unfold buildExecClients
  cases hv : venues "exec_clients" file.raw with
  | error e => simp only [Except.mapError, error_bind]
  | ok members =>
    simp only [Except.mapError, ok_bind]
    split_ifs with hlive
    · have hexec : "exec_clients" ∈ clientTables file.mode := by
        rw [clientTables, if_pos hlive]
        exact List.mem_cons_of_mem _ List.mem_cons_self
      rw [upgradeAll_congr fun m hm => (h _ hexec).member hv hm]
    · -- a simulated client takes its provider from the data client, and no text of its own
      have hdata : "data_clients" ∈ clientTables file.mode := by
        rw [clientTables, if_neg hlive]
        exact List.mem_cons_self
      cases sandboxSection file.raw with
      | error e => simp only [error_bind]
      | ok sec =>
        refine mapM_congr_forall₂ (List.forall₂_same.2 fun m _ => ?_)
        simp only [sandboxClient, (h _ hdata).dataClientProvider]

end

/-- A pod is configured alike in two environments that agree on the log level and on what
its client tables name: nothing else gets in, and a sandbox does not even look at the
variables of `[exec_clients]`. -/
theorem environment_read (env : NodeEnv Cls Inst) (file : TinoStrategyFile)
    (environ' : String → Option String)
    (h : ∀ name ∈ file.environment, environ' name = env.environ name) :
    buildNodeConfig { env with environ := environ' } file = buildNodeConfig env file := by
  have hlevel : environ' "TINO_LOG_LEVEL" = env.environ "TINO_LOG_LEVEL" := h _ List.mem_cons_self
  have htables : ∀ table ∈ clientTables file.mode, AgreeOn env.environ environ' file.raw table :=
    fun table ht name hn => h name (List.mem_cons_of_mem _ (List.mem_flatMap.2 ⟨table, ht, hn⟩))
  have hdata : "data_clients" ∈ clientTables file.mode := by
    unfold clientTables
    split_ifs
    · exact List.mem_cons_self
    · exact List.mem_cons_self
  simp only [buildNodeConfig, hlevel, (htables _ hdata).buildDataClients,
    buildExecClients_environ htables]

/-- A sandbox with a credential in `[exec_clients]`. -/
def credentialFile : TinoStrategyFile :=
  (venueFile "sandbox" "b:Exec" false).withRaw <| .dict [
    (.str "strategy", .dict [(.str "id", .str "foo"), (.str "class", .str "foo:Foo")]),
    (.str "exec_clients", .dict [(.str "BINANCE", .dict [(.str "config",
      .dict [(.str "api_key", .str "$ENV:KEY")])])])]

theorem environment_read_credential :
    buildNodeConfig { plainNode with environ := fun name => if name = "KEY" then some "k" else none }
        credentialFile =
      buildNodeConfig plainNode credentialFile := by
  refine environment_read plainNode credentialFile _ fun name hname => ?_
  have hlevel : credentialFile.environment = ["TINO_LOG_LEVEL"] := by rfl
  rw [hlevel, List.mem_singleton] at hname
  rw [hname]
  exact if_neg (by decide)

end TinoHelm
