import SorobanRpc.Basic

set_option autoImplicit false

/-! # Configuration options

`options.go` describes each option of the daemon by a `ConfigOption`: its names on the command
line, in the environment and in the TOML file, the field of `Config` it sets (`ConfigKey`), and a
validator that `ConfigOptions.Validate` runs once every option is loaded, in table order,
stopping at the first error.

The loader that fills `Config` from flags, the environment and the TOML file is not among the
sources, nor is `Config` itself: its fields are read off the table's `ConfigKey` pointers, and the
defaults and `CustomSetValue` hooks, which only the loader reads, are left out. A field's value is
a `Value`, and `Value.isZero` is `reflect.Value.IsZero` on it, which is what `required` asks: an
empty string, zero, or a nil slice.

`validate_eq_ok_iff` and `validate_eq_error` are the loop: `Validate` succeeds when every
validator does, and otherwise returns the first failing option's error, prefixed with its name;
`required_eq_error` adds that a `required` error names the option again.
`validate_options_eq_ok_iff` applies the loop to the table: `Validate` accepts exactly the
configurations of `Config.Valid`, where the stellar-core binary, the captive-core config file,
the history archives and the network passphrase are set, and the default events limit does not
exceed the maximum. -/

namespace SorobanRpc.Configuration

/-! ## Configurations -/

/-- The value of a field of `Config`, as `reflect.Value.IsZero` sees it: Go's unsigned types
    (`uint`, `uint32`, `logrus.Level`) are `nat`, a `Duration` is `int` nanoseconds, and a slice
    is `strings`, `none` when it is nil. -/
inductive Value where
  | string (s : String)
  | bool (b : Bool)
  | nat (n : Nat)
  | int (n : Int)
  | strings (l : Option (List String))
  deriving DecidableEq, Repr

/-- `reflect.Value.IsZero`: a non-nil empty slice is not zero. -/
def Value.isZero : Value → Bool
  | .string s => s == ""
  | .bool b => !b
  | .nat n => n == 0
  | .int n => n == 0
  | .strings l => l.isNone

/-- Modelled from the table's `ConfigKey` pointers: the fields the options set. -/
structure Config where
  configPath : String
  strict : Bool
  endpoint : String
  adminEndpoint : String
  stellarCoreURL : String
  coreRequestTimeout : Int
  captiveCoreHTTPPort : Nat
  logLevel : Nat
  logFormat : Nat
  stellarCoreBinaryPath : String
  captiveCoreConfigPath : String
  captiveCoreStoragePath : String
  captiveCoreUseDB : Bool
  historyArchiveURLs : Option (List String)
  friendbotURL : String
  networkPassphrase : String
  sqliteDBPath : String
  ingestionTimeout : Int
  checkpointFrequency : Nat
  eventLedgerRetentionWindow : Nat
  transactionLedgerRetentionWindow : Nat
  maxEventsLimit : Nat
  defaultEventsLimit : Nat
  maxHealthyLedgerLatency : Int
  preflightWorkerCount : Nat
  preflightWorkerQueueSize : Nat
  deriving Repr

/-! ## Validation -/

/-- The validators of the table: `required`, and the closure of `default-events-limit`. -/
inductive Validator where
  | required
  | defaultEventsLimit
  deriving DecidableEq, Repr

/-- `ConfigOption`, with what `Validate` reads: the names, the field and the validator. -/
structure ConfigOption where
  name : String
  envVar : String := ""
  tomlKey : String := ""
  configKey : Config → Value
  validate : Option Validator := none

/-- `ConfigOptions`. -/
abbrev ConfigOptions := List ConfigOption

/-- `required`: the option's field must not hold its zero value; the error lists the ways to
    set it. The config-file way names the environment variable, as the source does. -/
def required (option : ConfigOption) (cfg : Config) : Except String Unit :=
  if !(option.configKey cfg).isZero then .ok () else
  let waysToSet : List String :=
    (if option.name ≠ "" ∧ option.name ≠ "-" then
      ["specify --" ++ option.name ++ " on the command line"] else []) ++
    (if option.envVar ≠ "" ∧ option.envVar ≠ "-" then
      ["set the " ++ option.envVar ++ " environment variable"] else []) ++
    (if option.tomlKey ≠ "" ∧ option.tomlKey ≠ "-" then
      ["set " ++ option.envVar ++ " in the config file"] else [])
  let advice := match waysToSet with
    | [way] => " Please " ++ way ++ "."
    | [way₁, way₂] => " Please " ++ way₁ ++ " or " ++ way₂ ++ "."
    | [way₁, way₂, way₃] => " Please " ++ way₁ ++ ", " ++ way₂ ++ ", or " ++ way₃ ++ "."
    | _ => ""
  .error ("Invalid config: " ++ option.name ++ " is required." ++ advice)

/-- The `Validate` closure of `default-events-limit`. -/
def validateDefaultEventsLimit (cfg : Config) : Except String Unit :=
  if cfg.defaultEventsLimit > cfg.maxEventsLimit then
    .error ("default-events-limit (" ++ toString cfg.defaultEventsLimit ++
      ") cannot exceed max-events-limit (" ++ toString cfg.maxEventsLimit ++ ")\n")
  else .ok ()

/-- Calling an option's validator. -/
def Validator.run : Validator → ConfigOption → Config → Except String Unit
  | .required, option, cfg => SorobanRpc.Configuration.required option cfg
  | .defaultEventsLimit, _, cfg => validateDefaultEventsLimit cfg

/-- `ConfigOptions.Validate`: runs the validators in table order and returns the first error,
    wrapped (`errors.Wrap`) with the option's name. -/
def ConfigOptions.validate : ConfigOptions → Config → Except String Unit
  | [], _ => .ok ()
  | option :: options, cfg =>
    match option.validate with
    | none => ConfigOptions.validate options cfg
    | some v =>
      match v.run option cfg with
      | .error err => .error ("Invalid config value for " ++ option.name ++ ": " ++ err)
      | .ok () => ConfigOptions.validate options cfg

@[simp] theorem Value.isZero_string_eq_false (s : String) :
    (Value.string s).isZero = false ↔ s ≠ "" := by
  simp [Value.isZero]

@[simp] theorem Value.isZero_strings_eq_false (l : Option (List String)) :
    (Value.strings l).isZero = false ↔ l ≠ none := by
  cases l <;> simp [Value.isZero]

@[simp] theorem required_eq_ok_iff {option : ConfigOption} {cfg : Config} :
    required option cfg = .ok () ↔ (option.configKey cfg).isZero = false := by
  unfold required
  cases (option.configKey cfg).isZero <;> simp

@[simp] theorem validateDefaultEventsLimit_eq_ok_iff {cfg : Config} :
    validateDefaultEventsLimit cfg = .ok () ↔ cfg.defaultEventsLimit ≤ cfg.maxEventsLimit := by
  unfold validateDefaultEventsLimit
  split_ifs with h <;> simp <;> omega

/-- Every error of `required` names the option. -/
theorem required_eq_error {option : ConfigOption} {cfg : Config} {e : String}
    (h : required option cfg = .error e) :
    ∃ advice, e = "Invalid config: " ++ option.name ++ " is required." ++ advice := by
  unfold required at h
  split at h
  · cases h
  · cases h
    exact ⟨_, rfl⟩

/-- An option known under three names: the config-file way names its environment variable. -/
example (cfg : Config) :
    required
      { name := "config-strict", envVar := "SOROBAN_RPC_CONFIG_STRICT", tomlKey := "STRICT",
        configKey := fun _ => .bool false } cfg =
    .error ("Invalid config: config-strict is required. Please specify --config-strict on the " ++
      "command line, set the SOROBAN_RPC_CONFIG_STRICT environment variable, or set " ++
      "SOROBAN_RPC_CONFIG_STRICT in the config file.") := rfl

/-- The option's validator, if it has one, accepts `cfg`. -/
def ConfigOption.Passes (option : ConfigOption) (cfg : Config) : Prop :=
  match option.validate with
  | none => True
  | some v => v.run option cfg = .ok ()

/-- `Validate` succeeds exactly when every option's validator does. -/
theorem validate_eq_ok_iff (options : ConfigOptions) (cfg : Config) :
    options.validate cfg = .ok () ↔ ∀ option ∈ options, option.Passes cfg := by
  induction options with
  | nil => simp [ConfigOptions.validate]
  | cons option options ih =>
    rw [List.forall_mem_cons, ← ih]
    simp only [ConfigOptions.validate, ConfigOption.Passes]
    cases option.validate with
    | none => simp
    | some v => cases hr : v.run option cfg <;> simp [hr]

/-- A failed `Validate` names the first option whose validator failed, and wraps its error. -/
theorem validate_eq_error {options : ConfigOptions} {cfg : Config} {e : String}
    (h : options.validate cfg = .error e) :
    ∃ pre option post v err, options = pre ++ option :: post ∧
      (∀ p ∈ pre, p.Passes cfg) ∧ option.validate = some v ∧ v.run option cfg = .error err ∧
      e = "Invalid config value for " ++ option.name ++ ": " ++ err := by
  induction options with
  | nil => cases h
  | cons option options ih =>
    have hcons : ∀ {pre : ConfigOptions}, (∀ p ∈ pre, p.Passes cfg) → option.Passes cfg →
        ∀ p ∈ option :: pre, p.Passes cfg := fun hpre ho => List.forall_mem_cons.2 ⟨ho, hpre⟩
    simp only [ConfigOptions.validate] at h
    split at h
    next hv =>
      obtain ⟨pre, o, post, v, err, rfl, hpre, hrest⟩ := ih h
      refine ⟨option :: pre, o, post, v, err, rfl, hcons hpre ?_, hrest⟩
      rw [ConfigOption.Passes, hv]
      trivial
    next v hv =>
      split at h
      next err hr =>
        cases h
        exact ⟨[], option, options, v, err, rfl, nofun, hv, hr, rfl⟩
      next hr =>
        obtain ⟨pre, o, post, v', err, rfl, hpre, hrest⟩ := ih h
        refine ⟨option :: pre, o, post, v', err, rfl, hcons hpre ?_, hrest⟩
        rw [ConfigOption.Passes, hv]
        exact hr


/-! ## The table -/

/-- `options`: the table of `Config.options`, with the names, fields and validators. -/
def options : ConfigOptions :=
  [{ name := "config-path", envVar := "SOROBAN_RPC_CONFIG_PATH", tomlKey := "-",
     configKey := fun cfg => .string cfg.configPath },
   { name := "config-strict", envVar := "SOROBAN_RPC_CONFIG_STRICT", tomlKey := "STRICT",
     configKey := fun cfg => .bool cfg.strict },
   { name := "endpoint", configKey := fun cfg => .string cfg.endpoint },
   { name := "admin-endpoint", configKey := fun cfg => .string cfg.adminEndpoint },
   { name := "stellar-core-url", configKey := fun cfg => .string cfg.stellarCoreURL },
   { name := "stellar-core-timeout-seconds", configKey := fun cfg => .int cfg.coreRequestTimeout },
   { name := "stellar-captive-core-http-port",
     configKey := fun cfg => .nat cfg.captiveCoreHTTPPort },
   { name := "log-level", configKey := fun cfg => .nat cfg.logLevel },
   { name := "log-format", configKey := fun cfg => .nat cfg.logFormat },
   { name := "stellar-core-binary-path", configKey := fun cfg => .string cfg.stellarCoreBinaryPath,
     validate := some .required },
   { name := "captive-core-config-path", configKey := fun cfg => .string cfg.captiveCoreConfigPath,
     validate := some .required },
   { name := "captive-core-storage-path",
     configKey := fun cfg => .string cfg.captiveCoreStoragePath },
   { name := "captive-core-use-db", configKey := fun cfg => .bool cfg.captiveCoreUseDB },
   { name := "history-archive-urls", configKey := fun cfg => .strings cfg.historyArchiveURLs,
     validate := some .required },
   { name := "friendbot-url", configKey := fun cfg => .string cfg.friendbotURL },
   { name := "network-passphrase", configKey := fun cfg => .string cfg.networkPassphrase,
     validate := some .required },
   { name := "db-path", configKey := fun cfg => .string cfg.sqliteDBPath },
   { name := "ingestion-timeout", configKey := fun cfg => .int cfg.ingestionTimeout },
   { name := "checkpoint-frequency", configKey := fun cfg => .nat cfg.checkpointFrequency },
   { name := "event-retention-window",
     configKey := fun cfg => .nat cfg.eventLedgerRetentionWindow },
   { name := "transaction-retention-window",
     configKey := fun cfg => .nat cfg.transactionLedgerRetentionWindow },
   { name := "max-events-limit", configKey := fun cfg => .nat cfg.maxEventsLimit },
   { name := "default-events-limit", configKey := fun cfg => .nat cfg.defaultEventsLimit,
     validate := some .defaultEventsLimit },
   { name := "max-healthy-ledger-latency",
     configKey := fun cfg => .int cfg.maxHealthyLedgerLatency },
   { name := "preflight-worker-count", configKey := fun cfg => .nat cfg.preflightWorkerCount },
   { name := "preflight-worker-queue-size",
     configKey := fun cfg => .nat cfg.preflightWorkerQueueSize }]

/-- What `Validate` asks of a configuration. -/
structure Config.Valid (cfg : Config) : Prop where
  stellarCoreBinaryPath : cfg.stellarCoreBinaryPath ≠ ""
  captiveCoreConfigPath : cfg.captiveCoreConfigPath ≠ ""
  historyArchiveURLs : cfg.historyArchiveURLs ≠ none
  networkPassphrase : cfg.networkPassphrase ≠ ""
  eventsLimit : cfg.defaultEventsLimit ≤ cfg.maxEventsLimit

/-- `Validate` on the table accepts exactly the valid configurations. -/
theorem validate_options_eq_ok_iff (cfg : Config) : options.validate cfg = .ok () ↔ cfg.Valid := by
  rw [validate_eq_ok_iff]
  simp only [options, List.forall_mem_cons, ConfigOption.Passes, Validator.run,
    required_eq_ok_iff, Value.isZero_string_eq_false, Value.isZero_strings_eq_false,
    validateDefaultEventsLimit_eq_ok_iff, true_and, List.not_mem_nil, false_implies, implies_true,
    and_true]
  exact ⟨fun ⟨h₁, h₂, h₃, h₄, h₅⟩ => ⟨h₁, h₂, h₃, h₄, h₅⟩, fun h => ⟨h.1, h.2, h.3, h.4, h.5⟩⟩

end SorobanRpc.Configuration
