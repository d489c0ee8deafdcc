import SeedSync.Lib.Ini
import SeedSync.Settings.Checks

/-!
# The settings

`InnerConfig` and `Config` of `common/config.py`: the properties of each section, what is done to
settings of older versions, and the file. A value that is no text, number or truth value is not modelled.
-/

open SeedSync.Lib

namespace SeedSync.Settings

/-! ## Sections -/

/-- A property with the value that the constructor gives it. -/
structure Property where
  name : String
  checker : Checker
  converter : Converter
  initial : Value := .none
  deriving DecidableEq, Repr

/-- A class of settings; `constrained` says that it has the `_set_property` of `Lftp`. -/
structure Schema where
  cls : String
  properties : List Property
  constrained : Bool := false
  deriving DecidableEq, Repr

/-- The values of a section, in the order of its properties. -/
abbrev Inner := List (String × Value)

/-- A section as a dict. -/
abbrev Fields := List (Codes × Value)

def Schema.initial (s : Schema) : Inner := s.properties.map fun p => (p.name, p.initial)

def Inner.read (inner : Inner) (name : String) : Value := (Dict.getItem inner name).getD .none

def Inner.asDict (inner : Inner) : Fields := inner.map fun item => (codes item.1, item.2)

def Schema.hasProperty (s : Schema) (name : String) : Bool := s.properties.any fun p => decide (p.name = name)

def rclone : Value := .str (codes "rclone")

def sftp : Value := .str (codes "sftp")

section
variable (py : Strings)

/-- `_set_property` of `InnerConfig`. -/
def Schema.store (s : Schema) (inner : Inner) (name : String) (checker : Checker) (value : Value) : Except ConfigError Inner :=
  if value = .none ∧ inner.read name = .none then .ok (Dict.setItem inner name .none)
  else (checker.check py s.cls name value).map fun value => Dict.setItem inner name value

/-- What `Lftp` adds: with rclone the protocol is sftp. -/
def Schema.constrain (s : Schema) (inner : Inner) (name : String) : Except ConfigError Inner :=
  if s.constrained ∧ (name = "transfer_backend" ∨ name = "protocol") ∧ inner.read "transfer_backend" = rclone ∧
      inner.read "protocol" ≠ sftp then
    s.store py inner "protocol" .transferProtocol sftp
  else .ok inner

def Property.native (p : Property) (cls : String) (value : Value) : Except ConfigError Value :=
  match value with
  | .str text => p.converter.convert py cls p.name text
  | value => .ok value

/-- `set_property` for a property of the section. -/
def Schema.setProperty (s : Schema) (inner : Inner) (p : Property) (value : Value) : Except ConfigError Inner :=
  (p.native py s.cls value).bind fun value =>
    (s.store py inner p.name p.checker value).bind fun inner => s.constrain py inner p.name

/-- The properties as `dir` lists them. -/
def Schema.dir (s : Schema) : List Property := s.properties.insertionSort fun a b : Property => a.name ≤ b.name

/-- Set a property to what the dict holds for it. -/
def Schema.take (s : Schema) (fields : Fields) (inner : Inner) (p : Property) : Except ConfigError Inner :=
  match Dict.getItem fields (codes p.name) with
  | some value => s.setProperty py inner p value
  | none => .error (.config (codes ("Missing config: " ++ s.cls ++ "." ++ p.name)))

/-- `InnerConfig.from_dict`. -/
def Schema.fromDict (s : Schema) (fields : Fields) : Except ConfigError Inner :=
  (s.dir.foldlM (s.take py fields) s.initial).bind fun inner =>
    match fields.filter (fun (item : Codes × Value) => !s.properties.any fun p => decide (codes p.name = item.1)) with
    | [] => .ok inner
    | (key, _) :: _ => .error (.config (codes ("Unknown config: " ++ s.cls ++ ".") ++ key))

end

/-! ## What is done to a dict first -/

def Fields.has (fields : Fields) (key : String) : Bool := (Dict.getItem fields (codes key)).isSome

/-- `config_dict[key] = value`. -/
def Fields.put (fields : Fields) (key : String) (value : Value) : Fields := Dict.setItem fields (codes key) value

/-- `config_dict.pop(key, None)`. -/
def Fields.drop (fields : Fields) (key : String) : Fields := fields.filter fun item => decide (item.1 ≠ codes key)

/-- The value of a key that is not in the dict. -/
def Fields.default (fields : Fields) (key : String) (value : Value) : Fields :=
  if fields.has key then fields else fields.put key value

/-- The value of a key under its older name. -/
def Fields.renamed (fields : Fields) (key older : String) (value : Value) : Fields :=
  if fields.has key then fields.drop older
  else
    match Dict.getItem fields (codes older) with
    | none | some .none => (fields.drop older).put key value
    | some value => (fields.drop older).put key value

/-! ## The sections -/

def general : Schema where
  cls := "General"
  properties := [
    { name := "log_level", checker := .logLevel, converter := .logLevel, initial := .str (codes "INFO") },
    { name := "verbose", checker := .null, converter := .bool },
    { name := "exclude_patterns", checker := .stringAllowEmpty, converter := .null, initial := .str [] },
    { name := "api_token", checker := .null, converter := .null },
    { name := "allowed_hostname", checker := .null, converter := .null },
    { name := "browser_handover_recovery_version", checker := .null, converter := .null },
    { name := "disable_browser_auth", checker := .boolValue, converter := .bool, initial := .bool false },
    { name := "breadcrumb_trace_enabled", checker := .boolValue, converter := .bool, initial := .bool false },
    { name := "breadcrumb_trace_memory_budget_bytes", checker := .breadcrumbTraceMemoryBudget, converter := .int,
      initial := .int 268435456 },
    { name := "breadcrumb_trace_max_entries", checker := .breadcrumbTraceMaxEntries, converter := .int, initial := .int 0 },
    { name := "breadcrumb_trace_policy", checker := .breadcrumbTracePolicy, converter := .null,
      initial := .str (codes "\x7b\x7d") },
    { name := "performance_diagnostics_enabled", checker := .boolValue, converter := .bool, initial := .bool false },
    { name := "performance_diagnostics_retention_depth", checker := .intRange 1 240, converter := .int, initial := .int 120 },
    { name := "performance_diagnostics_sample_interval_seconds", checker := .intRange 1 3600, converter := .int,
      initial := .int 5 },
    { name := "py_spy_enabled", checker := .boolValue, converter := .bool, initial := .bool false },
    { name := "config_api_redact_remote_details", checker := .boolValue, converter := .bool, initial := .bool true }]

def lftp : Schema where
  cls := "Lftp"
  constrained := true
  properties := [
    { name := "transfer_backend", checker := .transferBackend, converter := .transferBackend, initial := .str (codes "lftp") },
    { name := "remote_address", checker := .stringNonemptyNoControlChars, converter := .null },
    { name := "remote_username", checker := .stringNonemptyNoControlChars, converter := .null },
    { name := "remote_password", checker := .stringAllowEmptyNoControlChars, converter := .null },
    { name := "remote_port", checker := .intPositive, converter := .int },
    { name := "remote_path", checker := .stringNonempty, converter := .null },
    { name := "local_path", checker := .stringNonempty, converter := .null },
    { name := "remote_path_to_scan_script", checker := .stringNonempty, converter := .null },
    { name := "remote_python_path", checker := .remotePythonPath, converter := .remotePythonPath,
      initial := .str (codes "python3") },
    { name := "use_ssh_key", checker := .null, converter := .bool },
    { name := "num_max_parallel_downloads", checker := .intPositive, converter := .int },
    { name := "num_max_parallel_files_per_download", checker := .intPositive, converter := .int },
    { name := "num_max_connections_per_root_file", checker := .intPositive, converter := .int },
    { name := "num_max_connections_per_dir_file", checker := .intPositive, converter := .int },
    { name := "num_max_total_connections", checker := .intNonNegativeMax 32, converter := .int },
    { name := "use_temp_file", checker := .null, converter := .bool },
    { name := "rate_limit", checker := .null, converter := .null },
    { name := "net_socket_buffer", checker := .byteSizeOrEmpty, converter := .null },
    { name := "staging_path", checker := .null, converter := .null },
    { name := "protocol", checker := .transferProtocol, converter := .transferProtocol, initial := .str (codes "sftp") },
    { name := "remote_ftp_port", checker := .intPositive, converter := .int, initial := .int 21 },
    { name := "ftp_ssl_verify_certificate", checker := .boolValue, converter := .bool, initial := .bool true },
    { name := "use_legacy_lftp_password_argv", checker := .boolValue, converter := .bool, initial := .bool false }]

def validate : Schema where
  cls := "Validate"
  properties := [{ name := "xfer_verify", checker := .boolValue, converter := .bool, initial := .bool true }]

def controller : Schema where
  cls := "Controller"
  properties := [
    { name := "interval_ms_remote_scan", checker := .intPositive, converter := .int },
    { name := "interval_ms_local_scan", checker := .intPositive, converter := .int },
    { name := "interval_ms_downloading_scan", checker := .intPositive, converter := .int },
    { name := "extract_path", checker := .stringNonempty, converter := .null },
    { name := "use_local_path_as_extract_path", checker := .null, converter := .bool },
    { name := "managed_extract_folders_enabled", checker := .null, converter := .bool, initial := .bool true }]

def web : Schema where
  cls := "Web"
  properties := [{ name := "port", checker := .intPositive, converter := .int }]

def autoqueue : Schema where
  cls := "AutoQueue"
  properties := [
    { name := "enabled", checker := .null, converter := .bool },
    { name := "patterns_only", checker := .null, converter := .bool },
    { name := "auto_extract", checker := .null, converter := .bool },
    { name := "auto_delete_remote", checker := .boolValue, converter := .bool, initial := .bool false }]

def logging : Schema where
  cls := "Logging"
  properties := [{ name := "log_format", checker := .logFormat, converter := .null, initial := .str (codes "standard") }]

def notifications : Schema where
  cls := "Notifications"
  properties := [
    { name := "enabled", checker := .boolValue, converter := .bool, initial := .bool false },
    { name := "provider", checker := .notificationProvider, converter := .null, initial := .str (codes "webhook") },
    { name := "webhook_url", checker := .stringAllowEmpty, converter := .null, initial := .str [] },
    { name := "hmac_secret", checker := .stringAllowEmpty, converter := .null, initial := .str [] },
    { name := "apprise_url", checker := .stringAllowEmpty, converter := .null, initial := .str [] },
    { name := "apprise_tag", checker := .stringAllowEmpty, converter := .null, initial := .str [] },
    { name := "allow_private_networks", checker := .boolValue, converter := .bool, initial := .bool false },
    { name := "download_start", checker := .boolValue, converter := .bool, initial := .bool false },
    { name := "download_complete", checker := .boolValue, converter := .bool, initial := .bool true },
    { name := "extraction_complete", checker := .boolValue, converter := .bool, initial := .bool true },
    { name := "delete_complete", checker := .boolValue, converter := .bool, initial := .bool true }]

section
variable (py : Strings)

/-- The level that the older switch `debug` stands for. -/
def debugLevel (value : Value) : Except ConfigError Value :=
  let on : Except ConfigError Value := match value with
    | .str text => convertBool py "General" "debug" text
    | value => boolValue "General" "debug" value
  on.map fun on => .str (codes (if on.truthy then "DEBUG" else "INFO"))

def Fields.logLevel (fields : Fields) : Except ConfigError Fields :=
  if fields.has "log_level" then .ok (fields.drop "debug")
  else
    match Dict.getItem fields (codes "debug") with
    | some value => (debugLevel py value).map fun level => (fields.drop "debug").put "log_level" level
    | none => .ok (fields.put "log_level" (.str (codes "INFO")))

/-- `General.from_dict` before the properties are set. -/
def generalFields (fields : Fields) : Except ConfigError Fields :=
  let texts := ((((fields.drop "trusted_browser_bootstrap_remote_addrs").default "exclude_patterns" (.str [])).default
    "api_token" (.str [])).default "allowed_hostname" (.str [])).default "browser_handover_recovery_version" (.str [])
  ((texts.default "disable_browser_auth" (.bool false)).logLevel py).map fun fields =>
    let traced := (((fields.default "breadcrumb_trace_enabled" (.bool false)).default
      "breadcrumb_trace_memory_budget_bytes" (.int 268435456)).renamed "breadcrumb_trace_max_entries"
      "breadcrumb_trace_retention_depth" (.int 0)).renamed "breadcrumb_trace_policy"
      "breadcrumb_trace_serialization_policy" (.str (codes "\x7b\x7d"))
    ((((traced.default "performance_diagnostics_enabled" (.bool false)).default
      "performance_diagnostics_retention_depth" (.int 120)).default
      "performance_diagnostics_sample_interval_seconds" (.int 5)).default "py_spy_enabled" (.bool false)).default
      "config_api_redact_remote_details" (.bool true)

/-- `Lftp.from_dict` before the properties are set. -/
def lftpFields (fields : Fields) : Fields :=
  let full := ((((((((fields.default "transfer_backend" (.str (codes "lftp"))).default "rate_limit" (.str (codes "0"))).default
    "remote_python_path" (.str (codes "python3"))).default "net_socket_buffer" (.str (codes "8M"))).default
    "staging_path" (.str [])).default "protocol" sftp).default "remote_ftp_port" (.int 21)).default
    "ftp_ssl_verify_certificate" (.bool true)).default "use_legacy_lftp_password_argv" (.bool false)
  let backend := normalizeTransferBackend py ((Dict.getItem full (codes "transfer_backend")).getD .none)
  let chosen := full.put "transfer_backend" backend
  if backend = rclone then chosen.put "protocol" sftp else chosen

end

def loggingFields (fields : Fields) : Fields :=
  match Dict.getItem fields (codes "log_format") with
  | none => fields.put "log_format" (.str (codes "standard"))
  | some (.str text) => if strip text = [] then fields.put "log_format" (.str (codes "standard")) else fields
  | some _ => fields

/-- The defaults, updated. -/
def notificationsFields (fields : Fields) : Fields :=
  fields.foldl (fun merged item => Dict.setItem merged item.1 item.2) (Inner.asDict notifications.initial)

/-! ## The whole -/

structure Config where
  general : Inner := Settings.general.initial
  lftp : Inner := Settings.lftp.initial
  validate : Inner := Settings.validate.initial
  controller : Inner := Settings.controller.initial
  web : Inner := Settings.web.initial
  autoqueue : Inner := Settings.autoqueue.initial
  logging : Inner := Settings.logging.initial
  notifications : Inner := Settings.notifications.initial
  deriving DecidableEq, Repr

def Config.asDict (c : Config) : List (String × Inner) :=
  [("General", c.general), ("Lftp", c.lftp), ("Validate", c.validate), ("Controller", c.controller), ("Web", c.web),
    ("AutoQueue", c.autoqueue), ("Logging", c.logging), ("Notifications", c.notifications)]

inductive LoadError where
  | config (error : ConfigError)
  /-- A `PersistError` about what the parser raised. -/
  | persist (error : Ini.ReadError)
  /-- A duplicate, which the parser raises and nothing catches. -/
  | parser (error : Ini.ReadError)
  deriving DecidableEq, Repr

/-- `_check_section`. -/
def checkSection (dict : List (Codes × Fields)) (name : String) : Except ConfigError Fields :=
  match Dict.getItem dict (codes name) with
  | some fields => .ok fields
  | none => .error (.config (codes ("Missing config section: " ++ name)))

/-- `config_dict.pop(name, {})`. -/
def optionalSection (dict : List (Codes × Fields)) (name : String) : Fields := (Dict.getItem dict (codes name)).getD []

def sectionNames : List String :=
  ["General", "Lftp", "Validate", "Controller", "Web", "AutoQueue", "Logging", "Notifications"]

/-- The secret under its older name. -/
def legacySecret (legacy : Value) (fields : Fields) : Fields :=
  if legacy.truthy ∧ ((Dict.getItem fields (codes "hmac_secret")).getD .none).truthy = false then fields.put "hmac_secret" legacy
  else fields

section
variable (py : Strings)

/-- `Config.from_dict`. -/
def fromDict (dict : List (Codes × Fields)) : Except ConfigError Config := do
  let fields ← checkSection dict "General"
  let legacy := (Dict.getItem fields (codes "webhook_secret")).getD (.str [])
  let generalDict ← generalFields py (fields.drop "webhook_secret")
  let generalInner ← general.fromDict py generalDict
  let lftpDict ← checkSection dict "Lftp"
  let lftpInner ← lftp.fromDict py (lftpFields py lftpDict)
  let validateInner ← validate.fromDict py ((optionalSection dict "Validate").default "xfer_verify" (.bool true))
  let controllerDict ← checkSection dict "Controller"
  let controllerInner ← controller.fromDict py (controllerDict.default "managed_extract_folders_enabled" (.bool true))
  let webDict ← checkSection dict "Web"
  let webInner ← web.fromDict py webDict
  let autoqueueDict ← checkSection dict "AutoQueue"
  let autoqueueInner ← autoqueue.fromDict py (autoqueueDict.default "auto_delete_remote" (.bool false))
  let loggingInner ← logging.fromDict py (loggingFields (optionalSection dict "Logging"))
  let notificationsInner ←
    notifications.fromDict py (notificationsFields (legacySecret legacy (optionalSection dict "Notifications")))
  match dict.filter (fun item => !(sectionNames.map codes).contains item.1) with
  | [] =>
    return { general := generalInner, lftp := lftpInner, validate := validateInner, controller := controllerInner,
             web := webInner, autoqueue := autoqueueInner, logging := loggingInner, notifications := notificationsInner }
  | (name, _) :: _ => throw (.config (codes "Unknown section: " ++ name))

/-- The sections that the parser lists, with their options. -/
def parsedDict (p : Ini.Parsed) : List (Codes × Fields) :=
  p.sections.map fun entry => (entry.1, (p.options entry.2).map fun item => (item.1, .str item.2))

/-- `Config.from_str`. -/
def fromStr (content : Codes) : Except LoadError Config :=
  match Ini.read py.lower content with
  | .ok p => (fromDict py (parsedDict p)).mapError .config
  | .error .missingHeader => .error (.persist .missingHeader)
  | .error .parsing => .error (.persist .parsing)
  | .error e => .error (.parser e)

end

/-- `Config.to_str`. -/
def Config.toStr (c : Config) : Codes :=
  Ini.write { sections := c.asDict.map fun entry => (codes entry.1, entry.2.map fun item => (codes item.1, item.2.text)) }

end SeedSync.Settings
