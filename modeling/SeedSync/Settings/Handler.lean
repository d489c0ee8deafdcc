import SeedSync.Lib.Moves
import SeedSync.Lib.Transaction
import SeedSync.Settings.Config

/-!
# The writers of the settings

`ConfigHandler.__handle_set_config`, `NotificationsAdminHandler._handle_update` and
`Context.__persist_breadcrumb_trace_policy`: three writers of one configuration, its file and the settings
of the notifier. Each writes under the same lock; the checks of the first are made before it.
-/

open SeedSync.Lib

namespace SeedSync.Settings

/-! ## The sections by their names -/

inductive Part where
  | general
  | lftp
  | validate
  | controller
  | web
  | autoqueue
  | logging
  | notifications
  deriving DecidableEq, Repr

def Part.all : List Part := [general, lftp, validate, controller, web, autoqueue, logging, notifications]

def Part.schema : Part → Schema
  | general => Settings.general
  | lftp => Settings.lftp
  | validate => Settings.validate
  | controller => Settings.controller
  | web => Settings.web
  | autoqueue => Settings.autoqueue
  | logging => Settings.logging
  | notifications => Settings.notifications

/-- The attribute of `Config`. -/
def Part.attribute : Part → String
  | general => "general"
  | lftp => "lftp"
  | validate => "validate"
  | controller => "controller"
  | web => "web"
  | autoqueue => "autoqueue"
  | logging => "logging"
  | notifications => "notifications"

/-- `has_section` and the section. -/
def Part.named (name : String) : Option Part := Part.all.find? fun part => decide (part.attribute = name)

def Config.part (c : Config) : Part → Inner
  | .general => c.general
  | .lftp => c.lftp
  | .validate => c.validate
  | .controller => c.controller
  | .web => c.web
  | .autoqueue => c.autoqueue
  | .logging => c.logging
  | .notifications => c.notifications

def Config.withPart (c : Config) (part : Part) (inner : Inner) : Config :=
  match part with
  | .general => { c with general := inner }
  | .lftp => { c with lftp := inner }
  | .validate => { c with validate := inner }
  | .controller => { c with controller := inner }
  | .web => { c with web := inner }
  | .autoqueue => { c with autoqueue := inner }
  | .logging => { c with logging := inner }
  | .notifications => { c with notifications := inner }

/-- `has_property`; the general section also has the older switch `debug`. -/
def Part.hasProperty (part : Part) (key : String) : Bool := part.schema.hasProperty key || decide (part = .general ∧ key = "debug")

/-- `is_sensitive_field`. -/
def Part.isSensitive (part : Part) (key : String) : Bool :=
  match part with
  | .general => ["api_token", "webhook_secret"].contains key
  | .lftp => ["remote_password"].contains key
  | .notifications => ["webhook_url", "hmac_secret", "apprise_url"].contains key
  | _ => false

def redacted : Codes := codes "**REDACTED**"

/-- `is_redacted_value`. -/
def isRedacted (value : Value) : Bool := [Value.str redacted, Value.str (codes "********")].contains value

/-- `__BODY_SET_BLOCKED_FIELDS`. -/
def Part.blocked (part : Part) : List String :=
  match part with
  | .general => ["api_token", "config_api_redact_remote_details", "disable_browser_auth"]
  | .notifications => ["enabled", "provider", "webhook_url", "hmac_secret", "apprise_url", "apprise_tag",
      "allow_private_networks", "download_start", "download_complete", "extraction_complete", "delete_complete"]
  | .lftp => ["use_legacy_lftp_password_argv"]
  | _ => []

section
variable (py : Strings)

/-- `set_property` under a name. -/
def Schema.setKey (s : Schema) (inner : Inner) (key : String) (value : Value) : Except ConfigError Inner :=
  match s.properties.find? fun p => decide (p.name = key) with
  | some p => s.setProperty py inner p value
  | none => .error .raised

/-- `set_property`, which turns `debug` into a level. -/
def Part.setProperty (part : Part) (inner : Inner) (key : String) (value : Value) : Except ConfigError Inner :=
  if part = .general ∧ key = "debug" then
    (debugLevel py value).bind fun level => Settings.general.setKey py inner "log_level" level
  else part.schema.setKey py inner key value

/-! ## The notifier -/

structure NotificationSettings where
  enabled : Bool
  webhookUrl : Codes
  hmacSecret : Codes
  allowPrivateNetworks : Bool
  downloadStart : Bool
  downloadComplete : Bool
  extractionComplete : Bool
  deleteComplete : Bool
  provider : Codes := codes "webhook"
  appriseUrl : Codes := []
  appriseTag : Codes := []
  deriving DecidableEq, Repr

/-- `_config_bool`. -/
def configBool (inner : Inner) (name : String) : Except Codes Bool :=
  match inner.read name with
  | .bool value => .ok value
  | _ => .error (codes ("Notification setting '" ++ name ++ "' must be a boolean"))

/-- `_config_string`. -/
def configString (inner : Inner) (name : String) : Except Codes Codes :=
  match inner.read name with
  | .str value => .ok value
  | _ => .error (codes ("Notification setting '" ++ name ++ "' must be a string"))

/-- `NotificationSettings.from_config`. -/
def NotificationSettings.fromConfig (inner : Inner) : Except Codes NotificationSettings := do
  let enabled ← configBool inner "enabled"
  let provider ← configString inner "provider"
  let webhookUrl ← configString inner "webhook_url"
  let hmacSecret ← configString inner "hmac_secret"
  let appriseUrl ← configString inner "apprise_url"
  let appriseTag ← configString inner "apprise_tag"
  let allowPrivateNetworks ← configBool inner "allow_private_networks"
  let downloadStart ← configBool inner "download_start"
  let downloadComplete ← configBool inner "download_complete"
  let extractionComplete ← configBool inner "extraction_complete"
  let deleteComplete ← configBool inner "delete_complete"
  return { enabled, webhookUrl, hmacSecret, allowPrivateNetworks, downloadStart, downloadComplete, extractionComplete,
           deleteComplete, provider, appriseUrl, appriseTag }

/-- What `validate_webhook_url` and `validate_apprise_url` say about a URL at one time; a name may
resolve differently at another. -/
structure Resolver where
  webhook : Codes → Bool → Except Codes Unit
  apprise : Codes → Bool → Except Codes Unit

/-- `reconfigure`: the settings that the notifier uses from now on. -/
def reconfigure (resolver : Resolver) (inner : Inner) : Except Codes NotificationSettings :=
  (NotificationSettings.fromConfig inner).bind fun settings =>
    if settings.enabled = true ∧ settings.provider = codes "webhook" ∧ settings.webhookUrl ≠ [] then
      (resolver.webhook settings.webhookUrl settings.allowPrivateNetworks).map fun _ => settings
    else if settings.enabled = true ∧ settings.provider = codes "apprise" ∧ settings.appriseUrl ≠ [] then
      (resolver.apprise settings.appriseUrl settings.allowPrivateNetworks).map fun _ => settings
    else .ok settings

/-- `public_config`. -/
def NotificationSettings.publicConfig (settings : NotificationSettings) : Json := .obj [
  (codes "enabled", .bool settings.enabled),
  (codes "provider", .str settings.provider),
  (codes "webhook_url_configured", .bool !settings.webhookUrl.isEmpty),
  (codes "hmac_secret_configured", .bool !settings.hmacSecret.isEmpty),
  (codes "apprise_url_configured", .bool !settings.appriseUrl.isEmpty),
  (codes "apprise_tag", .str settings.appriseTag),
  (codes "allow_private_networks", .bool settings.allowPrivateNetworks),
  (codes "download_start", .bool settings.downloadStart),
  (codes "download_complete", .bool settings.downloadComplete),
  (codes "extraction_complete", .bool settings.extractionComplete),
  (codes "delete_complete", .bool settings.deleteComplete)]

/-! ## Edits -/

/-- The configuration, the content of its file, and the settings that the notifier uses. -/
structure Store where
  config : Config
  file : Codes
  notifier : NotificationSettings
  deriving DecidableEq, Repr

inductive Failure where
  /-- An error with a text for the caller. -/
  | message (text : Codes)
  | other
  deriving DecidableEq, Repr

def ConfigError.failure : ConfigError → Failure
  | config message => .message message
  | raised => .other

abbrev Edit := Store → Except Failure Store

/-- Set a property of a section. -/
def Edit.set (part : Part) (key : String) (value : Value) : Edit := fun store =>
  match part.setProperty py (store.config.part part) key value with
  | .ok inner => .ok { store with config := store.config.withPart part inner }
  | .error e => .error e.failure

/-- `to_file`; writing may fail. -/
def Edit.save (saves : Bool) : Edit := fun store =>
  if saves then .ok { store with file := store.config.toStr } else .error .other

/-- `__normalize_lftp_backend_constraints`. -/
def Edit.constrain : Edit := fun store =>
  if store.config.lftp.read "transfer_backend" = rclone then Edit.set py .lftp "protocol" sftp store else .ok store

/-- Set the properties of a section to what they were. -/
def Edit.restore (part : Part) (snapshot : Inner) : List Edit := snapshot.map fun item => Edit.set py part item.1 item.2

structure Response where
  status : Nat := 200
  body : Codes
  deriving DecidableEq, Repr

def Response.ofJson (body : Json) (status : Nat) : Response := { status, body := asCodes body.dumpsSpaced }

/-- What a writer returns to its caller. -/
inductive Answer where
  | response (response : Response)
  /-- The checks are passed; the request waits for the lock. -/
  | waiting
  | returned
  /-- An exception that the writer raises again once its edit is taken back. -/
  | failed
  /-- An exception while an edit is taken back. -/
  | raised
  deriving DecidableEq, Repr

/-! ## Setting one property -/

/-- A request: the section, the property, and the value of its body or the error about it. -/
structure SetRequest where
  name : String
  key : String
  value : Except Codes Value

/-- A request that passed the checks. -/
structure Admitted where
  part : Part
  key : String
  value : Value
  deriving DecidableEq, Repr

/-- `value.strip().lower()` for a text. -/
def foldForGuard : Value → Value
  | .str text => .str (py.lower (strip text))
  | value => value

/-- `__is_blank_text`. -/
def isBlankText : Value → Bool
  | .none => true
  | .str text => decide (strip text = [])
  | _ => false

/-- `__would_create_blank_ftps_password`. -/
def wouldCreateBlankFtpsPassword (part : Part) (inner : Inner) (key : String) (value : Value) : Bool :=
  let backend := if key = "transfer_backend" then value else inner.read "transfer_backend"
  let protocol := if key = "protocol" then value else inner.read "protocol"
  let password := if key = "remote_password" then value else inner.read "remote_password"
  decide (part = .lftp ∧ foldForGuard py backend = .str (codes "lftp") ∧ foldForGuard py protocol = .str (codes "ftps")) &&
    isBlankText password

def refuse (status : Nat) (body : String) : Response := { status, body := codes body }

/-- What `__handle_set_config` checks before it takes the lock, on the configuration it sees. -/
def examine (seen : Config) (r : SetRequest) : Except Response Admitted :=
  match r.value with
  | .error message => .error { status := 400, body := message }
  | .ok value =>
    match Part.named r.name with
    | none => .error (refuse 404 ("There is no section '" ++ r.name ++ "' in config"))
    | some part =>
      if !part.hasProperty r.key then
        .error (refuse 404 ("Section '" ++ r.name ++ "' in config has no option '" ++ r.key ++ "'"))
      else if part.isSensitive r.key && isRedacted value then
        .error (refuse 400 ("Section '" ++ r.name ++ "' option '" ++ r.key ++ "' cannot be set to redacted value"))
      else if part.blocked.contains r.key then
        .error (refuse 403 ("Section '" ++ r.name ++ "' option '" ++ r.key ++ "' cannot be set via request body"))
      else if wouldCreateBlankFtpsPassword py part (seen.part part) r.key value then
        .error (refuse 400 "FTPS requires a transfer password.")
      else .ok { part, key := r.key, value }

def Admitted.edits (r : Admitted) : List Edit :=
  Edit.set py r.part r.key r.value :: if r.part = .lftp then [Edit.constrain py] else []

/-- The value that the response shows. -/
def Admitted.shown (r : Admitted) (inner : Inner) : Codes :=
  if r.part.isSensitive r.key then redacted
  else if r.part.schema.hasProperty r.key then (inner.read r.key).text
  else r.value.text

/-- What `__handle_set_config` does under the lock. -/
def Admitted.commit (r : Admitted) (saves : Bool) (store : Store) : Store × Answer :=
  match transact store (r.edits py ++ [Edit.save saves]) (Edit.restore py r.part (store.config.part r.part)) with
  | (after, .committed) =>
    (after, .response { body := codes (r.part.attribute ++ "." ++ r.key ++ " set to ") ++ r.shown (after.config.part r.part) })
  | (after, .undone (.message text)) => (after, .response { status := 400, body := text })
  | (after, .undone .other) =>
    (after, .response (refuse 500 ("Failed to persist config " ++ r.part.attribute ++ "." ++ r.key)))
  | (after, .raised _) => (after, .raised)

/-! ## Updating the notifications -/

def booleanFields : List String :=
  ["enabled", "allow_private_networks", "download_start", "download_complete", "extraction_complete", "delete_complete"]

def textFields : List String := ["provider", "apprise_tag"]

def writeOnlyFields : List String := ["webhook_url", "hmac_secret", "apprise_url"]

def Edit.fail (text : String) : Edit := fun _ => .error (.message (codes text))

/-- The edits for the fields that the data has. -/
def fieldEdits (data : List (String × Value)) (fields : List String) (edit : String → Value → Edit) : List Edit :=
  fields.filterMap fun field => (Dict.getItem data field).map fun value => edit field value

def Edit.setText (message : String) (field : String) : Value → Edit
  | .str text => Edit.set py .notifications field (.str (strip text))
  | _ => Edit.fail message

def Edit.setSecret (field : String) (value : Value) : Edit :=
  if isRedacted value then Edit.fail "Redacted values cannot be saved"
  else Edit.setText py "Sensitive notification settings must be strings" field value

/-- The URL of the provider. -/
def selectedUrl (inner : Inner) : Value :=
  if inner.read "provider" = .str (codes "webhook") then inner.read "webhook_url" else inner.read "apprise_url"

/-- Notifications that are on have a URL. -/
def Edit.requireUrl : Edit := fun store =>
  if (store.config.notifications.read "enabled").truthy ∧ (selectedUrl store.config.notifications).truthy = false then
    .error (.message (codes "Selected provider URL is required when notifications are enabled"))
  else .ok store

/-- A URL of the data is validated. -/
def Edit.validate (data : List (String × Value)) (field : String) (check : Codes → Bool → Except Codes Unit) : Edit := fun store =>
  match store.config.notifications.read field with
  | .str url =>
    if (Dict.getItem data field).isSome ∧ url ≠ [] then
      match check url (store.config.notifications.read "allow_private_networks").truthy with
      | .ok _ => .ok store
      | .error message => .error (.message message)
    else .ok store
  | _ => .ok store

def Edit.reconfigure (resolver : Resolver) : Edit := fun store =>
  match Settings.reconfigure resolver store.config.notifications with
  | .ok notifier => .ok { store with notifier }
  | .error message => .error (.message message)

/-- `reconfigure` whose exceptions are only logged. -/
def Edit.reconfigureBack (resolver : Resolver) : Edit := fun store =>
  match Settings.reconfigure resolver store.config.notifications with
  | .ok notifier => .ok { store with notifier }
  | .error _ => .ok store

/-- A request of the notifications page, with what the network says while it is handled. -/
structure Update where
  data : Except Codes (List (String × Value))
  validates : Resolver
  applies : Resolver
  returns : Resolver
  saves : Bool

def Update.edits (u : Update) (data : List (String × Value)) : List Edit :=
  fieldEdits data booleanFields (fun field value => Edit.set py .notifications field value) ++
    fieldEdits data textFields (Edit.setText py "Notification text settings must be strings") ++
    fieldEdits data writeOnlyFields (Edit.setSecret py) ++
    [Edit.requireUrl, Edit.validate data "webhook_url" u.validates.webhook, Edit.validate data "apprise_url" u.validates.apprise,
      Edit.reconfigure u.applies]

def errorResponse (text : Codes) (status : Nat) : Response := .ofJson (.obj [(codes "error", .str text)]) status

/-- `_handle_update`. -/
def Update.handle (u : Update) (store : Store) : Store × Answer :=
  match u.data with
  | .error message => (store, .response (errorResponse message 400))
  | .ok data =>
    if data.any fun item => !(booleanFields ++ textFields ++ writeOnlyFields).contains item.1 then
      (store, .response (errorResponse (codes "Unknown notification setting") 400))
    else
      match transact store (u.edits py data ++ [Edit.save u.saves])
          (Edit.restore py .notifications store.config.notifications ++ [Edit.reconfigureBack u.returns]) with
      | (after, .committed) => (after, .response (.ofJson (.obj [(codes "notifications", after.notifier.publicConfig)]) 200))
      | (after, .undone (.message text)) => (after, .response (errorResponse text 400))
      | (after, .undone .other) =>
        (after, .response (errorResponse (codes "Failed to update notification configuration") 500))
      | (after, .raised _) => (after, .raised)

/-! ## The policy of the breadcrumbs -/

/-- Assign to `general.breadcrumb_trace_policy`: a text is not converted. -/
def Edit.assignPolicy (value : Value) : Edit := fun store =>
  match general.store py store.config.general "breadcrumb_trace_policy" .breadcrumbTracePolicy value with
  | .ok inner => .ok { store with config := store.config.withPart .general inner }
  | .error e => .error e.failure

/-- `__persist_breadcrumb_trace_policy`. -/
def persistPolicy (text : Codes) (saves : Bool) (store : Store) : Store × Answer :=
  match transact store [Edit.assignPolicy py (.str text), Edit.save saves]
      [Edit.assignPolicy py (store.config.general.read "breadcrumb_trace_policy")] with
  | (after, .committed) => (after, .returned)
  | (after, .undone _) => (after, .failed)
  | (after, .raised _) => (after, .raised)

/-! ## All of them -/

structure Writers where
  store : Store
  waiting : List Admitted := []
  deriving DecidableEq, Repr

inductive Write where
  /-- A request comes in, and its checks see this configuration. -/
  | arrive (seen : Config) (r : SetRequest)
  /-- A request that waits gets the lock. -/
  | commit (i : Nat) (saves : Bool)
  | update (u : Update)
  | policy (text : Codes) (saves : Bool)

def Writers.write (w : Writers) : Write → Option (Writers × Answer)
  | .arrive seen r =>
    match examine py seen r with
    | .ok admitted => some ({ w with waiting := w.waiting ++ [admitted] }, .waiting)
    | .error response => some (w, .response response)
  | .commit i saves =>
    (w.waiting[i]?).map fun r => ({ store := (r.commit py saves w.store).1, waiting := w.waiting.eraseIdx i }, (r.commit py saves w.store).2)
  | .update u => some ({ w with store := (u.handle py w.store).1 }, (u.handle py w.store).2)
  | .policy text saves => some ({ w with store := (persistPolicy py text saves w.store).1 }, (persistPolicy py text saves w.store).2)

/-- The writers in any order. -/
def Writers.run (w : Writers) (writes : List Write) : Option Writers :=
  runMoves (fun w write => (w.write py write).map Prod.fst) w writes

end

end SeedSync.Settings
