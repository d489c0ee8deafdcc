import SeedSync.Lib.Loads
import SeedSync.Lib.Text
import SeedSync.System.Sidecar
import Mathlib.Data.List.Sort

/-!
# Checks of settings

`Converters` and `Checkers` of `common/config.py`: a converter reads the text of a setting, a checker
accepts a value and may write it in its one form.
-/

open SeedSync.Lib

namespace SeedSync.Settings

inductive Value where
  | none
  | bool (value : Bool)
  | int (value : Int)
  | str (text : Codes)
  deriving DecidableEq, Repr

/-- `str(value)`. -/
def Value.text : Value → Codes
  | .none => codes "None"
  | .bool true => codes "True"
  | .bool false => codes "False"
  | .int n => (decimalInt n).map Char.toNat
  | .str text => text

/-- `bool(value)`. -/
def Value.truthy : Value → Bool
  | .none => false
  | .bool value => value
  | .int n => decide (n ≠ 0)
  | .str text => !text.isEmpty

/-- The value as a number, where a comparison with a number does not raise. -/
def Value.number : Value → Option Int
  | .bool value => some (if value then 1 else 0)
  | .int n => some n
  | _ => Option.none

inductive ConfigError where
  | config (message : Codes)
  /-- A `TypeError` or an `AttributeError`. -/
  | raised
  deriving DecidableEq, Repr

/-! ## Texts -/

def lowerAscii (c : Nat) : Nat := if 65 ≤ c ∧ c ≤ 90 then c + 32 else c

def upperAscii (c : Nat) : Nat := if 97 ≤ c ∧ c ≤ 122 then c - 32 else c

/-- What is taken from Python's strings: the digits, and the two cases of a text. -/
structure Strings extends Decimals where
  digit_lt : ∀ c d, digit c = some d → d < 10
  threshold : ∀ limit ∈ maxDigits, 640 ≤ limit
  lower : Codes → Codes
  upper : Codes → Codes
  lower_ascii : ∀ text : Codes, (∀ c ∈ text, c < 128) → lower text = text.map lowerAscii
  upper_ascii : ∀ text : Codes, (∀ c ∈ text, c < 128) → upper text = text.map upperAscii
  /-- The sign of the kelvin is its own upper case. -/
  upper_kelvin : upper [0x212A] = [0x212A]

def bad (cls name : String) (value : Value) (rest : String) : ConfigError :=
  .config (codes ("Bad config: " ++ cls ++ "." ++ name ++ " (") ++ value.text ++ codes (") " ++ rest))

def empty (cls name : String) : ConfigError := .config (codes ("Bad config: " ++ cls ++ "." ++ name ++ " is empty"))

section
variable (py : Strings)

/-- The blanks that `int` allows around a number. -/
def isIntBlank (c : Nat) : Bool := isSpace c && !(decide (28 ≤ c ∧ c ≤ 31))

/-- An underscore stands between two digits. -/
def groupedDigits (digits : Codes) : Bool :=
  (digits.splitOn 95).all fun group => !group.isEmpty && group.all (Sidecar.isDigit py.toDecimals)

/-- `int(text)`. -/
def parseInt (text : Codes) : Option Int :=
  let body := (text.dropWhile isIntBlank).rdropWhile isIntBlank
  let digits := (readSign body).2
  if groupedDigits py digits then
    (Sidecar.parseDecimal py.toDecimals (digits.filter (· ≠ 95))).map fun n => signed (readSign body).1 n
  else none

/-- `_strtobool`. -/
def strToBool (text : Codes) : Option Bool :=
  if (["y", "yes", "t", "true", "on", "1"].map codes).contains (py.lower text) then some true
  else if (["n", "no", "f", "false", "off", "0"].map codes).contains (py.lower text) then some false
  else none

/-! ## The policy of the breadcrumbs -/

def isPolicyLevel (text : Codes) : Bool :=
  (["off", "error", "warning", "info", "debug", "trace"].map codes).contains (py.lower (strip text))

def hasControl (text : Codes) : Bool := text.any fun c => c < 32 || c == 127

/-- `item.split("=", 1)`, both parts stripped. -/
def splitEntry (item : Codes) : Option (Codes × Codes) :=
  match item.dropWhile (· ≠ 61) with
  | [] => none
  | _ :: level => some (strip (item.takeWhile (· ≠ 61)), strip level)

/-- One entry of the form `category=level`. -/
def compactEntry (state : Option Codes × List (Codes × Json)) (item : Codes) :
    Except Codes (Option Codes × List (Codes × Json)) :=
  match splitEntry (strip item) with
  | none => .error (codes "policy entries must use category=level")
  | some (category, level) =>
    if category = [] ∨ level = [] then .error (codes "policy categories and levels must be non-empty")
    else if (["*", "default", "default_level"].map codes).contains category then .ok (some level, state.2)
    else .ok (state.1, Dict.setItem state.2 category (.str level))

/-- The mapping that the text stands for. -/
def policyCandidate (serialized : Codes) : Except Codes Json :=
  match loads serialized with
  | some value => .ok value
  | none =>
    ((serialized.splitOn 44).foldlM compactEntry (none, [])).map fun state =>
      .obj [(codes "default", .str (state.1.getD (codes "info"))), (codes "rules", .obj state.2)]

/-- `candidate.get(first, candidate.get(second, default))`. -/
def getEither (fields : List (Codes × Json)) (first second : String) (default : Json) : Json :=
  match Dict.getItem fields (codes first), Dict.getItem fields (codes second) with
  | some value, _ => value
  | none, some value => value
  | none, none => default

def policyRule (rule : Codes × Json) : Except Codes Unit :=
  let level := match rule.2 with
    | .obj fields => getEither fields "level" "value" .null
    | value => value
  if strip rule.1 = [] then .error (codes "policy categories must be non-empty strings")
  else if hasControl rule.1 then .error (codes "policy categories must not contain control characters")
  else
    match level with
    | .str text => if isPolicyLevel py text then .ok () else .error (codes "policy level for " ++ rule.1 ++ codes " is invalid")
    | _ => .error (codes "policy level for " ++ rule.1 ++ codes " is invalid")

/-- `parse_breadcrumb_trace_policy`, as far as it accepts the text. -/
def parseBreadcrumbTracePolicy (value : Codes) : Except Codes Unit :=
  if strip value = [] then .error (codes "policy is empty")
  else
    (policyCandidate (strip value)).bind fun candidate =>
      match candidate with
      | .obj fields =>
        let rules : Json := match getEither fields "rules" "categories" .null with
          | .null => .obj (fields.filter fun item =>
              !(["default", "default_level", "rules", "categories"].map codes).contains item.1)
          | value => value
        match getEither fields "default" "default_level" (.str (codes "info")), rules with
        | .str level, .obj rules =>
          if isPolicyLevel py level then rules.forM (policyRule py) else .error (codes "policy default level is invalid")
        | .str level, _ =>
          if isPolicyLevel py level then .error (codes "policy rules must be an object")
          else .error (codes "policy default level is invalid")
        | _, _ => .error (codes "policy default level is invalid")
      | _ => .error (codes "policy must be a JSON object or category=level list")

/-! ## Normal forms -/

/-- A text that, without its blanks and in one case, is one of those allowed. -/
def normalizeWord (fold : Codes → Codes) (allowed : List String) (typeText wordText cls name : String) :
    Value → Except ConfigError Value
  | .str text =>
    if fold (strip text) = [] then .error (empty cls name)
    else if (allowed.map codes).contains (fold (strip text)) then .ok (.str (fold (strip text)))
    else .error (bad cls name (.str text) wordText)
  | value => .error (bad cls name value typeText)

def normalizeLogLevel : String → String → Value → Except ConfigError Value :=
  normalizeWord py.upper ["DEBUG", "INFO", "WARNING", "ERROR", "CRITICAL"] "must be a log level value"
    "must be one of DEBUG, INFO, WARNING, ERROR, or CRITICAL"

def normalizeLogFormat : String → String → Value → Except ConfigError Value :=
  normalizeWord py.lower ["standard", "json"] "must be either standard or json" "must be either standard or json"

def normalizeTransferProtocol : String → String → Value → Except ConfigError Value :=
  normalizeWord py.lower ["sftp", "ftps"] "must be either sftp or ftps" "must be either sftp or ftps"

def normalizeTransferBackend : Value → Value
  | .str text =>
    if (["lftp", "rclone"].map codes).contains (py.lower (strip text)) then .str (py.lower (strip text))
    else .str (codes "lftp")
  | _ => .str (codes "lftp")

def normalizeRemotePythonPath (cls name : String) : Value → Except ConfigError Value
  | .none => .ok (.str (codes "python3"))
  | .str text => .ok (.str (if strip text = [] then codes "python3" else strip text))
  | value => .error (bad cls name value "must be a string value")

def rejectControlCharacters (cls name : String) : Value → Except ConfigError Value
  | .str text =>
    if hasControl text then .error (.config (codes ("Bad config: " ++ cls ++ "." ++ name ++ " contains control characters")))
    else .ok (.str text)
  | _ => .error .raised

/-! ## Converters -/

/-- The converters that the settings use. -/
inductive Converter where
  | null
  | int
  | bool
  | logLevel
  | transferProtocol
  | transferBackend
  | remotePythonPath
  deriving DecidableEq, Repr

def convertInt (cls name : String) (text : Codes) : Except ConfigError Value :=
  if text = [] then .error (empty cls name)
  else
    match parseInt py text with
    | some n => .ok (.int n)
    | none => .error (bad cls name (.str text) "must be an integer value")

def convertBool (cls name : String) (text : Codes) : Except ConfigError Value :=
  if text = [] then .error (empty cls name)
  else
    match strToBool py text with
    | some value => .ok (.bool value)
    | none => .error (bad cls name (.str text) "must be a boolean value")

def Converter.convert (cls name : String) (text : Codes) : Converter → Except ConfigError Value
  | null => .ok (.str text)
  | int => convertInt py cls name text
  | bool => convertBool py cls name text
  | logLevel => normalizeLogLevel py cls name (.str text)
  | transferProtocol => normalizeTransferProtocol py cls name (.str text)
  | transferBackend => .ok (normalizeTransferBackend py (.str text))
  | remotePythonPath => normalizeRemotePythonPath cls name (.str text)

/-! ## Checkers -/

inductive Checker where
  | null
  | boolValue
  | stringNonempty
  | stringNonemptyNoControlChars
  | stringAllowEmpty
  | stringAllowEmptyNoControlChars
  | notificationProvider
  | logLevel
  | logFormat
  | transferProtocol
  | transferBackend
  | remotePythonPath
  | intNonNegativeMax (maximum : Int)
  | breadcrumbTracePolicy
  | intPositive
  | breadcrumbTraceMemoryBudget
  | breadcrumbTraceMaxEntries
  | intRange (minimum maximum : Int)
  | byteSizeOrEmpty
  deriving DecidableEq, Repr

def boolValue (cls name : String) : Value → Except ConfigError Value
  | .bool value => .ok (.bool value)
  | value => .error (bad cls name value "must be a boolean value")

def stringNonempty (cls name : String) : Value → Except ConfigError Value
  | .str text => if strip text = [] then .error (empty cls name) else .ok (.str text)
  | value => .error (if value.truthy then .raised else empty cls name)

def stringAllowEmpty (cls name : String) : Value → Except ConfigError Value
  | .str text => if text ≠ [] ∧ strip text = [] then .error (empty cls name) else .ok (.str text)
  | value => .error (if value.truthy then .raised else empty cls name)

def notificationProvider (cls name : String) : Value → Except ConfigError Value
  | .str text =>
    if (["webhook", "apprise"].map codes).contains (py.lower (strip text)) then .ok (.str (py.lower (strip text)))
    else .error (.config (codes ("Bad config: " ++ cls ++ "." ++ name ++ " must be webhook or apprise")))
  | _ => .error (.config (codes ("Bad config: " ++ cls ++ "." ++ name ++ " must be webhook or apprise")))

/-- A comparison with a bound: a value that is no number raises. -/
def intAtLeastOne (cls name : String) (value : Value) : Except ConfigError Value :=
  match value.number with
  | some n => if n < 1 then .error (bad cls name value "must be greater than 0") else .ok value
  | none => .error .raised

def intNonNegativeMax (maximum : Int) (cls name : String) (value : Value) : Except ConfigError Value :=
  (intAtLeastOne cls name value).bind fun value =>
    match value.number with
    | some n =>
      if n > maximum then
        .error (bad cls name value ("must not exceed " ++ toString maximum ++ " (FD_SETSIZE limit)"))
      else .ok value
    | none => .error .raised

def breadcrumbTracePolicy (cls name : String) : Value → Except ConfigError Value
  | .str text =>
    (rejectControlCharacters cls name (.str (strip text))).bind fun _ =>
      if strip text = [] then .error (empty cls name)
      else
        match parseBreadcrumbTracePolicy py (strip text) with
        | .ok _ => .ok (.str (strip text))
        | .error message =>
          .error (.config (codes ("Bad config: " ++ cls ++ "." ++ name ++ " (") ++ text ++ codes ") is invalid: " ++ message))
  | value => .error (bad cls name value "must be a serialized policy string")

/-- `type(value) is int`, within bounds. -/
def exactInt (allowed : Int → Bool) (text cls name : String) : Value → Except ConfigError Value
  | .int n => if allowed n then .ok (.int n) else .error (bad cls name (.int n) text)
  | value => .error (bad cls name value text)

def breadcrumbTraceMemoryBudget : String → String → Value → Except ConfigError Value :=
  exactInt (fun n => decide (1 ≤ n)) "must be greater than 0"

def breadcrumbTraceMaxEntries : String → String → Value → Except ConfigError Value :=
  exactInt (fun n => decide (0 ≤ n)) "must be zero or greater"

def intRange (minimum maximum : Int) : String → String → Value → Except ConfigError Value :=
  exactInt (fun n => decide (minimum ≤ n ∧ n ≤ maximum)) ("must be between " ++ toString minimum ++ " and " ++ toString maximum)

/-- The letters that `[KMG]` matches without regard to case. -/
def isSuffix (c : Nat) : Bool := [75, 77, 71, 107, 109, 103, 0x212A].contains c

/-- `_BYTE_SIZE_VALUE_RE.match` of a stripped text. -/
def isByteSize (text : Codes) : Bool :=
  let digits := if text.getLast?.any isSuffix then text.dropLast else text
  !digits.isEmpty && digits.all (Sidecar.isDigit py.toDecimals)

def byteSizeText (text cls name : String) (shown : Codes) : Except ConfigError Value :=
  if shown = [] then .ok (.str [])
  else if strip shown = [] then .error (empty cls name)
  else if isByteSize py (strip shown) then
    .ok (.str (if (strip shown).getLast?.any isSuffix then
      (strip shown).dropLast ++ py.upper ((strip shown).getLast?.toList) else strip shown))
  else .error (bad cls name (.str shown) text)

def byteSizeOrEmpty (cls name : String) : Value → Except ConfigError Value
  | .int n => byteSizeText py "must be a byte size value like 512K, 8M, 1G, or 8388608" cls name (Value.int n).text
  | .str text => byteSizeText py "must be a byte size value like 512K, 8M, 1G, or 8388608" cls name text
  | value => .error (bad cls name value "must be a byte size value")

def Checker.check (cls name : String) (value : Value) : Checker → Except ConfigError Value
  | null => .ok value
  | boolValue => Settings.boolValue cls name value
  | stringNonempty => Settings.stringNonempty cls name value
  | stringNonemptyNoControlChars => (Settings.stringNonempty cls name value).bind (rejectControlCharacters cls name)
  | stringAllowEmpty => Settings.stringAllowEmpty cls name value
  | stringAllowEmptyNoControlChars => (Settings.stringAllowEmpty cls name value).bind (rejectControlCharacters cls name)
  | notificationProvider => Settings.notificationProvider py cls name value
  | logLevel => normalizeLogLevel py cls name value
  | logFormat => normalizeLogFormat py cls name value
  | transferProtocol => normalizeTransferProtocol py cls name value
  | transferBackend => .ok (normalizeTransferBackend py value)
  | remotePythonPath => normalizeRemotePythonPath cls name value
  | intNonNegativeMax maximum => Settings.intNonNegativeMax maximum cls name value
  | breadcrumbTracePolicy => Settings.breadcrumbTracePolicy py cls name value
  | intPositive => intAtLeastOne cls name value
  | breadcrumbTraceMemoryBudget => Settings.breadcrumbTraceMemoryBudget cls name value
  | breadcrumbTraceMaxEntries => Settings.breadcrumbTraceMaxEntries cls name value
  | intRange minimum maximum => Settings.intRange minimum maximum cls name value
  | byteSizeOrEmpty => Settings.byteSizeOrEmpty py cls name value

end

end SeedSync.Settings
