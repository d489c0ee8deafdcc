import SeedSync.Lib.Base64
import SeedSync.Lib.Utf8
import SeedSync.Model.Identity

/-!
# Page cursors

`__encode_cursor` and `__decode_cursor` of the model API handler: the position behind the last row
of a page, as JSON in URL-safe base64, bounded in length when it is read.
-/

namespace SeedSync.Paging

open Lib Identity

/-- A string that came out of a decoder: no two surrogates in it stand for one character. -/
structure Text where
  str : Str
  joined : str.Joined
  deriving DecidableEq

/-- `_MAX_CURSOR_LENGTH` -/
def maxCursorLength : Nat := 4096

/-- The query signature of `__read_query`. -/
def querySignature : Codes := codes "identity-v1"

inductive CursorError where
  /-- 400, "cursor is invalid" -/
  | invalid
  /-- `_CursorContractError`, "cursor does not match this model page" -/
  | contract
  deriving DecidableEq, Repr

/-- What a cursor says. -/
structure Position where
  after : Option Codes := none
  version : Option Int := none
  afterKey : Option (List Json) := none

def optionalText : Option Codes → Json
  | none => .null
  | some s => .str s

/-- The payload of a cursor. -/
def cursorPayload (version : Int) (scope : Codes) (parent : Option Codes) (after : Codes) (afterSortKey : Option Codes) :
    Json :=
  .obj [(codes "version", .int version), (codes "scope", .str scope), (codes "parent", optionalText parent),
    (codes "after", .str after), (codes "after_key", .list (afterSortKey.toList.map .str)),
    (codes "query", .str querySignature)]

/-- `__encode_cursor`. The payload is ASCII, so its bytes are its characters. -/
def encodeCursor (version : Int) (scope : Codes) (parent after afterSortKey : Option Codes) : Option Codes :=
  after.map fun after => encodeBase64 ((cursorPayload version scope parent after afterSortKey).write .compact 0)

/-- `payload.get(key) == text` -/
def fieldIs (fields : List (Codes × Json)) (key : String) (text : Option Codes) : Bool :=
  match Json.get fields key, text with
  | .str s, some t => decide (s = t)
  | .null, none => true
  | _, _ => false

/-- `type(value) in {str, int, float}` -/
def isKeyValue : Json → Bool
  | .str _ => true
  | .int _ => true
  | .float _ => true
  | _ => false

def readPayload (payload : Json) (scope : Codes) (parent : Option Codes) : Except CursorError Position :=
  match payload with
  | .obj fields =>
    match Json.get fields "after", Json.get fields "version", Json.get fields "after_key" with
    | .str after, .int version, .list afterKey =>
      if !afterKey.all isKeyValue then .error .invalid
      else if !fieldIs fields "scope" (some scope) || !fieldIs fields "parent" parent ||
          !fieldIs fields "query" (some querySignature) then .error .contract
      else .ok { after := some after, version := some version, afterKey := some afterKey }
    | _, _, _ => .error .invalid
  | _ => .error .invalid

/-- `json.loads(base64.urlsafe_b64decode(padded.encode("ascii")).decode("utf-8"))` -/
def loadCursor (raw : Codes) : Option Json :=
  if raw.all fun c => decide (c ≤ 127) then do
    let bytes ← decodeBase64 raw
    let text ← decodeUtf8 (bytes.map UInt8.ofNat)
    loads (asCodes text)
  else none

/-- `__decode_cursor` -/
def decodeCursor (raw : Option Codes) (scope : Codes) (parent : Option Codes) : Except CursorError Position :=
  match raw with
  | none => .ok {}
  | some [] => .ok {}
  | some raw =>
    if maxCursorLength < raw.length then .error .invalid
    else
      match loadCursor raw with
      | none => .error .invalid
      | some payload => readPayload payload scope parent

/-- The id behind which a page starts, as `__bounded_model_page_files` reads it. -/
def Position.afterId (position : Position) : Option Codes :=
  match position.afterKey with
  | some [.str id] => some id
  | _ => position.after

/-! ## What becomes of an issued cursor -/

/-- The characters of `json.dumps(text)`. -/
def jsonLength (s : Codes) : Nat := (quoted s).length

/-- The bytes of the payload: the id stands in it twice, each time as the text of a text. -/
def payloadLength (version : Int) (scope : Codes) (parent : Option Codes) (after : Codes) : Nat :=
  77 + (decimalInt version).length + jsonLength scope + parent.elim 4 jsonLength + 2 * jsonLength after

/-- Three bytes of payload take four characters of a cursor. -/
def Fits (version : Int) (scope : Codes) (parent : Option Codes) (after : Codes) : Prop :=
  4 * payloadLength version scope parent after ≤ 3 * maxCursorLength

instance (version : Int) (scope : Codes) (parent : Option Codes) (after : Codes) :
    Decidable (Fits version scope parent after) := inferInstanceAs (Decidable (_ ≤ _))

theorem cursorPayload_length (version : Int) (scope : Codes) (parent : Option Codes) (after : Codes) :
    ((cursorPayload version scope parent after (some after)).write .compact 0).length =
      payloadLength version scope parent after := by
  have hversion : (quoted (codes "version")).length = 9 := by decide
  have hscope : (quoted (codes "scope")).length = 7 := by decide
  have hparent : (quoted (codes "parent")).length = 8 := by decide
  have hafter : (quoted (codes "after")).length = 7 := by decide
  have hkey : (quoted (codes "after_key")).length = 11 := by decide
  have hquery : (quoted (codes "query")).length = 7 := by decide
  have hsignature : (quoted querySignature).length = 13 := by decide
  unfold payloadLength jsonLength
  cases parent with
  | none =>
    simp [cursorPayload, optionalText, Json.write, Json.writeFields, Json.writeItems, Layout.compact, asCodes,
      Json.dumps, hversion, hscope, hparent, hafter, hkey, hquery, hsignature]
    omega
  | some parent =>
    simp [cursorPayload, optionalText, Json.write, Json.writeFields, Json.writeItems, Layout.compact, asCodes,
      Json.dumps, hversion, hscope, hparent, hafter, hkey, hquery, hsignature]
    omega

theorem Text.stable (text : Text) : (Json.str text.str.codes).Stable := Json.stable_str text.str.valid text.joined

theorem cursorPayload_stable (version : Int) (scope : Text) (parent : Option Text) (after : Text) :
    (cursorPayload version scope.str.codes (parent.map (·.str.codes)) after.str.codes (some after.str.codes)).Stable := by
  have hparent : (optionalText (parent.map (·.str.codes))).Stable := by
    cases parent with
    | none => exact Json.stable_null
    | some parent => exact parent.stable
  have hkey : (Json.list ((some after.str.codes).toList.map .str)).Stable := by
    refine Json.stable_list fun item hitem => ?_
    rw [List.mem_singleton.1 hitem]
    exact after.stable
  have hkeys : [codes "version", codes "scope", codes "parent", codes "after", codes "after_key", codes "query"].Nodup := by
    decide
  have hquery : (Json.str querySignature).Stable := Json.stable_str (isText_codes _) (joinCodes_codes _)
  refine Json.stable_obj hkeys fun field hfield => ?_
  simp only [List.mem_cons, List.not_mem_nil, or_false] at hfield
  rcases hfield with rfl | rfl | rfl | rfl | rfl | rfl
  · exact ⟨isText_codes _, joinCodes_codes _, Json.stable_int version⟩
  · exact ⟨isText_codes _, joinCodes_codes _, scope.stable⟩
  · exact ⟨isText_codes _, joinCodes_codes _, hparent⟩
  · exact ⟨isText_codes _, joinCodes_codes _, after.stable⟩
  · exact ⟨isText_codes _, joinCodes_codes _, hkey⟩
  · exact ⟨isText_codes _, joinCodes_codes _, hquery⟩

theorem loadCursor_encodeBase64 {payload : Json} (h : payload.Stable) :
    loadCursor (encodeBase64 (payload.write .compact 0)) = some payload := by
  have hsmall := Json.write_small .compact payload 0
  have hbytes : ∀ b ∈ payload.write .compact 0, b < 256 := fun b hb => by
    have := hsmall b hb
    omega
  have hascii : (encodeBase64 (payload.write .compact 0)).all (fun c => decide (c ≤ 127)) = true := by
    rw [List.all_eq_true]
    intro c hc
    have := encodeBase64_ascii hbytes c hc
    exact decide_eq_true (by omega)
  have hsame : asCodes ((payload.write .compact 0).map Char.ofNat) = payload.write .compact 0 := by
    rw [asCodes, List.map_map]
    exact (List.map_congr_left fun c hc => toNat_ofNat (hsmall c hc)).trans (List.map_id _)
  unfold loadCursor
  rw [if_pos hascii, decodeBase64_encodeBase64 hbytes]
  simp only [Option.bind_eq_bind, Option.bind_some]
  rw [decodeUtf8_ascii hsmall, Option.bind_some, hsame, h.loads_write]

theorem readPayload_cursorPayload (version : Int) (scope : Codes) (parent : Option Codes) (after : Codes) :
    readPayload (cursorPayload version scope parent after (some after)) scope parent =
      .ok { after := some after, version := some version, afterKey := some [.str after] } := by
  have hget : ∀ key value fields, Json.get ((codes key, value) :: fields) key = value := by
    intro key value fields
    simp [Json.get]
  have hskip : ∀ key other value fields, codes key ≠ codes other →
      Json.get ((codes other, value) :: fields) key = Json.get fields key := by
    intro key other value fields hne
    rw [Json.get, List.lookup_cons, beq_eq_false_iff_ne.2 hne, Json.get]
  cases parent <;>
    simp (disch := decide) only [cursorPayload, readPayload, fieldIs, optionalText, hget, hskip, isKeyValue, List.all,
      Option.toList, List.map, Bool.and_true, Bool.not_true, decide_true, Bool.or_false, if_false, Bool.false_eq_true]

/-- A cursor leads back to its position, or it is too long. -/
theorem decodeCursor_encodeCursor (version : Int) (scope : Text) (parent : Option Text) (after : Text) :
    decodeCursor (encodeCursor version scope.str.codes (parent.map (·.str.codes)) (some after.str.codes)
        (some after.str.codes)) scope.str.codes (parent.map (·.str.codes)) =
      if Fits version scope.str.codes (parent.map (·.str.codes)) after.str.codes then
        .ok { after := some after.str.codes, version := some version, afterKey := some [.str after.str.codes] }
      else .error .invalid := by
  have hlength := encodeBase64_length
    ((cursorPayload version scope.str.codes (parent.map (·.str.codes)) after.str.codes (some after.str.codes)).write .compact 0)
  rw [cursorPayload_length] at hlength
  have hload := loadCursor_encodeBase64 (cursorPayload_stable version scope parent after)
  have hread := readPayload_cursorPayload version scope.str.codes (parent.map (·.str.codes)) after.str.codes
  have hpositive : 77 ≤ payloadLength version scope.str.codes (parent.map (·.str.codes)) after.str.codes := by
    unfold payloadLength
    omega
  unfold encodeCursor
  rw [Option.map_some]
  generalize encodeBase64 _ = raw at hlength hload ⊢
  cases raw with
  | nil =>
    simp only [List.length_nil] at hlength
    omega
  | cons c raw =>
    unfold decodeCursor
    simp only [hlength, hload, hread]
    by_cases hfits : Fits version scope.str.codes (parent.map (·.str.codes)) after.str.codes
    · have hshort : 4 * payloadLength _ _ _ _ ≤ 3 * maxCursorLength := hfits
      rw [if_neg (by omega), if_pos hfits]
    · have hlong : ¬4 * payloadLength _ _ _ _ ≤ 3 * maxCursorLength := hfits
      rw [if_pos (by omega), if_neg hfits]

end SeedSync.Paging
