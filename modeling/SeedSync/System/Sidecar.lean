import SeedSync.Lib.Ranges
import SeedSync.Lib.Text

/-!
# Sidecars of segmented downloads

`parse_lftp_pget_status` of `common/lftp_status.py`, and the copy of it that runs on the remote host in
`scan_fs.py`.
-/

namespace SeedSync

open Lib

/-! ## Texts -/

/-- What is taken from Python's strings: the digits that `\d` matches with their values, and the number of digits
that `int` reads at most, when there is such a limit. -/
structure Decimals where
  digit : Nat → Option Nat
  maxDigits : Option Nat
  ascii : ∀ c < 128, digit c = if 48 ≤ c ∧ c ≤ 57 then some (c - 48) else none

/-- The digits of ASCII, with the limit that `int` has by default. -/
def asciiDecimals : Decimals where
  digit c := if 48 ≤ c ∧ c ≤ 57 then some (c - 48) else none
  maxDigits := some 4300
  ascii _ _ := rfl

namespace Sidecar

def isLineBreak (c : Nat) : Bool :=
  (0x0A ≤ c && c ≤ 0x0D) || (0x1C ≤ c && c ≤ 0x1E) || [0x85, 0x2028, 0x2029].contains c

/-- `text.splitlines()` -/
def splitlines : Codes → List Codes
  | [] => []
  | 13 :: 10 :: rest => [] :: splitlines rest
  | c :: rest =>
    if isLineBreak c then [] :: splitlines rest
    else match splitlines rest with
      | [] => [[c]]
      | line :: lines => (c :: line) :: lines

/-- `len(text.encode("utf-8"))`; a lone surrogate has no encoding. -/
def encodedLength : Codes → Option Nat
  | [] => some 0
  | c :: rest => do
    if 0xD800 ≤ c ∧ c ≤ 0xDFFF then none
    let length ← encodedLength rest
    return length + if c < 0x80 then 1 else if c < 0x800 then 2 else if c < 0x10000 then 3 else 4

section

variable (py : Decimals)

def isDigit (c : Nat) : Bool := (py.digit c).isSome

/-- `int(value)` of digits -/
def parseDecimal (value : Codes) : Option Nat :=
  if py.maxDigits.any fun limit => limit < value.length then none
  else some (value.foldl (fun n c => n * 10 + (py.digit c).getD 0) 0)

/-- `(\d+)` to the end of the line -/
def digitsOf (text : Codes) : Option Codes := if text ≠ [] ∧ text.all (isDigit py) then some text else none

/-- `size=(\d+)` -/
def matchSize (line : Codes) : Option Codes :=
  if codes "size=" <+: line then digitsOf py (line.drop (codes "size=").length) else none

/-- `(\d+)` and a text and `(\d+)`, the text with no digit in front -/
def matchIndexed (key : String) (line : Codes) : Option (Codes × Codes) :=
  let index := line.takeWhile (isDigit py)
  let rest := line.dropWhile (isDigit py)
  if index ≠ [] ∧ codes key <+: rest then (digitsOf py (rest.drop (codes key).length)).map fun value => (index, value)
  else none

/-- `(\d+)\.pos=(\d+)` -/
def matchPosition (line : Codes) : Option (Codes × Codes) := matchIndexed py ".pos=" line

/-- `(\d+)\.limit=(\d+)` -/
def matchLimit (line : Codes) : Option (Codes × Codes) := matchIndexed py ".limit=" line

/-! ## Segments -/

def maxStatusBytes : Nat := 64 * 1024

def maxSegments : Nat := 256

/-- The hole between a position and a limit that two lines declare, and the index of each. -/
def declaredSegment (position limit : Codes) : Option (Nat × Nat × Range) := do
  let (positionIndex, positionValue) ← matchPosition py position
  let (limitIndex, limitValue) ← matchLimit py limit
  let positionSegment ← parseDecimal py positionIndex
  let limitSegment ← parseDecimal py limitIndex
  let start ← parseDecimal py positionValue
  let stop ← parseDecimal py limitValue
  return (positionSegment, limitSegment, ⟨start, stop⟩)

/-- One turn of the loop over the lines, which is the same in both copies. -/
def readSegment (total index : Nat) (ranges : List Range) (position limit : Codes) : Option Range :=
  match declaredSegment py position limit with
  | none => none
  | some (positionSegment, limitSegment, range) =>
    if positionSegment ≠ index ∨ limitSegment ≠ index then none
    else if total < range.start ∨ total < range.stop ∨ range.stop < range.start then none
    else if ranges.any fun previous => range.overlaps previous then none
    else some range

/-- The loop: the ranges so far and the sum of their lengths. -/
def readSegments (total : Nat) : Nat → List Range → Nat → List Codes → Option (List Range × Nat)
  | index, ranges, emptySize, position :: limit :: lines =>
    match readSegment py total index ranges position limit with
    | none => none
    | some range => readSegments total (index + 1) (ranges ++ [range]) (emptySize + (range.stop - range.start)) lines
  | _, ranges, emptySize, _ => some (ranges, emptySize)

/-! ## The two parsers -/

structure LftpPgetStatus where
  totalSize : Nat
  coveredSize : Nat
  baseOnly : Bool
  deriving DecidableEq, Repr

/-- `[line.strip() for line in status.splitlines() if line.strip()]` -/
def statusLines (status : Codes) : List Codes :=
  ((splitlines status).filter fun line => strip line ≠ []).map strip

/-- `parse_lftp_pget_status` -/
def parseLftpPgetStatus (status : Codes) : Option LftpPgetStatus :=
  match encodedLength status with
  | none => none
  | some bytes =>
    if maxStatusBytes < bytes then none
    else match statusLines status with
      | [] => none
      | first :: lines =>
        match (matchSize py first).bind (parseDecimal py) with
        | none => none
        | some total =>
          match lines with
          | [line] =>
            match matchPosition py line with
            | none => none
            | some (index, position) =>
              match parseDecimal py position with
              | none => none
              | some covered =>
                if parseDecimal py index ≠ some 0 ∨ total < covered then none else some ⟨total, covered, true⟩
          | lines =>
            if lines = [] ∨ lines.length % 2 ≠ 0 then none
            else if maxSegments < lines.length / 2 then none
            else match readSegments py total 0 [] 0 lines with
              | none => none
              | some (_, emptySize) => if total < emptySize then none else some ⟨total, total - emptySize, false⟩

/-- `list(filter(None, [s.strip() for s in status.splitlines()]))` -/
def scannedLines (status : Codes) : List Codes := ((splitlines status).map strip).filter fun line => line ≠ []

/-- `SystemScanner._lftp_status_file_size` of `scan_fs.py` -/
def lftpStatusFileSize (status : Codes) : Option Nat :=
  match encodedLength status with
  | none => none
  | some bytes =>
    if maxStatusBytes < bytes then none
    else match scannedLines status with
      | [] => none
      | first :: lines =>
        match matchSize py first with
        | none => none
        | some size =>
          match parseDecimal py size with
          | none => none
          | some total =>
            if lines.length = 1 then
              match lines.head?.bind (matchPosition py) with
              | none => none
              | some (index, position) =>
                match parseDecimal py index, parseDecimal py position with
                | some 0, some covered => if covered ≤ total then some covered else none
                | _, _ => none
            else if lines = [] ∨ lines.length % 2 ≠ 0 then none
            else if maxSegments < lines.length / 2 then none
            else match readSegments py total 0 [] 0 lines with
              | none => none
              | some (_, emptySize) => if total < emptySize then none else some (total - emptySize)

/-! ## What the holes leave -/

/-- The holes that the lines after the first declare. -/
def declaredHoles : List Codes → List Range
  | position :: limit :: lines => ((declaredSegment py position limit).map fun segment => segment.2.2).toList ++ declaredHoles lines
  | _ => []

def holes (status : Codes) : List Range := declaredHoles py (statusLines status).tail

/-- Ranges within a file that do not overlap, with the sum of their lengths. -/
structure Tiles (total : Nat) (ranges : List Range) (emptySize : Nat) : Prop where
  within : ∀ range ∈ ranges, range.stop ≤ total
  apart : ranges.Pairwise fun a b => a.overlaps b = false
  sum : (ranges.map Range.length).sum = emptySize

variable {py}

theorem Tiles.size {total emptySize : Nat} {ranges : List Range} (h : Tiles total ranges emptySize) :
    (Range.covered ranges total).card = emptySize := (Range.covered_card h.within h.apart).trans h.sum

theorem Tiles.le {total emptySize : Nat} {ranges : List Range} (h : Tiles total ranges emptySize) : emptySize ≤ total := by
  rw [← h.size]
  exact Range.covered_card_le ranges total

/-- A segment that is read is a hole that is declared, within the file and apart from those before it. -/
theorem readSegment_spec {total index : Nat} {ranges : List Range} {position limit : Codes} {range : Range}
    (h : readSegment py total index ranges position limit = some range) :
    (declaredSegment py position limit).map (fun segment => segment.2.2) = some range ∧ range.stop ≤ total ∧
      ∀ previous ∈ ranges, previous.overlaps range = false := by
  unfold readSegment at h
  cases hsegment : declaredSegment py position limit with
  | none => simp [hsegment] at h
  | some segment =>
    obtain ⟨positionSegment, limitSegment, found⟩ := segment
    rw [hsegment] at h
    dsimp only at h
    split_ifs at h with hindex hbounds hoverlap
    obtain rfl := Option.some.inj h
    rw [not_or, not_or] at hbounds
    refine ⟨rfl, by omega, fun previous hprevious => ?_⟩
    rw [Range.overlaps_comm]
    simp only [List.any_eq_true, not_exists, not_and, Bool.not_eq_true] at hoverlap
    exact hoverlap previous hprevious

theorem Tiles.concat {total emptySize : Nat} {ranges : List Range} (h : Tiles total ranges emptySize) {range : Range}
    (hwithin : range.stop ≤ total) (hapart : ∀ previous ∈ ranges, previous.overlaps range = false) :
    Tiles total (ranges ++ [range]) (emptySize + (range.stop - range.start)) where
  within other hother := by
    rcases List.mem_append.1 hother with hother | hother
    · exact h.within other hother
    · rw [List.mem_singleton] at hother
      rw [hother]
      exact hwithin
  apart := by
    refine List.pairwise_append.2 ⟨h.apart, List.pairwise_singleton _ _, fun previous hprevious other hother => ?_⟩
    rw [List.mem_singleton] at hother
    rw [hother]
    exact hapart previous hprevious
  sum := by
    rw [List.map_append, List.sum_append, h.sum]
    simp [Range.length]

/-- The loop reads the declared holes, and they tile. -/
theorem readSegments_spec {total emptySize lastSize : Nat} {index : Nat} {ranges lastRanges : List Range} {lines : List Codes}
    (h : readSegments py total index ranges emptySize lines = some (lastRanges, lastSize)) (htiles : Tiles total ranges emptySize) :
    lastRanges = ranges ++ declaredHoles py lines ∧ Tiles total lastRanges lastSize := by
  fun_induction readSegments py total index ranges emptySize lines with
  | case1 index ranges emptySize position limit lines hread => cases h
  | case2 index ranges emptySize position limit lines range hread ih =>
    obtain ⟨hdeclared, hwithin, hapart⟩ := readSegment_spec hread
    obtain ⟨hlast, hlastTiles⟩ := ih h (htiles.concat hwithin hapart)
    refine ⟨?_, hlastTiles⟩
    rw [hlast, declaredHoles, hdeclared, List.append_assoc]
    rfl
  | case3 lines index ranges emptySize hshort =>
    simp only [Option.some.injEq, Prod.mk.injEq] at h
    obtain ⟨rfl, rfl⟩ := h
    have hnone : declaredHoles py lines = [] := by
      unfold declaredHoles
      split
      · exact absurd rfl (hshort _ _ _ ·)
      · rfl
    rw [hnone, List.append_nil]
    exact ⟨rfl, htiles⟩

theorem Tiles.nil (total : Nat) : Tiles total [] 0 := ⟨by simp, List.Pairwise.nil, rfl⟩

/-! ## Sidecars are covered as they declare -/

theorem scannedLines_eq (status : Codes) : scannedLines status = statusLines status := by
  unfold scannedLines statusLines
  rw [List.filter_map]
  rfl

variable (py)

/-- Both copies read the same size. -/
theorem lftpStatusFileSize_eq (status : Codes) :
    lftpStatusFileSize py status = (parseLftpPgetStatus py status).map LftpPgetStatus.coveredSize := by
  unfold lftpStatusFileSize parseLftpPgetStatus
  rw [scannedLines_eq]
  cases encodedLength status with
  | none => rfl
  | some bytes =>
    dsimp only
    split_ifs
    · rfl
    cases statusLines status with
    | nil => rfl
    | cons first lines =>
      dsimp only
      cases matchSize py first with
      | none => rfl
      | some size =>
        dsimp only [Option.bind_some]
        cases parseDecimal py size with
        | none => rfl
        | some total =>
          match lines with
          | [] => rfl
          | [line] =>
            dsimp only [List.length_singleton, List.head?_cons, Option.bind_some]
            rw [if_pos rfl]
            cases matchPosition py line with
            | none => rfl
            | some segment =>
              obtain ⟨index, position⟩ := segment
              dsimp only
              cases parseDecimal py position with
              | none => rcases parseDecimal py index with _ | _ | n <;> rfl
              | some covered =>
                rcases hindex : parseDecimal py index with _ | _ | n
                · simp
                · by_cases hcovered : covered ≤ total
                  · simp [hcovered]
                  · simp [hcovered, Nat.lt_of_not_le hcovered]
                · simp
          | first :: second :: rest =>
            dsimp only
            rw [if_neg (by simp)]
            simp only [reduceCtorEq]
            split_ifs
            · rfl
            · rfl
            cases readSegments py total 0 [] 0 (first :: second :: rest) with
            | none => rfl
            | some read =>
              obtain ⟨ranges, emptySize⟩ := read
              dsimp only
              split_ifs <;> rfl

/-- What is accepted is a position of the only segment, or a map of segments. -/
theorem parseLftpPgetStatus_cases {status : Codes} {parsed : LftpPgetStatus} (h : parseLftpPgetStatus py status = some parsed) :
    (∃ line index position, (statusLines status).tail = [line] ∧ matchPosition py line = some (index, position) ∧
      parseDecimal py position = some parsed.coveredSize ∧ parsed.coveredSize ≤ parsed.totalSize ∧ parsed.baseOnly = true) ∨
    ∃ ranges emptySize, readSegments py parsed.totalSize 0 [] 0 (statusLines status).tail = some (ranges, emptySize) ∧
      parsed.coveredSize = parsed.totalSize - emptySize ∧ parsed.baseOnly = false := by
  unfold parseLftpPgetStatus at h
  cases hbytes : encodedLength status with
  | none => simp [hbytes] at h
  | some bytes =>
    rw [hbytes] at h
    dsimp only at h
    split_ifs at h
    cases hlines : statusLines status with
    | nil => simp [hlines] at h
    | cons first lines =>
      rw [hlines] at h
      dsimp only at h
      rw [List.tail_cons]
      cases htotal : (matchSize py first).bind (parseDecimal py) with
      | none => simp [htotal] at h
      | some total =>
        rw [htotal] at h
        dsimp only at h
        split at h
        · rename_i line
          left
          cases hmatch : matchPosition py line with
          | none => simp [hmatch] at h
          | some segment =>
            obtain ⟨index, position⟩ := segment
            rw [hmatch] at h
            dsimp only at h
            cases hposition : parseDecimal py position with
            | none => simp [hposition] at h
            | some covered =>
              rw [hposition] at h
              dsimp only at h
              split_ifs at h with hbase
              obtain rfl := Option.some.inj h
              exact ⟨line, index, position, rfl, hmatch, hposition, Nat.le_of_not_lt fun hlt => hbase (.inr hlt), rfl⟩
        · right
          split_ifs at h
          cases hread : readSegments py total 0 [] 0 lines with
          | none => simp [hread] at h
          | some read =>
            obtain ⟨ranges, emptySize⟩ := read
            rw [hread] at h
            dsimp only at h
            split_ifs at h
            obtain rfl := Option.some.inj h
            exact ⟨ranges, emptySize, hread, rfl, rfl⟩

/-- The two copies agree. A map of segments that is accepted covers the file but for the positions in its holes, and
its last check never refuses one. The position of an only segment covers what is before it. -/
theorem sidecar_coverage (status : Codes) :
    lftpStatusFileSize py status = (parseLftpPgetStatus py status).map LftpPgetStatus.coveredSize ∧
    (∀ parsed, parseLftpPgetStatus py status = some parsed → parsed.baseOnly = false →
      parsed.coveredSize + (Range.covered (holes py status) parsed.totalSize).card = parsed.totalSize) ∧
    (∀ total ranges emptySize, readSegments py total 0 [] 0 (statusLines status).tail = some (ranges, emptySize) →
      ¬ total < emptySize) ∧
    ∀ parsed, parseLftpPgetStatus py status = some parsed → parsed.baseOnly = true →
      (∃ line index position, (statusLines status).tail = [line] ∧ matchPosition py line = some (index, position) ∧
        parseDecimal py position = some parsed.coveredSize) ∧ parsed.coveredSize ≤ parsed.totalSize := by
  have htiles : ∀ {total ranges emptySize}, readSegments py total 0 [] 0 (statusLines status).tail = some (ranges, emptySize) →
      ranges = holes py status ∧ Tiles total ranges emptySize := fun hread => readSegments_spec hread (Tiles.nil _)
  refine ⟨lftpStatusFileSize_eq py status, fun parsed hparsed hpaired => ?_, fun total ranges emptySize hread => ?_,
    fun parsed hparsed hbase => ?_⟩
  · rcases parseLftpPgetStatus_cases py hparsed with ⟨_, _, _, _, _, _, _, hbase⟩ | ⟨ranges, emptySize, hread, hcovered, -⟩
    · rw [hbase] at hpaired
      cases hpaired
    · obtain ⟨hholes, htile⟩ := htiles hread
      have hsize := htile.size
      have hle := htile.le
      rw [hholes] at hsize
      omega
  · exact Nat.not_lt.2 (htiles hread).2.le
  · rcases parseLftpPgetStatus_cases py hparsed with
      ⟨line, index, position, hlines, hmatch, hposition, hle, -⟩ | ⟨_, _, _, _, hpaired⟩
    · exact ⟨⟨line, index, position, hlines, hmatch, hposition⟩, hle⟩
    · rw [hpaired] at hbase
      cases hbase

set_option maxRecDepth 10000

/-- Two touching holes, declared out of order. -/
example : parseLftpPgetStatus asciiDecimals (codes "size=10\n0.pos=4\n0.limit=6\n1.pos=2\n1.limit=4\n") =
    some ⟨10, 6, false⟩ := by decide +kernel

end

end Sidecar

end SeedSync
