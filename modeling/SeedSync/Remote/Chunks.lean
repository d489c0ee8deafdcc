import SeedSync.Lib.Stateful
import SeedSync.Remote.Consumer

/-!
# The chunks of a well-formed stream

However the bytes of a stream of ASCII lines are cut into chunks, the consumer decodes the lines
one after the other.
-/

namespace SeedSync.Remote

open Lib

/-! ## Bytes and characters -/

def Ascii (c : Char) : Prop := c.toNat ≤ 127

instance : DecidablePred Ascii := fun c => inferInstanceAs (Decidable (c.toNat ≤ 127))

def byteOf (c : Char) : UInt8 := UInt8.ofNat c.toNat

theorem toNat_byteOf {c : Char} (h : Ascii c) : (byteOf c).toNat = c.toNat := by
  unfold Ascii at h
  rw [byteOf, UInt8.toNat_ofNat', Nat.mod_eq_of_lt (by omega)]

theorem isNewline_byteOf {c : Char} (h : Ascii c) : isNewline (byteOf c) = (c == '\n') := by
  rw [Bool.eq_iff_iff, isNewline, beq_iff_eq, beq_iff_eq, ← UInt8.toNat_inj, toNat_byteOf h]
  constructor
  · intro hc
    exact Char.ext (UInt32.toNat_inj.mp hc)
  · rintro rfl
    rfl

theorem decode_ascii (text : List Char) (h : ∀ c ∈ text, Ascii c) :
    Utf8Decoder.decode {} (text.map byteOf) = some ({}, text) := by
  induction text with
  | nil => rfl
  | cons c text ih =>
    have hc : c.toNat ≤ 127 := h c List.mem_cons_self
    have hstep : Utf8Decoder.step {} (byteOf c) = some ({}, [c]) := by
      unfold Utf8Decoder.step
      rw [if_pos rfl, toNat_byteOf hc, if_pos hc, Char.ofNat_toNat]
    rw [List.map_cons, Utf8Decoder.decode, hstep]
    change (Utf8Decoder.decode {} (text.map byteOf)).bind _ = _
    rw [ih fun d hd => h d (List.mem_cons_of_mem _ hd)]
    rfl

theorem utf8Length_ascii (text : List Char) (h : ∀ c ∈ text, Ascii c) : utf8Length text = text.length := by
  unfold utf8Length
  induction text with
  | nil => rfl
  | cons c text ih =>
    have hc : c.utf8Size = 1 := by
      have := h c List.mem_cons_self
      unfold Ascii at this
      rw [Char.utf8Size_eq_one_iff]
      exact UInt32.le_iff_toNat_le.mpr this
    rw [List.map_cons, List.sum_cons, hc, ih fun d hd => h d (List.mem_cons_of_mem _ hd), List.length_cons, Nat.add_comm]

/-! ## The kind of the stream -/

theorem classify_of_start {probe : List UInt8} (h : streamPrefixBytes <+: probe) : classify probe = .v2 := by
  obtain ⟨rest, rfl⟩ := h
  have hall : streamPrefixBytes.all (fun byte => decide (isNewline byte = false)) = true := by decide
  have hopen : ∀ byte ∈ streamPrefixBytes, isNewline byte = false := fun byte hbyte =>
    of_decide_eq_true (List.all_eq_true.mp hall byte hbyte)
  have hfirst : ∀ more, (streamPrefixBytes ++ more).dropWhile isLineWhitespace = streamPrefixBytes ++ more :=
    fun more => rfl
  unfold classify
  rw [cutLines_append_of_open isNewline hopen]
  rcases cutLines isNewline rest with ⟨_ | ⟨line, lines⟩, tail⟩
  · simp only [extendFirst, classifyLines, hfirst, List.prefix_append, if_true]
  · simp only [extendFirst, classifyLines, List.append_assoc, hfirst, List.prefix_append, if_true]

/-- Nothing is known before the whole of the prefix is there. -/
theorem classify_of_short {probe : List UInt8} (h : probe <+: streamPrefixBytes)
    (hlt : probe.length < streamPrefixBytes.length) : classify probe = .unknown := by
  have hshort : ∀ n < 17, classify (streamPrefixBytes.take n) = .unknown := by
    intro n hn
    interval_cases n <;> rfl
  rw [List.prefix_iff_eq_take.mp h]
  exact hshort _ hlt

/-! ## The size of a line -/

theorem oversized_eq_false {lines : List (List UInt8)} {start tail : List UInt8}
    (hlines : ∀ line ∈ (extendFirst start (lines, tail)).1, line.length + 1 ≤ maxV2StreamRecordBytes)
    (htail : (extendFirst start (lines, tail)).2.length ≤ maxV2StreamRecordBytes) :
    oversized tail start.length lines = false := by
  induction lines generalizing start with
  | nil =>
    rw [extendFirst, List.length_append] at htail
    simp only [oversized, decide_eq_false_iff_not]
    omega
  | cons line lines ih =>
    have hfirst := hlines (start ++ line) List.mem_cons_self
    rw [List.length_append] at hfirst
    have hnil : extendFirst [] (lines, tail) = (lines, tail) := by
      cases lines <;> rfl
    have hrest : oversized tail ([] : List UInt8).length lines = false := by
      refine ih ?_ ?_
      · rw [hnil]
        exact fun l hl => hlines l (List.mem_cons_of_mem _ hl)
      · rw [hnil]
        exact htail
    simp only [oversized, Bool.or_eq_false_iff, decide_eq_false_iff_not]
    exact ⟨by omega, hrest⟩

/-- A chunk that goes on an open line is measured as the lines it makes. -/
theorem oversized_chunk {start piece : List Char} (hascii : ∀ c ∈ start ++ piece, Ascii c)
    (hopen : ∀ c ∈ start, (c == '\n') = false)
    (hlines : ∀ line ∈ (cutLines (· == '\n') (start ++ piece)).1, line.length + 1 ≤ maxV2StreamRecordBytes)
    (htail : (cutLines (· == '\n') (start ++ piece)).2.length ≤ maxV2StreamRecordBytes) :
    oversized (cutLines isNewline (piece.map byteOf)).2 start.length (cutLines isNewline (piece.map byteOf)).1 = false := by
  have hbytes : ∀ byte ∈ start.map byteOf, isNewline byte = false := by
    intro byte hbyte
    obtain ⟨c, hc, rfl⟩ := List.mem_map.mp hbyte
    rw [isNewline_byteOf (hascii c (List.mem_append_left _ hc))]
    exact hopen c hc
  have hcut := cutLines_map isNewline fun c hc => isNewline_byteOf (hascii c hc)
  rw [List.map_append, cutLines_append_of_open isNewline hbytes] at hcut
  rw [← List.length_map (f := byteOf)]
  refine oversized_eq_false ?_ ?_
  · rw [Prod.mk.eta, hcut]
    intro line hline
    obtain ⟨chars, hchars, rfl⟩ := List.mem_map.mp hline
    rw [List.length_map]
    exact hlines chars hchars
  · rw [Prod.mk.eta, hcut, List.length_map]
    exact htail

/-! ## Chunk by chunk -/

def decodeLines (env : Environment) (lines : List (List Char)) : Decode Unit :=
  lines.forM fun line => decodeStreamRecord env (stripCarriageReturns line)

/-- The kind of the stream is known, or all of it so far is in the probe. -/
def Probing (text : List Char) (mode : Mode) (probe : List UInt8) : Prop :=
  mode = .v2 ∨ mode = .unknown ∧ probe = text.map byteOf ∧ text.length < streamLinePrefix.length

/-- The consumer after a beginning of the text. -/
structure Consumed (env : Environment) (text : List Char) (c : Consumer) : Prop where
  error : c.error = none
  decoder : c.decoder = {}
  buffer : c.buffer = (cutLines (· == '\n') text).2
  stream : (decodeLines env (cutLines (· == '\n') text).1).run.run {} = (.ok (), c.stream)
  mode : Probing text c.mode c.probe

/-- The consumer after the first line that raised. -/
def Stopped (env : Environment) (text : List Char) (c : Consumer) : Prop :=
  ∃ e s, (decodeLines env (cutLines (· == '\n') text).1).run.run {} = (.error e, s) ∧ c.error = some e

/-- A text of lines that a stream of records may have. -/
structure StreamText (text : List Char) (lines : List (List Char)) : Prop where
  ascii : ∀ c ∈ text, Ascii c
  starts : streamLinePrefix <+: text
  cut : cutLines (· == '\n') text = (lines, [])
  short : ∀ line ∈ lines, line.length + 1 ≤ maxV2StreamRecordBytes

section

variable {env : Environment} {text : List Char} {lines : List (List Char)}

theorem decodeLines_append (first rest : List (List Char)) :
    decodeLines env (first ++ rest) = decodeLines env first >>= fun _ => decodeLines env rest :=
  List.forM_append

/-- The probe is the beginning of a stream. -/
theorem classifyProbe_of_start {c : Consumer} (hstart : streamPrefixBytes <+: text.map byteOf)
    (hprobe : c.probe <+: text.map byteOf) :
    c.classifyProbe = if streamPrefixBytes.length ≤ c.probe.length then { c with mode := .v2, probe := [] } else c := by
  unfold Consumer.classifyProbe
  split_ifs with hlength
  · rw [classify_of_start (List.prefix_of_prefix_length_le hstart hprobe hlength)]
  · rw [classify_of_short (List.prefix_of_prefix_length_le hprobe hstart (by omega)) (by omega)]

theorem retainLegacyChunk_consumed {before piece more : List Char} (htext : StreamText (before ++ piece ++ more) lines)
    {c : Consumer} (hc : Consumed env before c) :
    ∃ mode probe, c.retainLegacyChunk (piece.map byteOf) = { c with mode := mode, probe := probe } ∧
      Probing (before ++ piece) mode probe := by
  have hstart : streamPrefixBytes <+: (before ++ piece ++ more).map byteOf := htext.starts.map byteOf
  have hstarts : streamLinePrefix.length = streamPrefixBytes.length := rfl
  have hlimit : streamPrefixBytes.length < streamProbeLimit := by decide
  obtain ⟨stream, buffer, decoder, error, mode, probe, output⟩ := c
  unfold Consumer.retainLegacyChunk
  by_cases hempty : piece = []
  · subst hempty
    exact ⟨mode, probe, rfl, by simpa using hc.mode⟩
  · rw [if_neg (by simpa using hempty)]
    rcases hc.mode with hmode | ⟨hmode, hprobe, hshort⟩
    · cases hmode
      exact ⟨.v2, probe, rfl, Or.inl rfl⟩
    · cases hmode
      cases hprobe
      rw [hstarts, ← List.length_map (f := byteOf)] at hshort
      dsimp only
      split_ifs with hroom hpos
      · -- The probe is full, and longer than the prefix.
        have hpart : before.map byteOf ++ (piece.map byteOf).take (streamProbeLimit - (before.map byteOf).length) <+:
            (before ++ piece ++ more).map byteOf := by
          rw [List.append_assoc, List.map_append, List.map_append, List.prefix_append_right_inj]
          exact (List.take_prefix _ _).trans (List.prefix_append _ _)
        have hfull : streamPrefixBytes.length ≤
            (before.map byteOf ++ (piece.map byteOf).take (streamProbeLimit - (before.map byteOf).length)).length := by
          rw [List.length_append, List.length_take, Nat.min_eq_left (Nat.le_of_lt hroom)]
          omega
        rw [classifyProbe_of_start hstart hpart, if_pos hfull]
        exact ⟨.v2, [], rfl, Or.inl rfl⟩
      · omega
      · have hpart : before.map byteOf ++ piece.map byteOf <+: (before ++ piece ++ more).map byteOf := by
          rw [List.map_append, List.map_append]
          exact List.prefix_append _ _
        rw [classifyProbe_of_start hstart hpart]
        split_ifs with hfull
        · exact ⟨.v2, [], rfl, Or.inl rfl⟩
        · refine ⟨.unknown, before.map byteOf ++ piece.map byteOf, rfl, Or.inr ⟨rfl, by rw [List.map_append], ?_⟩⟩
          rw [hstarts, ← List.length_map (f := byteOf), List.map_append]
          exact Nat.lt_of_not_le hfull

/-- What the consumer has read of a stream text stays within its bound. -/
theorem line_short {before more : List Char} (htext : StreamText (before ++ more) lines) :
    (∀ line ∈ (cutLines (· == '\n') before).1, line.length + 1 ≤ maxV2StreamRecordBytes) ∧
      (cutLines (· == '\n') before).2.length ≤ maxV2StreamRecordBytes := by
  obtain ⟨rest, hlines, hopen⟩ := cutLines_of_append_eq htext.cut
  constructor
  · intro line hline
    exact htext.short line (hlines ▸ List.mem_append_left _ hline)
  · by_cases hempty : (cutLines (· == '\n') before).2 = []
    · rw [hempty]
      exact Nat.zero_le _
    · obtain ⟨line, hline, hstarts⟩ := hopen hempty
      have := hstarts.length_le
      have := htext.short line hline
      omega

/-- One more chunk. -/
theorem consumed_chunk {before piece more : List Char} (htext : StreamText (before ++ piece ++ more) lines)
    {c : Consumer} (hc : Consumed env before c) :
    Consumed env (before ++ piece) (consumeStreamChunk env c (piece.map byteOf)) ∨
      Stopped env (before ++ piece) (consumeStreamChunk env c (piece.map byteOf)) := by
  obtain ⟨mode, probe, hretain, hprobing⟩ := retainLegacyChunk_consumed htext hc
  obtain ⟨stream, buffer, decoder, error, mode₀, probe₀, output⟩ := c
  obtain ⟨rfl, rfl, rfl, hstream, -⟩ := hc
  have hascii : ∀ d ∈ before ++ piece, Ascii d := fun d hd => htext.ascii d (List.mem_append_left _ hd)
  have hbuffer : ∀ d ∈ (cutLines (· == '\n') before).2 ++ piece, Ascii d := by
    intro d hd
    refine hascii d ((List.mem_append.mp hd).elim (fun hd => ?_) fun hd => List.mem_append_right _ hd)
    exact List.mem_append_left _ (mem_of_cutLines _ _ d hd)
  have hcut := cutLines_append (· == '\n') before piece
  obtain ⟨hlines, htail⟩ := line_short htext
  rw [hcut] at hlines htail
  have hsize := oversized_chunk hbuffer (cutLines_open _ before) (fun l hl => hlines l (List.mem_append_right _ hl)) htail
  have hdecode := decode_ascii piece fun d hd => hascii d (List.mem_append_right _ hd)
  have hheld : utf8Length (cutLines (· == '\n') before).2 + 0 = (cutLines (· == '\n') before).2.length :=
    utf8Length_ascii _ fun d hd => hbuffer d (List.mem_append_left _ hd)
  -- The lines that the chunk completes come after those of before, and are decoded like them.
  have hall : (decodeLines env (cutLines (· == '\n') (before ++ piece)).1).run.run {} =
      (decodeLines env (cutLines (· == '\n') ((cutLines (· == '\n') before).2 ++ piece)).1).run.run stream := by
    rw [hcut, decodeLines_append, run_bind_of_ok hstream]
  unfold consumeStreamChunk
  rw [hretain]
  simp only [Option.isSome_none, Bool.false_eq_true, if_false, hheld, hsize, and_false, hdecode]
  unfold Consumer.decodeLines
  rcases hnew : (decodeLines env (cutLines (· == '\n') ((cutLines (· == '\n') before).2 ++ piece)).1).run.run stream with
    ⟨e | ⟨⟩, s'⟩
  · rw [hnew] at hall
    unfold Remote.decodeLines at hnew
    simp only [hnew]
    exact Or.inr ⟨e, s', hall, rfl⟩
  · rw [hnew] at hall
    unfold Remote.decodeLines at hnew
    simp only [hnew]
    exact Or.inl ⟨rfl, rfl, by rw [hcut], hall, hprobing⟩

theorem stopped_chunk {before piece : List Char} {c : Consumer} (hc : Stopped env before c) (chunk : List UInt8) :
    Stopped env (before ++ piece) (consumeStreamChunk env c chunk) := by
  obtain ⟨e, s, hrun, herror⟩ := hc
  refine ⟨e, s, ?_, ?_⟩
  · rw [cutLines_append, decodeLines_append, run_bind_of_error hrun]
  · unfold consumeStreamChunk
    rw [herror]
    exact herror

/-- All the chunks, whatever they are. -/
theorem consumed_chunks {chunks : List (List UInt8)} (before : List Char) {after : List Char}
    (hchunks : chunks.flatten = after.map byteOf) (htext : StreamText (before ++ after) lines) {c : Consumer}
    (hc : Consumed env before c ∨ Stopped env before c) :
    Consumed env (before ++ after) (chunks.foldl (consumeStreamChunk env) c) ∨
      Stopped env (before ++ after) (chunks.foldl (consumeStreamChunk env) c) := by
  induction chunks generalizing before after c with
  | nil =>
    rw [List.flatten_nil, eq_comm, List.map_eq_nil_iff] at hchunks
    subst hchunks
    rw [List.append_nil]
    exact hc
  | cons chunk chunks ih =>
    rw [List.flatten_cons, eq_comm, List.map_eq_append_iff] at hchunks
    obtain ⟨piece, more, rfl, rfl, hmore⟩ := hchunks
    rw [← List.append_assoc] at htext ⊢
    refine ih _ hmore.symm htext ?_
    rcases hc with hc | hc
    · exact consumed_chunk htext hc
    · exact Or.inr (stopped_chunk hc _)

theorem consumeStream_end (env : Environment) {chunks : List (List UInt8)} (hchunks : chunks.flatten = text.map byteOf)
    (htext : StreamText text lines) :
    Consumed env text (consumeStream env chunks) ∨ Stopped env text (consumeStream env chunks) :=
  consumed_chunks [] hchunks htext (Or.inl ⟨rfl, rfl, rfl, rfl, Or.inr ⟨rfl, rfl, by decide⟩⟩)

/-- However the bytes are cut, the whole text is decoded line by line. -/
theorem consumeStream_text {chunks : List (List UInt8)} (hchunks : chunks.flatten = text.map byteOf)
    (htext : StreamText text lines) {s : StreamState} (hdecoded : (decodeLines env lines).run.run {} = (.ok (), s)) :
    (consumeStream env chunks).error = none ∧ (consumeStream env chunks).decoder = {} ∧
      (consumeStream env chunks).buffer = [] ∧ (consumeStream env chunks).mode = .v2 ∧
      (consumeStream env chunks).stream = s := by
  rcases consumeStream_end env hchunks htext with hlast | ⟨e, s', hstopped, -⟩
  · have hstream := hlast.stream
    have hbuffer := hlast.buffer
    rw [htext.cut] at hstream hbuffer
    rw [hdecoded] at hstream
    refine ⟨hlast.error, hlast.decoder, hbuffer, ?_, (Prod.mk.inj hstream).2.symm⟩
    rcases hlast.mode with hmode | ⟨-, -, hshort⟩
    · exact hmode
    · have := htext.starts.length_le
      omega
  · rw [htext.cut, hdecoded] at hstopped
    cases hstopped

/-- However the bytes are cut, a line that raises stops the scan. -/
theorem scan_stopped {chunks : List (List UInt8)} (hchunks : chunks.flatten = text.map byteOf)
    (htext : StreamText text lines) {e : StreamError} {s : StreamState}
    (hdecoded : (decodeLines env lines).run.run {} = (.error e, s)) (out : List UInt8) :
    (scan env (.returned chunks out)).2 = .error (.stream e) := by
  rcases consumeStream_end env hchunks htext with hlast | ⟨e', s', hstopped, herror⟩
  · have hstream := hlast.stream
    rw [htext.cut, hdecoded] at hstream
    cases hstream
  · rw [htext.cut, hdecoded] at hstopped
    cases hstopped
    have hfinish : ((consumeStream env chunks).finish env).error = some e := by
      unfold Consumer.finish
      dsimp only
      split <;> simp [herror]
    unfold scan completeScan
    dsimp only
    rw [hfinish]

end

end SeedSync.Remote
