/-
# Metadata inside a radio stream

A station that is asked for it puts a block of metadata after every run of audio bytes. The
parser gives back the audio and reports the blocks, however the stream was cut into chunks.
-/

import Harmony.Library.Chars

namespace Harmony.Radio

/-- `pending` is what was received and not taken yet. -/
structure IcyParser where
  metaint : ℕ
  remaining : ℕ
  pending : List UInt8

/-- The audio a call returns, the blocks it reports, and the parser it leaves. -/
structure Fed where
  parser : IcyParser
  audio : List UInt8
  reports : List (List Char)

def IcyParser.new (metaint : ℕ) : IcyParser := ⟨metaint, metaint, []⟩

/-- What was taken before the rest of the call. -/
def Fed.after (fed : Fed) (audio : List UInt8) (reports : List (List Char)) : Fed :=
  ⟨fed.parser, audio ++ fed.audio, reports ++ fed.reports⟩

/-- The loop of `feed`. -/
def drain (metaint remaining : ℕ) (pending : List UInt8) : Fed :=
  if 0 < remaining then
    let take := min remaining pending.length
    if take = 0 then ⟨⟨metaint, remaining, pending⟩, [], []⟩
    else (drain metaint (remaining - take) (pending.drop take)).after (pending.take take) []
  else
    match pending with
    | [] => ⟨⟨metaint, remaining, []⟩, [], []⟩
    | lengthByte :: rest =>
      let length := lengthByte.toNat * 16
      if (lengthByte :: rest).length < 1 + length then
        ⟨⟨metaint, remaining, lengthByte :: rest⟩, [], []⟩
      else
        (drain metaint metaint (rest.drop length)).after []
          (if 0 < length then [Chars.fromUtf8Lossy (rest.take length)] else [])
termination_by pending.length
decreasing_by all_goals simp only [List.length_drop, List.length_cons]; omega

def IcyParser.feed (parser : IcyParser) (chunk : List UInt8) : Fed :=
  drain parser.metaint parser.remaining (parser.pending ++ chunk)

/-- The parser is fed one chunk after another. -/
def IcyParser.feedAll (parser : IcyParser) : List (List UInt8) → Fed
  | [] => ⟨parser, [], []⟩
  | chunk :: chunks =>
    let fed := parser.feed chunk
    (fed.parser.feedAll chunks).after fed.audio fed.reports

/-! ### What one turn of the loop takes -/

section Loop

variable {metaint remaining : ℕ} {pending rest : List UInt8} {fed : Fed} {a b : List UInt8}
  {s t : List (List Char)}

theorem Fed.after_after : (fed.after b t).after a s = fed.after (a ++ b) (s ++ t) := by
  simp only [Fed.after, List.append_assoc]

@[simp] theorem drain_empty : drain metaint remaining [] = ⟨⟨metaint, remaining, []⟩, [], []⟩ := by
  rw [drain.eq_def]
  by_cases hpos : 0 < remaining
  · rw [if_pos hpos]
    exact if_pos (Nat.min_zero _)
  · rw [if_neg hpos]

/-- The loop takes all the audio it can at once; this is the same as byte for byte. -/
theorem drain_audio {byte : UInt8} :
    drain metaint (remaining + 1) (byte :: rest) =
      (drain metaint remaining rest).after [byte] [] := by
  have htake : min (remaining + 1) (byte :: rest).length = min remaining rest.length + 1 := by
    rw [List.length_cons]
    omega
  rw [drain.eq_def metaint (remaining + 1), if_pos (Nat.succ_pos _)]
  simp only [htake, List.take_succ_cons, List.drop_succ_cons]
  rw [if_neg (Nat.succ_ne_zero _), Nat.add_sub_add_right]
  by_cases hnone : min remaining rest.length = 0
  · simp only [hnone, List.take_zero, List.drop_zero, Nat.sub_zero]
  · have hpos : 0 < remaining := by omega
    rw [drain.eq_def metaint remaining rest, if_pos hpos]
    simp only [if_neg hnone]
    rw [Fed.after_after]
    rfl

/-- A block that is there to its end is taken and reported. -/
theorem drain_block {units : UInt8} (h : units.toNat * 16 ≤ rest.length) :
    drain metaint 0 (units :: rest) =
      (drain metaint metaint (rest.drop (units.toNat * 16))).after []
        (if 0 < units.toNat * 16 then [Chars.fromUtf8Lossy (rest.take (units.toNat * 16))]
          else []) := by
  rw [drain.eq_def, if_neg (Nat.lt_irrefl 0)]
  refine if_neg ?_
  rw [List.length_cons]
  omega

/-- A block that is not there to its end stays pending. -/
theorem drain_cut {units : UInt8} (h : rest.length < units.toNat * 16) :
    drain metaint 0 (units :: rest) = ⟨⟨metaint, 0, units :: rest⟩, [], []⟩ := by
  rw [drain.eq_def, if_neg (Nat.lt_irrefl 0)]
  refine if_pos ?_
  rw [List.length_cons]
  omega

theorem drain_run {audio : List UInt8} (h : audio.length ≤ remaining) :
    drain metaint remaining (audio ++ rest) =
      (drain metaint (remaining - audio.length) rest).after audio [] := by
  induction audio generalizing remaining with
  | nil => rfl
  | cons byte audio ih =>
    rw [List.length_cons] at h
    obtain ⟨left, rfl⟩ : ∃ left, remaining = left + 1 := ⟨remaining - 1, by omega⟩
    rw [List.cons_append, drain_audio, ih (by omega), Fed.after_after, List.length_cons,
      Nat.add_sub_add_right]
    rfl

theorem drain_only {audio : List UInt8} (h : audio.length ≤ remaining) :
    drain metaint remaining audio = ⟨⟨metaint, remaining - audio.length, []⟩, audio, []⟩ := by
  have hrun : drain metaint remaining (audio ++ []) = _ := drain_run h
  rw [List.append_nil, drain_empty, Fed.after, List.append_nil, List.append_nil] at hrun
  exact hrun

/-- Waiting for more changes nothing: what is left pending is read again with the rest. -/
theorem drain_append {more : List UInt8} : drain metaint remaining (pending ++ more) =
    ((drain metaint remaining pending).parser.feed more).after
      (drain metaint remaining pending).audio (drain metaint remaining pending).reports := by
  -- by induction on what is pending, which every turn of the loop shortens
  induction hlength : pending.length using Nat.strong_induction_on
    generalizing pending remaining with
  | _ length ih =>
    cases pending with
    | nil =>
      rw [drain_empty]
      rfl
    | cons byte rest =>
      cases remaining with
      | succ left =>
        rw [List.cons_append, drain_audio, drain_audio,
          ih rest.length (by rw [← hlength]; exact Nat.lt_succ_self _) rfl, Fed.after_after]
        rfl
      | zero =>
        by_cases hcut : rest.length < byte.toNat * 16
        · rw [drain_cut hcut]
          rfl
        · have hlong : byte.toNat * 16 ≤ rest.length := Nat.le_of_not_lt hcut
          have hshort : (rest.drop (byte.toNat * 16)).length < length := by
            rw [← hlength, List.length_drop, List.length_cons]
            omega
          rw [List.cons_append, drain_block hlong, drain_block (by rw [List.length_append]; omega),
            List.drop_append_of_le_length hlong, List.take_append_of_le_length hlong,
            ih _ hshort rfl, Fed.after_after]
          rfl

theorem feedAll_cons {parser : IcyParser} {chunk : List UInt8} {chunks : List (List UInt8)} :
    parser.feedAll (chunk :: chunks) = parser.feed (chunk ++ chunks.flatten) := by
  induction chunks generalizing parser chunk with
  | nil =>
    rw [List.flatten_nil, List.append_nil]
    change Fed.after ⟨(parser.feed chunk).parser, [], []⟩ _ _ = _
    rw [Fed.after, List.append_nil, List.append_nil]
  | cons next chunks ih =>
    change ((parser.feed chunk).parser.feedAll (next :: chunks)).after _ _ = _
    rw [ih, List.flatten_cons, IcyParser.feed.eq_1 parser (chunk ++ _),
      ← List.append_assoc parser.pending, drain_append]
    rfl

/-- However a stream is cut, its chunks are read as the whole of them. -/
theorem feedAll_new {chunks : List (List UInt8)} :
    (IcyParser.new metaint).feedAll chunks = drain metaint metaint chunks.flatten := by
  cases chunks with
  | nil =>
    rw [List.flatten_nil, drain_empty]
    rfl
  | cons chunk chunks =>
    rw [feedAll_cons, List.flatten_cons]
    rfl

/-- What is taken for audio was received in this order, and what waits is less than a block
with its length. -/
theorem drain_keeps : (drain metaint remaining pending).audio.Sublist pending ∧
    (drain metaint remaining pending).parser.pending.length ≤ 255 * 16 := by
  induction hlength : pending.length using Nat.strong_induction_on
    generalizing pending remaining with
  | _ length ih =>
    cases pending with
    | nil =>
      rw [drain_empty]
      exact ⟨.slnil, Nat.zero_le _⟩
    | cons byte rest =>
      rw [List.length_cons] at hlength
      cases remaining with
      | succ left =>
        obtain ⟨haudio, hwaits⟩ := ih rest.length (by omega) rfl
        rw [drain_audio]
        exact ⟨haudio.cons_cons byte, hwaits⟩
      | zero =>
        by_cases hcut : rest.length < byte.toNat * 16
        · have hunits := byte.toNat_lt
          rw [drain_cut hcut]
          exact ⟨List.nil_sublist _, by rw [List.length_cons]; omega⟩
        · obtain ⟨haudio, hwaits⟩ := ih (rest.drop (byte.toNat * 16)).length
            (by rw [List.length_drop]; omega) rfl
          rw [drain_block (Nat.le_of_not_lt hcut)]
          exact ⟨(haudio.trans (List.drop_sublist _ _)).cons byte, hwaits⟩

/-- Whatever a station sends: how it is cut into chunks makes no difference, all audio was in
it in this order, and no more than a block waits. -/
theorem feedAll_flatten {chunks : List (List UInt8)} :
    (IcyParser.new metaint).feedAll chunks = (IcyParser.new metaint).feed chunks.flatten ∧
      ((IcyParser.new metaint).feedAll chunks).audio.Sublist chunks.flatten ∧
      ((IcyParser.new metaint).feedAll chunks).parser.pending.length ≤ 255 * 16 := by
  rw [feedAll_new]
  exact ⟨rfl, drain_keeps⟩

end Loop

/-! ### Streams that a station sends -/

/-- A block of metadata with its padding: sixteen bytes for each unit. -/
structure Block where
  units : UInt8
  text : List UInt8
  length_text : text.length = units.toNat * 16

def Block.bytes (block : Block) : List UInt8 := block.units :: block.text

/-- What is said of the block: nothing where it is empty. -/
def Block.report (block : Block) : List (List Char) :=
  if block.text = [] then [] else [Chars.fromUtf8Lossy block.text]

/-- The bytes with a block after every run of audio, each with whether it is audio. -/
def interleave (metaint : ℕ) : List Block → List UInt8 → List (UInt8 × Bool)
  | [], audio => audio.map fun byte => (byte, true)
  | block :: blocks, audio =>
    (audio.take metaint).map (fun byte => (byte, true)) ++
      (block.bytes.map (fun byte => (byte, false)) ++
        interleave metaint blocks (audio.drop metaint))

/-- A stream with a block after every run of audio; the last run may be followed by none. -/
structure IcyStream where
  metaint : ℕ
  metaint_pos : 1 ≤ metaint
  audio : List UInt8
  blocks : List Block
  runs : blocks.length * metaint ≤ audio.length
  last_run : audio.length ≤ (blocks.length + 1) * metaint

namespace IcyStream

def marked (stream : IcyStream) : List (UInt8 × Bool) :=
  interleave stream.metaint stream.blocks stream.audio

def bytes (stream : IcyStream) : List UInt8 := stream.marked.map Prod.fst

/-- The audio among the first bytes of the stream. -/
def audioWithin (stream : IcyStream) (n : ℕ) : List UInt8 :=
  ((stream.marked.take n).filter Prod.snd).map Prod.fst

end IcyStream

section Streams

variable {metaint n : ℕ} {audio : List UInt8} {blocks : List Block} {bytes : List UInt8}

/-- The audio among the marked bytes. -/
def audioOf (marked : List (UInt8 × Bool)) : List UInt8 := (marked.filter Prod.snd).map Prod.fst

theorem audioOf_append {a b : List (UInt8 × Bool)} : audioOf (a ++ b) = audioOf a ++ audioOf b := by
  rw [audioOf, List.filter_append, List.map_append]
  rfl

theorem audioOf_audio :
    audioOf (bytes.map fun byte => (byte, true)) = bytes := by
  rw [audioOf, List.filter_eq_self.mpr (by simp), List.map_map]
  exact List.map_id _

theorem audioOf_metadata :
    audioOf (bytes.map fun byte => (byte, false)) = [] := by
  rw [audioOf, List.filter_eq_nil_iff.mpr (by simp)]
  rfl

theorem map_fst_mark {mark : Bool} :
    (bytes.map fun byte => (byte, mark)).map Prod.fst = bytes := by
  rw [List.map_map]
  exact List.map_id _

/-- A whole run and a whole block are taken, and the parser is where it was. -/
theorem drain_interleaved {run rest : List UInt8} {block : Block} (h : run.length = metaint) :
    drain metaint metaint (run ++ (block.bytes ++ rest)) =
      (drain metaint metaint rest).after run block.report := by
  have hlong : block.units.toNat * 16 ≤ (block.text ++ rest).length := by
    rw [List.length_append, block.length_text]
    exact Nat.le_add_right _ _
  have hreport : (if 0 < block.units.toNat * 16 then [Chars.fromUtf8Lossy block.text] else []) =
      block.report := by
    rw [Block.report, ← block.length_text]
    simp only [List.length_pos_iff, ne_eq, ite_not]
  rw [drain_run (Nat.le_of_eq h), h, Nat.sub_self, Block.bytes, List.cons_append, drain_block hlong,
    ← block.length_text, List.drop_left, List.take_left, block.length_text, hreport,
    Fed.after_after, List.append_nil]
  rfl

/-- Bytes that end within a block leave the block pending. -/
theorem drain_within {run : List UInt8} {block : Block} (h : run.length = metaint)
    (hn : n < block.bytes.length) :
    (drain metaint metaint (run ++ block.bytes.take n)).audio = run := by
  rw [drain_run (Nat.le_of_eq h), h, Nat.sub_self]
  have hnone : (drain metaint 0 (block.bytes.take n)).audio = [] := by
    cases n with
    | zero => rw [List.take_zero, drain_empty]
    | succ n =>
      rw [Block.bytes, List.length_cons, block.length_text] at hn
      rw [Block.bytes, List.take_succ_cons, drain_cut]
      rw [List.length_take, block.length_text]
      omega
  rw [Fed.after, hnone, List.append_nil]

/-- Whatever has come of the stream, the audio of it has been returned. -/
theorem drain_take_audio (hruns : blocks.length * metaint ≤ audio.length)
    (hlast : audio.length ≤ (blocks.length + 1) * metaint) :
    (drain metaint metaint (((interleave metaint blocks audio).take n).map Prod.fst)).audio =
      audioOf ((interleave metaint blocks audio).take n) := by
  -- by induction on the blocks: the bytes end in the first run, in the block after it, or later
  induction blocks generalizing audio n with
  | nil =>
    have hall : (audio.take n).length ≤ metaint := by
      rw [List.length_nil, Nat.zero_add, Nat.one_mul] at hlast
      exact (List.length_take_le' _ _).trans hlast
    rw [interleave, ← List.map_take, map_fst_mark, audioOf_audio, drain_only hall]
  | cons block blocks ih =>
    rw [List.length_cons, Nat.succ_mul] at hruns hlast
    have hrun : (audio.take metaint).length = metaint := List.length_take_of_le (by omega)
    rw [interleave, List.take_append, List.length_map, hrun]
    by_cases hshort : n ≤ metaint
    · have hall : ((audio.take metaint).take n).length ≤ metaint := by
        rw [List.length_take]
        omega
      rw [Nat.sub_eq_zero_of_le hshort, List.take_zero, List.append_nil, ← List.map_take,
        map_fst_mark, audioOf_audio, drain_only hall]
    · rw [← List.map_take, List.take_of_length_le (by omega), List.map_append, map_fst_mark,
        audioOf_append, audioOf_audio, List.take_append, List.length_map]
      by_cases hcut : n - metaint < block.bytes.length
      · rw [Nat.sub_eq_zero_of_le hcut.le, List.take_zero, List.append_nil, ← List.map_take,
          map_fst_mark, audioOf_metadata, List.append_nil, drain_within hrun hcut]
      · have hblock : block.bytes.length ≤ n - metaint := Nat.le_of_not_lt hcut
        have hlength : (audio.drop metaint).length = audio.length - metaint := List.length_drop
        rw [← List.map_take, List.take_of_length_le hblock, List.map_append, map_fst_mark,
          audioOf_append, audioOf_metadata, List.nil_append, drain_interleaved hrun]
        change audio.take metaint ++ _ = _
        rw [ih (by omega) (by rw [Nat.succ_mul] at *; omega)]

/-- The whole of the stream: its audio, and its blocks one after another. -/
theorem drain_interleave (hruns : blocks.length * metaint ≤ audio.length)
    (hlast : audio.length ≤ (blocks.length + 1) * metaint) :
    (drain metaint metaint ((interleave metaint blocks audio).map Prod.fst)).reports =
      blocks.flatMap Block.report := by
  induction blocks generalizing audio with
  | nil =>
    rw [List.length_nil, Nat.zero_add, Nat.one_mul] at hlast
    rw [interleave, map_fst_mark, drain_only hlast]
    rfl
  | cons block blocks ih =>
    rw [List.length_cons, Nat.succ_mul] at hruns hlast
    have hrun : (audio.take metaint).length = metaint := List.length_take_of_le (by omega)
    have hlength : (audio.drop metaint).length = audio.length - metaint := List.length_drop
    rw [interleave, List.map_append, List.map_append, map_fst_mark, map_fst_mark,
      drain_interleaved hrun, List.flatMap_cons]
    change block.report ++ _ = _
    rw [ih (by omega) (by rw [Nat.succ_mul] at *; omega)]

theorem audioOf_interleave (hruns : blocks.length * metaint ≤ audio.length) :
    audioOf (interleave metaint blocks audio) = audio := by
  induction blocks generalizing audio with
  | nil => exact audioOf_audio
  | cons block blocks ih =>
    rw [List.length_cons, Nat.succ_mul] at hruns
    rw [interleave, audioOf_append, audioOf_append, audioOf_audio, audioOf_metadata,
      ih (by rw [List.length_drop]; omega), List.nil_append, List.take_append_drop]

end Streams

/-- Stripping undoes interleaving, and no chunk holds audio back. -/
theorem feedAll_stripped (stream : IcyStream) (chunks : List (List UInt8))
    (hcut : chunks.flatten = stream.bytes) :
    ((IcyParser.new stream.metaint).feedAll chunks).audio = stream.audio ∧
      ((IcyParser.new stream.metaint).feedAll chunks).reports =
        stream.blocks.flatMap Block.report ∧
      ∀ j, ((IcyParser.new stream.metaint).feedAll (chunks.take j)).audio =
        stream.audioWithin (chunks.take j).flatten.length := by
  have hall : ∀ n,
      (drain stream.metaint stream.metaint ((stream.marked.take n).map Prod.fst)).audio =
        stream.audioWithin n := fun n => drain_take_audio stream.runs stream.last_run
  refine ⟨?_, ?_, ?_⟩
  · have hwhole := hall stream.marked.length
    rw [List.take_length, IcyStream.audioWithin, List.take_length] at hwhole
    rw [feedAll_new, hcut, IcyStream.bytes, hwhole]
    exact audioOf_interleave stream.runs
  · rw [feedAll_new, hcut]
    exact drain_interleave stream.runs stream.last_run
  · intro j
    have hpart : (chunks.take j).flatten = stream.bytes.take (chunks.take j).flatten.length := by
      have hsplit : chunks.flatten = (chunks.take j).flatten ++ (chunks.drop j).flatten := by
        rw [← List.flatten_append, List.take_append_drop]
      rw [← hcut, hsplit, List.take_left]
    rw [feedAll_new, ← hall, List.map_take]
    exact congrArg (fun bytes => (drain stream.metaint stream.metaint bytes).audio) hpart

/-- A station with four bytes a run, cut three bytes at a time. -/
def fourByteStation : IcyStream where
  metaint := 4
  metaint_pos := by decide
  audio := [1, 2, 3, 4, 5, 6, 7, 8, 9]
  blocks := [⟨1, List.replicate 16 65, rfl⟩, ⟨0, [], rfl⟩]
  runs := by decide
  last_run := by decide

theorem feedAll_fourByteStation :
    ((IcyParser.new 4).feedAll
      [[1, 2, 3], [4, 1, 65], List.replicate 12 65, List.replicate 3 65 ++ [5, 6], [7, 8, 0],
        [9]]).audio = [1, 2, 3, 4, 5, 6, 7, 8, 9] :=
  (feedAll_stripped fourByteStation _ (by decide)).1

end Harmony.Radio
