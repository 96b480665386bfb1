/-
# The chunks of a WAV file

The walk succeeds where the bytes behind the header of the file are chunks with nothing left over,
one of which gives the format, one the samples and one the tag. The samples are then the body of
their chunk, which no other chunk touches, and reading them to their end reads these bytes.
-/

import Harmony.Inspect.WavBodies
import Harmony.Library.Slots

namespace Harmony.Inspect.Wav

open Checked
open Spans (cut)

attribute [local instance] lawfulBEqBytes

/-! ### Chunks as bytes -/

structure Chunk where
  id : List UInt8
  body : List UInt8
  padding : List UInt8

variable {chunk : Chunk}

namespace Chunk

/-- A body of any size that its header can give, with one byte behind an odd one. -/
structure IsChunk (chunk : Chunk) : Prop where
  id : chunk.id.length = 4
  body : chunk.body.length < 2 ^ 32
  padding : chunk.padding.length = chunk.body.length % 2

def bytes (chunk : Chunk) : List UInt8 :=
  chunk.id ++ ByteOrder.toLe 4 chunk.body.length ++ chunk.body ++ chunk.padding

theorem IsChunk.length_bytes (h : chunk.IsChunk) :
    chunk.bytes.length = 8 + chunk.body.length + chunk.body.length % 2 := by
  rw [bytes, List.length_append, List.length_append, List.length_append, h.id, h.padding,
    ByteOrder.length_toLe]

end Chunk

/-- Each chunk with the offset at which it begins. -/
def placed : ℕ → List Chunk → List (ℕ × Chunk)
  | _, [] => []
  | offset, chunk :: chunks => (offset, chunk) :: placed (offset + chunk.bytes.length) chunks

def HasId (ids : List (List UInt8)) (place : ℕ × Chunk) : Bool := place.2.id ∈ ids

section Chunks

variable {C : Casing} {file : File} {place : ℕ × Chunk} {found after : Found} {chunks : List Chunk}
  {offset : ℕ}

/-- What some chunks add to what was found before them. -/
structure Collects (C : Casing) (found : Found) (places : List (ℕ × Chunk)) (after : Found) :
    Prop where
  format : Slots.Fills (fun place format => IsFormat place.2.body format) found.format
    (places.filter (HasId [formatId])) after.format
  data : Slots.Fills (fun place data => data = (place.1 + 8, place.2.body.length)) found.data
    (places.filter (HasId [dataId])) after.data
  tag : Slots.Fills (fun place read => ReadsTag C place.2.body read) found.id3Values
    (places.filter (HasId tagIds)) after.id3Values

theorem collects_nil_iff : Collects C found [] after ↔ found = after := by
  constructor
  · intro h
    obtain ⟨format, data, tag⟩ := h
    cases found
    cases after
    simp only [List.filter_nil, Slots.fills_nil_iff] at format data tag
    rw [format, data, tag]
  · rintro rfl
    constructor
    · exact Slots.fills_nil_iff.mpr rfl
    · exact Slots.fills_nil_iff.mpr rfl
    · exact Slots.fills_nil_iff.mpr rfl

theorem collects_cons_iff {places : List (ℕ × Chunk)} :
    Collects C found (place :: places) after ↔
      ∃ next, Collects C found [place] next ∧ Collects C next places after := by
  have hfilter : ∀ ids, (place :: places).filter (HasId ids) =
      [place].filter (HasId ids) ++ places.filter (HasId ids) := by
    intro ids
    rw [← List.filter_append]
    rfl
  constructor
  · intro h
    obtain ⟨format, data, tag⟩ := h
    rw [hfilter] at format data tag
    obtain ⟨nextFormat, format₁, format₂⟩ := Slots.fills_append_iff.mp format
    obtain ⟨nextData, data₁, data₂⟩ := Slots.fills_append_iff.mp data
    obtain ⟨nextTag, tag₁, tag₂⟩ := Slots.fills_append_iff.mp tag
    exact ⟨⟨nextFormat, nextData, nextTag⟩, ⟨format₁, data₁, tag₁⟩, format₂, data₂, tag₂⟩
  · rintro ⟨next, first, rest⟩
    constructor
    · rw [hfilter]
      exact Slots.fills_append_iff.mpr ⟨next.format, first.format, rest.format⟩
    · rw [hfilter]
      exact Slots.fills_append_iff.mpr ⟨next.data, first.data, rest.data⟩
    · rw [hfilter]
      exact Slots.fills_append_iff.mpr ⟨next.id3Values, first.tag, rest.tag⟩

theorem filter_singleton_of_hasId {ids : List (List UInt8)} (h : place.2.id ∈ ids) :
    [place].filter (HasId ids) = [place] :=
  List.filter_cons_of_pos (decide_eq_true h)

theorem filter_singleton_of_not_hasId {ids : List (List UInt8)} (h : place.2.id ∉ ids) :
    [place].filter (HasId ids) = [] :=
  List.filter_cons_of_neg fun hid => h (of_decide_eq_true hid)

theorem formatId_notMem : formatId ∉ [dataId] ∧ formatId ∉ tagIds := by decide

theorem dataId_notMem : dataId ∉ [formatId] ∧ dataId ∉ tagIds := by decide

theorem notMem_of_mem_tagIds {id : List UInt8} (h : id ∈ tagIds) :
    id ∉ [formatId] ∧ id ∉ [dataId] := by
  simp only [tagIds, List.mem_cons, List.not_mem_nil, or_false] at h
  rcases h with rfl | rfl
  · decide
  · decide

/-- What one chunk adds depends on its kind. -/
theorem collects_format_iff (h : place.2.id = formatId) :
    Collects C found [place] after ↔
      found.format = none ∧ ∃ format, IsFormat place.2.body format ∧
        after = { found with format := some format } := by
  obtain ⟨hdata, htag⟩ := formatId_notMem
  rw [← h] at hdata htag
  have hformat : [place].filter (HasId [formatId]) = [place] :=
    filter_singleton_of_hasId (by rw [h]; exact List.mem_singleton_self _)
  constructor
  · rintro ⟨format, data, tag⟩
    rw [hformat, Slots.fills_singleton_iff] at format
    rw [filter_singleton_of_not_hasId hdata, Slots.fills_nil_iff] at data
    rw [filter_singleton_of_not_hasId htag, Slots.fills_nil_iff] at tag
    obtain ⟨hnone, read, hread, hafter⟩ := format
    refine ⟨hnone, read, hread, ?_⟩
    cases after
    simp_all
  · rintro ⟨hnone, read, hread, rfl⟩
    constructor
    · rw [hformat, Slots.fills_singleton_iff]
      exact ⟨hnone, read, hread, rfl⟩
    · rw [filter_singleton_of_not_hasId hdata, Slots.fills_nil_iff]
    · rw [filter_singleton_of_not_hasId htag, Slots.fills_nil_iff]

theorem collects_data_iff (h : place.2.id = dataId) :
    Collects C found [place] after ↔
      found.data = none ∧
        after = { found with data := some (place.1 + 8, place.2.body.length) } := by
  obtain ⟨hformat, htag⟩ := dataId_notMem
  rw [← h] at hformat htag
  have hdata : [place].filter (HasId [dataId]) = [place] :=
    filter_singleton_of_hasId (by rw [h]; exact List.mem_singleton_self _)
  constructor
  · rintro ⟨format, data, tag⟩
    rw [filter_singleton_of_not_hasId hformat, Slots.fills_nil_iff] at format
    rw [hdata, Slots.fills_singleton_iff] at data
    rw [filter_singleton_of_not_hasId htag, Slots.fills_nil_iff] at tag
    obtain ⟨hnone, read, hread, hafter⟩ := data
    refine ⟨hnone, ?_⟩
    cases after
    simp_all
  · rintro ⟨hnone, rfl⟩
    constructor
    · rw [filter_singleton_of_not_hasId hformat, Slots.fills_nil_iff]
    · rw [hdata, Slots.fills_singleton_iff]
      exact ⟨hnone, _, rfl, rfl⟩
    · rw [filter_singleton_of_not_hasId htag, Slots.fills_nil_iff]

theorem collects_tag_iff (h : place.2.id ∈ tagIds) :
    Collects C found [place] after ↔
      found.id3Values = none ∧ ∃ read, ReadsTag C place.2.body read ∧
        after = { found with id3Values := some read } := by
  obtain ⟨hformat, hdata⟩ := notMem_of_mem_tagIds h
  constructor
  · rintro ⟨format, data, tag⟩
    rw [filter_singleton_of_not_hasId hformat, Slots.fills_nil_iff] at format
    rw [filter_singleton_of_not_hasId hdata, Slots.fills_nil_iff] at data
    rw [filter_singleton_of_hasId h, Slots.fills_singleton_iff] at tag
    obtain ⟨hnone, read, hread, hafter⟩ := tag
    refine ⟨hnone, read, hread, ?_⟩
    cases after
    simp_all
  · rintro ⟨hnone, read, hread, rfl⟩
    constructor
    · rw [filter_singleton_of_not_hasId hformat, Slots.fills_nil_iff]
    · rw [filter_singleton_of_not_hasId hdata, Slots.fills_nil_iff]
    · rw [filter_singleton_of_hasId h, Slots.fills_singleton_iff]
      exact ⟨hnone, read, hread, rfl⟩

theorem collects_other_iff (hformat : place.2.id ≠ formatId) (hdata : place.2.id ≠ dataId)
    (htag : place.2.id ∉ tagIds) :
    Collects C found [place] after ↔ found = after := by
  rw [← collects_nil_iff (C := C)]
  have hskip : ∀ ids, place.2.id ∉ ids → [place].filter (HasId ids) = ([] : List (ℕ × Chunk)) :=
    fun _ => filter_singleton_of_not_hasId
  constructor
  · rintro ⟨format, data, tag⟩
    rw [hskip _ (mt List.mem_singleton.mp hformat)] at format
    rw [hskip _ (mt List.mem_singleton.mp hdata)] at data
    rw [hskip _ htag] at tag
    exact ⟨format, data, tag⟩
  · rintro ⟨format, data, tag⟩
    constructor
    · rw [hskip _ (mt List.mem_singleton.mp hformat)]
      exact format
    · rw [hskip _ (mt List.mem_singleton.mp hdata)]
      exact data
    · rw [hskip _ htag]
      exact tag

/-! ### One chunk -/

/-- A chunk is read for what it adds. -/
theorem readChunk_meets (C : Casing) (found : Found)
    (hbody : file.readExactAt chunk.body.length (offset + 8) = some chunk.body) :
    Meets (Collects C found [(offset, chunk)])
      (readChunk C file chunk.id (offset + 8) (offset + 8) chunk.body.length found) := by
  rw [readChunk]
  apply Meets.ite
  · intro hformat
    apply (readFormat_meets hbody).bind
    intro format hread
    apply Meets.ite
    · intro _
      exact Meets.fail _
    · intro hnone
      rw [Bool.not_eq_true, Option.isSome_eq_false_iff, Option.isNone_iff_eq_none] at hnone
      exact Meets.ok ((collects_format_iff hformat).mpr ⟨hnone, format, hread, rfl⟩)
  · intro hformat
    apply Meets.ite
    · intro hdata
      apply Meets.ite
      · intro _
        exact Meets.fail _
      · intro hnone
        rw [Bool.not_eq_true, Option.isSome_eq_false_iff, Option.isNone_iff_eq_none] at hnone
        exact Meets.ok ((collects_data_iff hdata).mpr ⟨hnone, rfl⟩)
    · intro hdata
      apply Meets.ite
      · intro htag
        apply (readId3_meets hbody).bind
        intro read hread
        apply Meets.ite
        · intro _
          exact Meets.fail _
        · intro hnone
          rw [Bool.not_eq_true, Option.isSome_eq_false_iff, Option.isNone_iff_eq_none] at hnone
          exact Meets.ok ((collects_tag_iff htag).mpr ⟨hnone, read, hread, rfl⟩)
      · intro htag
        exact Meets.ok ((collects_other_iff hformat hdata htag).mpr rfl)

theorem readChunk_of_collects
    (hbody : file.readExactAt chunk.body.length (offset + 8) = some chunk.body)
    (h : Collects C found [(offset, chunk)] after) :
    readChunk C file chunk.id (offset + 8) (offset + 8) chunk.body.length found = .ok after := by
  rw [readChunk]
  by_cases hformat : chunk.id = formatId
  · obtain ⟨hnone, format, hread, rfl⟩ := (collects_format_iff hformat).mp h
    rw [if_pos hformat, readFormat_of_isFormat hbody hread, ok_bind, hnone]
    rfl
  · rw [if_neg hformat]
    by_cases hdata : chunk.id = dataId
    · obtain ⟨hnone, rfl⟩ := (collects_data_iff hdata).mp h
      rw [if_pos hdata, hnone]
      rfl
    · rw [if_neg hdata]
      by_cases htag : chunk.id ∈ tagIds
      · obtain ⟨hnone, read, hread, rfl⟩ := (collects_tag_iff htag).mp h
        rw [if_pos htag, readId3_of_readsTag hbody hread, ok_bind, hnone]
        rfl
      · rw [if_neg htag, (collects_other_iff hformat hdata htag).mp h]

/-! ### The walk -/

/-- The chunk that the header at an offset tells of. -/
def chunkAt (file : File) (offset : ℕ) : Chunk :=
  let header := cut file.bytes offset (offset + 8)
  let stop := offset + 8 + ByteOrder.ofLe (header.drop 4)
  { id := header.take 4
    body := cut file.bytes (offset + 8) stop
    padding := cut file.bytes stop (stop + ByteOrder.ofLe (header.drop 4) % 2) }

theorem chunkAt_spec {offset size : ℕ}
    (hsize : ByteOrder.ofLe ((cut file.bytes offset (offset + 8)).drop 4) = size)
    (h : offset + 8 + size + size % 2 ≤ file.size) :
    (chunkAt file offset).IsChunk ∧ (chunkAt file offset).body.length = size ∧
      file.bytes.drop offset =
        (chunkAt file offset).bytes ++ file.bytes.drop (offset + 8 + size + size % 2) := by
  have hheader : (cut file.bytes offset (offset + 8)).length = 8 := by
    rw [Spans.length_cut (Nat.le_trans (by omega) h)]
    omega
  have hfour : ((cut file.bytes offset (offset + 8)).drop 4).length = 4 := by
    rw [List.length_drop, hheader]
  have hlt : size < 2 ^ 32 := by
    rw [← hsize]
    have hbound := ByteOrder.ofLe_lt ((cut file.bytes offset (offset + 8)).drop 4)
    rwa [hfour] at hbound
  have hbody : (chunkAt file offset).body.length = size := by
    rw [chunkAt, Spans.length_cut (by rw [hsize]; exact Nat.le_trans (by omega) h), hsize]
    omega
  have hpadding : (chunkAt file offset).padding.length = size % 2 := by
    rw [chunkAt, Spans.length_cut (by rw [hsize]; exact h), hsize]
    omega
  have hid : (chunkAt file offset).id.length = 4 := by
    rw [chunkAt, List.length_take, hheader]
    rfl
  refine ⟨⟨hid, by rw [hbody]; exact hlt, by rw [hpadding, hbody]⟩, hbody, ?_⟩
  have hfront : (chunkAt file offset).id ++ ByteOrder.toLe 4 (chunkAt file offset).body.length =
      cut file.bytes offset (offset + 8) := by
    have hle := ByteOrder.toLe_ofLe ((cut file.bytes offset (offset + 8)).drop 4)
    rw [hfour, hsize] at hle
    rw [hbody, hle, chunkAt, List.take_append_drop]
  have hbytes : (chunkAt file offset).bytes =
      cut file.bytes offset (offset + 8 + size + size % 2) := by
    rw [Chunk.bytes, hfront, chunkAt]
    simp only [hsize]
    rw [Spans.cut_append (by omega) (by omega), Spans.cut_append (by omega) (by omega)]
  have hlow : offset ≤ offset + 8 + size + size % 2 := by omega
  have hrest : cut file.bytes offset (offset + 8 + size + size % 2) ++ _ = _ :=
    Spans.cut_append hlow h
  rw [File.size, Spans.cut_length, Spans.cut_length] at hrest
  rw [hbytes, hrest]

theorem readExactAt_body {offset size : ℕ}
    (hsize : ByteOrder.ofLe ((cut file.bytes offset (offset + 8)).drop 4) = size)
    (h : offset + 8 + size ≤ file.size) :
    file.readExactAt size (offset + 8) = some (chunkAt file offset).body := by
  have hcut : cut file.bytes (offset + 8) (offset + 8 + size) =
      (file.bytes.drop (offset + 8)).take size := by
    rw [cut, Nat.add_sub_cancel_left]
  rw [File.readExactAt_of_le h, ← hcut, chunkAt]
  simp only [hsize]

theorem chunkEnd_meets {id : List UInt8} {size next : ℕ} (h : next ≤ file.size) :
    Meets (fun stop => stop = next + size % 2 ∧ stop ≤ file.size) (chunkEnd file id size next) := by
  have hfile := file.size_lt
  rw [chunkEnd]
  apply Meets.ite
  · intro hodd
    apply Meets.ite
    · intro _
      exact Meets.fail _
    · intro hroom
      rw [addU64_of_lt (by omega)]
      exact Meets.ok ⟨by omega, by omega⟩
  · intro heven
    exact Meets.ok ⟨by omega, h⟩

theorem chunkEnd_of_le {id : List UInt8} {size next : ℕ} (h : next + size % 2 ≤ file.size) :
    chunkEnd file id size next = .ok (next + size % 2) := by
  have hfile := file.size_lt
  rw [chunkEnd]
  split_ifs with hodd hroom
  · omega
  · rw [addU64_of_lt (by omega), hodd]
  · rw [Nat.mod_two_ne_one.mp hodd, Nat.add_zero]

theorem ofLe_header_lt (h : offset + 8 ≤ file.size) :
    ByteOrder.ofLe ((cut file.bytes offset (offset + 8)).drop 4) < 2 ^ 32 := by
  have hfour : ((cut file.bytes offset (offset + 8)).drop 4).length = 4 := by
    rw [List.length_drop, Spans.length_cut h]
    omega
  have hbound := ByteOrder.ofLe_lt ((cut file.bytes offset (offset + 8)).drop 4)
  rwa [hfour] at hbound

/-- The walk from an offset finds chunks up to the end of the file. -/
theorem chunksFrom_meets {fuel offset : ℕ} {found : Found} (hpos : 0 < fuel)
    (hfuel : file.size < offset + fuel) :
    Meets (fun after => ∃ chunks : List Chunk, (∀ chunk ∈ chunks, chunk.IsChunk) ∧
        file.bytes.drop offset = chunks.flatMap Chunk.bytes ∧
        Collects C found (placed offset chunks) after)
      (chunksFrom C file fuel offset offset found) := by
  have hfile := file.size_lt
  induction fuel generalizing offset found with
  | zero => exact absurd hpos (Nat.lt_irrefl 0)
  | succ fuel ih =>
    rw [chunksFrom]
    cases hread : file.readExactAt 8 offset with
    | none => exact Meets.fail _
    | some header =>
      obtain ⟨hheader, htake⟩ := File.readExactAt_eq_some.mp hread
      obtain rfl : cut file.bytes offset (offset + 8) = header := by
        rw [← htake, cut, Nat.add_sub_cancel_left]
      have hlt := ofLe_header_lt hheader
      generalize hsize : ByteOrder.ofLe ((cut file.bytes offset (offset + 8)).drop 4) = size at hlt
      simp only [hsize]
      rw [addU64_of_lt (by omega), ok_bind, addU64_of_lt (by omega), ok_bind]
      apply Meets.ite
      · intro _
        exact Meets.fail _
      · intro hroom
        rw [Nat.not_lt] at hroom
        have hbody := readExactAt_body hsize hroom
        have hlength := File.length_readExactAt hbody
        rw [← hlength] at hbody
        have hchunk := readChunk_meets C found hbody
        rw [hlength] at hchunk
        apply hchunk.bind
        intro next hnext
        apply (chunkEnd_meets hroom).bind
        rintro stop ⟨rfl, hstop⟩
        obtain ⟨his, -, hdrop⟩ := chunkAt_spec hsize hstop
        have hend : offset + (chunkAt file offset).bytes.length = offset + 8 + size + size % 2 := by
          rw [his.length_bytes, hlength]
          omega
        apply Meets.ite
        · -- Nothing is left behind the chunk.
          intro hlast
          have hnil : file.bytes.drop (offset + 8 + size + size % 2) = [] :=
            List.drop_of_length_le hlast
          refine Meets.ok ⟨[chunkAt file offset], ?_, ?_, ?_⟩
          · intro chunk hmem
            rw [List.mem_singleton.mp hmem]
            exact his
          · rw [hdrop, hnil, List.flatMap_singleton, List.append_nil]
          · exact hnext
        · intro hmore
          have hnextFuel : file.size < offset + 8 + size + size % 2 + fuel := by omega
          apply (ih (by omega) hnextFuel).mono
          rintro after ⟨chunks, hchunks, hrest, hcollects⟩
          refine ⟨chunkAt file offset :: chunks, ?_, ?_, ?_⟩
          · exact List.forall_mem_cons.mpr ⟨his, hchunks⟩
          · rw [hdrop, hrest, List.flatMap_cons]
          · rw [placed, collects_cons_iff, hend]
            exact ⟨next, hnext, hcollects⟩

/-- What a chunk at an offset is read for. -/
theorem chunk_at {rest : List UInt8} (his : chunk.IsChunk)
    (h : file.bytes.drop offset = chunk.bytes ++ rest) :
    offset + chunk.bytes.length + rest.length = file.size ∧
      file.readExactAt 8 offset = some (chunk.id ++ ByteOrder.toLe 4 chunk.body.length) ∧
      file.readExactAt chunk.body.length (offset + 8) = some chunk.body := by
  have hlength := congrArg List.length h
  have hbytes := his.length_bytes
  rw [List.length_drop, List.length_append] at hlength
  have hwhole : offset + chunk.bytes.length + rest.length = file.size := by
    rw [File.size]
    omega
  have hheader : (chunk.id ++ ByteOrder.toLe 4 chunk.body.length).length = 8 := by
    rw [List.length_append, his.id, ByteOrder.length_toLe]
  refine ⟨hwhole, ?_, ?_⟩
  · rw [File.readExactAt_of_le (by omega), h, Chunk.bytes, List.append_assoc, List.append_assoc,
      ← hheader, List.take_left]
  · rw [File.readExactAt_of_le (by omega), ← List.drop_drop, h, Chunk.bytes, List.append_assoc,
      List.append_assoc, ← hheader, List.drop_left, List.take_left]

/-- The walk from an offset goes over chunks up to the end of the file. -/
theorem chunksFrom_of_collects {fuel offset : ℕ} (hchunks : ∀ c ∈ chunk :: chunks, c.IsChunk)
    (hdrop : file.bytes.drop offset = (chunk :: chunks).flatMap Chunk.bytes)
    (hfuel : file.size < offset + fuel)
    (h : Collects C found (placed offset (chunk :: chunks)) after) :
    chunksFrom C file fuel offset offset found = .ok after := by
  have hfile := file.size_lt
  induction fuel generalizing offset found chunk chunks with
  | zero =>
    rw [List.forall_mem_cons] at hchunks
    rw [List.flatMap_cons] at hdrop
    have hwhole := (chunk_at hchunks.1 hdrop).1
    omega
  | succ fuel ih =>
    rw [List.forall_mem_cons] at hchunks
    rw [List.flatMap_cons] at hdrop
    obtain ⟨his, hchunks⟩ := hchunks
    obtain ⟨hwhole, hheader, hbody⟩ := chunk_at his hdrop
    have hbytes := his.length_bytes
    have hsize : ByteOrder.ofLe (ByteOrder.toLe 4 chunk.body.length) = chunk.body.length :=
      ByteOrder.ofLe_toLe his.body
    have hlt := his.body
    have htake : (chunk.id ++ ByteOrder.toLe 4 chunk.body.length).take 4 = chunk.id := by
      rw [← his.id, List.take_left]
    have hdropFour : (chunk.id ++ ByteOrder.toLe 4 chunk.body.length).drop 4 =
        ByteOrder.toLe 4 chunk.body.length := by
      rw [← his.id, List.drop_left]
    rw [placed, collects_cons_iff] at h
    obtain ⟨next, hnext, hafter⟩ := h
    rw [chunksFrom, hheader]
    simp only [htake, hdropFour, hsize]
    rw [addU64_of_lt (by omega), ok_bind, addU64_of_lt (by omega), ok_bind, if_neg (by omega),
      readChunk_of_collects hbody hnext, ok_bind, chunkEnd_of_le (by omega), ok_bind]
    have hstop : offset + 8 + chunk.body.length + chunk.body.length % 2 =
        offset + chunk.bytes.length := by omega
    rw [hstop]
    have hrest : file.bytes.drop (offset + chunk.bytes.length) = chunks.flatMap Chunk.bytes := by
      rw [← List.drop_drop, hdrop, List.drop_left]
    cases chunks with
    | nil =>
      have hlength := congrArg List.length hrest
      rw [List.length_drop, List.flatMap_nil, List.length_nil] at hlength
      rw [placed, collects_nil_iff] at hafter
      have hlast : file.size ≤ offset + chunk.bytes.length := Nat.le_of_sub_eq_zero hlength
      rw [if_pos hlast, hafter]
    | cons second others =>
      have hmore : offset + chunk.bytes.length < file.size := by
        have hsecond := (hchunks second List.mem_cons_self).length_bytes
        rw [List.flatMap_cons, List.length_append] at hwhole
        omega
      rw [if_neg (Nat.not_le.mpr hmore)]
      exact ih hchunks hrest (by omega) hafter

/-! ### All chunks -/

/-- The chunks behind the header of a file, and what is read from them: one gives the format, one
holds the samples and one holds the tag, and the others are of other kinds. -/
structure IsWave (C : Casing) (file : File) (chunks : List Chunk) (read : Chunks) : Prop where
  sound : ∀ chunk ∈ chunks, chunk.IsChunk
  tiled : file.bytes.drop riffHeaderSizeBytes = chunks.flatMap Chunk.bytes
  format : ∃ place, (placed riffHeaderSizeBytes chunks).filter (HasId [formatId]) = [place] ∧
    IsFormat place.2.body read.format
  data : ∃ place, (placed riffHeaderSizeBytes chunks).filter (HasId [dataId]) = [place] ∧
    place.2.body ≠ [] ∧ read.dataOffset = place.1 + 8 ∧ read.dataSize = place.2.body.length
  tag : ∃ place, (placed riffHeaderSizeBytes chunks).filter (HasId tagIds) = [place] ∧
    ReadsTag C place.2.body (read.tags, read.pictures)

theorem requireChunks_eq_ok_iff {found : Found} {read : Chunks} :
    requireChunks found = .ok read ↔
      found.format = some read.format ∧ read.dataSize ≠ 0 ∧
        found.data = some (read.dataOffset, read.dataSize) ∧
        found.id3Values = some (read.tags, read.pictures) := by
  obtain ⟨format, data, tag⟩ := found
  constructor
  · intro h
    rw [requireChunks] at h
    cases format with
    | none => cases h
    | some format =>
      cases data with
      | none => cases h
      | some place =>
        simp only [Option.getD_some] at h
        split_ifs at h with hempty
        cases tag with
        | none => cases h
        | some values =>
          cases h
          exact ⟨rfl, hempty, rfl, rfl⟩
  · rintro ⟨hformat, hempty, hdata, htag⟩
    dsimp only at hformat hdata htag
    subst hformat hdata htag
    simp only [requireChunks, Option.getD_some]
    rw [if_neg hempty]

theorem readChunks_meets (C : Casing) (file : File) :
    Meets (fun read => ∃ chunks, IsWave C file chunks read) (readChunks C file) := by
  rw [readChunks]
  apply (chunksFrom_meets (Nat.succ_pos _) (by omega)).bind
  rintro found ⟨chunks, hchunks, hdrop, hcollects⟩
  apply Meets.ofExcept
  intro read hread
  obtain ⟨hformat, hsize, hdata, htag⟩ := requireChunks_eq_ok_iff.mp hread
  have format := hcollects.format
  have data := hcollects.data
  have tag := hcollects.tag
  rw [hformat, Slots.fills_none_some_iff] at format
  rw [hdata, Slots.fills_none_some_iff] at data
  rw [htag, Slots.fills_none_some_iff] at tag
  obtain ⟨place, hplace, heq⟩ := data
  obtain ⟨hoffset, hlength⟩ := Prod.mk.inj heq
  refine ⟨chunks, hchunks, hdrop, format, ⟨place, hplace, ?_, hoffset, hlength⟩, tag⟩
  intro hnil
  rw [hlength, hnil] at hsize
  exact hsize rfl

theorem readChunks_of_isWave {read : Chunks} (h : IsWave C file chunks read) :
    readChunks C file = .ok read := by
  obtain ⟨hchunks, hdrop, format, ⟨place, hplace, hbody, hoffset, hlength⟩, tag⟩ := h
  have hcollects : Collects C ⟨none, none, none⟩ (placed riffHeaderSizeBytes chunks)
      ⟨some read.format, some (read.dataOffset, read.dataSize),
        some (read.tags, read.pictures)⟩ := by
    constructor
    · exact Slots.fills_none_some_iff.mpr format
    · exact Slots.fills_none_some_iff.mpr ⟨place, hplace, by rw [hoffset, hlength]⟩
    · exact Slots.fills_none_some_iff.mpr tag
  cases chunks with
  | nil => cases hplace
  | cons chunk chunks =>
    rw [readChunks, chunksFrom_of_collects hchunks hdrop (by omega) hcollects, ok_bind]
    apply ofExcept_eq_ok.mpr
    apply requireChunks_eq_ok_iff.mpr
    refine ⟨rfl, ?_, rfl, rfl⟩
    rw [hlength]
    exact fun hzero => hbody (List.length_eq_zero_iff.mp hzero)

/-! ### Where chunks lie -/

theorem le_of_mem_placed (h : place ∈ placed offset chunks) :
    offset ≤ place.1 := by
  induction chunks generalizing offset with
  | nil => cases h
  | cons chunk chunks ih =>
    rcases List.mem_cons.mp h with rfl | hmem
    · exact Nat.le_refl _
    · exact Nat.le_trans (Nat.le_add_right _ _) (ih hmem)

/-- Of two chunks, one ends before the other begins. -/
theorem placed_apart {first second : ℕ × Chunk} (hfirst : first ∈ placed offset chunks)
    (hsecond : second ∈ placed offset chunks) (hne : first ≠ second) :
    first.1 + first.2.bytes.length ≤ second.1 ∨ second.1 + second.2.bytes.length ≤ first.1 := by
  induction chunks generalizing offset with
  | nil => cases hfirst
  | cons chunk chunks ih =>
    rcases List.mem_cons.mp hfirst with rfl | hfirst
    · rcases List.mem_cons.mp hsecond with rfl | hsecond
      · exact absurd rfl hne
      · exact .inl (le_of_mem_placed hsecond)
    · rcases List.mem_cons.mp hsecond with rfl | hsecond
      · exact .inr (le_of_mem_placed hfirst)
      · exact ih hfirst hsecond

/-- The bytes of a chunk stand at its place. -/
theorem drop_of_mem_placed (hdrop : file.bytes.drop offset = chunks.flatMap Chunk.bytes)
    (h : place ∈ placed offset chunks) :
    ∃ rest, file.bytes.drop place.1 = place.2.bytes ++ rest := by
  induction chunks generalizing offset with
  | nil => cases h
  | cons chunk chunks ih =>
    rw [List.flatMap_cons] at hdrop
    rcases List.mem_cons.mp h with rfl | hmem
    · exact ⟨_, hdrop⟩
    · apply ih _ hmem
      rw [← List.drop_drop, hdrop, List.drop_left]

theorem mem_of_mem_placed (h : place ∈ placed offset chunks) :
    place.2 ∈ chunks := by
  induction chunks generalizing offset with
  | nil => cases h
  | cons chunk chunks ih =>
    rcases List.mem_cons.mp h with rfl | hmem
    · exact List.mem_cons_self
    · exact List.mem_cons_of_mem _ (ih hmem)

/-- The samples are the body of their chunk, inside the file, and no other chunk touches it. -/
structure LiesApart (file : File) (chunks : List Chunk) (read : Chunks) : Prop where
  inside : read.dataOffset + read.dataSize ≤ file.size
  body : ∃ place ∈ placed riffHeaderSizeBytes chunks, place.2.id = dataId ∧
    cut file.bytes read.dataOffset (read.dataOffset + read.dataSize) = place.2.body
  apart : ∀ place ∈ placed riffHeaderSizeBytes chunks, place.2.id ≠ dataId →
    place.1 + place.2.bytes.length ≤ read.dataOffset ∨
      read.dataOffset + read.dataSize ≤ place.1

theorem IsWave.liesApart {read : Chunks} (h : IsWave C file chunks read) :
    LiesApart file chunks read := by
  obtain ⟨place, hplace, -, hoffset, hlength⟩ := h.data
  have hmem : place ∈ (placed riffHeaderSizeBytes chunks).filter (HasId [dataId]) := by
    rw [hplace]
    exact List.mem_singleton_self _
  obtain ⟨hmem, hid⟩ := List.mem_filter.mp hmem
  have hdata : place.2.id = dataId := List.mem_singleton.mp (of_decide_eq_true hid)
  have his := h.sound place.2 (mem_of_mem_placed hmem)
  obtain ⟨rest, hrest⟩ := drop_of_mem_placed h.tiled hmem
  obtain ⟨hwhole, -, hbody⟩ := chunk_at his hrest
  have hbytes := his.length_bytes
  constructor
  · omega
  · refine ⟨place, hmem, hdata, ?_⟩
    rw [hoffset, hlength, cut, Nat.add_sub_cancel_left]
    exact (File.readExactAt_eq_some.mp hbody).2
  · intro other hother hne
    have hdifferent : other ≠ place := by
      rintro rfl
      exact hne hdata
    rcases placed_apart hother hmem hdifferent with hbefore | hafter
    · exact .inl (by omega)
    · exact .inr (by omega)

end Chunks

end Harmony.Inspect.Wav
