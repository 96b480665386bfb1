/-
# The bodies of WAV chunks

What the body of a format chunk and that of a tag chunk have to be for the chunk to be read. The
format has one of three lengths and facts that agree with one another; the tag fills its chunk and
none of its frames fails.
-/

import Harmony.Inspect.Wav
import Harmony.Library.Traversal

namespace Harmony.Inspect.Wav

open Checked
open Spans (cut)

/-! ### Formats -/

/-- A format of integer samples whose facts agree. -/
structure Valid (format : Format) : Prop where
  integer : format.audioFormat = pcm ∨
    format.audioFormat = extensible ∧ format.cbSize = 22 ∧ format.subFormat = pcmSubformat
  channels : 1 ≤ format.channelCount ∧ format.channelCount ≤ 8
  rate : 8000 ≤ format.sampleRateHz ∧ format.sampleRateHz ≤ 384000
  bits : format.bitsPerSample % 8 = 0 ∧ 8 ≤ format.bitsPerSample ∧ format.bitsPerSample ≤ 32
  align : format.blockAlign = format.channelCount * (format.bitsPerSample / 8)
  byteRate : format.bytesPerSecond = format.sampleRateHz * format.blockAlign % 2 ^ 32
  validBits : format.audioFormat = extensible →
    0 < format.validBits ∧ format.validBits ≤ format.bitsPerSample

variable {format : Format}

theorem validateInteger_eq_ok_iff :
    validateInteger format = .ok () ↔ format.audioFormat = pcm ∨
      format.audioFormat = extensible ∧ format.cbSize = 22 ∧ format.subFormat = pcmSubformat := by
  have hne : extensible ≠ pcm := by decide
  have hsize : fmtExtensibleSizeBytes - fmtWaveformatexSizeBytes = 22 := rfl
  rw [validateInteger, hsize]
  split_ifs with hextensible hcb hsub hpcm
  · simp only [false_iff, not_or, not_and]
    exact ⟨fun h => hne (hextensible.symm.trans h), fun _ h => absurd h hcb⟩
  · simp only [false_iff, not_or, not_and]
    exact ⟨fun h => hne (hextensible.symm.trans h), fun _ _ => hsub⟩
  · exact iff_of_true rfl (.inr ⟨hextensible, not_not.mp hcb, not_not.mp hsub⟩)
  · simp only [false_iff, not_or, not_and]
    exact ⟨hpcm, fun h => absurd h hextensible⟩
  · exact iff_of_true rfl (.inl (not_not.mp hpcm))

theorem validateFormat_eq_ok_iff :
    validateFormat format = .ok () ↔ Valid format := by
  rw [validateFormat, Traversal.bind_eq_ok]
  constructor
  · rintro ⟨⟨⟩, hinteger, hrates⟩
    rw [validateRates] at hrates
    simp only [ne_eq] at hrates
    split_ifs at hrates with hchannels hrate hbits halign hbyte hvalid
    exact
      { integer := validateInteger_eq_ok_iff.mp hinteger
        channels := by omega
        rate := by omega
        bits := by omega
        align := halign
        byteRate := hbyte
        validBits := by
          intro hextensible
          rw [not_and_or] at hvalid
          have hrange := hvalid.resolve_left (not_not.mpr hextensible)
          omega }
  · intro h
    refine ⟨(), validateInteger_eq_ok_iff.mpr h.integer, ?_⟩
    have hchannels := h.channels
    have hrate := h.rate
    have hbits := h.bits
    rw [validateRates, if_neg (by omega), if_neg (by omega), if_neg (by omega),
      if_neg (not_not.mpr h.align),
      if_neg (not_not.mpr h.byteRate), if_neg]
    rintro ⟨hextensible, hrange⟩
    have hvalid := h.validBits hextensible
    omega

/-- The number in some bytes of the body. -/
def word (body : List UInt8) (start count : ℕ) : ℕ :=
  ByteOrder.ofLe (cut body start (start + count))

/-- The fields that every header has. -/
def baseFormat (body : List UInt8) : Format where
  audioFormat := word body 0 2
  channelCount := word body 2 2
  sampleRateHz := word body 4 4
  bytesPerSecond := word body 8 4
  blockAlign := word body 12 2
  bitsPerSample := word body 14 2
  cbSize := if fmtWaveformatexSizeBytes ≤ body.length then word body 16 2 else 0
  validBits := 0
  subFormat := List.replicate 16 0

/-- The format with what an extension says, where there is one. -/
inductive Extends (body : List UInt8) : Format → Prop
  | extensible (kind : (baseFormat body).audioFormat = extensible)
      (length : body.length = fmtExtensibleSizeBytes) :
      Extends body { baseFormat body with
        validBits := word body 18 2, subFormat := cut body 24 40 }
  | short (kind : (baseFormat body).audioFormat ≠ Wav.extensible)
      (length : body.length = fmtMinSizeBytes) : Extends body (baseFormat body)
  | empty (kind : (baseFormat body).audioFormat ≠ Wav.extensible)
      (length : body.length = fmtWaveformatexSizeBytes)
        (noExtension : (baseFormat body).cbSize = 0) :
      Extends body (baseFormat body)

/-- The body of a format chunk. -/
structure IsFormat (body : List UInt8) (format : Format) : Prop where
  fields : Extends body format
  valid : Valid format

variable {body : List UInt8}

theorem u16At_of_le {start : ℕ} (h : start + 2 ≤ body.length) :
    u16At body start = .ok (word body start 2) := by
  rw [u16At, slice_of_le (Nat.le_add_right _ _) h]
  rfl

theorem u32At_of_le {start : ℕ} (h : start + 4 ≤ body.length) :
    u32At body start = .ok (word body start 4) := by
  rw [u32At, slice_of_le (Nat.le_add_right _ _) h]
  rfl

theorem parseBaseFormat_eq (h : fmtMinSizeBytes ≤ body.length) :
    parseBaseFormat body = .ok (baseFormat body) := by
  have hmin : fmtMinSizeBytes = 16 := rfl
  rw [parseBaseFormat, u16At_of_le (by omega), u16At_of_le (by omega), u32At_of_le (by omega),
    u32At_of_le (by omega), u16At_of_le (by omega), u16At_of_le (by omega)]
  simp only [ok_bind]
  rw [baseFormat]
  have hex : fmtWaveformatexSizeBytes = 18 := rfl
  split_ifs with hlong
  · rw [u16At_of_le (by omega)]
    rfl
  · rfl

theorem parseExtension_meets (h : body.length ≤ fmtExtensibleSizeBytes) :
    Meets (Extends body) (parseExtension body (baseFormat body)) := by
  have hforty : fmtExtensibleSizeBytes = 40 := rfl
  rw [parseExtension]
  apply Meets.ite
  · intro hkind
    apply Meets.ite
    · intro _
      exact Meets.fail _
    · intro hlong
      have hlength : body.length = 40 := by omega
      rw [u16At_of_le (by omega), ok_bind, slice_of_le (by omega) (by omega), ok_bind]
      exact Meets.ok (.extensible hkind hlength)
  · intro hkind
    apply Meets.ite
    · intro _
      exact Meets.fail _
    · intro hlength
      rw [not_and_or, not_not, not_or, not_not, not_not] at hlength
      rcases hlength with hshort | ⟨hlong, hcb⟩
      · exact Meets.ok (.short hkind hshort)
      · exact Meets.ok (.empty hkind hlong hcb)

theorem parseExtension_of_extends (h : Extends body format) :
    parseExtension body (baseFormat body) = .ok format := by
  have hforty : fmtExtensibleSizeBytes = 40 := rfl
  cases h with
  | extensible hkind hlength =>
    rw [parseExtension]
    simp only
    rw [if_pos hkind, if_neg (by omega), u16At_of_le (by omega), ok_bind,
      slice_of_le (by omega) (by omega)]
    rfl
  | short hkind hlength =>
    rw [parseExtension]
    rw [if_neg hkind, if_neg]
    exact fun h => h.1 hlength
  | empty hkind hlength hcb =>
    rw [parseExtension]
    rw [if_neg hkind, if_neg]
    rintro ⟨-, hother⟩
    exact hother.elim (fun h => h hlength) fun h => h hcb

theorem Extends.length_bounds (h : Extends body format) :
    fmtMinSizeBytes ≤ body.length ∧ body.length ≤ fmtExtensibleSizeBytes := by
  cases h with
  | extensible _ hlength =>
    rw [hlength]
    decide
  | short _ hlength =>
    rw [hlength]
    decide
  | empty _ hlength _ =>
    rw [hlength]
    decide

section Bodies

variable {C : Casing} {file : File} {position size : ℕ} {body : List UInt8}

theorem readFormat_meets (hbody : file.readExactAt size position = some body) :
    Meets (IsFormat body) (readFormat file position size) := by
  have hlength := File.length_readExactAt hbody
  rw [readFormat]
  apply Meets.ite
  · intro _
    exact Meets.fail _
  · intro hsize
    rw [hbody]
    simp only [parseFormat]
    rw [parseBaseFormat_eq (by omega), ok_bind]
    apply (parseExtension_meets (by omega)).bind
    intro format hfields
    apply (Meets.ofExcept (Q := fun _ => Valid format) ?_).bind
    · intro _ hvalid
      exact Meets.ok ⟨hfields, hvalid⟩
    · intro _ hvalid
      exact validateFormat_eq_ok_iff.mp hvalid

theorem readFormat_of_isFormat (hbody : file.readExactAt size position = some body)
    (h : IsFormat body format) : readFormat file position size = .ok format := by
  have hlength := File.length_readExactAt hbody
  have hbounds := h.fields.length_bounds
  rw [readFormat, if_neg (by omega), hbody]
  simp only [parseFormat]
  rw [parseBaseFormat_eq hbounds.1, ok_bind, parseExtension_of_extends h.fields, ok_bind,
    validateFormat_eq_ok_iff.mpr h.valid]
  rfl

/-! ### Tags -/

/-- The body of a tag chunk: a tag with nothing behind it whose frames all give their values. -/
def ReadsTag (C : Casing) (body : List UInt8) (read : Tags × List Id3.TaggedPicture) : Prop :=
  ∃ frames version size values failure,
    Id3.IsTag body frames version size ∧ headerSizeBytes + size = body.length ∧
      Id3.collectValues C frames version = (values, failure) ∧ failure.isEmpty = true ∧
      read = (values.tags, values.pictures)

/-- Only the front of the bytes is read as a header. -/
theorem parseHeader_take (h : headerSizeBytes ≤ body.length) :
    Id3.parseHeader body = Id3.parseHeader (body.take headerSizeBytes) := by
  have hten : headerSizeBytes = 10 := rfl
  match body, h with
  | a :: b :: c :: d :: e :: f :: g :: i :: j :: k :: rest, h =>
    rw [Id3.parseHeader, Id3.parseHeader, if_neg (Nat.not_lt.mpr h),
      if_neg (Nat.not_lt.mpr (Nat.le_of_eq (List.length_take_of_le h).symm))]
    rw [hten]
    rfl

theorem intoResult_eq_ok_iff {failure : Failure} :
    failure.intoResult = .ok () ↔ failure.isEmpty = true := by
  rw [Failure.intoResult]
  split_ifs with h
  · exact iff_of_true rfl h
  · exact iff_of_false (by simp) h

theorem readId3_meets (hbody : file.readExactAt size position = some body) :
    Meets (ReadsTag C body) (readId3 C file position size) := by
  have hlength := File.length_readExactAt hbody
  rw [readId3]
  apply Meets.ite
  · intro _
    exact Meets.fail _
  · intro hsize
    have hheader : (body.take headerSizeBytes).length = headerSizeBytes :=
      List.length_take_of_le (by omega)
    rw [hbody]
    simp only [parseId3]
    rw [parseHeader_take (by omega)]
    apply (Id3.parseHeader_meets hheader).bind
    rintro ⟨version, tagSize⟩ ⟨hlow, hhigh, hpos, hmax, hencoded⟩
    apply Meets.ite
    · intro _
      exact Meets.fail _
    · intro hfills
      rw [not_not] at hfills
      rw [slice_rest (by omega), ok_bind]
      apply (Id3.parseFrames_meets _ _).bind
      intro frames hframes
      have hpayload : (body.drop headerSizeBytes).take tagSize = body.drop headerSizeBytes := by
        apply List.take_of_length_le
        rw [List.length_drop]
        omega
      have htag : Id3.IsTag body frames version tagSize :=
        ⟨hlow, hhigh, hpos, hmax, Nat.le_of_eq hfills, hencoded, by rw [hpayload]; exact hframes⟩
      apply (Meets.ofExcept (Q := fun _ => (Id3.collectValues C frames version).2.isEmpty) ?_).bind
      · intro _ hempty
        exact Meets.ok ⟨frames, version, tagSize, _, _, htag, hfills, rfl, hempty, rfl⟩
      · intro _ hnone
        exact intoResult_eq_ok_iff.mp hnone

theorem readId3_of_readsTag {read : Tags × List Id3.TaggedPicture}
    (hbody : file.readExactAt size position = some body) (h : ReadsTag C body read) :
    readId3 C file position size = .ok read := by
  obtain ⟨frames, version, tagSize, values, failure, htag, hfills, hcollect, hempty, rfl⟩ := h
  have hlength := File.length_readExactAt hbody
  have hmax := htag.size_le
  have hpayload : (body.drop headerSizeBytes).take tagSize = body.drop headerSizeBytes := by
    apply List.take_of_length_le
    rw [List.length_drop]
    omega
  rw [readId3, if_neg (by omega), hbody]
  simp only [parseId3]
  rw [parseHeader_take (by omega), htag.header,
    Id3.parseHeader_encodeHeader htag.version_ge htag.version_le htag.size_pos htag.size_le,
    ok_bind]
  simp only
  rw [if_neg (not_not.mpr hfills), slice_rest (by omega), ok_bind, ← hpayload,
    Id3.parseFrames_of_encodes htag.payload, ok_bind, hcollect]
  simp only
  rw [intoResult_eq_ok_iff.mpr hempty]
  rfl

end Bodies

end Harmony.Inspect.Wav
