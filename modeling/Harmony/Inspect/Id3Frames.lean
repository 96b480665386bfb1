/-
# ID3 frames

A tag holds frames one after another and then zeros. A frame is a name, the size of its body
and the body, laid out in one of three ways that the version of the tag selects. A payload is
read as some frames exactly where it is their encoding with zeros behind it, so that no other
byte of a tag is ever skipped.
-/

import Harmony.Inspect.Errors
import Harmony.Library.ByteOrder
import Harmony.Library.Checked
import Harmony.Library.Utf8

namespace Harmony.Inspect

open Checked

def headerSizeBytes : ℕ := 10

def maxTagSizeBytes : ℕ := 32 * 1024 * 1024

namespace Id3

structure Frame where
  name : String
  payload : List UInt8
  deriving DecidableEq

def invalid (message : String) : Failure := error .invalidMetadata "ID3" message

/-! ### The tag's header -/

/-- A number of 28 bits, in the low seven bits of each byte. -/
def decodeSyncSafe (data : List UInt8) : Option ℕ :=
  if data.length ≠ 4 then none
  else
    data.foldlM (fun value part =>
      if part &&& 0x80 ≠ 0 then none else some (value * 128 + (part &&& 0x7f).toNat)) 0

def signature : List UInt8 := [0x49, 0x44, 0x33]

/-- The version and the size of the payload. -/
def parseHeader (header : List UInt8) : Checked Failure (UInt8 × ℕ) := do
  if header.length < headerSizeBytes then fail (invalid "ID3v2 tag is required")
  else if (← slice header 0 3) ≠ signature then fail (invalid "ID3v2 tag is required")
  else
    let version ← index header 3
    let revision ← index header 4
    if version < 2 ∨ 4 < version ∨ revision ≠ 0 then
      fail (invalid s!"unsupported ID3v2 version {version}.{revision}")
    else if (← index header 5) ≠ 0 then
      fail (invalid "ID3 tag flags are not supported by the Strict Import Profile")
    else
      match decodeSyncSafe (← slice header 6 10) with
      | some size =>
        if 0 < size ∧ size ≤ maxTagSizeBytes then .ok (version, size)
        else fail (invalid "ID3 tag size is invalid")
      | none => fail (invalid "ID3 tag size is invalid")

/-! ### Frames -/

def isZero (data : List UInt8) : Bool := data.all (· = 0)

def isNameByte (byte : UInt8) : Bool :=
  (0x41 ≤ byte ∧ byte ≤ 0x5a) ∨ (0x30 ≤ byte ∧ byte ≤ 0x39)

def nameSize (version : UInt8) : ℕ := if version = 2 then 3 else 4

def frameHeaderSize (version : UInt8) : ℕ := if version = 2 then 6 else 10

/-- The size that the header of a frame gives. -/
def parseFrameHeader (data : List UInt8) (version : UInt8) : Checked Failure (Option ℕ) := do
  if (← slice data 0 (nameSize version)).all isNameByte = false then .ok none
  else if version = 2 then .ok (some (ByteOrder.ofBe (← slice data 3 6)))
  else if isZero (← slice data 8 10) = false then .ok none
  else if version = 4 then .ok (decodeSyncSafe (← slice data 4 8))
  else .ok (some (ByteOrder.ofBe (← slice data 4 8)))

/-- The frames from an offset on, behind those already read. -/
def framesFrom (payload : List UInt8) (version : UInt8) :
    ℕ → ℕ → List Frame → Checked Failure (List Frame)
  | 0, _, _ => .error .unfinished
  | fuel + 1, offset, frames =>
    if payload.length ≤ offset then .ok frames
    else do
      let left ← sub payload.length offset
      let rest ← slice payload offset payload.length
      if left < frameHeaderSize version then
        if isZero rest then .ok frames else fail (invalid "ID3 frame header is truncated")
      else
        let name ← slice payload offset (offset + nameSize version)
        if isZero name then
          if isZero rest then .ok frames
          else fail (invalid "ID3 padding contains non-zero data")
        else
          let room ← sub left (frameHeaderSize version)
          match (← parseFrameHeader rest version).filter fun size => 0 < size ∧ size ≤ room with
          | none => fail (invalid "ID3 frame size is invalid")
          | some size =>
            let start := offset + frameHeaderSize version
            let body ← slice payload start (start + size)
            framesFrom payload version fuel (start + size)
              (frames ++ [⟨String.ofList (Chars.fromUtf8Lossy name), body⟩])

/-- The frames of a payload. Each of them is longer than its header, so that there are fewer
than bytes. -/
def parseFrames (payload : List UInt8) (version : UInt8) : Checked Failure (List Frame) :=
  framesFrom payload version (payload.length + 1) 0 []

/-! ### The encoding -/

/-- The number in the low seven bits of four bytes. -/
def toSyncSafe (n : ℕ) : List UInt8 :=
  [UInt8.ofNat (n / 2 ^ 21 % 128), UInt8.ofNat (n / 2 ^ 14 % 128), UInt8.ofNat (n / 2 ^ 7 % 128),
    UInt8.ofNat (n % 128)]

def encodeSize (version : UInt8) (size : ℕ) : List UInt8 :=
  if version = 2 then ByteOrder.toBe 3 size
  else if version = 4 then toSyncSafe size
  else ByteOrder.toBe 4 size

/-- The first number that a size cannot be. -/
def sizeBound (version : UInt8) : ℕ :=
  if version = 2 then 2 ^ 24 else if version = 4 then 2 ^ 28 else 2 ^ 32

def zeroFlags (version : UInt8) : List UInt8 := if version = 2 then [] else [0, 0]

def encodeFrame (version : UInt8) (frame : Frame) : List UInt8 :=
  Utf8.encode frame.name.toList ++ encodeSize version frame.payload.length ++ zeroFlags version ++
    frame.payload

def encodeFrames (version : UInt8) (frames : List Frame) : List UInt8 :=
  frames.flatMap (encodeFrame version)

/-- A frame that the version can hold: a name of upper-case letters and digits, and a body that
is not empty and not too long. -/
structure IsFrame (version : UInt8) (frame : Frame) : Prop where
  length : frame.name.toList.length = nameSize version
  name : ∀ c ∈ frame.name.toList, c.isUpper = true ∨ c.isDigit = true
  nonempty : frame.payload ≠ []
  size : frame.payload.length < sizeBound version

/-- The bytes are those of the frames with zeros behind them. -/
def Encodes (version : UInt8) (frames : List Frame) (bytes : List UInt8) : Prop :=
  (∀ frame ∈ frames, IsFrame version frame) ∧
    ∃ zeros, bytes = encodeFrames version frames ++ List.replicate zeros 0

/-! ### Sizes -/

theorem highBit_iff (part : UInt8) :
    part &&& 0x80 = 0 ↔ part.toNat < 128 := by
  have hall : ∀ n < 256, UInt8.ofNat n &&& 0x80 = 0 ↔ n < 128 := by decide +kernel
  have hpart := hall part.toNat part.toNat_lt
  rwa [UInt8.ofNat_toNat] at hpart

theorem lowBits_of_lt {part : UInt8} (h : part.toNat < 128) : part &&& 0x7f = part := by
  have hall : ∀ n < 128, UInt8.ofNat n &&& 0x7f = UInt8.ofNat n := by decide +kernel
  have hpart := hall part.toNat h
  rwa [UInt8.ofNat_toNat] at hpart

theorem decodeSyncSafe_quad (a b c d : UInt8) :
    decodeSyncSafe [a, b, c, d] =
      if a.toNat < 128 ∧ b.toNat < 128 ∧ c.toNat < 128 ∧ d.toNat < 128 then
        some (((a.toNat * 128 + b.toNat) * 128 + c.toNat) * 128 + d.toNat)
      else none := by
  have hstep : ∀ (value : ℕ) (part : UInt8),
      (if part &&& 0x80 ≠ 0 then none else some (value * 128 + (part &&& 0x7f).toNat)) =
        if part.toNat < 128 then some (value * 128 + part.toNat) else none := by
    intro value part
    by_cases hlow : part.toNat < 128
    · rw [if_neg (not_not.mpr ((highBit_iff part).mpr hlow)), lowBits_of_lt hlow, if_pos hlow]
    · rw [if_pos (mt (highBit_iff part).mp hlow), if_neg hlow]
  rw [decodeSyncSafe, if_neg (by simp)]
  simp only [hstep, List.foldlM_cons, List.foldlM_nil]
  by_cases ha : a.toNat < 128
  · by_cases hb : b.toNat < 128
    · by_cases hc : c.toNat < 128
      · by_cases hd : d.toNat < 128
        · simp [ha, hb, hc, hd]
        · simp [ha, hb, hc, hd]
      · simp [ha, hb, hc]
    · simp [ha, hb]
  · simp [ha]

theorem decodeSyncSafe_eq_some {data : List UInt8} {n : ℕ} :
    decodeSyncSafe data = some n ↔ n < 2 ^ 28 ∧ data = toSyncSafe n := by
  constructor
  · intro h
    have hlength : data.length = 4 := by
      by_contra hne
      rw [decodeSyncSafe, if_pos hne] at h
      cases h
    match data, hlength with
    | [a, b, c, d], _ =>
      rw [decodeSyncSafe_quad] at h
      split_ifs at h with hlow
      cases h
      refine ⟨by omega, ?_⟩
      -- each byte is seven bits of the number
      simp only [toSyncSafe, List.cons.injEq, and_true, ← UInt8.toNat_inj, UInt8.toNat_ofNat']
      omega
  · rintro ⟨hn, rfl⟩
    rw [toSyncSafe, decodeSyncSafe_quad]
    simp only [UInt8.toNat_ofNat']
    rw [if_pos (by omega), Option.some.injEq]
    omega

theorem length_encodeSize (version : UInt8) (size : ℕ) :
    (encodeSize version size).length = if version = 2 then 3 else 4 := by
  rw [encodeSize]
  split_ifs
  · exact ByteOrder.length_toBe 3 size
  · rfl
  · exact ByteOrder.length_toBe 4 size

variable {bytes : List UInt8} {size : ℕ}

theorem ofBe_eq_iff :
    ByteOrder.ofBe bytes = size ↔
      size < 256 ^ bytes.length ∧ bytes = ByteOrder.toBe bytes.length size := by
  constructor
  · rintro rfl
    exact ⟨ByteOrder.ofBe_lt bytes, (ByteOrder.toBe_ofBe bytes).symm⟩
  · rintro ⟨hlt, heq⟩
    rw [heq]
    exact ByteOrder.ofBe_toBe hlt

/-! ### Names -/

theorem isNameByte_lt {byte : UInt8} (h : isNameByte byte = true) : byte.toNat < 0x80 := by
  have hrange := of_decide_eq_true h
  simp only [UInt8.le_iff_toNat_le] at hrange
  have h1 : (0x5a : UInt8).toNat = 90 := rfl
  have h2 : (0x39 : UInt8).toNat = 57 := rfl
  omega

theorem fromUtf8Lossy_ascii (h : ∀ byte ∈ bytes, byte.toNat < 0x80) :
    Chars.fromUtf8Lossy bytes = bytes.map fun byte => Char.ofNat byte.toNat := by
  induction bytes with
  | nil => rfl
  | cons byte bytes ih =>
    rw [List.forall_mem_cons] at h
    have hlow : byte < 0x80 := UInt8.lt_iff_toNat_lt.mpr h.1
    rw [Chars.fromUtf8Lossy.eq_def]
    simp only [if_pos hlow, List.map_cons, ih h.2]

/-- The text of a name. -/
def nameText (name : List UInt8) : String := String.ofList (Chars.fromUtf8Lossy name)

theorem toNat_ofNat_ascii {n : ℕ} (h : n < 0x80) : (Char.ofNat n).toNat = n := by
  have hall : ∀ n < 0x80, (Char.ofNat n).toNat = n := by decide
  exact hall n h

theorem isNameByte_iff {n : ℕ} (h : n < 0x80) :
    isNameByte (UInt8.ofNat n) = true ↔
      (Char.ofNat n).isUpper = true ∨ (Char.ofNat n).isDigit = true := by
  have hall : ∀ n < 0x80, isNameByte (UInt8.ofNat n) = true ↔
      (Char.ofNat n).isUpper = true ∨ (Char.ofNat n).isDigit = true := by decide +kernel
  exact hall n h

/-- The bytes of a name are those of its text. -/
theorem nameText_spec {name : List UInt8} (h : ∀ byte ∈ name, isNameByte byte = true) :
    Utf8.encode (nameText name).toList = name ∧
      (nameText name).toList.length = name.length ∧
      ∀ c ∈ (nameText name).toList, c.isUpper = true ∨ c.isDigit = true := by
  have hascii : ∀ byte ∈ name, byte.toNat < 0x80 := fun byte hbyte => isNameByte_lt (h byte hbyte)
  rw [nameText, String.toList_ofList, fromUtf8Lossy_ascii hascii]
  refine ⟨?_, List.length_map _, ?_⟩
  · clear h
    induction name with
    | nil => rfl
    | cons byte name ih =>
      rw [List.forall_mem_cons] at hascii
      have hnat := toNat_ofNat_ascii hascii.1
      rw [List.map_cons, Utf8.encode_cons, Utf8.utf8EncodeChar_ascii (by rw [hnat]; exact hascii.1),
        hnat, UInt8.ofNat_toNat, ih hascii.2]
      rfl
  · intro c hc
    obtain ⟨byte, hbyte, rfl⟩ := List.mem_map.mp hc
    have hname := h byte hbyte
    rw [← UInt8.ofNat_toNat (x := byte)] at hname
    exact (isNameByte_iff (hascii byte hbyte)).mp hname

theorem lt_of_isUpper_or_isDigit {c : Char} (h : c.isUpper = true ∨ c.isDigit = true) :
    c.toNat < 0x80 := by
  rcases h with hupper | hdigit
  · have hle : c.toNat ≤ 90 := (of_decide_eq_true hupper).2
    omega
  · have hle : c.toNat ≤ 57 := (Char.isDigit_iff_toNat.mp hdigit).2
    omega

/-- The text of a name is read from its bytes. -/
theorem nameText_encode {name : String}
    (h : ∀ c ∈ name.toList, c.isUpper = true ∨ c.isDigit = true) :
    nameText (Utf8.encode name.toList) = name ∧
      (Utf8.encode name.toList).length = name.toList.length ∧
      ∀ byte ∈ Utf8.encode name.toList, isNameByte byte = true := by
  have hascii : ∀ c ∈ name.toList, c.toNat < 0x80 := fun c hc => lt_of_isUpper_or_isDigit (h c hc)
  have hbytes : Utf8.encode name.toList = name.toList.map fun c => UInt8.ofNat c.toNat := by
    clear h
    generalize name.toList = chars at hascii
    induction chars with
    | nil => rfl
    | cons c chars ih =>
      rw [List.forall_mem_cons] at hascii
      rw [Utf8.encode_cons, Utf8.utf8EncodeChar_ascii hascii.1, ih hascii.2]
      rfl
  have hname : ∀ byte ∈ Utf8.encode name.toList, isNameByte byte = true := by
    rw [hbytes]
    intro byte hbyte
    obtain ⟨c, hc, rfl⟩ := List.mem_map.mp hbyte
    rw [isNameByte_iff (hascii c hc), Char.ofNat_toNat]
    exact h c hc
  refine ⟨?_, Utf8.length_encode_ascii hascii, hname⟩
  have hdecode := congrArg Utf8.decode (nameText_spec hname).1
  rw [Utf8.decode_encode, Utf8.decode_encode] at hdecode
  exact String.toList_injective (Option.some.inj hdecode)

/-! ### One frame -/

/-- What the header at the front of the bytes gives as the size. -/
def headerSize? (version : UInt8) (rest : List UInt8) : Option ℕ :=
  if (rest.take (nameSize version)).all isNameByte = false then none
  else if version = 2 then some (ByteOrder.ofBe ((rest.drop 3).take 3))
  else if isZero ((rest.drop 8).take 2) = false then none
  else if version = 4 then decodeSyncSafe ((rest.drop 4).take 4)
  else some (ByteOrder.ofBe ((rest.drop 4).take 4))

variable {version : UInt8} {frames : List Frame} {frame : Frame} {rest : List UInt8}

theorem parseFrameHeader_eq (h : frameHeaderSize version ≤ rest.length) :
    parseFrameHeader rest version = .ok (headerSize? version rest) := by
  rw [frameHeaderSize] at h
  rw [parseFrameHeader, headerSize?]
  by_cases hversion : version = 2
  · subst hversion
    simp only [if_true] at h
    rw [slice_of_le (Nat.zero_le _) (by rw [nameSize]; simp; omega),
      slice_of_le (by omega) (by omega)]
    simp only [ok_bind, Nat.sub_zero, List.drop_zero, if_true]
    split_ifs
    · rfl
    · rfl
  · rw [if_neg hversion] at h
    have hname : nameSize version ≤ rest.length := by
      rw [nameSize, if_neg hversion]
      omega
    rw [slice_of_le (Nat.zero_le _) hname, slice_of_le (by omega) (show 10 ≤ rest.length by omega),
      slice_of_le (by omega) (show 8 ≤ rest.length by omega)]
    simp only [ok_bind, Nat.sub_zero, List.drop_zero, hversion, if_false]
    split_ifs
    · rfl
    · rfl
    · rfl
    · rfl

theorem isZero_iff {data : List UInt8} :
    isZero data = true ↔ data = List.replicate data.length 0 := by
  rw [List.eq_replicate_length]
  simp [isZero]

/-- A header is read where it is the encoding of its name and size, with zero flags. -/
theorem headerSize?_eq_some (h : frameHeaderSize version ≤ rest.length) :
    headerSize? version rest = some size ↔
      (∀ byte ∈ rest.take (nameSize version), isNameByte byte = true) ∧
      size < sizeBound version ∧
      rest.take (frameHeaderSize version) =
        rest.take (nameSize version) ++ encodeSize version size ++ zeroFlags version := by
  rw [headerSize?]
  by_cases hname : (rest.take (nameSize version)).all isNameByte = false
  · rw [if_pos hname]
    simp only [reduceCtorEq, false_iff, not_and]
    intro hall
    rw [List.all_eq_true.mpr hall] at hname
    cases hname
  · rw [if_neg hname, and_iff_right (List.all_eq_true.mp (Bool.not_eq_false _ ▸ hname))]
    by_cases hversion : version = 2
    · subst hversion
      simp only [frameHeaderSize, nameSize, encodeSize, sizeBound, zeroFlags, if_true,
        List.append_nil, Option.some.injEq] at h ⊢
      have hlength : ((rest.drop 3).take 3).length = 3 := by
        rw [List.length_take, List.length_drop]
        omega
      rw [ofBe_eq_iff, hlength, show (6 : ℕ) = 3 + 3 from rfl, List.take_add,
        List.append_cancel_left_eq]
      exact Iff.rfl
    · have hten : frameHeaderSize version = 10 := if_neg hversion
      have hfour : nameSize version = 4 := if_neg hversion
      rw [hten] at h
      have hsize : ((rest.drop 4).take 4).length = 4 := by
        rw [List.length_take, List.length_drop]
        omega
      have hflags : ((rest.drop 8).take 2).length = 2 := by
        rw [List.length_take, List.length_drop]
        omega
      have hparts : rest.take 10 = rest.take 4 ++
        ((rest.drop 4).take 4 ++ (rest.drop 8).take 2) := by
        rw [show (10 : ℕ) = 4 + (4 + 2) from rfl, List.take_add, List.take_add, List.drop_drop]
      have hencoded : (rest.drop 4).take 4 ++ (rest.drop 8).take 2 =
          encodeSize version size ++ [0, 0] ↔
          (rest.drop 4).take 4 = encodeSize version size ∧ (rest.drop 8).take 2 = [0, 0] := by
        apply List.append_eq_append_iff_of_size_eq_left
        rw [hsize, length_encodeSize, if_neg hversion]
      have hzeros : isZero ((rest.drop 8).take 2) = true ↔ (rest.drop 8).take 2 = [0, 0] := by
        rw [isZero_iff, hflags]
        rfl
      rw [hten, hfour, hparts, zeroFlags, if_neg hversion, if_neg hversion, List.append_assoc,
        List.append_cancel_left_eq, hencoded, ← hzeros]
      by_cases hzero : isZero ((rest.drop 8).take 2) = false
      · simp [hzero]
      · have hone : isZero ((rest.drop 8).take 2) = true := Bool.not_eq_false _ ▸ hzero
        rw [if_neg hzero, and_iff_left hone, encodeSize, sizeBound, if_neg hversion,
          if_neg hversion]
        by_cases hfourth : version = 4
        · simp only [if_pos hfourth]
          exact decodeSyncSafe_eq_some
        · simp only [if_neg hfourth]
          rw [Option.some.injEq, ofBe_eq_iff, hsize]
          exact Iff.rfl

theorem nameSize_le (version : UInt8) : nameSize version ≤ frameHeaderSize version := by
  rw [nameSize, frameHeaderSize]
  split_ifs
  · decide
  · decide

theorem length_header (h : IsFrame version frame) :
    (Utf8.encode frame.name.toList ++ encodeSize version frame.payload.length ++
      zeroFlags version).length = frameHeaderSize version := by
  rw [List.length_append, List.length_append, (nameText_encode h.name).2.1, h.length,
    length_encodeSize, nameSize, zeroFlags, frameHeaderSize]
  split_ifs
  · rfl
  · rfl

/-- A frame read off the front of the bytes is encoded there. -/
theorem encodeFrame_of_headerSize? (h : frameHeaderSize version ≤ rest.length)
    (hsize : headerSize? version rest = some size) (hpos : 0 < size)
    (hroom : size ≤ rest.length - frameHeaderSize version) :
    IsFrame version ⟨nameText (rest.take (nameSize version)),
      (rest.drop (frameHeaderSize version)).take size⟩ ∧
    rest = encodeFrame version ⟨nameText (rest.take (nameSize version)),
        (rest.drop (frameHeaderSize version)).take size⟩ ++
      rest.drop (frameHeaderSize version + size) := by
  obtain ⟨hname, hbound, hheader⟩ := (headerSize?_eq_some h).mp hsize
  obtain ⟨hencode, hlength, hchars⟩ := nameText_spec hname
  have hle := nameSize_le version
  have hbody : ((rest.drop (frameHeaderSize version)).take size).length = size := by
    rw [List.length_take, List.length_drop]
    omega
  constructor
  · constructor
    · rw [hlength, List.length_take]
      omega
    · exact hchars
    · rw [← List.length_pos_iff, hbody]
      exact hpos
    · rw [hbody]
      exact hbound
  · rw [encodeFrame, hencode, hbody, ← hheader, List.append_assoc, ← List.drop_drop,
      List.take_append_drop, List.take_append_drop]

/-- A frame encoded at the front of the bytes is read off it. -/
theorem headerSize?_encodeFrame (tail : List UInt8) (h : IsFrame version frame) :
    (encodeFrame version frame ++ tail).take (nameSize version) = Utf8.encode frame.name.toList ∧
    (encodeFrame version frame ++ tail).drop (frameHeaderSize version) = frame.payload ++ tail ∧
    headerSize? version (encodeFrame version frame ++ tail) = some frame.payload.length := by
  obtain ⟨-, hlength, hbytes⟩ := nameText_encode h.name
  rw [h.length] at hlength
  have hheader := length_header h
  have hname : (encodeFrame version frame ++ tail).take (nameSize version) =
      Utf8.encode frame.name.toList := by
    rw [encodeFrame, List.append_assoc, List.append_assoc, List.append_assoc]
    exact List.take_left' hlength
  have htake : (encodeFrame version frame ++ tail).take (frameHeaderSize version) =
      Utf8.encode frame.name.toList ++ encodeSize version frame.payload.length ++
        zeroFlags version := by
    rw [encodeFrame, List.append_assoc]
    exact List.take_left' hheader
  refine ⟨hname, ?_, ?_⟩
  · rw [encodeFrame, List.append_assoc]
    exact List.drop_left' hheader
  · rw [headerSize?_eq_some]
    · rw [hname, htake]
      exact ⟨hbytes, h.size, rfl⟩
    · rw [encodeFrame, List.length_append, List.length_append, hheader]
      omega

/-! ### All frames -/

theorem encodes_nil (h : isZero bytes = true) :
    Encodes version [] bytes :=
  ⟨nofun, bytes.length, isZero_iff.mp h⟩

theorem Encodes.cons {tail : List UInt8} (hframe : IsFrame version frame)
    (h : Encodes version frames tail) :
    Encodes version (frame :: frames) (encodeFrame version frame ++ tail) := by
  obtain ⟨hframes, zeros, rfl⟩ := h
  refine ⟨List.forall_mem_cons.mpr ⟨hframe, hframes⟩, zeros, ?_⟩
  rw [encodeFrames, encodeFrames, List.flatMap_cons, List.append_assoc]

theorem Encodes.of_cons (h : Encodes version (frame :: frames) bytes) :
    IsFrame version frame ∧
      ∃ tail, bytes = encodeFrame version frame ++ tail ∧ Encodes version frames tail := by
  obtain ⟨hframes, zeros, rfl⟩ := h
  rw [List.forall_mem_cons] at hframes
  refine ⟨hframes.1, encodeFrames version frames ++ List.replicate zeros 0, ?_, hframes.2, zeros,
    rfl⟩
  rw [encodeFrames, encodeFrames, List.flatMap_cons, List.append_assoc]

section Loop

variable {payload : List UInt8} {version : UInt8}

/-- The frames that are read are encoded where they were read. -/
theorem framesFrom_meets {fuel offset : ℕ} (hoffset : offset ≤ payload.length)
    (hfuel : payload.length - offset < fuel) :
    Meets (fun all => ∃ more, all = frames ++ more ∧ Encodes version more (payload.drop offset))
      (framesFrom payload version fuel offset frames) := by
  induction fuel generalizing offset frames with
  | zero => omega
  | succ fuel ih =>
    have hlength : (payload.drop offset).length = payload.length - offset := List.length_drop
    rw [framesFrom]
    split_ifs with hend
    · refine ⟨[], (List.append_nil frames).symm, encodes_nil ?_⟩
      rw [List.drop_eq_nil_of_le hend]
      rfl
    · rw [sub_of_le hoffset, slice_rest hoffset, ok_bind, ok_bind]
      have hname := nameSize_le version
      apply Meets.ite
      · -- less than a header is left
        intro hshort
        apply Meets.ite
        · intro hzero
          exact ⟨[], (List.append_nil frames).symm, encodes_nil hzero⟩
        · intro _
          exact Meets.fail _
      · intro hheader
        rw [slice_of_le (by omega) (by omega), ok_bind]
        apply Meets.ite
        · intro _
          apply Meets.ite
          · intro hzero
            exact ⟨[], (List.append_nil frames).symm, encodes_nil hzero⟩
          · intro _
            exact Meets.fail _
        · intro _
          have hfits : frameHeaderSize version ≤ (payload.drop offset).length := by omega
          rw [sub_of_le (by omega), ok_bind, parseFrameHeader_eq hfits, ok_bind]
          cases hsize : (headerSize? version (payload.drop offset)).filter fun size =>
              0 < size ∧ size ≤ payload.length - offset - frameHeaderSize version with
          | none => exact Meets.fail _
          | some size =>
            obtain ⟨hread, hrange⟩ := Option.filter_eq_some_iff.mp hsize
            have hrange := of_decide_eq_true hrange
            have hframe := encodeFrame_of_headerSize? hfits hread hrange.1 (by omega)
            simp only
            rw [slice_of_le (by omega) (by omega), ok_bind]
            apply (ih (by omega) (by omega)).mono
            rintro all ⟨more, rfl, hmore⟩
            refine ⟨_ :: more, List.append_assoc _ _ _, ?_⟩
            rw [← nameText, Nat.add_sub_cancel_left, Nat.add_sub_cancel_left]
            have htail : (payload.drop offset).drop (frameHeaderSize version + size) =
                payload.drop (offset + frameHeaderSize version + size) := by
              rw [List.drop_drop, Nat.add_assoc]
            rw [htail, List.drop_drop] at hframe
            have hcons := hmore.cons hframe.1
            rwa [← hframe.2] at hcons

/-- Frames are read from their encoding. -/
theorem framesFrom_of_encodes {fuel offset : ℕ} {frames more : List Frame}
    (hoffset : offset ≤ payload.length) (hfuel : payload.length - offset < fuel)
    (h : Encodes version more (payload.drop offset)) :
    framesFrom payload version fuel offset frames = .ok (frames ++ more) := by
  induction fuel generalizing offset frames more with
  | zero => omega
  | succ fuel ih =>
    have hlength : (payload.drop offset).length = payload.length - offset := List.length_drop
    have hname := nameSize_le version
    rw [framesFrom]
    cases more with
    | nil =>
      obtain ⟨-, zeros, hzeros⟩ := h
      have hzero : isZero (payload.drop offset) = true := by
        rw [hzeros]
        simp [isZero, encodeFrames]
      rw [List.append_nil]
      split_ifs with hend
      · rfl
      · rw [sub_of_le hoffset, slice_rest hoffset, ok_bind, ok_bind, hzero, if_pos rfl]
        by_cases hshort : payload.length - offset < frameHeaderSize version
        · rw [if_pos hshort]
        · rw [if_neg hshort]
          rw [slice_of_le (by omega) (by omega), ok_bind]
          have hfront : isZero ((payload.drop offset).take (offset + nameSize version - offset)) =
              true := by
            rw [hzeros]
            simp [isZero, encodeFrames]
          rw [hfront]
          rfl
    | cons frame more =>
      obtain ⟨hframe, tail, htail, hmore⟩ := h.of_cons
      obtain ⟨hfront, hbody, hsize⟩ := headerSize?_encodeFrame tail hframe
      have hheader := length_header hframe
      have hpos : 0 < frame.payload.length := List.length_pos_iff.mpr hframe.nonempty
      have htotal : (payload.drop offset).length =
          frameHeaderSize version + frame.payload.length + tail.length := by
        rw [htail, encodeFrame, List.length_append, List.length_append, hheader]
      rw [← htail] at hfront hbody hsize
      have hfits : frameHeaderSize version ≤ (payload.drop offset).length := by omega
      -- the name is not of zeros, so that this is not padding
      have hnonzero : isZero ((payload.drop offset).take (nameSize version)) ≠ true := by
        intro hzero
        have hbytes := ((headerSize?_eq_some hfits).mp hsize).1
        rw [isZero_iff] at hzero
        rw [hzero] at hbytes
        have hlen : ((payload.drop offset).take (nameSize version)).length ≠ 0 := by
          rw [List.length_take, nameSize]
          split_ifs
          · omega
          · omega
        have hbyte := hbytes 0 (List.mem_replicate.mpr ⟨hlen, rfl⟩)
        revert hbyte
        decide
      rw [if_neg (by omega), sub_of_le hoffset, slice_rest hoffset, ok_bind, ok_bind,
        if_neg (by omega), slice_of_le (by omega) (by omega), ok_bind, Nat.add_sub_cancel_left,
        if_neg hnonzero, sub_of_le (by omega), ok_bind, parseFrameHeader_eq hfits, ok_bind, hsize]
      have hkeep : (some frame.payload.length).filter (fun size =>
          0 < size ∧ size ≤ payload.length - offset - frameHeaderSize version) =
            some frame.payload.length := by
        rw [Option.filter_some, if_pos (decide_eq_true ⟨hpos, by omega⟩)]
      rw [hkeep]
      simp only
      have hpayload : (payload.drop (offset + frameHeaderSize version)).take frame.payload.length =
          frame.payload := by
        rw [← List.drop_drop, hbody, List.take_left]
      have hrest : payload.drop (offset + frameHeaderSize version + frame.payload.length) =
          tail := by
        rw [← List.drop_drop, ← List.drop_drop, hbody, List.drop_left]
      rw [← hrest] at hmore
      rw [slice_of_le (by omega) (by omega), ok_bind, Nat.add_sub_cancel_left, hpayload,
        ← nameText, hfront, (nameText_encode hframe.name).1, ih (by omega) (by omega) hmore,
        List.append_assoc]
      rfl

theorem parseFrames_meets (payload : List UInt8) (version : UInt8) :
    Meets (fun frames => Encodes version frames payload) (parseFrames payload version) := by
  rw [parseFrames]
  apply (framesFrom_meets (Nat.zero_le _) (Nat.lt_succ_self _)).mono
  rintro frames ⟨more, rfl, hmore⟩
  exact hmore

theorem parseFrames_of_encodes (h : Encodes version frames payload) :
    parseFrames payload version = .ok frames := by
  rw [parseFrames]
  exact framesFrom_of_encodes (Nat.zero_le _) (Nat.lt_succ_self _) h

/-- A payload is read as some frames exactly where it is their encoding with zeros behind it, and
reading ends without leaving the payload. -/
theorem parseFrames_eq_ok_iff (payload : List UInt8) (version : UInt8) :
    parseFrames payload version ≠ .error .panicked ∧
      parseFrames payload version ≠ .error .unfinished ∧
      ∀ frames, parseFrames payload version = .ok frames ↔ Encodes version frames payload :=
  ⟨(parseFrames_meets payload version).not_panicked,
    (parseFrames_meets payload version).not_unfinished,
    fun _ => ⟨(parseFrames_meets payload version).of_ok, parseFrames_of_encodes⟩⟩

end Loop

/-! ### Reading a tag -/

/-- The frames of the tag that the data begins with, the tag's version, and where it ends. -/
def readFrames (data : List UInt8) : Checked Failure (List Frame × UInt8 × ℕ) := do
  if data.length < headerSizeBytes then fail (invalid "read ID3 header: unexpected EOF")
  else
    let (version, size) ← parseHeader (data.take headerSizeBytes)
    if data.length - headerSizeBytes < size then
      fail (invalid "read ID3 payload: unexpected EOF")
    else
      let frames ← parseFrames ((data.drop headerSizeBytes).take size) version
      .ok (frames, version, headerSizeBytes + size)

/-- The header of a tag whose payload has the size. -/
def encodeHeader (version : UInt8) (size : ℕ) : List UInt8 :=
  signature ++ [version, 0, 0] ++ toSyncSafe size

theorem parseHeader_ten (a b c version revision flags : UInt8) (size : List UInt8)
    (hsize : size.length = 4) :
    parseHeader (a :: b :: c :: version :: revision :: flags :: size) =
      if [a, b, c] ≠ signature then fail (invalid "ID3v2 tag is required")
      else if version < 2 ∨ 4 < version ∨ revision ≠ 0 then
        fail (invalid s!"unsupported ID3v2 version {version}.{revision}")
      else if flags ≠ 0 then
        fail (invalid "ID3 tag flags are not supported by the Strict Import Profile")
      else
        match decodeSyncSafe size with
        | some size =>
          if 0 < size ∧ size ≤ maxTagSizeBytes then .ok (version, size)
          else fail (invalid "ID3 tag size is invalid")
        | none => fail (invalid "ID3 tag size is invalid") := by
  have hlength : (a :: b :: c :: version :: revision :: flags :: size).length = 10 := by
    simp only [List.length_cons, hsize]
  have htail : ((a :: b :: c :: version :: revision :: flags :: size).drop 6).take (10 - 6) =
      size :=
    List.take_of_length_le (Nat.le_of_eq hsize)
  rw [parseHeader, if_neg (by rw [hlength]; decide), slice_of_le (by omega) (by omega),
    slice_of_le (by omega) (by omega), htail, index_of_getElem? (b := version) rfl,
    index_of_getElem? (b := revision) rfl, index_of_getElem? (b := flags) rfl]
  rfl

/-- A header is read where it is that of a version and a size in range. -/
theorem parseHeader_meets {header : List UInt8} (h : header.length = headerSizeBytes) :
    Meets (fun read => 2 ≤ read.1 ∧ read.1 ≤ 4 ∧ 0 < read.2 ∧ read.2 ≤ maxTagSizeBytes ∧
      header = encodeHeader read.1 read.2) (parseHeader header) := by
  match header, h with
  | a :: b :: c :: version :: revision :: flags :: size, h =>
    have hsize : size.length = 4 := by
      simp only [headerSizeBytes, List.length_cons] at h
      omega
    rw [parseHeader_ten a b c version revision flags size hsize]
    apply Meets.ite
    · intro _
      exact Meets.fail _
    · intro hsignature
      apply Meets.ite
      · intro _
        exact Meets.fail _
      · intro hversion
        apply Meets.ite
        · intro _
          exact Meets.fail _
        · intro hflags
          cases hread : decodeSyncSafe size with
          | none => exact Meets.fail _
          | some n =>
            apply Meets.ite
            · intro hrange
              simp only [not_or, not_not, UInt8.not_lt] at hsignature hversion hflags
              obtain ⟨-, rfl⟩ := decodeSyncSafe_eq_some.mp hread
              refine Meets.ok ⟨hversion.1, hversion.2.1, hrange.1, hrange.2, ?_⟩
              rw [encodeHeader, ← hsignature, hversion.2.2, hflags]
              rfl
            · intro _
              exact Meets.fail _

theorem parseHeader_encodeHeader (hlow : 2 ≤ version) (hhigh : version ≤ 4) (hpos : 0 < size)
    (hmax : size ≤ maxTagSizeBytes) :
    parseHeader (encodeHeader version size) = .ok (version, size) := by
  have hbound : size < 2 ^ 28 := Nat.lt_of_le_of_lt hmax (by decide)
  have hten := parseHeader_ten 0x49 0x44 0x33 version 0 0 (toSyncSafe size) rfl
  rw [decodeSyncSafe_eq_some.mpr ⟨hbound, rfl⟩] at hten
  have hversion : ¬(version < 2 ∨ 4 < version ∨ (0 : UInt8) ≠ 0) := by
    simp only [not_or, UInt8.not_lt, not_not]
    exact ⟨hlow, hhigh, trivial⟩
  rw [encodeHeader]
  refine hten.trans ?_
  rw [if_neg (show ¬[0x49, 0x44, 0x33] ≠ signature by decide), if_neg hversion,
    if_neg (show ¬(0 : UInt8) ≠ 0 by decide)]
  simp only [hpos, hmax, and_self, if_true]

/-- A tag at the front of the data: its header, and a payload of the size in it that holds the
frames. -/
structure IsTag (data : List UInt8) (frames : List Frame) (version : UInt8) (size : ℕ) : Prop where
  version_ge : 2 ≤ version
  version_le : version ≤ 4
  size_pos : 0 < size
  size_le : size ≤ maxTagSizeBytes
  fits : headerSizeBytes + size ≤ data.length
  header : data.take headerSizeBytes = encodeHeader version size
  payload : Encodes version frames ((data.drop headerSizeBytes).take size)

theorem readFrames_meets (data : List UInt8) :
    Meets (fun read => ∃ size, IsTag data read.1 read.2.1 size ∧ read.2.2 = headerSizeBytes + size)
      (readFrames data) := by
  rw [readFrames]
  apply Meets.ite
  · intro _
    exact Meets.fail _
  · intro hheader
    have hlength : (data.take headerSizeBytes).length = headerSizeBytes := by
      rw [List.length_take]
      omega
    apply (parseHeader_meets hlength).bind
    rintro ⟨version, size⟩ ⟨hlow, hhigh, hpos, hmax, hencoded⟩
    apply Meets.ite
    · intro _
      exact Meets.fail _
    · intro hfits
      apply (parseFrames_meets _ _).bind
      intro frames hframes
      exact Meets.ok ⟨size, ⟨hlow, hhigh, hpos, hmax, by omega, hencoded, hframes⟩, rfl⟩

end Id3

end Harmony.Inspect
