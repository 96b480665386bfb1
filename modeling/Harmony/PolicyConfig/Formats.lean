/-
# Wave formats and their saved text

A format is the bytes of a `WAVEFORMATEX` and of the extension that its `cbSize` counts.
Another rate changes eight bytes of the header, and the hexadecimal text that is saved
reads back as the format it was written from.
-/

import Mathlib.Data.List.Basic
import Mathlib.Algebra.Group.Nat.Defs

namespace Harmony.PolicyConfig

/-! ### The header -/

/-- The size of a `WAVEFORMATEX`. -/
def headerSize : ℕ := 18

/-- The little-endian number at a place of the header. -/
def readU16 (bytes : List UInt8) (offset : ℕ) : ℕ :=
  (bytes.getD offset 0).toNat + 256 * (bytes.getD (offset + 1) 0).toNat

def readU32 (bytes : List UInt8) (offset : ℕ) : ℕ :=
  readU16 bytes offset + 65536 * readU16 bytes (offset + 2)

def writeU32 (n : ℕ) : List UInt8 :=
  [UInt8.ofNat n, UInt8.ofNat (n / 256), UInt8.ofNat (n / 65536), UInt8.ofNat (n / 16777216)]

def cbSize (bytes : List UInt8) : ℕ := readU16 bytes 16

/-- Whole: the header and as many bytes as it says follow. -/
def IsWhole (bytes : List UInt8) : Prop := bytes.length = headerSize + cbSize bytes

instance (bytes : List UInt8) : Decidable (IsWhole bytes) := inferInstanceAs (Decidable (_ = _))

structure WaveFormat where
  bytes : List UInt8
  whole : IsWhole bytes
  deriving DecidableEq

/-- The bytes with another rate; the byte rate follows, in 32 bits. -/
def rateBytes (bytes : List UInt8) (rateHz : UInt32) : List UInt8 :=
  bytes.take 4 ++ writeU32 rateHz.toNat ++
    writeU32 (rateHz.toNat * readU16 bytes 12 % 2 ^ 32) ++ bytes.drop 12

theorem rateBytes_getD {bytes : List UInt8} (rateHz : UInt32) {offset : ℕ}
    (hlength : 12 ≤ bytes.length) (hoffset : 12 ≤ offset) :
    (rateBytes bytes rateHz).getD offset 0 = bytes.getD offset 0 := by
  have hhead : (bytes.take 4 ++ writeU32 rateHz.toNat ++
      writeU32 (rateHz.toNat * readU16 bytes 12 % 2 ^ 32)).length = 12 := by
    simp [writeU32]
    omega
  have hindex : 12 + (offset - 12) = offset := by omega
  rw [rateBytes, List.getD_eq_getElem?_getD, List.getElem?_append_right (by omega), hhead,
    List.getElem?_drop, hindex, List.getD_eq_getElem?_getD]

theorem isWhole_rateBytes {bytes : List UInt8} (rateHz : UInt32) (h : IsWhole bytes) :
    IsWhole (rateBytes bytes rateHz) := by
  have hlength : headerSize ≤ bytes.length := by
    rw [h]
    exact Nat.le_add_right _ _
  rw [headerSize] at hlength
  have hsame : cbSize (rateBytes bytes rateHz) = cbSize bytes := by
    rw [cbSize, cbSize, readU16, readU16, rateBytes_getD rateHz (by omega) (by omega),
      rateBytes_getD rateHz (by omega) (by omega)]
  rw [IsWhole, hsame, ← h, rateBytes]
  simp [writeU32]
  omega

def WaveFormat.sampleRateHz (format : WaveFormat) : ℕ := readU32 format.bytes 4

/-- The same format at another rate. -/
def WaveFormat.withSampleRate (format : WaveFormat) (rateHz : UInt32) : WaveFormat :=
  ⟨rateBytes format.bytes rateHz, isWhole_rateBytes rateHz format.whole⟩

/-! ### The saved text -/

def hexDigit (n : ℕ) : Char := if n < 10 then Char.ofNat (48 + n) else Char.ofNat (87 + n)

def hexValue (c : Char) : Option ℕ :=
  if '0' ≤ c ∧ c ≤ '9' then some (c.toNat - 48)
  else if 'a' ≤ c ∧ c ≤ 'f' then some (c.toNat - 87)
  else if 'A' ≤ c ∧ c ≤ 'F' then some (c.toNat - 55)
  else none

/-- The byte that two characters write; a sign may stand for the first digit. -/
def parseByte (first second : Char) : Option UInt8 :=
  if first = '+' then (hexValue second).map UInt8.ofNat
  else do
    let high ← hexValue first
    let low ← hexValue second
    pure (UInt8.ofNat (16 * high + low))

def writeByte (byte : UInt8) : List Char := [hexDigit (byte.toNat / 16), hexDigit (byte.toNat % 16)]

/-- Nothing where the text has a character left over or one that is no digit. -/
def parseBytes : List Char → Option (List UInt8)
  | [] => some []
  | [_] => none
  | first :: second :: rest => do
    let byte ← parseByte first second
    let bytes ← parseBytes rest
    pure (byte :: bytes)

def WaveFormat.toHex (format : WaveFormat) : String :=
  String.ofList (format.bytes.flatMap writeByte)

def WaveFormat.fromHex (text : String) : Option WaveFormat :=
  (parseBytes text.toList).bind fun bytes => if h : IsWhole bytes then some ⟨bytes, h⟩ else none

theorem parseByte_hexDigit : ∀ n < 256,
    parseByte (hexDigit (n / 16)) (hexDigit (n % 16)) = some (UInt8.ofNat n) := by
  decide +kernel

theorem parseBytes_writeByte (bytes : List UInt8) :
    parseBytes (bytes.flatMap writeByte) = some bytes := by
  induction bytes with
  | nil => rfl
  | cons byte bytes ih =>
    have hbyte : parseByte (hexDigit (byte.toNat / 16)) (hexDigit (byte.toNat % 16)) =
        some byte := by
      rw [parseByte_hexDigit byte.toNat byte.toNat_lt, UInt8.ofNat_toNat]
    rw [List.flatMap_cons, writeByte, List.cons_append, List.cons_append, List.nil_append,
      parseBytes, hbyte, ih]
    rfl

@[simp] theorem WaveFormat.fromHex_toHex (format : WaveFormat) :
    fromHex format.toHex = some format := by
  rw [fromHex, toHex, String.toList_ofList, parseBytes_writeByte, Option.bind_some,
    dif_pos format.whole]

/-! ### Saved endpoints -/

structure Formats where
  device : WaveFormat
  mix : WaveFormat
  deriving DecidableEq

def Formats.withSampleRate (formats : Formats) (rateHz : UInt32) : Formats :=
  ⟨formats.device.withSampleRate rateHz, formats.mix.withSampleRate rateHz⟩

structure SavedFormats where
  deviceId : String
  deviceFormat : String
  mixFormat : String
  deriving DecidableEq

/-- The endpoint and the formats it had before Adaptive changed it. -/
structure OriginalFormats where
  deviceId : String
  formats : Formats
  deriving DecidableEq

def OriginalFormats.fromSaved (saved : SavedFormats) : Option OriginalFormats := do
  let device ← WaveFormat.fromHex saved.deviceFormat
  let mix ← WaveFormat.fromHex saved.mixFormat
  pure ⟨saved.deviceId, device, mix⟩

def OriginalFormats.toSaved (original : OriginalFormats) : SavedFormats :=
  ⟨original.deviceId, original.formats.device.toHex, original.formats.mix.toHex⟩

@[simp] theorem OriginalFormats.fromSaved_toSaved (original : OriginalFormats) :
    fromSaved original.toSaved = some original := by
  rw [fromSaved, toSaved]
  simp only [WaveFormat.fromHex_toHex, Option.bind_eq_bind, Option.bind_some, Option.pure_def]

end Harmony.PolicyConfig
