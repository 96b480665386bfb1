/-
# Texts in ID3 frames

A text is written in one of four encodings, the second of which puts a byte order mark before
it, and is read back from any of them. A described field ends at the first terminator that
stands at a unit of its encoding. Credits that are written one after another come back through
a described frame; a text frame keeps the marks and the terminator between and behind them.
-/

import Harmony.Inspect.Id3Values
import Harmony.Inspect.Normalized

namespace Harmony.Inspect.Id3

/-! ### Encodings -/

inductive Encoding
  | latin1
  | utf16
  | utf16be
  | utf8
  deriving DecidableEq

def Encoding.byte : Encoding → UInt8
  | .latin1 => Id3.latin1
  | .utf16 => Id3.utf16
  | .utf16be => Id3.utf16be
  | .utf8 => Id3.utf8

/-- The order of the two bytes of a unit. -/
inductive Order
  | little
  | big
  deriving DecidableEq

def unitBytes : Order → ℕ → List UInt8
  | .little, unit => ByteOrder.toLe 2 unit
  | .big, unit => ByteOrder.toBe 2 unit

/-- The bytes of the characters alone. -/
def rawBytes (encoding : Encoding) (order : Order) (text : List Char) : List UInt8 :=
  match encoding with
  | .latin1 => text.map fun c => UInt8.ofNat c.toNat
  | .utf16 => (Utf16.encode text).flatMap (unitBytes order)
  | .utf16be => (Utf16.encode text).flatMap (unitBytes .big)
  | .utf8 => Utf8.encode text

/-- The text with the mark that its encoding asks for. -/
def marked (encoding : Encoding) (text : List Char) : List Char :=
  if encoding = .utf16 then byteOrderMark :: text else text

def encodeText (encoding : Encoding) (order : Order) (text : List Char) : List UInt8 :=
  rawBytes encoding order (marked encoding text)

/-- Only the first encoding has too few bytes for some characters. -/
def CanHold (encoding : Encoding) (text : List Char) : Prop :=
  encoding = .latin1 → ∀ c ∈ text, c.toNat < 256

/-- How many bytes a unit has. -/
def unitSize (encoding : UInt8) : ℕ := if wide encoding then 2 else 1

def terminator (encoding : UInt8) : List UInt8 := List.replicate (unitSize encoding) 0

theorem length_terminator (encoding : UInt8) : (terminator encoding).length = unitSize encoding :=
  List.length_replicate

theorem length_unitBytes (order : Order) (unit : ℕ) : (unitBytes order unit).length = 2 := by
  cases order with
  | little => exact ByteOrder.length_toLe 2 unit
  | big => exact ByteOrder.length_toBe 2 unit

/-- A unit is read back from its bytes. -/
theorem units_cons (order : Order) {unit : ℕ} (h : unit < 2 ^ 16) (rest : List UInt8) :
    units (order = .little) (unitBytes order unit ++ rest) =
      unit :: units (order = .little) rest := by
  obtain ⟨first, second, hbytes⟩ := List.length_eq_two.mp (length_unitBytes order unit)
  rw [hbytes, List.cons_append, List.singleton_append, units, ← hbytes]
  congr 1
  cases order with
  | little =>
    have hunit : unit < 256 ^ 2 := h
    exact ByteOrder.ofLe_toLe hunit
  | big =>
    have hunit : unit < 256 ^ 2 := h
    exact ByteOrder.ofBe_toBe hunit

theorem units_flatMap (order : Order) {written : List ℕ} (h : ∀ unit ∈ written, unit < 2 ^ 16) :
    units (order = .little) (written.flatMap (unitBytes order)) = written := by
  induction written with
  | nil => rfl
  | cons unit written ih =>
    rw [List.forall_mem_cons] at h
    rw [List.flatMap_cons, units_cons order h.1, ih h.2]

theorem length_flatMap_unitBytes (order : Order) (written : List ℕ) :
    (written.flatMap (unitBytes order)).length = 2 * written.length := by
  induction written with
  | nil => rfl
  | cons unit written ih =>
    rw [List.flatMap_cons, List.length_append, length_unitBytes, ih, List.length_cons]
    omega

theorem decodeUnits_encode (order : Order) (text : List Char) :
    decodeUnits (order = .little) ((Utf16.encode text).flatMap (unitBytes order)) = .ok text := by
  have heven : ((Utf16.encode text).flatMap (unitBytes order)).length % 2 = 0 := by
    rw [length_flatMap_unitBytes, Nat.mul_mod_right]
  rw [decodeUnits, if_neg (not_not_intro heven), units_flatMap order (Utf16.unit_lt text),
    Utf16.decodeLossy_encode]

/-- The mark tells the order of the units behind it. -/
theorem decodeUtf16_marked (order : Order) (text : List Char) :
    decodeUtf16 ((Utf16.encode (byteOrderMark :: text)).flatMap (unitBytes order)) true =
      .ok text := by
  have hmark : Utf16.encode (byteOrderMark :: text) = 0xfeff :: Utf16.encode text := rfl
  rw [hmark, List.flatMap_cons]
  cases order with
  | little =>
    have hbytes : unitBytes .little 0xfeff = [0xff, 0xfe] := by decide
    rw [hbytes]
    exact decodeUnits_encode .little text
  | big =>
    have hbytes : unitBytes .big 0xfeff = [0xfe, 0xff] := by decide
    rw [hbytes]
    exact decodeUnits_encode .big text

variable {text : List Char}

/-- Every text is read back from each encoding that can hold it. -/
theorem decodeText_encodeText (encoding : Encoding) (order : Order) (h : CanHold encoding text) :
    decodeText encoding.byte (encodeText encoding order text) = .ok text := by
  cases encoding with
  | latin1 =>
    have hback : text.map (fun c => Char.ofNat (UInt8.ofNat c.toNat).toNat) = text.map id := by
      apply List.map_congr_left
      intro c hc
      rw [UInt8.toNat_ofNat', Nat.mod_eq_of_lt (h rfl c hc), Char.ofNat_toNat]
      rfl
    change Except.ok ((text.map fun c => UInt8.ofNat c.toNat).map fun byte => Char.ofNat byte.toNat)
      = .ok text
    rw [List.map_map]
    exact congrArg Except.ok (hback.trans (List.map_id text))
  | utf16 => exact decodeUtf16_marked order text
  | utf16be => exact decodeUnits_encode .big text
  | utf8 =>
    have hback : Utf8.decode (encodeText .utf8 order text) = some text := Utf8.decode_encode text
    have hbyte : Encoding.utf8.byte = utf8 := rfl
    rw [decodeText, if_neg (by decide), if_neg (by decide), if_neg (by decide), if_pos hbyte, hback]

theorem rawBytes_append (encoding : Encoding) (order : Order) (first second : List Char) :
    rawBytes encoding order (first ++ second) =
      rawBytes encoding order first ++ rawBytes encoding order second := by
  cases encoding with
  | latin1 => exact List.map_append
  | utf16 => exact (congrArg _ (Utf16.encode_append first second)).trans List.flatMap_append
  | utf16be => exact (congrArg _ (Utf16.encode_append first second)).trans List.flatMap_append
  | utf8 => exact Utf8.encode_append first second

/-- A terminator is the character zero. -/
theorem rawBytes_null (encoding : Encoding) (order : Order) :
    rawBytes encoding order ['\x00'] = terminator encoding.byte := by
  cases encoding with
  | latin1 => rfl
  | utf16 =>
    cases order with
    | little => rfl
    | big => rfl
  | utf16be => rfl
  | utf8 =>
    have hbytes : Utf8.encode ['\x00'] = [0] := by decide
    exact hbytes

/-! ### The first terminator -/

/-- The bytes have no terminator at any of their units, and end where a unit does. -/
structure IsField (encoding : UInt8) (field : List UInt8) : Prop where
  whole : field.length % unitSize encoding = 0
  unbroken : ∀ offset, offset % unitSize encoding = 0 → offset < field.length →
    ¬terminator encoding <+: field.drop offset

variable {data : List UInt8}

theorem pair_prefix_iff {offset : ℕ} :
    [0, 0] <+: data.drop offset ↔ data[offset]? = some 0 ∧ data[offset + 1]? = some 0 := by
  rw [List.prefix_iff_getElem?]
  simp only [List.getElem?_drop, List.length_cons, List.length_nil]
  constructor
  · intro h
    exact ⟨h 0 (by omega), h 1 (by omega)⟩
  · intro h i hi
    match i, hi with
    | 0, _ => exact h.1
    | 1, _ => exact h.2

theorem single_prefix_iff {offset : ℕ} :
    [0] <+: data.drop offset ↔ data[offset]? = some 0 := by
  rw [List.prefix_iff_getElem?]
  simp only [List.getElem?_drop, List.length_cons, List.length_nil]
  constructor
  · intro h
    exact h 0 (by omega)
  · intro h i hi
    match i, hi with
    | 0, _ => exact h

theorem unitSize_pos (encoding : UInt8) : 0 < unitSize encoding := by
  rw [unitSize]
  split_ifs
  · exact Nat.two_pos
  · exact Nat.one_pos

theorem findPair_eq_some_iff {separator : ℕ} :
    findPair data = some separator ↔
      (separator % 2 = 0 ∧ [0, 0] <+: data.drop separator) ∧
        ∀ offset, offset % 2 = 0 → offset < separator → ¬[0, 0] <+: data.drop offset := by
  rw [findPair, List.find?_range_eq_some]
  simp only [decide_eq_true_eq, Bool.not_eq_true', decide_eq_false_iff_not, List.mem_range,
    ← pair_prefix_iff]
  constructor
  · rintro ⟨hfound, hlt, hfirst⟩
    refine ⟨hfound, ?_⟩
    intro offset heven hoffset hzero
    exact hfirst offset hoffset ⟨heven, hzero⟩
  · rintro ⟨hfound, hfirst⟩
    have hlength := hfound.2.length_le
    rw [List.length_drop] at hlength
    refine ⟨hfound, Nat.lt_sub_of_add_lt ?_, ?_⟩
    · simp only [List.length_cons, List.length_nil] at hlength
      omega
    · intro offset hoffset hzero
      exact hfirst offset hzero.1 hoffset hzero.2

variable {encoding : UInt8}

/-- The separator found is the first terminator that stands at a unit. -/
theorem findSeparator_eq_some_iff {separator : ℕ} :
    findSeparator encoding data = some separator ↔
      (separator % unitSize encoding = 0 ∧ terminator encoding <+: data.drop separator) ∧
        ∀ offset, offset % unitSize encoding = 0 → offset < separator →
          ¬terminator encoding <+: data.drop offset := by
  rw [findSeparator, terminator, unitSize]
  by_cases hwide : wide encoding = true
  · rw [if_pos hwide, if_pos hwide]
    exact findPair_eq_some_iff
  · rw [if_neg hwide, if_neg hwide, List.findIdx?_eq_some_iff_getElem]
    change _ ↔ (_ ∧ [0] <+: _) ∧ ∀ offset, _ → _ → ¬[0] <+: _
    simp only [single_prefix_iff, Nat.mod_one, true_and, forall_const, decide_eq_true_eq,
      List.getElem?_eq_some_iff]
    constructor
    · rintro ⟨hlt, hzero, hfirst⟩
      refine ⟨⟨hlt, hzero⟩, ?_⟩
      rintro offset hoffset ⟨hlt', hzero'⟩
      exact hfirst offset hoffset hzero'
    · rintro ⟨⟨hlt, hzero⟩, hfirst⟩
      refine ⟨hlt, hzero, ?_⟩
      intro offset hoffset hzero'
      exact hfirst offset hoffset ⟨Nat.lt_trans hoffset hlt, hzero'⟩

/-- Whether a terminator stands at a unit of the field is decided inside the field. -/
theorem terminator_prefix_take_iff {separator offset : ℕ}
    (hwhole : separator % unitSize encoding = 0) (hunit : offset % unitSize encoding = 0)
    (hlt : offset < separator) :
    terminator encoding <+: (data.take separator).drop offset ↔
      terminator encoding <+: data.drop offset := by
  have hroom : unitSize encoding ≤ separator - offset := by
    have hdvd : unitSize encoding ∣ separator - offset :=
      Nat.dvd_sub (Nat.dvd_of_mod_eq_zero hwhole) (Nat.dvd_of_mod_eq_zero hunit)
    exact Nat.le_of_dvd (Nat.sub_pos_of_lt hlt) hdvd
  rw [List.drop_take, List.prefix_take_iff, length_terminator]
  exact and_iff_left hroom

/-- What stands before the separator is a field, and what stands behind it is the rest. -/
theorem isField_of_findSeparator {separator : ℕ} (h : findSeparator encoding data = some separator)
    :
    IsField encoding (data.take separator) ∧
      data = data.take separator ++ terminator encoding ++
        data.drop (separator + unitSize encoding) := by
  obtain ⟨⟨hunit, hzero⟩, hfirst⟩ := findSeparator_eq_some_iff.mp h
  obtain ⟨tail, htail⟩ := hzero
  have hle : separator ≤ data.length := by
    have hlength := congrArg List.length htail
    have hpos := unitSize_pos encoding
    rw [List.length_append, length_terminator, List.length_drop] at hlength
    omega
  have hlength : (data.take separator).length = separator := List.length_take_of_le hle
  refine ⟨⟨?_, ?_⟩, ?_⟩
  · rw [hlength]
    exact hunit
  · intro offset hoffset hlt
    rw [hlength] at hlt
    rw [terminator_prefix_take_iff hunit hoffset hlt]
    exact hfirst offset hoffset hlt
  · have hrest : data.drop (separator + unitSize encoding) = tail := by
      rw [← List.drop_drop, ← htail, ← length_terminator, List.drop_left]
    rw [hrest, List.append_assoc, htail, List.take_append_drop]

theorem IsField.findSeparator {field : List UInt8} (h : IsField encoding field) (rest : List UInt8)
    :
    findSeparator encoding (field ++ terminator encoding ++ rest) = some field.length := by
  have htake : (field ++ terminator encoding ++ rest).take field.length = field := by
    rw [List.append_assoc, List.take_left]
  rw [findSeparator_eq_some_iff]
  refine ⟨⟨h.whole, rest, ?_⟩, ?_⟩
  · rw [List.append_assoc, List.drop_left]
  · intro offset hunit hlt
    rw [← terminator_prefix_take_iff h.whole hunit hlt, htake]
    exact h.unbroken offset hunit hlt

/-- A field is split off where the first terminator at a unit follows it, and nowhere else. -/
theorem splitEncodedField_eq_ok_iff {data rest : List UInt8} {value : List Char} :
    splitEncodedField encoding data = .ok (value, rest) ↔
      ∃ field, IsField encoding field ∧ data = field ++ terminator encoding ++ rest ∧
        decodeText encoding field = .ok value := by
  constructor
  · intro h
    rw [splitEncodedField] at h
    cases hfind : findSeparator encoding data with
    | none =>
      rw [hfind] at h
      cases h
    | some separator =>
      rw [hfind] at h
      obtain ⟨hfield, hdata⟩ := isField_of_findSeparator hfind
      obtain ⟨text, htext, hrest⟩ := Traversal.bind_eq_ok.mp h
      cases hrest
      exact ⟨data.take separator, hfield, hdata, htext⟩
  · rintro ⟨field, hfield, rfl, htext⟩
    have htake : (field ++ terminator encoding ++ rest).take field.length = field := by
      rw [List.append_assoc, List.take_left]
    have hdrop : (field ++ terminator encoding ++ rest).drop (field.length + unitSize encoding) =
        rest := by
      rw [← length_terminator, ← List.length_append, List.drop_left]
    rw [splitEncodedField, hfield.findSeparator rest]
    apply Traversal.bind_eq_ok.mpr
    refine ⟨value, ?_, ?_⟩
    · rw [htake]
      exact htext
    · exact congrArg (fun rest => Except.ok (value, rest)) hdrop

/-! ### Fields of a text -/

theorem isField_of_zero_notMem {field : List UInt8} (hnarrow : wide encoding = false)
    (h : 0 ∉ field) : IsField encoding field := by
  have hsize : unitSize encoding = 1 := by rw [unitSize, hnarrow]; rfl
  constructor
  · rw [hsize, Nat.mod_one]
  · intro offset _ _ hzero
    rw [terminator, hsize] at hzero
    exact h (List.mem_of_getElem? (single_prefix_iff.mp hzero))

/-- Units that are not zero have no terminator among them, whatever their bytes are. -/
theorem isField_flatMap (order : Order) {written : List ℕ} (hwide : wide encoding = true)
    (hlt : ∀ unit ∈ written, unit < 2 ^ 16) (h : ∀ unit ∈ written, unit ≠ 0) :
    IsField encoding (written.flatMap (unitBytes order)) := by
  have hsize : unitSize encoding = 2 := by rw [unitSize, hwide]; rfl
  constructor
  · rw [hsize, length_flatMap_unitBytes, Nat.mul_mod_right]
  · rw [terminator, hsize]
    intro offset heven hoffset
    change ¬[0, 0] <+: _
    induction written generalizing offset with
    | nil => exact absurd hoffset (Nat.not_lt_zero _)
    | cons unit written ih =>
      rw [List.forall_mem_cons] at hlt h
      rw [List.flatMap_cons]
      rw [List.flatMap_cons, List.length_append, length_unitBytes] at hoffset
      cases offset with
      | zero =>
        intro hzero
        rw [List.drop_zero] at hzero
        have hbytes : [0, 0] = unitBytes order unit :=
          List.IsPrefix.eq_of_length
            (List.prefix_of_prefix_length_le hzero (List.prefix_append _ _)
              (Nat.le_of_eq (length_unitBytes order unit).symm))
            (length_unitBytes order unit).symm
        have hunit := units_cons order hlt.1 []
        rw [← hbytes] at hunit
        have hread : (if decide (order = .little) = true then ByteOrder.ofLe [0, 0]
            else ByteOrder.ofBe [0, 0]) = unit := (List.cons.inj hunit).1
        split_ifs at hread
        all_goals exact h.1 hread.symm
      | succ offset =>
        have hskip : (unitBytes order unit ++ written.flatMap (unitBytes order)).drop (offset + 1) =
            (written.flatMap (unitBytes order)).drop (offset - 1) := by
          rw [List.drop_append, length_unitBytes, List.drop_of_length_le, List.nil_append]
          · rfl
          · rw [length_unitBytes]
            omega
        rw [hskip]
        apply ih hlt.2 h.2
        · omega
        · omega

theorem null_notMem_marked (encoding : Encoding) (h : '\x00' ∉ text) :
    '\x00' ∉ marked encoding text := by
  rw [marked]
  split_ifs
  · rw [List.mem_cons, not_or]
    exact ⟨by decide, h⟩
  · exact h

/-- No character but zero ends the field of a text, even where its bytes have a zero. -/
theorem isField_encodeText (encoding : Encoding) (order : Order) (hnull : '\x00' ∉ text)
    (h : CanHold encoding text) :
    IsField encoding.byte (encodeText encoding order text) := by
  have hmarked := null_notMem_marked encoding hnull
  cases encoding with
  | latin1 =>
    apply isField_of_zero_notMem rfl
    intro hzero
    obtain ⟨c, hc, hbyte⟩ := List.mem_map.mp hzero
    have hnat := congrArg UInt8.toNat hbyte
    rw [UInt8.toNat_ofNat', Nat.mod_eq_of_lt (h rfl c hc)] at hnat
    have hchar : c = '\x00' := Char.toNat_inj.mp hnat
    exact hnull (hchar ▸ hc)
  | utf16 =>
    exact isField_flatMap order rfl (Utf16.unit_lt _) (Utf16.unit_ne_zero hmarked)
  | utf16be =>
    exact isField_flatMap .big rfl (Utf16.unit_lt _) (Utf16.unit_ne_zero hmarked)
  | utf8 =>
    apply isField_of_zero_notMem rfl
    intro hzero
    have hchar : '\x00'.toNat < 0x80 := by decide
    exact hnull ((Utf8.mem_encode_iff hchar text).mp hzero)

end Harmony.Inspect.Id3
