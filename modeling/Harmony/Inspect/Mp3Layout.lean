/-
# The layout of an MP3 file

What the inspection of a file accepts is the ID3v2 tag, frames one after another, each of the
size in its own header, an APEv2 tag where one is found, and an ID3v1 block where one is found,
and no other byte. It holds exactly where the ID3v1 block does not begin inside the ID3v2 tag:
the space for an APEv2 tag is there computed by a subtraction that underflows.
-/

import Harmony.Inspect.Mp3

namespace Harmony.Inspect.Mp3

open Checked Spans

/-! ### Frame headers -/

/-- The smallest frame is of the lowest bit rate and the highest sample rate. -/
theorem le_frameSize {version : MpegVersion} {bitrateIndex sampleRateIndex base bitrate : ℕ}
    (hversion : version ≠ .reserved) (hbitrate : 0 < bitrateIndex)
    (hbase : baseSampleRates[sampleRateIndex]? = some base)
    (hrate : (if version = .mpeg1 then mpeg1Bitrates else mpeg2Bitrates)[bitrateIndex]? =
      some bitrate) :
    24 ≤ (if version = .mpeg1 then 144 else 72) * bitrate * 1000 / version.rate base := by
  have hindex : sampleRateIndex < 3 := (List.getElem?_eq_some_iff.mp hbase).1
  have hlength : (if version = .mpeg1 then mpeg1Bitrates else mpeg2Bitrates).length = 15 := by
    split_ifs
    · rfl
    · rfl
  have hindex' : bitrateIndex < 15 := by
    have hlt := (List.getElem?_eq_some_iff.mp hrate).1
    omega
  have hall : ∀ version ∈ [MpegVersion.mpeg25, .mpeg2, .mpeg1], ∀ i < 3, ∀ j < 15, 0 < j →
      24 ≤ (if version = .mpeg1 then 144 else 72) *
        ((if version = .mpeg1 then mpeg1Bitrates else mpeg2Bitrates)[j]?.getD 0) * 1000 /
          version.rate (baseSampleRates[i]?.getD 0) := by decide +kernel
  have hmem : version ∈ [MpegVersion.mpeg25, .mpeg2, .mpeg1] := by
    cases version with
    | reserved => exact absurd rfl hversion
    | mpeg25 => decide
    | mpeg2 => decide
    | mpeg1 => decide
  have hsize := hall version hmem sampleRateIndex hindex bitrateIndex hindex' hbitrate
  rwa [hbase, hrate] at hsize

theorem index_meets {α : Type} {data : List α} {i : ℕ} (h : i < data.length) :
    Meets (fun value => data[i]? = some value) (index data i : Checked Failure α) := by
  have hget : data[i]? = some data[i] := List.getElem?_eq_getElem h
  rw [index_of_getElem? hget]
  exact hget

/-- Reading a header looks nothing up outside the tables, and a frame is longer than its header. -/
theorem parseFrameHeader_meets (data : List UInt8) :
    Meets (fun read => ∀ header, read = some header → 24 ≤ header.frameSize)
      (parseFrameHeader data) := by
  rw [parseFrameHeader]
  apply Meets.ite
  · intro _
    exact nofun
  · intro hvalid
    simp only [not_or] at hvalid
    obtain ⟨-, hversion, -, hbitrate, hbitrate', hrate⟩ := hvalid
    have hindex : ByteOrder.ofBe data / 2 ^ 10 % 4 < baseSampleRates.length := by
      have hlt := Nat.mod_lt (ByteOrder.ofBe data / 2 ^ 10) (by decide : 0 < 4)
      have hlength : baseSampleRates.length = 3 := rfl
      omega
    apply (index_meets hindex).bind
    intro base hbase
    have hindex' : ByteOrder.ofBe data / 2 ^ 12 % 16 <
        (if MpegVersion.ofBits (ByteOrder.ofBe data / 2 ^ 19 % 4) = .mpeg1 then mpeg1Bitrates
          else mpeg2Bitrates).length := by
      have hlt := Nat.mod_lt (ByteOrder.ofBe data / 2 ^ 12) (by decide : 0 < 16)
      have hlength : mpeg1Bitrates.length = 15 := rfl
      have hlength' : mpeg2Bitrates.length = 15 := rfl
      split_ifs
      · omega
      · omega
    apply (index_meets hindex').bind
    intro bitrate hbitrate
    rintro header ⟨⟩
    have hsize := le_frameSize hversion (by omega) hbase hbitrate
    simp only
    omega

/-! ### APEv2 tags -/

/-- The number in four bytes. -/
def wordAt (data : List UInt8) (start : ℕ) : ℕ := ByteOrder.ofLe (cut data start (start + 4))

variable {data : List UInt8}

theorem word_eq {start : ℕ} (h : start + 4 ≤ data.length) :
    word data start = .ok (wordAt data start) := by
  rw [word, slice_of_le (Nat.le_add_right start 4) h, ok_bind]
  rfl

theorem wordAt_cut {start stop offset : ℕ} (h : start + (offset + 4) ≤ stop) :
    wordAt (cut data start stop) offset = wordAt data (start + offset) := by
  rw [wordAt, wordAt, cut_cut h, Nat.add_assoc]

def flagsAt (data : List UInt8) (start : ℕ) : UInt32 := UInt32.ofNat (wordAt data start)

/-- The 32 bytes that begin or end an APEv2 tag. -/
structure IsDescriptor (data : List UInt8) (isHeader : Bool) : Prop where
  length : data.length = apev2DescriptorSize
  signature : data.take 8 = apev2Signature
  version : wordAt data 8 = 2000
  flags : flagsAt data 20 &&& ~~~(apev2HasHeader ||| apev2IsHeader ||| apev2ItemFlags) = 0
  isHeader : decide (flagsAt data 20 &&& apev2IsHeader ≠ 0) = isHeader
  kind : flagsAt data 20 &&& 6 ≠ 6
  reserved : Id3.isZero (data.drop 24) = true

theorem validateApev2Descriptor_meets (isHeader : Bool) (h : data.length = apev2DescriptorSize) :
    Meets (fun _ => IsDescriptor data isHeader) (validateApev2Descriptor data isHeader) := by
  have hlength : data.length = 32 := h
  rw [validateApev2Descriptor, word_eq (by omega), ok_bind, word_eq (by omega), ok_bind,
    slice_of_le (by omega) (by omega), ok_bind]
  apply Meets.ite
  · intro _
    exact Meets.fail _
  · intro hsignature
    rw [slice_rest (by omega), ok_bind]
    apply Meets.ite
    · intro _
      exact Meets.fail _
    · intro hflags
      simp only [not_or, not_not, Bool.not_eq_false] at hsignature hflags
      exact Meets.ok ⟨h, hsignature.1, hsignature.2, hflags.1, hflags.2.1, hflags.2.2.1,
        hflags.2.2.2⟩

/-- One item: the size of its value, its flags, its key with a zero behind it, and the value. -/
structure IsItem (key value item : List UInt8) : Prop where
  key_ge : 2 ≤ key.length
  key_le : key.length ≤ 255
  visible : ∀ byte ∈ key, 0x20 ≤ byte ∧ byte ≤ 0x7e
  size : wordAt item 0 = value.length
  flags : flagsAt item 4 &&& ~~~apev2ItemFlags = 0 ∧ flagsAt item 4 &&& 6 ≠ 6
  bytes : item.drop 8 = key ++ 0 :: value
  length : 8 ≤ item.length

/-- The bytes are so many items one after another. -/
def Items (count : ℕ) (bytes : List UInt8) : Prop :=
  ∃ items : List (List UInt8), items.length = count ∧ items.flatten = bytes ∧
    ∀ item ∈ items, ∃ key value, IsItem key value item

/-- A key is read up to the zero behind it. -/
theorem readKey_meets {fuel position length : ℕ} (hfuel : 257 ≤ fuel + length)
    (hlength : length ≤ 255) :
    Meets (fun stop => stop ≤ data.length ∧ ∃ key, data.drop position = key ++ 0 :: data.drop stop ∧
        2 ≤ length + key.length ∧ length + key.length ≤ 255 ∧
        ∀ byte ∈ key, 0x20 ≤ byte ∧ byte ≤ 0x7e)
      (readKey data fuel position length) := by
  induction fuel generalizing position length with
  | zero => omega
  | succ fuel ih =>
    rw [readKey]
    cases hbyte : data[position]? with
    | none => exact Meets.fail _
    | some byte =>
      obtain ⟨hlt, hget⟩ := List.getElem?_eq_some_iff.mp hbyte
      have hdrop : data.drop position = byte :: data.drop (position + 1) := by
        rw [← hget]
        exact List.drop_eq_getElem_cons hlt
      apply Meets.ite
      · rintro ⟨rfl, hge⟩
        exact Meets.ok ⟨hlt, [], hdrop, hge, hlength, nofun⟩
      · intro _
        apply Meets.ite
        · intro _
          exact Meets.fail _
        · intro hvisible
          apply Meets.ite
          · intro _
            exact Meets.fail _
          · intro hshort
            apply (ih (by omega) (by omega)).mono
            rintro stop ⟨hstop, key, hkey, hge, hle, hall⟩
            rw [not_or, UInt8.not_lt, UInt8.not_lt] at hvisible
            refine ⟨hstop, byte :: key, ?_, ?_, ?_, List.forall_mem_cons.mpr ⟨hvisible, hall⟩⟩
            · rw [hdrop, hkey]
              rfl
            · rw [List.length_cons]
              omega
            · rw [List.length_cons]
              omega

/-- The item that its parts make. -/
theorem isItem_cut {data key : List UInt8} {position stop : ℕ}
    (hflags : flagsAt data (position + 4) &&& ~~~apev2ItemFlags = 0 ∧
      flagsAt data (position + 4) &&& 6 ≠ 6)
    (hkey : data.drop (position + 8) = key ++ 0 :: data.drop stop)
    (hge : 2 ≤ key.length) (hle : key.length ≤ 255)
    (hvisible : ∀ byte ∈ key, 0x20 ≤ byte ∧ byte ≤ 0x7e)
    (hplace : stop = position + 8 + key.length + 1)
    (hvalue : stop + wordAt data position ≤ data.length) :
    IsItem key (cut data stop (stop + wordAt data position))
      (cut data position (stop + wordAt data position)) where
  key_ge := hge
  key_le := hle
  visible := hvisible
  size := by rw [wordAt_cut (by omega), length_cut hvalue, Nat.add_sub_cancel_left, Nat.add_zero]
  flags := by
    rw [flagsAt, wordAt_cut (by omega)]
    exact hflags
  bytes := by
    have hfront : data.drop (position + 8) = (key ++ [0]) ++ data.drop stop := by
      rw [hkey, List.append_assoc]
      rfl
    rw [drop_cut, cut_of_drop hfront (by rw [List.length_append, List.length_singleton]; omega),
      List.length_append, List.length_singleton, List.append_assoc]
    have hsame : position + 8 + (key.length + 1) = stop := by omega
    rw [hsame]
    rfl
  length := by
    rw [length_cut hvalue]
    omega

/-- Items are read one after another. -/
theorem readItems_meets {count position : ℕ} (h : position ≤ data.length) :
    Meets (fun stop => position ≤ stop ∧ stop ≤ data.length ∧ Items count (cut data position stop))
      (readItems data count position) := by
  induction count generalizing position with
  | zero => exact Meets.ok ⟨Nat.le_refl _, h, [], rfl, (cut_self data position).symm, nofun⟩
  | succ count ih =>
    rw [readItems, sub_of_le h, ok_bind]
    apply Meets.ite
    · intro _
      exact Meets.fail _
    · intro hroom
      rw [word_eq (by omega), ok_bind, word_eq (by omega), ok_bind]
      apply Meets.ite
      · intro _
        exact Meets.fail _
      · intro hflags
        rw [not_or, not_not] at hflags
        apply (readKey_meets (by omega) (by omega)).bind
        rintro stop ⟨hstop, key, hkey, hge, hle, hvisible⟩
        rw [sub_of_le hstop, ok_bind]
        apply Meets.ite
        · intro _
          exact Meets.fail _
        · intro hvalue
          have hplace := congrArg List.length hkey
          rw [List.length_append, List.length_cons, List.length_drop, List.length_drop] at hplace
          have hinside : stop + wordAt data position ≤ data.length := by omega
          apply (ih hinside).mono
          rintro last ⟨hlow, hhigh, items, hcount, hitems, hall⟩
          refine ⟨by omega, hhigh, cut data position (stop + wordAt data position) :: items, ?_, ?_,
            List.forall_mem_cons.mpr ⟨⟨key, _, isItem_cut hflags hkey (by omega) (by omega) hvisible
              (by omega) (by omega)⟩, hall⟩⟩
          · rw [List.length_cons, hcount]
          · rw [List.flatten_cons, hitems, cut_append (by omega) hlow]

/-! ### The APEv2 tag of a file -/

/-- Whether an APEv2 tag ends the bytes. -/
def EndsInFooter (bytes : List UInt8) : Prop :=
  apev2DescriptorSize ≤ bytes.length ∧
    (bytes.drop (bytes.length - apev2DescriptorSize)).take 8 = apev2Signature

/-- A header that agrees with the footer: the same but for the flag that makes it one. -/
def Agrees (header footer : List UInt8) : Prop :=
  header.take 20 ++ ByteOrder.toLe 4 (flagsAt header 20 &&& ~~~apev2IsHeader).toNat ++
    header.drop 24 = footer

/-- An APEv2 tag: its header where the footer has the flag for it, as many items as the footer
says, of the size that it says, and the footer. -/
structure IsApev2 (header items footer : List UInt8) : Prop where
  descriptor : IsDescriptor footer false
  itemsSize : wordAt footer 12 = items.length + apev2DescriptorSize
  itemCount : Items (wordAt footer 16) items
  headed : if flagsAt footer 20 &&& apev2HasHeader ≠ 0 then
      IsDescriptor header true ∧ Agrees header footer
    else header = []

theorem validateApev2Items_meets {file : File} {isCancelled : Bool} {offset size count : ℕ}
    (h : offset + size ≤ file.size) :
    Meets (fun _ => Items count (cut file.bytes offset (offset + size)))
      (validateApev2Items file isCancelled offset size count) := by
  rw [validateApev2Items, File.readExactAt_of_le h]
  have hlength : (cut file.bytes offset (offset + size)).length = size := by
    rw [length_cut h, Nat.add_sub_cancel_left]
  have hdata : (file.bytes.drop offset).take size = cut file.bytes offset (offset + size) := by
    rw [cut, Nat.add_sub_cancel_left]
  rw [hdata]
  apply Meets.ite
  · intro _
    exact Meets.fail _
  · intro _
    apply (readItems_meets (Nat.zero_le _)).bind
    rintro stop ⟨-, -, hitems⟩
    apply Meets.ite
    · intro _
      exact Meets.fail _
    · intro hstop
      rw [not_not] at hstop
      rw [hstop, cut_length, List.drop_zero] at hitems
      exact Meets.ok hitems

theorem withoutHeaderFlag_eq {header : List UInt8} (h : header.length = apev2DescriptorSize) :
    withoutHeaderFlag header = .ok (header.take 20 ++
      ByteOrder.toLe 4 (flagsAt header 20 &&& ~~~apev2IsHeader).toNat ++ header.drop 24) := by
  have hlength : header.length = 32 := h
  rw [withoutHeaderFlag, word_eq (by omega), ok_bind, slice_of_le (by omega) (by omega), ok_bind,
    slice_rest (by omega), ok_bind]
  rfl

/-- Before the items there is a header where the footer says so. -/
theorem apev2Start_meets {file : File} {audioOffset start : ℕ} {footer : List UInt8}
    (hfooter : footer.length = apev2DescriptorSize) (h : audioOffset ≤ start)
    (hstart : start ≤ file.size) :
    Meets (fun first => audioOffset ≤ first ∧ first ≤ start ∧
        if flagsAt footer 20 &&& apev2HasHeader ≠ 0 then
          IsDescriptor (cut file.bytes first start) true ∧
            Agrees (cut file.bytes first start) footer
        else cut file.bytes first start = [])
      (apev2Start file audioOffset start footer) := by
  have hsize : apev2DescriptorSize = 32 := rfl
  have hfile : file.bytes.length = file.size := rfl
  rw [apev2Start, word_eq (by omega), ok_bind]
  apply Meets.ite
  · intro hflag
    apply Meets.ite
    · intro _
      exact Meets.fail _
    · intro hroom
      have hheader : (file.bytes.drop (start - apev2DescriptorSize)).take apev2DescriptorSize =
          cut file.bytes (start - apev2DescriptorSize) start := by
        rw [cut, Nat.sub_sub_self (by omega)]
      have hlength : (cut file.bytes (start - apev2DescriptorSize) start).length =
          apev2DescriptorSize := by
        rw [length_cut (by omega)]
        omega
      rw [sub_of_le (by omega), ok_bind, File.readExactAt_of_le (by omega), hheader]
      apply (validateApev2Descriptor_meets true hlength).bind
      intro _ hheaded
      rw [withoutHeaderFlag_eq hlength, ok_bind]
      apply Meets.ite
      · intro _
        exact Meets.fail _
      · intro hagrees
        rw [not_not] at hagrees
        refine Meets.ok ⟨by omega, by omega, ?_⟩
        rw [flagsAt, if_pos hflag]
        exact ⟨hheaded, hagrees⟩
  · intro hflag
    refine Meets.ok ⟨h, Nat.le_refl _, ?_⟩
    rw [flagsAt, if_neg hflag, cut_self]

/-- The end that is found before an APEv2 tag, and the tag behind it. -/
structure ApeEnd (bytes : List UInt8) (audioOffset audioEnd start : ℕ) : Prop where
  ge : audioOffset ≤ start
  le : start ≤ audioEnd
  tag : start = audioEnd ∧ ¬EndsInFooter (cut bytes audioOffset audioEnd) ∨
    EndsInFooter (cut bytes audioOffset audioEnd) ∧
      ∃ header items footer, cut bytes start audioEnd = header ++ items ++ footer ∧
        IsApev2 header items footer

/-- The last bytes before the end, where a footer is looked for. -/
theorem endsInFooter_iff {bytes : List UInt8} {audioOffset audioEnd : ℕ}
    (hend : audioEnd ≤ bytes.length) (hroom : apev2DescriptorSize ≤ audioEnd - audioOffset) :
    EndsInFooter (cut bytes audioOffset audioEnd) ↔
      (cut bytes (audioEnd - apev2DescriptorSize) audioEnd).take 8 = apev2Signature := by
  have hsize : apev2DescriptorSize = 32 := rfl
  have hlast : (cut bytes audioOffset audioEnd).drop
      (audioEnd - audioOffset - apev2DescriptorSize) =
        cut bytes (audioEnd - apev2DescriptorSize) audioEnd := by
    rw [drop_cut]
    congr 1
    omega
  rw [EndsInFooter, length_cut hend, hlast, and_iff_right hroom]

theorem apev2AudioEnd_meets {file : File} {isCancelled : Bool} {audioOffset audioEnd : ℕ}
    (h : audioOffset ≤ audioEnd) (hend : audioEnd ≤ file.size) :
    Meets (ApeEnd file.bytes audioOffset audioEnd)
      (apev2AudioEnd file isCancelled audioOffset audioEnd) := by
  have hsize : apev2DescriptorSize = 32 := rfl
  have hfile : file.bytes.length = file.size := rfl
  rw [apev2AudioEnd, sub_of_le h, ok_bind]
  apply Meets.ite
  · intro hshort
    refine Meets.ok ⟨h, Nat.le_refl _, .inl ⟨rfl, ?_⟩⟩
    rintro ⟨hlong, -⟩
    rw [length_cut hend] at hlong
    omega
  · intro hlong
    have hfooter : file.readExactAt apev2DescriptorSize (audioEnd - apev2DescriptorSize) =
        some (cut file.bytes (audioEnd - apev2DescriptorSize) audioEnd) := by
      rw [File.readExactAt_of_le (by omega), cut, Nat.sub_sub_self (by omega)]
    have hlength : (cut file.bytes (audioEnd - apev2DescriptorSize) audioEnd).length =
        apev2DescriptorSize := by
      rw [length_cut hend]
      omega
    have hends : EndsInFooter (cut file.bytes audioOffset audioEnd) ↔ _ :=
      endsInFooter_iff hend (by omega)
    rw [sub_of_le (by omega), ok_bind, hfooter]
    generalize hbytes : cut file.bytes (audioEnd - apev2DescriptorSize) audioEnd = footer at *
    simp only
    rw [slice_of_le (Nat.zero_le _) (by omega), ok_bind]
    apply Meets.ite
    · intro hnone
      exact Meets.ok ⟨h, Nat.le_refl _, .inl ⟨rfl, mt hends.mp hnone⟩⟩
    · intro hsignature
      rw [not_not] at hsignature
      apply (validateApev2Descriptor_meets false hlength).bind
      intro _ hdescriptor
      rw [word_eq (by omega), ok_bind, word_eq (by omega), ok_bind]
      apply Meets.ite
      · intro _
        exact Meets.fail _
      · intro hge
        rw [sub_of_le (by omega), ok_bind]
        apply Meets.ite
        · intro _
          exact Meets.fail _
        · intro hbounds
          rw [not_or, not_lt, not_lt] at hbounds
          rw [sub_of_le (by omega), ok_bind]
          have hitemsEnd : audioEnd - wordAt footer 12 +
              (wordAt footer 12 - apev2DescriptorSize) = audioEnd - apev2DescriptorSize := by omega
          apply (validateApev2Items_meets (by omega)).bind
          rw [hitemsEnd]
          intro _ hitems
          apply (apev2Start_meets hlength (by omega) (by omega)).mono
          rintro start ⟨hstart, hle, hheader⟩
          refine ⟨hstart, by omega, .inr ⟨hends.mpr hsignature, _, _, footer, ?_,
            hdescriptor, ?_, hitems, hheader⟩⟩
          · -- the header, the items and the footer meet
            rw [cut_append hle (by omega)]
            conv_rhs => rw [← hbytes]
            exact (cut_append (by omega) (by omega)).symm
          · rw [length_cut (by omega)]
            omega

/-! ### The frames -/

/-- A frame: of the size in its own header. -/
structure IsMp3Frame (frame : List UInt8) : Prop where
  size : ∃ header, parseFrameHeader (frame.take 4) = .ok (some header) ∧
    header.frameSize = frame.length
  length : 4 ≤ frame.length

/-- Frames one after another from an offset on: where each starts and how long it is. -/
def placed : ℕ → List (List UInt8) → List (ℕ × ℕ)
  | _, [] => []
  | offset, frame :: frames => (offset, frame.length) :: placed (offset + frame.length) frames

/-- The bytes are the frames that are listed behind those of the stream. -/
def Lists (bytes : List UInt8) (offset : ℕ) (before after : StreamInfo) : Prop :=
  ∃ frames : List (List UInt8), frames.flatten = bytes ∧ (∀ frame ∈ frames, IsMp3Frame frame) ∧
    after.frames = before.frames ++ placed offset frames ∧
    after.encodedBytes = before.encodedBytes + (frames.map List.length).sum

section Walk

variable {file : File} {isCancelled : ℕ → Bool} {audioEnd : ℕ}

theorem Lists.cons {stream after : StreamInfo} {header : FrameHeader} {frame : List UInt8}
    {offset next : ℕ} (hframe : IsMp3Frame frame) (hsize : header.frameSize = frame.length)
    (hnext : next = offset + frame.length) {rest : List UInt8}
    (h : Lists rest next (stream.push offset header) after) :
    Lists (frame ++ rest) offset stream after := by
  obtain ⟨frames, rfl, hframes, hplaced, hsum⟩ := h
  refine ⟨frame :: frames, List.flatten_cons, List.forall_mem_cons.mpr ⟨hframe, hframes⟩, ?_, ?_⟩
  · rw [hplaced, placed, ← hnext, ← hsize]
    exact List.append_assoc _ _ _
  · rw [hsum, List.map_cons, List.sum_cons, ← hsize]
    exact Nat.add_assoc _ _ _

/-- The walk lists the frames from the offset to the end. -/
theorem readFramesFrom_meets (hend : audioEnd ≤ file.size) {fuel offset : ℕ} {stream : StreamInfo}
    (hoffset : offset ≤ audioEnd) (hfuel : audioEnd - offset < fuel) :
    Meets (fun after => Lists (cut file.bytes offset audioEnd) offset stream after)
      (readFramesFrom file isCancelled audioEnd fuel offset offset stream) := by
  induction fuel generalizing offset stream with
  | zero => omega
  | succ fuel ih =>
    rw [readFramesFrom]
    apply Meets.ite
    · intro hdone
      have hsame : audioEnd = offset := Nat.le_antisymm hdone hoffset
      refine Meets.ok ⟨[], ?_, nofun, (List.append_nil _).symm, rfl⟩
      rw [hsame, cut_self]
      rfl
    · intro hmore
      apply Meets.ite
      · intro _
        exact Meets.fail _
      · intro _
        cases hread : file.readExactAt 4 offset with
        | none => exact Meets.fail _
        | some data =>
          simp only
          rw [sub_of_le hoffset, ok_bind]
          apply (parseFrameHeader_meets data).bind_eq
          intro read hparse hlong
          cases hfit : read.filter fun header => header.frameSize ≤ audioEnd - offset with
          | none => exact Meets.fail _
          | some header =>
            obtain ⟨rfl, hle⟩ := Option.filter_eq_some_iff.mp hfit
            have hle := of_decide_eq_true hle
            have hlong := hlong header rfl
            apply Meets.ite
            · intro _
              exact Meets.fail _
            · intro _
              have hnext : offset + header.frameSize ≤ file.bytes.length :=
                Nat.le_trans (by omega) hend
              have hplace : offset + 4 + (header.frameSize - 4) = offset + header.frameSize := by
                omega
              have hlength : (cut file.bytes offset (offset + header.frameSize)).length =
                  header.frameSize := by
                rw [length_cut hnext, Nat.add_sub_cancel_left]
              have hdata : (cut file.bytes offset (offset + header.frameSize)).take 4 = data := by
                rw [take_cut (by omega), ← (File.readExactAt_eq_some.mp hread).2, cut,
                  Nat.add_sub_cancel_left]
              rw [sub_of_le (by omega), ok_bind, hplace]
              apply (ih (by omega) (by omega)).mono
              intro after hafter
              have hlow : offset ≤ offset + header.frameSize := Nat.le_add_right _ _
              have hhigh : offset + header.frameSize ≤ audioEnd := by omega
              rw [← cut_append hlow hhigh]
              apply hafter.cons
              · exact ⟨⟨header, by rw [hdata, hparse], hlength.symm⟩, by omega⟩
              · exact hlength.symm
              · rw [hlength]

end Walk

/-! ### The whole file -/

/-- Whether an ID3v1 block ends the bytes. -/
def EndsInId3v1 (bytes : List UInt8) : Prop :=
  id3v1TagSizeBytes ≤ bytes.length ∧
    (bytes.drop (bytes.length - id3v1TagSizeBytes)).take 3 = tagSignature

/-- The end that is found before an ID3v1 block, and the block behind it. -/
def Id3v1End (bytes : List UInt8) (audioEnd : ℕ) : Prop :=
  audioEnd = bytes.length ∧ ¬EndsInId3v1 bytes ∨
    audioEnd = bytes.length - id3v1TagSizeBytes ∧ EndsInId3v1 bytes

theorem audioEnd_eq (file : File) :
    ∃ stop, audioEnd file = .ok stop ∧ Id3v1End file.bytes stop := by
  rw [audioEnd]
  by_cases hshort : file.size < id3v1TagSizeBytes
  · rw [if_pos hshort]
    refine ⟨_, rfl, .inl ⟨rfl, ?_⟩⟩
    rintro ⟨hlong, -⟩
    exact absurd hlong (Nat.not_le.mpr hshort)
  · have hsize : id3v1TagSizeBytes = 128 := rfl
    rw [if_neg hshort, sub_of_le (by omega), ok_bind, File.readExactAt_of_le (by omega)]
    by_cases htag : (file.bytes.drop (file.size - id3v1TagSizeBytes)).take 3 = tagSignature
    · exact ⟨_, if_pos htag, .inr ⟨rfl, Nat.not_lt.mp hshort, htag⟩⟩
    · exact ⟨_, if_neg htag, .inl ⟨rfl, fun hends => htag hends.2⟩⟩

/-- What the inspection covers: behind the tag there are the frames that the stream lists, at
least one of them, then an APEv2 tag where one is found, and then an ID3v1 block where one is
found. -/
structure Covers (bytes : List UInt8) (audioOffset : ℕ) (stream : StreamInfo) : Prop where
  layout : ∃ audio ape id3v1 : List UInt8,
    bytes = bytes.take audioOffset ++ audio ++ ape ++ id3v1 ∧
    (bytes.take audioOffset).length = audioOffset ∧ audio ≠ [] ∧
    Lists audio audioOffset .empty stream ∧
    (ape = [] ∧ ¬EndsInFooter (audio ++ ape) ∨
      EndsInFooter (audio ++ ape) ∧ ∃ header items footer, ape = header ++ items ++ footer ∧
        IsApev2 header items footer) ∧
    (id3v1 = [] ∧ ¬EndsInId3v1 bytes ∨
      id3v1.length = id3v1TagSizeBytes ∧ id3v1.take 3 = tagSignature ∧ EndsInId3v1 bytes)

/-- The ID3v1 block begins inside the tag at the front. -/
def Id3v1InTag (bytes : List UInt8) (audioOffset : ℕ) : Prop :=
  EndsInId3v1 bytes ∧ bytes.length - id3v1TagSizeBytes < audioOffset

section Whole

variable {file : File} {isCancelled : ℕ → Bool} {audioOffset : ℕ}

theorem inspectFrames_meets (h : audioOffset ≤ file.size)
    (hplain : ¬Id3v1InTag file.bytes audioOffset) :
    Meets (Covers file.bytes audioOffset) (inspectFrames file isCancelled audioOffset) := by
  obtain ⟨end₁, hend, hid3v1⟩ := audioEnd_eq file
  have hfile : file.bytes.length = file.size := rfl
  have hle : audioOffset ≤ end₁ ∧ end₁ ≤ file.size := by
    rcases hid3v1 with ⟨hsame, -⟩ | ⟨hsame, hends⟩
    · omega
    · refine ⟨?_, by omega⟩
      by_contra hlt
      exact hplain ⟨hends, by omega⟩
  rw [inspectFrames, hend, mapFail_ok, ok_bind]
  apply ((apev2AudioEnd_meets hle.1 hle.2).mapFail _).bind
  rintro end₂ ⟨hge, hle', hape⟩
  apply Meets.ite
  · intro _
    exact Meets.fail _
  · intro hsome
    apply (readFramesFrom_meets (by omega) hge (by omega)).mono
    intro stream hlists
    have haudio : (cut file.bytes audioOffset end₂).length = end₂ - audioOffset :=
      length_cut (by omega)
    have hmiddle : cut file.bytes audioOffset end₂ ++ cut file.bytes end₂ end₁ = _ :=
      cut_append hge hle'
    refine ⟨cut file.bytes audioOffset end₂, cut file.bytes end₂ end₁, file.bytes.drop end₁,
      ?_, ?_, ?_, hlists, ?_, ?_⟩
    · rw [List.append_assoc, List.append_assoc, ← List.append_assoc (cut _ _ _), hmiddle,
        ← List.append_assoc]
      exact split_at file.bytes hle.1
    · rw [List.length_take]
      omega
    · intro hnil
      rw [hnil, List.length_nil] at haudio
      omega
    · rw [hmiddle]
      rcases hape with ⟨rfl, hnone⟩ | hsome
      · exact .inl ⟨cut_self _ _, hnone⟩
      · exact .inr hsome
    · rcases hid3v1 with ⟨hsame, hnone⟩ | ⟨hsame, hends⟩
      · exact .inl ⟨by rw [hsame, List.drop_length], hnone⟩
      · have hlong := hends.1
        refine .inr ⟨?_, by rw [hsame]; exact hends.2, hends⟩
        rw [List.length_drop]
        omega

/-- The walk covers exactly the audio of every file but those whose ID3v1 block begins inside the
ID3v2 tag. -/
theorem inspectFrames_covers_iff {frames : List Id3.Frame} {version : UInt8}
    (h : Id3.readFrames file.bytes = .ok (frames, version, audioOffset)) :
    Meets (Covers file.bytes audioOffset) (inspectFrames file isCancelled audioOffset) ↔
      ¬Id3v1InTag file.bytes audioOffset := by
  obtain ⟨size, htag, hoffset⟩ := (Id3.readFrames_meets file.bytes).of_ok h
  have hfits := htag.fits
  simp only at hoffset
  constructor
  · rintro hmeets ⟨hends, hlt⟩
    obtain ⟨end₁, hend, ⟨-, hnone⟩ | ⟨hsame, -⟩⟩ := audioEnd_eq file
    · exact hnone hends
    · -- the space for an APEv2 tag is less than nothing
      apply hmeets.not_panicked
      rw [inspectFrames, hend, mapFail_ok, ok_bind, apev2AudioEnd, sub, if_neg (by omega)]
      rfl
  · exact inspectFrames_meets (by rw [hoffset]; exact hfits)

end Whole

/-! ### Two files -/

/-- A tag with a title, and one frame of 24 bytes. -/
def singleFrame : File where
  bytes := Id3.encodeHeader 3 12 ++ Id3.encodeFrame 3 ⟨"TIT2", [3, 0x41]⟩ ++
    [0xff, 0xf3, 0x14, 0x00] ++ List.replicate 20 0
  length_lt := by decide +kernel

theorem inspectFrames_covers_iff_singleFrame :
    Meets (Covers singleFrame.bytes 22) (inspectFrames singleFrame (fun _ => false) 22) ↔
      ¬Id3v1InTag singleFrame.bytes 22 :=
  @inspectFrames_covers_iff singleFrame (fun _ => false) 22 [⟨"TIT2", [3, 0x41]⟩] 3
    (by decide +kernel)

/-- A tag whose only frame is an ID3v1 block, at the end of the file. -/
def id3v1InFrame : File where
  bytes := Id3.encodeHeader 3 138 ++
    Id3.encodeFrame 3 ⟨"TIT2", tagSignature ++ List.replicate 125 0⟩
  length_lt := by decide +kernel

theorem id3v1InFrame_not_covered :
    Id3.readFrames id3v1InFrame.bytes =
      .ok ([⟨"TIT2", tagSignature ++ List.replicate 125 0⟩], 3, 148) ∧
    ¬Meets (Covers id3v1InFrame.bytes 148) (inspectFrames id3v1InFrame (fun _ => false) 148) := by
  have hpanic : inspectFrames id3v1InFrame (fun _ => false) 148 = .error .panicked := by
    decide +kernel
  refine ⟨by decide +kernel, ?_⟩
  rw [hpanic]
  exact id

end Harmony.Inspect.Mp3
