/-
# Credits in ID3 frames

Several credits are stored one after another with a terminator between them. A described frame
reads them back, unless the first begins with a byte order mark of its own behind that of its
encoding. A text frame keeps the byte order marks of the other credits and counts what stands
behind a final terminator as one more.
-/

import Harmony.Inspect.Id3Text

namespace Harmony.Inspect.Id3

/-- Credits as a frame stores them. -/
structure StoredCredits where
  encoding : Encoding
  order : Order
  values : List (List Char)
  /-- Whether a terminator stands behind the last of them. -/
  terminated : Bool
  some_value : values ≠ []
  filled : ∀ value ∈ values, value ≠ []
  unbroken : ∀ value ∈ values, '\x00' ∉ value
  fits : ∀ value ∈ values, CanHold encoding value

/-- The text before a described field. -/
structure Description (encoding : Encoding) where
  order : Order
  text : List Char
  unbroken : '\x00' ∉ text
  fits : CanHold encoding text

def Description.bytes {encoding : Encoding} (description : Description encoding) : List UInt8 :=
  encodeText encoding description.order description.text ++ terminator encoding.byte

def Description.key {encoding : Encoding} (C : Casing) (description : Description encoding) :
    String :=
  String.ofList (goUpper C (Chars.trim description.text))

namespace StoredCredits

variable (stored : StoredCredits)

def texts : List String := stored.values.map String.ofList

/-- What stands behind the last credit. -/
def ending : List Char := if stored.terminated then ['\x00'] else []

def bytes : List UInt8 :=
  (terminator stored.encoding.byte).intercalate
      (stored.values.map (encodeText stored.encoding stored.order)) ++
    if stored.terminated then terminator stored.encoding.byte else []

/-- The credits as the text that is read holds them: the mark of the first is gone. -/
def parts : List (List Char) :=
  match stored.values with
  | [] => []
  | first :: others => first :: others.map (marked stored.encoding)

end StoredCredits

variable {others : List (List Char)} {first : List Char}

section Bytes

variable {stored : StoredCredits} {parts : List (List Char)} (encoding : Encoding)

theorem rawBytes_intercalate (order : Order) (parts : List (List Char)) :
    rawBytes encoding order (['\x00'].intercalate parts) =
      (terminator encoding.byte).intercalate (parts.map (rawBytes encoding order)) := by
  have hnil : rawBytes encoding order [] = [] := by
    cases encoding with
    | latin1 => rfl
    | utf16 => rfl
    | utf16be => rfl
    | utf8 => rfl
  induction parts with
  | nil => exact hnil
  | cons part parts ih =>
    cases parts with
    | nil => rw [List.map_singleton, List.intercalate_singleton, List.intercalate_singleton]
    | cons next parts =>
      rw [List.intercalate_cons_cons, rawBytes_append, rawBytes_append, rawBytes_null, ih]
      simp only [List.map_cons, List.intercalate_cons_cons]

theorem marked_append (first second : List Char) :
    marked encoding (first ++ second) = marked encoding first ++ second := by
  rw [marked, marked]
  split_ifs
  · rfl
  · rfl

theorem marked_intercalate (first : List Char) (others : List (List Char)) :
    ['\x00'].intercalate (marked encoding first :: others) =
      marked encoding (['\x00'].intercalate (first :: others)) := by
  rw [marked, marked]
  split_ifs
  · rw [List.intercalate_cons_cons_left]
  · rfl

/-- The bytes are those of one text. -/
theorem bytes_eq :
    stored.bytes =
      encodeText stored.encoding stored.order
        (['\x00'].intercalate stored.parts ++ stored.ending) := by
  obtain ⟨first, others, hvalues⟩ := List.exists_cons_of_ne_nil stored.some_value
  have hparts : stored.parts = first :: others.map (marked stored.encoding) := by
    rw [StoredCredits.parts, hvalues]
  have hending : rawBytes stored.encoding stored.order stored.ending =
      if stored.terminated then terminator stored.encoding.byte else [] := by
    rw [StoredCredits.ending]
    split_ifs
    · exact rawBytes_null _ _
    · exact rawBytes_intercalate _ _ []
  have hmap : (first :: others).map (encodeText stored.encoding stored.order) =
      (marked stored.encoding first :: others.map (marked stored.encoding)).map
        (rawBytes stored.encoding stored.order) := by
    rw [List.map_cons, List.map_cons, List.map_map]
    rfl
  rw [encodeText, marked_append, rawBytes_append, hending, hparts, ← marked_intercalate,
    rawBytes_intercalate, ← hmap, ← hvalues, StoredCredits.bytes]

theorem mem_intercalate {c d : Char} (h : c ∈ [d].intercalate parts) :
    c = d ∨ ∃ part ∈ parts, c ∈ part := by
  induction parts with
  | nil => cases h
  | cons part parts ih =>
    cases parts with
    | nil =>
      rw [List.intercalate_singleton] at h
      exact .inr ⟨part, List.mem_cons_self, h⟩
    | cons next parts =>
      rw [List.intercalate_cons_cons, List.append_assoc, List.mem_append, List.singleton_append,
        List.mem_cons] at h
      rcases h with hpart | hsep | hrest
      · exact .inr ⟨part, List.mem_cons_self, hpart⟩
      · exact .inl hsep
      · rcases ih hrest with hsep | ⟨other, hother, hc⟩
        · exact .inl hsep
        · exact .inr ⟨other, List.mem_cons_of_mem _ hother, hc⟩

/-- The text that is read from the bytes. -/
theorem decodeText_bytes (stored : StoredCredits) :
    decodeText stored.encoding.byte stored.bytes =
      .ok (['\x00'].intercalate stored.parts ++ stored.ending) := by
  rw [bytes_eq]
  apply decodeText_encodeText
  intro hlatin c hc
  have hnull : ∀ d : Char, d = '\x00' → d.toNat < 256 := by
    rintro d rfl
    decide
  rcases List.mem_append.mp hc with hpart | hend
  · rcases mem_intercalate hpart with hsep | ⟨part, hmem, hc⟩
    · exact hnull c hsep
    · -- Without a mark the parts are the values.
      have hparts : stored.parts = stored.values := by
        obtain ⟨first, others, hvalues⟩ := List.exists_cons_of_ne_nil stored.some_value
        rw [StoredCredits.parts, hvalues, hlatin]
        exact congrArg (first :: ·) (List.map_id' others)
      rw [hparts] at hmem
      exact stored.fits part hmem hlatin c hc
  · rw [StoredCredits.ending] at hend
    split_ifs at hend
    · exact hnull c (List.mem_singleton.mp hend)
    · cases hend

theorem parts_ne_nil : stored.parts ≠ [] := by
  obtain ⟨first, others, hvalues⟩ := List.exists_cons_of_ne_nil stored.some_value
  rw [StoredCredits.parts, hvalues]
  exact List.cons_ne_nil _ _

theorem null_notMem_parts : ∀ part ∈ stored.parts, '\x00' ∉ part := by
  intro part hpart
  obtain ⟨first, others, hvalues⟩ := List.exists_cons_of_ne_nil stored.some_value
  have hunbroken := stored.unbroken
  rw [hvalues, List.forall_mem_cons] at hunbroken
  rw [StoredCredits.parts, hvalues] at hpart
  rcases List.mem_cons.mp hpart with rfl | hother
  · exact hunbroken.1
  · obtain ⟨value, hvalue, rfl⟩ := List.mem_map.mp hother
    exact null_notMem_marked _ (hunbroken.2 value hvalue)

/-- A final separator has one more part behind it, which is empty. -/
theorem intercalate_concat_nil (c : Char) (h : parts ≠ []) :
    [c].intercalate (parts ++ [[]]) = [c].intercalate parts ++ [c] := by
  induction parts with
  | nil => exact absurd rfl h
  | cons part parts ih =>
    cases parts with
    | nil => simp
    | cons next parts =>
      rw [List.cons_append, List.cons_append, List.intercalate_cons_cons,
        List.intercalate_cons_cons, ← List.cons_append, ih (List.cons_ne_nil _ _),
        List.append_assoc, List.append_assoc, List.append_assoc]

/-- The parts of the text that is read. -/
theorem splitOn_decoded :
    (['\x00'].intercalate stored.parts ++ stored.ending).splitOn '\x00' =
      stored.parts ++ if stored.terminated then [[]] else [] := by
  rw [StoredCredits.ending]
  split_ifs with hterminated
  · rw [← intercalate_concat_nil _ parts_ne_nil]
    apply List.splitOn_intercalate
    · intro part hpart
      rcases List.mem_append.mp hpart with hkept | hempty
      · exact null_notMem_parts part hkept
      · rw [List.mem_singleton.mp hempty]
        exact List.not_mem_nil
    · exact List.append_ne_nil_of_left_ne_nil parts_ne_nil _
  · rw [List.append_nil, List.append_nil]
    exact List.splitOn_intercalate _ null_notMem_parts parts_ne_nil

theorem withoutTerminator_concat (text : List Char) :
    withoutTerminator (text ++ ['\x00']) = text := by
  rw [withoutTerminator, if_pos List.getLast?_concat, List.dropLast_concat]

theorem getLast?_intercalate (c : Char) (hne : parts ≠ []) (h : ∀ part ∈ parts, part ≠ []) :
    ∃ part ∈ parts, ([c].intercalate parts).getLast? = part.getLast? := by
  induction parts with
  | nil => exact absurd rfl hne
  | cons part parts ih =>
    cases parts with
    | nil => exact ⟨part, List.mem_cons_self, by rw [List.intercalate_singleton]⟩
    | cons next parts =>
      rw [List.forall_mem_cons] at h
      obtain ⟨last, hmem, hlast⟩ := ih (List.cons_ne_nil _ _) h.2
      refine ⟨last, List.mem_cons_of_mem _ hmem, ?_⟩
      rw [List.intercalate_cons_cons, List.getLast?_append, hlast,
        List.getLast?_eq_some_getLast (h.2 last hmem)]
      rfl

/-- The final terminator is taken away, and nothing else. -/
theorem withoutTerminator_decoded :
    withoutTerminator (['\x00'].intercalate stored.parts ++ stored.ending) =
      ['\x00'].intercalate stored.parts := by
  rw [StoredCredits.ending]
  split_ifs
  · exact withoutTerminator_concat _
  · have hfilled : ∀ part ∈ stored.parts, part ≠ [] := by
      intro part hpart
      obtain ⟨first, others, hvalues⟩ := List.exists_cons_of_ne_nil stored.some_value
      have hfilled := stored.filled
      rw [hvalues, List.forall_mem_cons] at hfilled
      rw [StoredCredits.parts, hvalues] at hpart
      rcases List.mem_cons.mp hpart with rfl | hother
      · exact hfilled.1
      · obtain ⟨value, hvalue, rfl⟩ := List.mem_map.mp hother
        rw [marked]
        split_ifs
        · exact List.cons_ne_nil _ _
        · exact hfilled.2 value hvalue
    obtain ⟨part, hmem, hlast⟩ := getLast?_intercalate '\x00' parts_ne_nil hfilled
    rw [List.append_nil, withoutTerminator, if_neg]
    intro hnull
    rw [hlast] at hnull
    exact null_notMem_parts part hmem (List.mem_of_getLast? hnull)

theorem withoutByteOrderMark_marked (value : List Char) :
    withoutByteOrderMark (marked .utf16 value) = value :=
  rfl

theorem byte_eq_utf16_iff {encoding : Encoding} : encoding.byte = utf16 ↔ encoding = .utf16 := by
  cases encoding with
  | latin1 => decide
  | utf16 => decide
  | utf16be => decide
  | utf8 => decide

/-- A described text gives back every credit but the first as it was. -/
theorem credits_decoded (hvalues : stored.values = first :: others) :
    credits stored.encoding.byte (['\x00'].intercalate stored.parts ++ stored.ending) =
      (if stored.encoding = .utf16 then withoutByteOrderMark first else first) :: others := by
  have hsplit : (['\x00'].intercalate stored.parts).splitOn '\x00' = stored.parts :=
    List.splitOn_intercalate _ null_notMem_parts parts_ne_nil
  have hparts : stored.parts = first :: others.map (marked stored.encoding) := by
    rw [StoredCredits.parts, hvalues]
  rw [credits, withoutTerminator_decoded, hsplit, hparts, List.map_cons, List.map_map]
  simp only [byte_eq_utf16_iff]
  congr 1
  rw [← List.map_id others, List.map_map]
  apply List.map_congr_left
  intro value _
  simp only [Function.comp, id]
  split_ifs with hutf16
  · rw [hutf16, withoutByteOrderMark_marked]
  · rw [marked, if_neg hutf16]

end Bytes

/-! ### Described fields -/

section Described

variable {C : Casing} {encoding : Encoding} {values : Values} {version : UInt8}
  {rest : List UInt8} (description : Description encoding)

theorem splitEncodedField_description (rest : List UInt8) :
    splitEncodedField encoding.byte (description.bytes ++ rest) = .ok (description.text, rest) :=
  splitEncodedField_eq_ok_iff.mpr
    ⟨encodeText encoding description.order description.text,
      isField_encodeText encoding description.order description.unbroken description.fits, rfl,
      decodeText_encodeText encoding description.order description.fits⟩

theorem description_bytes_ne_nil : description.bytes ≠ [] := by
  have hpos := unitSize_pos encoding.byte
  rw [← length_terminator] at hpos
  exact List.append_ne_nil_of_right_ne_nil _ (List.ne_nil_of_length_pos hpos)

theorem canonicalName_userText (version : UInt8) :
    canonicalName (userTextName version) version = none := by
  rw [userTextName]
  split_ifs with hversion
  · rw [hversion]
    decide
  · simp [canonicalName, hversion]

theorem canonicalName_picture (version : UInt8) :
    canonicalName (pictureName version) version = none := by
  rw [pictureName]
  split_ifs with hversion
  · rw [hversion]
    decide
  · simp [canonicalName, hversion]

theorem canonicalName_lyrics (version : UInt8) :
    canonicalName (lyricsName version) version = none := by
  rw [lyricsName]
  split_ifs with hversion
  · rw [hversion]
    decide
  · simp [canonicalName, hversion]

theorem pictureName_ne (version : UInt8) : pictureName version ≠ userTextName version := by
  rw [pictureName, userTextName]
  split_ifs
  · decide
  · decide

theorem lyricsName_ne (version : UInt8) :
    lyricsName version ≠ userTextName version ∧ lyricsName version ≠ pictureName version := by
  rw [lyricsName, pictureName, userTextName]
  split_ifs
  · decide
  · decide

theorem collectFrame_userText {value : List Char} (h : decodeText encoding.byte rest = .ok value) :
    collectFrame C values ⟨userTextName version, encoding.byte :: (description.bytes ++ rest)⟩
        version =
      (addUserText values encoding.byte (description.key C) value).mapError invalid := by
  have hcollect : collectUserText C values (encoding.byte :: (description.bytes ++ rest)) =
      addUserText values encoding.byte (description.key C) value := by
    obtain ⟨second, more, hmore⟩ := List.exists_cons_of_ne_nil
      (List.append_ne_nil_of_left_ne_nil (description_bytes_ne_nil description) rest)
    have hsplit := splitEncodedField_description description rest
    rw [hmore] at hsplit
    rw [hmore, collectUserText, hsplit]
    change (decodeText encoding.byte rest >>= _) = _
    rw [h]
    rfl
  rw [collectFrame, canonicalName_userText]
  change (if userTextName version = userTextName version then _ else _) = _
  rw [if_pos rfl, hcollect]

theorem collectFrame_lyrics {language : List UInt8} (hlanguage : language.length = 3)
    {text : List Char} (h : decodeText encoding.byte rest = .ok text) :
    collectFrame C values
        ⟨lyricsName version, encoding.byte :: language ++ (description.bytes ++ rest)⟩ version =
      .ok (values.extend "LYRICS" [String.ofList text]) := by
  have hfront : (encoding.byte :: language).length = lyricsTextOffset := by
    rw [List.length_cons, hlanguage]
    rfl
  have hdrop : (encoding.byte :: language ++ (description.bytes ++ rest)).drop lyricsTextOffset =
      description.bytes ++ rest := by
    rw [← hfront, List.drop_left]
  have hlong : ¬(encoding.byte :: language ++ (description.bytes ++ rest)).length <
      lyricsTextOffset := by
    rw [List.length_append, hfront]
    exact Nat.not_lt.mpr (Nat.le_add_right _ _)
  obtain ⟨huser, hpicture⟩ := lyricsName_ne version
  rw [collectFrame, canonicalName_lyrics]
  change (if lyricsName version = userTextName version then _ else
    if lyricsName version = pictureName version then _ else
    if lyricsName version = lyricsName version then _ else _) = _
  rw [if_neg huser, if_neg hpicture, if_pos rfl, collectLyrics, if_neg hlong, hdrop]
  simp only [List.cons_append, List.headD_cons, splitEncodedField_description, h]

theorem decodePictureBody_description (mimeType : String) (pictureType : UInt8) (h : rest ≠ []) :
    decodePictureBody encoding.byte mimeType (pictureType :: (description.bytes ++ rest)) =
      .ok ⟨mimeType, rest, pictureType⟩ := by
  obtain ⟨first, more, rfl⟩ := List.exists_cons_of_ne_nil h
  rw [decodePictureBody, splitEncodedField_description]

theorem collectFrame_picture_of_decodePicture {payload : List UInt8} {picture : TaggedPicture}
    (h : decodePicture C payload version = .ok picture) :
    collectFrame C values ⟨pictureName version, payload⟩ version =
      .ok { values with pictures := values.pictures ++ [picture] } := by
  rw [collectFrame, canonicalName_picture]
  change (if pictureName version = userTextName version then _ else
    if pictureName version = pictureName version then _ else _) = _
  rw [if_neg (pictureName_ne version), if_pos rfl, h]

/-- A picture whose MIME type is a text of its own. -/
theorem collectFrame_picture {mimeType : List UInt8}
    {pictureType : UInt8} (hversion : version ≠ 2) (hmime : 0 ∉ mimeType) (hrest : rest ≠ [])
    (hlong : 6 ≤ (encoding.byte :: mimeType ++
      0 :: pictureType :: (description.bytes ++ rest)).length) :
    collectFrame C values
        ⟨pictureName version,
          encoding.byte :: mimeType ++ 0 :: pictureType :: (description.bytes ++ rest)⟩ version =
      .ok { values with
        pictures := values.pictures ++ [⟨tagString mimeType, rest, pictureType⟩] } := by
  apply collectFrame_picture_of_decodePicture
  generalize hbody : description.bytes ++ rest = body at hlong ⊢
  have hstop : (mimeType ++ 0 :: pictureType :: body).findIdx? (· = 0) = some mimeType.length := by
    rw [List.findIdx?_append, List.findIdx?_eq_none_iff.mpr, List.findIdx?_cons]
    · simp
    · intro byte hbyte
      rw [decide_eq_false_iff_not]
      rintro rfl
      exact hmime hbyte
  have hread : pictureMimeType C (encoding.byte :: mimeType ++ 0 :: pictureType :: body) version =
      some (tagString mimeType, 1 + mimeType.length + 1) := by
    rw [pictureMimeType, if_neg hversion, List.cons_append, List.drop_succ_cons, List.drop_zero,
      hstop, Option.map_some, Spans.cut, List.drop_succ_cons, List.drop_zero,
      Nat.add_sub_cancel_left, List.take_left]
  have hdrop : (encoding.byte :: mimeType ++ 0 :: pictureType :: body).drop
      (1 + mimeType.length + 1) = pictureType :: body := by
    rw [Nat.add_comm 1, List.cons_append, List.drop_succ_cons, ← List.drop_drop, List.drop_left]
    rfl
  rw [decodePicture, if_neg (Nat.not_lt.mpr hlong), hread]
  simp only [hdrop]
  rw [← hbody]
  exact decodePictureBody_description description _ _ hrest

/-- A picture whose format has three letters. -/
theorem collectFrame_oldPicture {format : List UInt8} {pictureType : UInt8}
    (hformat : format.length = 3) (hrest : rest ≠ []) :
    collectFrame C values
        ⟨pictureName 2,
          encoding.byte :: format ++ pictureType :: (description.bytes ++ rest)⟩ 2 =
      .ok { values with
        pictures := values.pictures ++
          [⟨formatMimeType (String.ofList (goUpper C (Chars.fromUtf8Lossy format))), rest,
            pictureType⟩] } := by
  apply collectFrame_picture_of_decodePicture
  have hfront : (encoding.byte :: format).length = 4 := by rw [List.length_cons, hformat]
  have hlong : ¬(encoding.byte :: format ++ pictureType :: (description.bytes ++ rest)).length <
      6 := by
    have hdescription := List.length_pos_iff.mpr (description_bytes_ne_nil description)
    have hdata := List.length_pos_iff.mpr hrest
    rw [List.length_append, hfront, List.length_cons, List.length_append]
    omega
  have hread : pictureMimeType C
      (encoding.byte :: format ++ pictureType :: (description.bytes ++ rest)) 2 =
      some (formatMimeType (String.ofList (goUpper C (Chars.fromUtf8Lossy format))), 4) := by
    have hcut : Spans.cut (encoding.byte :: format ++ pictureType :: (description.bytes ++ rest))
        1 4 = format := by
      have hthree : 4 - 1 = format.length := hformat.symm
      rw [Spans.cut, List.cons_append, List.drop_succ_cons, List.drop_zero, hthree, List.take_left]
    rw [pictureMimeType, if_pos rfl, hcut]
  have hdrop : (encoding.byte :: format ++ pictureType :: (description.bytes ++ rest)).drop 4 =
      pictureType :: (description.bytes ++ rest) := by
    rw [← hfront, List.drop_left]
  rw [decodePicture, if_neg hlong, hread]
  simp only [hdrop]
  exact decodePictureBody_description description _ _ hrest

end Described

/-! ### Frames of credits -/

/-- The frames that may hold several credits. A described frame may be of any version. -/
inductive CreditFrame (C : Casing) (stored : StoredCredits)
  | userText (version : UInt8) (description : Description stored.encoding)
      (named : description.key C = "ARTISTS" ∨ description.key C = "ALBUMARTISTS")
  | artist
  | albumArtist

namespace CreditFrame

variable {C : Casing} {stored : StoredCredits}

def version : CreditFrame C stored → UInt8
  | userText version _ _ => version
  | artist => 4
  | albumArtist => 4

def key : CreditFrame C stored → String
  | userText _ description _ => description.key C
  | artist => "ARTIST"
  | albumArtist => "ALBUMARTIST"

def frame : CreditFrame C stored → Frame
  | userText version description _ =>
    ⟨userTextName version, stored.encoding.byte :: (description.bytes ++ stored.bytes)⟩
  | artist => ⟨"TPE1", stored.encoding.byte :: stored.bytes⟩
  | albumArtist => ⟨"TPE2", stored.encoding.byte :: stored.bytes⟩

/-- Whether the frame gives the credits back. A described frame takes one mark away from each of
them, and the mark of the encoding was already taken from the first; a text frame takes away no
other mark and no final terminator. -/
def Keeps : CreditFrame C stored → Prop
  | userText _ _ _ =>
    ¬(stored.encoding = .utf16 ∧ (stored.values.head?.bind List.head?) = some byteOrderMark)
  | artist | albumArtist =>
    stored.terminated = false ∧ (stored.encoding = .utf16 → stored.values.length = 1)

end CreditFrame

section Credits

variable {C : Casing} {stored : StoredCredits} {values : Values}

theorem extend_inj {key : String} {first second : List String} :
    values.extend key first = values.extend key second ↔ first = second := by
  constructor
  · intro h
    have hget := congrArg (fun values => (values.tags.lookup key).getD []) h
    simp only [Values.extend, Tags.extend, AList.lookup_insert, Option.getD_some] at hget
    exact List.append_cancel_left hget
  · rintro rfl
    rfl

theorem map_ofList_inj {first second : List (List Char)} :
    first.map String.ofList = second.map String.ofList ↔ first = second :=
  List.map_inj_right fun _ _ h => String.ofList_injective h

theorem addUserText_credits {encoding : UInt8} {key : String} {value : List Char}
    (hkey : key = "ARTISTS" ∨ key = "ALBUMARTISTS") :
    addUserText values encoding key value =
      .ok (values.extend key ((credits encoding value).map String.ofList)) := by
  have hgain : "REPLAYGAIN_".toList.isPrefixOf key.toList = false := by
    rcases hkey with rfl | rfl
    · decide
    · decide
  rw [addUserText, if_pos hkey, hgain]
  rfl

theorem readFirst_eq_iff (hfirst : first ≠ []) (hvalues : stored.values = first :: others) :
    (if stored.encoding = .utf16 then withoutByteOrderMark first else first) = first ↔
      ¬(stored.encoding = .utf16 ∧
        (stored.values.head?.bind List.head?) = some byteOrderMark) := by
  rw [hvalues, List.head?_cons, Option.bind_some]
  split_ifs with hutf16
  · rw [withoutByteOrderMark]
    split_ifs with hmark
    · constructor
      · intro h
        have hlength := congrArg List.length h
        rw [List.length_tail] at hlength
        have hpos := List.length_pos_iff.mpr hfirst
        omega
      · intro h
        exact absurd ⟨hutf16, hmark⟩ h
    · exact iff_of_true rfl fun h => hmark h.2
  · exact iff_of_true rfl fun h => hutf16 h.1

/-- The credits of a described frame come back where the first has no mark of its own. -/
theorem userText_survives_iff (version : UInt8) (description : Description stored.encoding)
    (named : description.key C = "ARTISTS" ∨ description.key C = "ALBUMARTISTS") :
    collectFrame C values
        ⟨userTextName version, stored.encoding.byte :: (description.bytes ++ stored.bytes)⟩
        version = .ok (values.extend (description.key C) stored.texts) ↔
      ¬(stored.encoding = .utf16 ∧
        (stored.values.head?.bind List.head?) = some byteOrderMark) := by
  obtain ⟨first, others, hvalues⟩ := List.exists_cons_of_ne_nil stored.some_value
  have hfirst : first ≠ [] := stored.filled first (by rw [hvalues]; exact List.mem_cons_self)
  rw [← readFirst_eq_iff hfirst hvalues, collectFrame_userText description
    (decodeText_bytes stored),
    addUserText_credits named, credits_decoded hvalues, StoredCredits.texts, hvalues]
  change Except.ok _ = Except.ok _ ↔ _
  rw [Except.ok.injEq, extend_inj, map_ofList_inj, List.cons.injEq, and_iff_left rfl]

theorem bytes_ne_nil (stored : StoredCredits) : stored.bytes ≠ [] := by
  intro hnil
  obtain ⟨first, others, hvalues⟩ := List.exists_cons_of_ne_nil stored.some_value
  have hfirst : first ≠ [] := stored.filled first (by rw [hvalues]; exact List.mem_cons_self)
  obtain ⟨c, more, rfl⟩ := List.exists_cons_of_ne_nil hfirst
  have htext := decodeText_bytes stored
  rw [hnil, StoredCredits.parts, hvalues] at htext
  simp only [List.intercalate_cons_cons_left, List.cons_append] at htext
  -- No encoding reads a character from no bytes.
  have hempty : decodeText stored.encoding.byte [] = .ok [] ∨
      decodeText stored.encoding.byte [] = .error "UTF-16 byte order mark is missing" := by
    cases stored.encoding with
    | latin1 => exact .inl rfl
    | utf16 => exact .inr rfl
    | utf16be => exact .inl rfl
    | utf8 => exact .inl rfl
  rcases hempty with hread | hread
  · rw [hread] at htext
    cases htext
  · rw [hread] at htext
    cases htext

theorem parts_eq_values_iff (hvalues : stored.values = first :: others) :
    stored.parts = stored.values ↔ (stored.encoding = .utf16 → stored.values.length = 1) := by
  have hparts : stored.parts = first :: others.map (marked stored.encoding) := by
    rw [StoredCredits.parts, hvalues]
  rw [hparts, hvalues, List.cons_inj_right]
  by_cases hutf16 : stored.encoding = .utf16
  · cases others with
    | nil => simp
    | cons second others =>
      constructor
      · intro h
        have hhead := congrArg List.length (List.cons.inj h).1
        rw [hutf16, marked, if_pos rfl, List.length_cons] at hhead
        omega
      · intro h
        have hlength := h hutf16
        rw [List.length_cons, List.length_cons] at hlength
        omega
  · have hsame : marked stored.encoding = id := by
      funext value
      rw [marked, if_neg hutf16]
      rfl
    rw [hsame, List.map_id]
    exact iff_of_true rfl fun h => absurd h hutf16

/-- The credits of a text frame come back where nothing ends the last of them and no other has
a mark. -/
theorem text_survives_iff {name key : String} (hname : canonicalName name 4 = some key)
    (hkey : key = "ARTIST" ∨ key = "ALBUMARTIST") :
    collectFrame C values ⟨name, stored.encoding.byte :: stored.bytes⟩ 4 =
        .ok (values.extend key stored.texts) ↔
      stored.terminated = false ∧ (stored.encoding = .utf16 → stored.values.length = 1) := by
  obtain ⟨first, others, hvalues⟩ := List.exists_cons_of_ne_nil stored.some_value
  obtain ⟨second, rest, hbytes⟩ := List.exists_cons_of_ne_nil (bytes_ne_nil stored)
  have hdecode : decodeTextValues (stored.encoding.byte :: stored.bytes) 4 =
      .ok ((stored.parts ++ if stored.terminated then [[]] else []).map String.ofList) := by
    have htext := decodeText_bytes stored
    rw [hbytes] at htext
    rw [hbytes, decodeTextValues, htext, ← splitOn_decoded]
    rfl
  have hblank : isBlank key (stored.encoding.byte :: stored.bytes) = false := by
    rcases hkey with rfl | rfl
    · rfl
    · rfl
  have hgenre : key ≠ "GENRE" := by
    rcases hkey with rfl | rfl
    · decide
    · decide
  have hcollect : collectFrame C values ⟨name, stored.encoding.byte :: stored.bytes⟩ 4 =
      .ok (values.extend key
        ((stored.parts ++ if stored.terminated then [[]] else []).map String.ofList)) := by
    rw [collectFrame, hname]
    change collectText C values key (stored.encoding.byte :: stored.bytes) 4 = _
    rw [collectText, hblank, hdecode]
    simp only [if_neg hgenre]
    rfl
  rw [hcollect, Except.ok.injEq, extend_inj, StoredCredits.texts, map_ofList_inj,
    ← parts_eq_values_iff hvalues]
  cases hterminated : stored.terminated with
  | false => simp
  | true =>
    -- One part more than there are values stands behind the terminator.
    have hlength : stored.parts.length = stored.values.length := by
      rw [StoredCredits.parts, hvalues, List.length_cons, List.length_map, List.length_cons]
    rw [if_pos rfl]
    constructor
    · intro h
      have hmore := congrArg List.length h
      rw [List.length_append, List.length_singleton, hlength] at hmore
      omega
    · intro h
      cases h.1

end Credits

/-! ### What survives -/

/-- A described field ends at the first terminator that stands at a unit of its encoding, and so
at the one behind its text. -/
structure SplitsDescriptions (C : Casing) : Prop where
  field : ∀ {encoding : UInt8} {data rest : List UInt8} {value : List Char},
    splitEncodedField encoding data = .ok (value, rest) ↔
      ∃ field, IsField encoding field ∧ data = field ++ terminator encoding ++ rest ∧
        decodeText encoding field = .ok value
  text : ∀ {encoding : Encoding} (description : Description encoding) (rest : List UInt8),
    splitEncodedField encoding.byte (description.bytes ++ rest) = .ok (description.text, rest)
  userText : ∀ {encoding : Encoding} (description : Description encoding) (values : Values)
    (version : UInt8) {rest : List UInt8} {value : List Char},
    decodeText encoding.byte rest = .ok value →
      collectFrame C values
          ⟨userTextName version, encoding.byte :: (description.bytes ++ rest)⟩ version =
        (addUserText values encoding.byte (description.key C) value).mapError invalid
  lyrics : ∀ {encoding : Encoding} (description : Description encoding) (values : Values)
    (version : UInt8) {language rest : List UInt8} {text : List Char},
    language.length = 3 → decodeText encoding.byte rest = .ok text →
      collectFrame C values
          ⟨lyricsName version, encoding.byte :: language ++ (description.bytes ++ rest)⟩ version =
        .ok (values.extend "LYRICS" [String.ofList text])
  picture : ∀ {encoding : Encoding} (description : Description encoding) (values : Values)
    {version : UInt8} {mimeType : List UInt8} {pictureType : UInt8} {data : List UInt8},
    version ≠ 2 → 0 ∉ mimeType → data ≠ [] →
      6 ≤ (encoding.byte :: mimeType ++ 0 :: pictureType :: (description.bytes ++ data)).length →
      collectFrame C values
          ⟨pictureName version,
            encoding.byte :: mimeType ++ 0 :: pictureType :: (description.bytes ++ data)⟩
          version =
        .ok { values with
          pictures := values.pictures ++ [⟨tagString mimeType, data, pictureType⟩] }
  oldPicture : ∀ {encoding : Encoding} (description : Description encoding) (values : Values)
    {format : List UInt8} {pictureType : UInt8} {data : List UInt8},
    format.length = 3 → data ≠ [] →
      collectFrame C values
          ⟨pictureName 2, encoding.byte :: format ++ pictureType :: (description.bytes ++ data)⟩
          2 =
        .ok { values with
          pictures := values.pictures ++
            [⟨formatMimeType (String.ofList (goUpper C (Chars.fromUtf8Lossy format))), data,
              pictureType⟩] }

theorem splitsDescriptions (C : Casing) : SplitsDescriptions C where
  field := splitEncodedField_eq_ok_iff
  text := splitEncodedField_description
  userText description _ _ _ _ hvalue := collectFrame_userText description hvalue
  lyrics description _ _ _ _ _ hlanguage htext := collectFrame_lyrics description hlanguage htext
  picture description _ _ _ _ _ hversion hmime hdata hlong :=
    collectFrame_picture description hversion hmime hdata hlong
  oldPicture description _ _ _ _ hformat hdata := collectFrame_oldPicture description hformat hdata

/-- Credits come back from the frame that stores them exactly where the frame keeps them, and
described fields always end where they should. -/
theorem credits_survive_iff (C : Casing) {stored : StoredCredits} (frame : CreditFrame C stored)
    (values : Values) :
    (collectFrame C values frame.frame frame.version =
        .ok (values.extend frame.key stored.texts) ↔ frame.Keeps) ∧
      SplitsDescriptions C := by
  refine ⟨?_, splitsDescriptions C⟩
  cases frame with
  | userText version description named => exact userText_survives_iff version description named
  | artist => exact text_survives_iff rfl (.inl rfl)
  | albumArtist => exact text_survives_iff rfl (.inr rfl)

/-- Two credits in marked units, as a text frame stores them. -/
def markedCredits : StoredCredits where
  encoding := .utf16
  order := .little
  values := [['A'], ['B']]
  terminated := false
  some_value := by decide
  filled := by decide
  unbroken := by decide
  fits := by
    intro _ _ hlatin
    cases hlatin

/-- The second of them comes back with its byte order mark. -/
theorem markedCredits_lost :
    collectFrame asciiCasing .empty ⟨"TPE1", markedCredits.encoding.byte :: markedCredits.bytes⟩ 4 =
        .ok (Values.empty.extend "ARTIST" ["A", "\uFEFFB"]) ∧
      Values.empty.extend "ARTIST" ["A", "\uFEFFB"] ≠
        Values.empty.extend "ARTIST" markedCredits.texts := by
  constructor
  · rfl
  · rw [Ne, extend_inj]
    decide

end Harmony.Inspect.Id3
