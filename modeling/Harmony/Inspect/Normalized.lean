/-
# Normalised metadata

What normalisation accepts is well formed: identity values, positions in range, a year of four
digits. It does not matter where a total is written, and spelled out as tags again, the
metadata is normalised to itself. Three kinds of tags are apart: a date that begins with a
plus sign is read as a year of three digits, and lyrics or genres that begin with the mark of
invalid UTF-8 lose it when they are read again.
-/

import Harmony.Inspect.Positions
import Harmony.Inspect.Stability

namespace Harmony.Inspect

open ManagedImport (Platform MediaPosition ReplayGain normalizeValue)

variable {year : ℤ}

section Years

variable {P : Platform} {tags : Tags}

/-- The four decimal digits of the number. -/
def IsFourDigits (n : ℕ) (text : List Char) : Prop := n < 10 ^ 4 ∧ text = Decimal.digits 4 n

theorem optionalYear_eq_ok :
    optionalYear P tags = .ok year ↔
      tags.hasValues "DATE" = false ∧ year = 0 ∨
      ∃ date first, requiredSingleTag P tags "DATE" = .ok date ∧
        4 ≤ (Utf8.encode date.toList).length ∧
        Utf8.decode ((Utf8.encode date.toList).take 4) = some first ∧
        atoi first = some year ∧ 0 < year := by
  rw [optionalYear]
  by_cases hvalues : tags.hasValues "DATE" = false
  · have hnone : ∀ date, requiredSingleTag P tags "DATE" ≠ .ok date := by
      intro date h
      rw [hasValues_of_requiredSingleTag h] at hvalues
      cases hvalues
    simp [hvalues, hnone, eq_comm]
  · rw [if_neg hvalues, Traversal.bind_eq_ok]
    rw [or_iff_right (fun h => hvalues h.1)]
    apply exists_congr
    intro date
    have hsize : date.utf8ByteSize = (Utf8.encode date.toList).length := by
      rw [← Utf8.utf8ByteSize_ofList, String.ofList_toList]
    rw [hsize]
    by_cases hlong : 4 ≤ (Utf8.encode date.toList).length
    · rw [if_neg (not_lt.mpr hlong)]
      cases hfirst : Utf8.decode ((Utf8.encode date.toList).take 4) with
      | none => simp
      | some first =>
        cases hread : atoi first with
        | none => simp [hread]
        | some n =>
          simp only [hread]
          constructor
          · rintro ⟨hdate, hyear⟩
            split_ifs at hyear with hpos
            cases hyear
            exact ⟨first, hdate, hlong, rfl, hread, hpos⟩
          · rintro ⟨other, hdate, -, hother, hsame, hpos⟩
            cases hother
            rw [hread] at hsame
            cases hsame
            exact ⟨hdate, if_pos hpos⟩
    · rw [if_pos (not_le.mp hlong)]
      simp [hlong]

/-- Digits of one width are those of one number. -/
theorem isFourDigits_iff {text : List Char} (hlength : text.length = 4)
    (h : ∀ c ∈ text, c.isDigit = true) (n : ℕ) :
    IsFourDigits n text ↔ n = Nat.ofDigitChars 10 text 0 := by
  have hlt := Decimal.ofDigitChars_lt h
  have hdigits := Decimal.digits_ofDigitChars h
  rw [hlength] at hlt hdigits
  constructor
  · rintro ⟨hn, heq⟩
    apply Decimal.digits_inj hn hlt
    rw [hdigits, heq]
  · rintro rfl
    exact ⟨hlt, hdigits.symm⟩

/-- The year of a date is the number that its first four characters write, unless a plus sign
is the first of them. -/
theorem year_iff {date : String} {first : List Char} (hsize : 4 ≤ (Utf8.encode date.toList).length)
    (hfirst : Utf8.decode ((Utf8.encode date.toList).take 4) = some first)
    (hyear : atoi first = some year) (hpos : 0 < year) :
    (∀ n : ℕ, year = n ↔ IsFourDigits n (date.toList.take 4)) ↔ date.toList.head? ≠ some '+' := by
  have hencode := Utf8.encode_of_decode hfirst
  have htext : Utf8.encode date.toList =
      Utf8.encode first ++ (Utf8.encode date.toList).drop 4 := by
    rw [hencode, List.take_append_drop]
  obtain ⟨digits, rfl | rfl, hne, hdigits, hvalue⟩ := atoi_eq_some_of_pos hyear hpos
  · -- the sign is the first character of the date
    have hhead : date.toList.head? = some '+' := by
      rw [Utf8.encode_cons, List.append_assoc] at htext
      have hplus : ∀ c ∈ ['+'], c.toNat < 0x80 := by simp
      have htake := Utf8.take_of_encode hplus htext
      rw [List.length_singleton] at htake
      cases hdate : date.toList with
      | nil => simp [hdate] at htake
      | cons c rest =>
        simp [hdate] at htake
        simp [htake]
    simp only [hhead, ne_eq, not_true_eq_false, iff_false]
    intro hall
    have hyear := (hall year.toNat).mp (by omega)
    have hmem : '+' ∈ Decimal.digits 4 year.toNat := by
      rw [← hyear.2]
      apply List.mem_of_head?
      rw [List.head?_take, if_neg (by decide), hhead]
    have hdigit := Decimal.isDigit_of_mem_digits hmem
    revert hdigit
    decide
  · have hascii : ∀ c ∈ first, c.toNat < 0x80 := by
      intro c hc
      have hrange := isVisible_of_isDigit hdigits c hc
      omega
    have hlength : first.length = 4 := by
      have hbytes := congrArg List.length hencode
      rw [Utf8.length_encode_ascii hascii, List.length_take] at hbytes
      omega
    have htake := Utf8.take_of_encode hascii htext
    rw [hlength] at htake
    have hhead : date.toList.head? ≠ some '+' := by
      intro hplus
      have hmem : '+' ∈ first := by
        rw [← htake]
        apply List.mem_of_head?
        rw [List.head?_take, if_neg (by decide), hplus]
      have hdigit := hdigits '+' hmem
      revert hdigit
      decide
    simp only [hhead, ne_eq, not_false_eq_true, iff_true]
    intro n
    rw [htake, isFourDigits_iff hlength hdigits, hvalue, Nat.cast_inj, eq_comm]

end Years

/-! ### What is read from the tags -/

/-- What each part of the metadata is read from. -/
structure Reads (P : Platform) (C : Casing) (tags : Tags) (replayGain : ReplayGain)
    (metadata : NormalizedMetadata) : Prop where
  title : requiredSingleTag P tags "TITLE" = .ok metadata.title
  artists : requiredArtistCredits P tags "ARTIST" = .ok metadata.artists
  albumArtists : requiredArtistCredits P tags "ALBUMARTIST" = .ok metadata.albumArtists
  album : requiredSingleTag P tags "ALBUM" = .ok metadata.album
  track : trackPosition P tags = .ok metadata.trackPosition
  disc : discPosition P tags = .ok metadata.discPosition
  year : optionalYear P tags = .ok metadata.year
  genres : metadata.genres = splitGenreTagValues C (tags.get "GENRE")
  lyrics : metadata.lyrics = optionalLyrics tags
  replayGain : metadata.replayGain = replayGain
  numbered : metadata.hasDiscNumber = tags.hasValues "DISCNUMBER"
  identity : metadata.albumIdentityKey = ""

variable {key : String}

section Read

variable {P : Platform} {C : Casing} {tags : Tags} {replayGain : ReplayGain}
  {metadata : NormalizedMetadata}

theorem normalize_eq_ok :
    normalize P C tags replayGain = .ok metadata ↔ Reads P C tags replayGain metadata := by
  rw [normalize]
  constructor
  · intro h
    split_ifs at h
    simp only [Traversal.bind_eq_ok] at h
    obtain ⟨title, htitle, artists, hartists, albumArtists, halbumArtists, album, halbum, track,
      htrack, disc, hdisc, year, hyear, hmetadata⟩ := h
    cases hmetadata
    exact ⟨htitle, hartists, halbumArtists, halbum, htrack, hdisc, hyear, rfl, rfl, rfl, rfl, rfl⟩
  · intro h
    have hnone : (Failure.join [errOf (requiredSingleTag P tags "TITLE"),
        errOf (requiredArtistCredits P tags "ARTIST"),
        errOf (requiredArtistCredits P tags "ALBUMARTIST"),
        errOf (requiredSingleTag P tags "ALBUM"), errOf (trackPosition P tags),
        errOf (discPosition P tags), errOf (optionalYear P tags)]).isEmpty = true := by
      rw [h.title, h.artists, h.albumArtists, h.album, h.track, h.disc, h.year]
      rfl
    rw [if_neg (by rw [hnone]; decide)]
    simp only [Traversal.bind_eq_ok]
    refine ⟨_, h.title, _, h.artists, _, h.albumArtists, _, h.album, _, h.track, _, h.disc, _,
      h.year, ?_⟩
    rw [← h.genres, ← h.lyrics, ← h.numbered, ← h.identity, ← h.replayGain]

theorem requiredArtistCredits_eq_ok {credits : List String}
    (h : requiredArtistCredits P tags key = .ok credits) :
    credits ≠ [] ∧ ∀ credit ∈ credits, ∃ raw, normalizeValue P raw = some credit := by
  have hread : ∃ key, requiredTags P tags key = .ok credits := by
    rw [requiredArtistCredits] at h
    split_ifs at h
    · exact ⟨_, h⟩
    · exact ⟨_, h⟩
  obtain ⟨key, hread⟩ := hread
  obtain ⟨hne, hpairs⟩ := requiredTags_eq_ok.mp hread
  constructor
  · rintro rfl
    cases hpairs_nil : tags.get key with
    | nil => exact hne hpairs_nil
    | cons raw raws =>
      rw [hpairs_nil] at hpairs
      cases hpairs
  · intro credit hcredit
    obtain ⟨raw, -, hnormal⟩ := Traversal.exists_of_mem_right hpairs hcredit
    exact ⟨raw, hnormal⟩

/-- Values that were kept are required and read as they are. -/
theorem requiredTags_kept (hP : IsNormalForm P) {values : List String}
    (hget : tags.get key = values) (hne : values ≠ [])
    (h : ∀ value ∈ values, ∃ raw, normalizeValue P raw = some value) :
    requiredTags P tags key = .ok values := by
  rw [requiredTags_eq_ok, hget]
  refine ⟨hne, List.forall₂_same.mpr ?_⟩
  intro value hvalue
  obtain ⟨raw, hraw⟩ := h value hvalue
  exact hP.normalizeValue_kept hraw

theorem requiredSingleTag_kept (hP : IsNormalForm P) {key value raw : String}
    (hget : tags.get key = [value]) (h : normalizeValue P raw = some value) :
    requiredSingleTag P tags key = .ok value :=
  requiredSingleTag_eq_ok.mpr ⟨value, hget, hP.normalizeValue_kept h⟩

end Read

/-! ### Metadata spelled out -/

/-- The tags with another spelling of the Track's position. -/
def withTrack (tags : Tags) (form : TotalForm) (position : MediaPosition) : Tags :=
  (tags.insert "TRACKNUMBER" (numberValues form position)).insert "TOTALTRACKS"
    (totalValues form position)

/-- The tags with another spelling of the disc's position. -/
def withDisc (tags : Tags) (form : TotalForm) (position : MediaPosition) : Tags :=
  (tags.insert "DISCNUMBER" (numberValues form position)).insert "TOTALDISCS"
    (totalValues form position)

def yearValues (year : ℤ) : List String :=
  if year = 0 then [] else [String.ofList (Decimal.digits 4 year.toNat)]

/-- The values that spell the metadata out, with the totals in the places given. -/
def spelledValues (trackForm discForm : TotalForm) (metadata : NormalizedMetadata) :
    List (Σ _ : String, List String) :=
  [⟨"TITLE", [metadata.title]⟩, ⟨"ARTISTS", metadata.artists⟩,
    ⟨"ALBUMARTISTS", metadata.albumArtists⟩, ⟨"ALBUM", [metadata.album]⟩,
    ⟨"TRACKNUMBER", numberValues trackForm metadata.trackPosition⟩,
    ⟨"TOTALTRACKS", totalValues trackForm metadata.trackPosition⟩,
    ⟨"DISCNUMBER",
      if metadata.hasDiscNumber then numberValues discForm metadata.discPosition else []⟩,
    ⟨"TOTALDISCS",
      totalValues (if metadata.hasDiscNumber then discForm else .own) metadata.discPosition⟩,
    ⟨"GENRE", metadata.genres⟩, ⟨"DATE", yearValues metadata.year⟩,
    ⟨"LYRICS", if metadata.lyrics = "" then [] else [metadata.lyrics]⟩]

def spelled (trackForm discForm : TotalForm) (metadata : NormalizedMetadata) : Tags :=
  (spelledValues trackForm discForm metadata).toAList

theorem get_insert (tags : Tags) (key key' : String) (values : List String) :
    Tags.get (tags.insert key values) key' = if key' = key then values else tags.get key' := by
  rw [Tags.get, Table.lookup_insert_eq]
  split_ifs
  · rfl
  · rfl

section Spelled

variable {P : Platform} {C : Casing} {tags : Tags} {replayGain : ReplayGain}
  {metadata : NormalizedMetadata} {trackForm discForm : TotalForm}

theorem get_spelled (key : String) :
    (spelled trackForm discForm metadata).get key =
      ((spelledValues trackForm discForm metadata).dlookup key).getD [] := by
  rw [Tags.get, spelled, AList.lookup_to_alist]

theorem mem_spelled {values : List String}
    (h : (spelledValues trackForm discForm metadata).dlookup key = some values) :
    key ∈ spelled trackForm discForm metadata := by
  rw [← AList.lookup_isSome, spelled, AList.lookup_to_alist, h]
  rfl

theorem year_spelled (hP : IsNormalForm P) (hget : tags.get "DATE" = yearValues year)
    (h : 0 ≤ year ∧ year < 10 ^ 4) : optionalYear P tags = .ok year := by
  rw [optionalYear_eq_ok]
  by_cases hzero : year = 0
  · rw [yearValues, if_pos hzero] at hget
    exact .inl ⟨by simp [Tags.hasValues, hget], hzero⟩
  · rw [yearValues, if_neg hzero] at hget
    have hdigit : ∀ c ∈ Decimal.digits 4 year.toNat, c.isDigit = true := by
      intro c hc
      have hrange := Decimal.isDigit_of_mem_digits hc
      rw [Decimal.isDigit, Bool.and_eq_true, decide_eq_true_eq, decide_eq_true_eq] at hrange
      exact Char.isDigit_iff_toNat.mpr hrange
    have hne : Decimal.digits 4 year.toNat ≠ [] := by
      rw [← List.length_pos_iff, Decimal.length_digits]
      decide
    have hascii : ∀ c ∈ Decimal.digits 4 year.toNat, c.toNat < 0x80 := by
      intro c hc
      have hrange := isVisible_of_isDigit hdigit c hc
      omega
    have hfour : year.toNat < 10 ^ 4 := by omega
    have hvalue := Decimal.ofDigitChars_digits hfour
    have hread := atoi_of_isDigit hne hdigit (by rw [hvalue]; omega)
    rw [hvalue] at hread
    have hlength := Utf8.length_encode_ascii hascii
    rw [Decimal.length_digits] at hlength
    refine .inr ⟨String.ofList (Decimal.digits 4 year.toNat), Decimal.digits 4 year.toNat,
      ?_, ?_, ?_, ?_, by omega⟩
    · rw [requiredSingleTag_eq_ok]
      refine ⟨_, hget, hP.normalizeValue_visible (isVisible_of_isDigit hdigit) hne ?_⟩
      rw [Decimal.length_digits]
      decide
    · rw [String.toList_ofList, hlength]
    · rw [String.toList_ofList, List.take_of_length_le (by omega), Utf8.decode_encode]
    · rw [hread]
      congr 1
      omega

/-- The year of accepted tags has at most four digits. -/
theorem year_range (h : optionalYear P tags = .ok year) :
    0 ≤ year ∧ year < 10 ^ 4 := by
  rcases optionalYear_eq_ok.mp h with ⟨-, rfl⟩ | ⟨date, first, -, -, hfirst, hread, hpos⟩
  · decide
  · obtain ⟨digits, htext, -, hdigits, rfl⟩ := atoi_eq_some_of_pos hread hpos
    have hlength : digits.length ≤ 4 := by
      have hbytes := congrArg List.length (Utf8.encode_of_decode hfirst)
      have hascii : ∀ c ∈ first, c.toNat < 0x80 := by
        have hvisible := isVisible_of_isDigit hdigits
        intro c hc
        rcases htext with rfl | rfl
        · rcases List.mem_cons.mp hc with rfl | hrest
          · decide
          · exact Nat.lt_trans (hvisible c hrest).2 (by decide)
        · exact Nat.lt_trans (hvisible c hc).2 (by decide)
      rw [Utf8.length_encode_ascii hascii, List.length_take] at hbytes
      rcases htext with rfl | rfl
      · rw [List.length_cons] at hbytes
        omega
      · omega
    have hlt := Decimal.ofDigitChars_lt hdigits
    have hpow : 10 ^ digits.length ≤ 10 ^ 4 := Nat.pow_le_pow_right (by decide) hlength
    omega

/-- Spelled out again, the metadata is read to itself where its genres and lyrics are. -/
theorem reads_spelled_iff (hP : IsNormalForm P) (h : Reads P C tags replayGain metadata) :
    Reads P C (spelled trackForm discForm metadata) replayGain metadata ↔
      splitGenreTagValues C metadata.genres = metadata.genres ∧
        optionalLyrics (spelled trackForm discForm metadata) = metadata.lyrics := by
  have hdisc := isPosition_discPosition h.disc
  constructor
  · intro hread
    have hgenres := hread.genres
    rw [get_spelled] at hgenres
    exact ⟨hgenres.symm, hread.lyrics.symm⟩
  · rintro ⟨hgenres, hlyrics⟩
    obtain ⟨_, -, htitle⟩ := requiredSingleTag_eq_ok.mp h.title
    obtain ⟨_, -, halbum⟩ := requiredSingleTag_eq_ok.mp h.album
    have hartists := requiredArtistCredits_eq_ok h.artists
    have halbumArtists := requiredArtistCredits_eq_ok h.albumArtists
    constructor
    · exact requiredSingleTag_kept hP (get_spelled _) htitle
    · rw [requiredArtistCredits, if_pos (mem_spelled rfl)]
      exact requiredTags_kept hP (get_spelled _) hartists.1 hartists.2
    · rw [requiredArtistCredits, if_pos (mem_spelled rfl)]
      exact requiredTags_kept hP (get_spelled _) halbumArtists.1 halbumArtists.2
    · exact requiredSingleTag_kept hP (get_spelled _) halbum
    · exact trackPosition_spelled hP (isPosition_trackPosition h.track) (get_spelled _)
        (get_spelled _)
    · by_cases hnumbered : metadata.hasDiscNumber = true
      · apply @discPosition_spelled P _ discForm _ hP hdisc.1
        · rw [get_spelled]
          exact if_pos hnumbered
        · rw [get_spelled]
          exact congrArg (totalValues · metadata.discPosition) (if_pos hnumbered)
      · have hvalues : tags.hasValues "DISCNUMBER" = false := by
          rw [← h.numbered]
          exact Bool.eq_false_iff.mpr hnumbered
        apply discPosition_unnumbered hP hdisc.1 (hdisc.2 hvalues).1 (hdisc.2 hvalues).2
        · rw [get_spelled]
          exact if_neg hnumbered
        · rw [get_spelled]
          exact congrArg (totalValues · metadata.discPosition) (if_neg hnumbered)
    · exact year_spelled hP (get_spelled _) (year_range h.year)
    · rw [get_spelled]
      exact hgenres.symm
    · exact hlyrics.symm
    · exact h.replayGain
    · rw [Tags.hasValues, get_spelled]
      cases hnumbered : metadata.hasDiscNumber with
      | false => simp [spelledValues, hnumbered]
      | true => simp [spelledValues, hnumbered, numberValues]
    · exact h.identity

end Spelled

/-! ### Totals in other places -/

section Totals

variable {P : Platform} {C : Casing} {tags other : Tags} {replayGain : ReplayGain}
  {metadata : NormalizedMetadata}

def positionKeys : List String := ["TRACKNUMBER", "TOTALTRACKS", "DISCNUMBER", "TOTALDISCS"]

/-- Tags with the same values, those of the positions apart. -/
structure SameBesides (tags other : Tags) : Prop where
  get : ∀ key, key ∉ positionKeys → other.get key = tags.get key
  mem : ∀ key, key ∉ positionKeys → (key ∈ other ↔ key ∈ tags)

theorem requiredTags_congr (h : other.get key = tags.get key) :
    requiredTags P other key = requiredTags P tags key := by
  rw [requiredTags, requiredTags, h]

theorem requiredSingleTag_congr (h : other.get key = tags.get key) :
    requiredSingleTag P other key = requiredSingleTag P tags key := by
  rw [requiredSingleTag, requiredSingleTag, requiredTags_congr h]

theorem SameBesides.requiredArtistCredits (h : SameBesides tags other) (hkey : key ∉ positionKeys)
    (hplural : key ++ "S" ∉ positionKeys) :
    requiredArtistCredits P other key = requiredArtistCredits P tags key := by
  rw [Inspect.requiredArtistCredits, Inspect.requiredArtistCredits,
    requiredTags_congr (h.get _ hkey), requiredTags_congr (h.get _ hplural)]
  simp only [h.mem _ hplural]

theorem Reads.besides (h : Reads P C tags replayGain metadata) (hsame : SameBesides tags other)
    (htrack : trackPosition P other = .ok metadata.trackPosition)
    (hdisc : discPosition P other = .ok metadata.discPosition)
    (hnumbered : other.hasValues "DISCNUMBER" = tags.hasValues "DISCNUMBER") :
    Reads P C other replayGain metadata where
  title := by rw [requiredSingleTag_congr (hsame.get _ (by decide)), h.title]
  artists := by rw [hsame.requiredArtistCredits (by decide) (by decide), h.artists]
  albumArtists := by rw [hsame.requiredArtistCredits (by decide) (by decide), h.albumArtists]
  album := by rw [requiredSingleTag_congr (hsame.get _ (by decide)), h.album]
  track := htrack
  disc := hdisc
  year := by
    have hdate := hsame.get "DATE" (by decide)
    rw [optionalYear, Tags.hasValues, hdate, requiredSingleTag_congr hdate]
    exact h.year
  genres := by rw [hsame.get _ (by decide), h.genres]
  lyrics := by
    rw [h.lyrics, optionalLyrics, optionalLyrics, lyricsValues, lyricsValues]
    simp only [List.flatMap_cons, List.flatMap_nil, hsame.get "LYRICS" (by decide),
      hsame.get "UNSYNCEDLYRICS" (by decide), hsame.get "UNSYNCED LYRICS" (by decide)]
  replayGain := h.replayGain
  numbered := by rw [hnumbered, h.numbered]
  identity := h.identity

theorem sameBesides_insert {key key' : String} (hkey : key ∈ positionKeys)
    (hkey' : key' ∈ positionKeys) (values values' : List String) :
    SameBesides tags ((tags.insert key values).insert key' values') where
  get other hother := by
    rw [get_insert, get_insert, if_neg (ne_of_mem_of_not_mem hkey' hother).symm,
      if_neg (ne_of_mem_of_not_mem hkey hother).symm]
  mem other hother := by
    have hne := (ne_of_mem_of_not_mem hkey' hother).symm
    have hne' := (ne_of_mem_of_not_mem hkey hother).symm
    simp [AList.mem_insert, hne, hne']

theorem requiredPosition_congr (h : other.get key = tags.get key) :
    requiredPosition P other key = requiredPosition P tags key := by
  rw [requiredPosition, requiredPosition, requiredSingleTag_congr h]

theorem mergePositionTotal_congr (h : other.get key = tags.get key) (position : MediaPosition) :
    mergePositionTotal P other position key = mergePositionTotal P tags position key := by
  have htotal : optionalTotal P other key = optionalTotal P tags key := by
    rw [optionalTotal, optionalTotal, Tags.hasValues, Tags.hasValues, h, requiredSingleTag_congr h]
  rw [mergePositionTotal, mergePositionTotal, htotal]

theorem trackPosition_congr (hnumber : other.get "TRACKNUMBER" = tags.get "TRACKNUMBER")
    (htotal : other.get "TOTALTRACKS" = tags.get "TOTALTRACKS") :
    trackPosition P other = trackPosition P tags := by
  rw [trackPosition, trackPosition, requiredPosition_congr hnumber]
  simp only [mergePositionTotal_congr htotal]

theorem discPosition_congr (hnumber : other.get "DISCNUMBER" = tags.get "DISCNUMBER")
    (htotal : other.get "TOTALDISCS" = tags.get "TOTALDISCS") :
    discPosition P other = discPosition P tags := by
  rw [discPosition, discPosition, numberedDisc, numberedDisc, Tags.hasValues, Tags.hasValues,
    hnumber, requiredPosition_congr hnumber]
  simp only [mergePositionTotal_congr htotal]

/-- Where the total of the Track stands makes no difference. -/
theorem Reads.withTrack (hP : IsNormalForm P) (h : Reads P C tags replayGain metadata)
    (form : TotalForm) :
    Reads P C (withTrack tags form metadata.trackPosition) replayGain metadata := by
  have hnumber : (Inspect.withTrack tags form metadata.trackPosition).get "DISCNUMBER" =
      tags.get "DISCNUMBER" := by
    rw [Inspect.withTrack, get_insert, get_insert, if_neg (by decide), if_neg (by decide)]
  have htotal : (Inspect.withTrack tags form metadata.trackPosition).get "TOTALDISCS" =
      tags.get "TOTALDISCS" := by
    rw [Inspect.withTrack, get_insert, get_insert, if_neg (by decide), if_neg (by decide)]
  apply h.besides (sameBesides_insert (by decide) (by decide) _ _)
  · apply @trackPosition_spelled P _ form _ hP (isPosition_trackPosition h.track)
    · rw [get_insert, get_insert]
      rfl
    · rw [get_insert]
      rfl
  · exact (discPosition_congr hnumber htotal).trans h.disc
  · rw [Tags.hasValues, Tags.hasValues, ← hnumber]
    rfl

/-- Where the total of the disc stands makes no difference to tags that number the disc. -/
theorem Reads.withDisc (hP : IsNormalForm P) (h : Reads P C tags replayGain metadata)
    (hnumbered : tags.hasValues "DISCNUMBER" = true) (form : TotalForm) :
    Reads P C (withDisc tags form metadata.discPosition) replayGain metadata := by
  have hnumber : (Inspect.withDisc tags form metadata.discPosition).get "DISCNUMBER" =
      numberValues form metadata.discPosition := by
    rw [Inspect.withDisc, get_insert, get_insert]
    rfl
  apply h.besides (sameBesides_insert (by decide) (by decide) _ _)
  · rw [trackPosition_congr _ _, h.track]
    · rw [get_insert, get_insert, if_neg (by decide), if_neg (by decide)]
    · rw [get_insert, get_insert, if_neg (by decide), if_neg (by decide)]
  · apply @discPosition_spelled P _ form _ hP (isPosition_discPosition h.disc).1 hnumber
    rw [Inspect.withDisc, get_insert]
    rfl
  · rw [hnumbered]
    have hvalues : (Inspect.withDisc tags form metadata.discPosition).hasValues "DISCNUMBER" =
        true := by
      rw [Tags.hasValues, hnumber]
      rfl
    exact hvalues

end Totals

/-! ### Well formed and stable -/

section Sound

variable (P : Platform) (C : Casing)

/-- The normalised metadata of the tags is well formed, does not depend on where a total is
written, and is the same when its own tags are normalised. -/
structure IsWellFormed (tags : Tags) (replayGain : ReplayGain) (metadata : NormalizedMetadata) :
    Prop where
  title : IsIdentityValue metadata.title
  album : IsIdentityValue metadata.album
  artists : metadata.artists ≠ [] ∧ ∀ artist ∈ metadata.artists, IsIdentityValue artist
  albumArtists : metadata.albumArtists ≠ [] ∧
    ∀ artist ∈ metadata.albumArtists, IsIdentityValue artist
  track : IsPosition metadata.trackPosition
  disc : IsPosition metadata.discPosition
  unnumbered : tags.hasValues "DISCNUMBER" = false →
    metadata.discPosition.number = 1 ∧ metadata.discPosition.total ≤ 1
  noDate : metadata.year = 0 ↔ tags.hasValues "DATE" = false
  year : ∀ raw date, tags.get "DATE" = [raw] → normalizeValue P raw = some date →
    ∀ n : ℕ, metadata.year = n ↔ IsFourDigits n (date.toList.take 4)
  trackTotal : ∀ form, normalize P C (withTrack tags form metadata.trackPosition) replayGain =
    .ok metadata
  discTotal : tags.hasValues "DISCNUMBER" = true → ∀ form,
    normalize P C (withDisc tags form metadata.discPosition) replayGain = .ok metadata
  again : ∀ trackForm discForm,
    normalize P C (spelled trackForm discForm metadata) replayGain = .ok metadata

/-- The date does not begin with a plus sign, and neither the lyrics nor a part of a genre begins
with the mark of invalid UTF-8 once that of its own value is dropped. -/
structure IsPlain (tags : Tags) : Prop where
  date : ∀ raw date, tags.get "DATE" = [raw] → normalizeValue P raw = some date →
    date.toList.head? ≠ some '+'
  lyrics : firstLyricsCharacter tags ≠ some invalidUtf8Marker
  genres : ∀ value ∈ tags.get "GENRE", ∀ part ∈ genreParts (withoutMarker value.toList),
    part.head? ≠ some invalidUtf8Marker

end Sound

section Main

variable {P : Platform} {C : Casing} {tags : Tags} {replayGain : ReplayGain}
  {metadata : NormalizedMetadata}

/-- The year is that of the first four characters exactly where they are not signed. -/
theorem Reads.year_iff (h : Reads P C tags replayGain metadata) :
    (∀ raw date, tags.get "DATE" = [raw] → normalizeValue P raw = some date →
      ∀ n : ℕ, metadata.year = n ↔ IsFourDigits n (date.toList.take 4)) ↔
    ∀ raw date, tags.get "DATE" = [raw] → normalizeValue P raw = some date →
      date.toList.head? ≠ some '+' := by
  apply forall₄_congr
  intro raw date hget hdate
  rcases optionalYear_eq_ok.mp h.year with
    ⟨hnone, -⟩ | ⟨date', first, hread, hsize, hfirst, hyear, hpos⟩
  · rw [Tags.hasValues, hget] at hnone
    cases hnone
  · rw [requiredSingleTag_eq_ok, hget] at hread
    obtain ⟨raw', hraw, hdate'⟩ := hread
    cases hraw
    rw [hdate] at hdate'
    cases hdate'
    exact Inspect.year_iff hsize hfirst hyear hpos

theorem Reads.noDate (h : Reads P C tags replayGain metadata) :
    metadata.year = 0 ↔ tags.hasValues "DATE" = false := by
  rcases optionalYear_eq_ok.mp h.year with
    ⟨hnone, hzero⟩ | ⟨date, first, hread, -, -, -, hpos⟩
  · simp [hnone, hzero]
  · have hsome := hasValues_of_requiredSingleTag hread
    simp only [hsome, Bool.true_eq_false, iff_false]
    omega

theorem lyricsValues_spelled (trackForm discForm : TotalForm) :
    lyricsValues (spelled trackForm discForm metadata) =
      if metadata.lyrics = "" then [] else [metadata.lyrics] := by
  rw [lyricsValues]
  simp only [List.flatMap_cons, List.flatMap_nil, get_spelled]
  simp [spelledValues]

/-- Accepted metadata is well formed and stable exactly where the tags are plain. -/
theorem normalize_isWellFormed_iff (hP : IsNormalForm P) (hC : KeepsMarker C)
    (h : normalize P C tags replayGain = .ok metadata) :
    IsWellFormed P C tags replayGain metadata ↔ IsPlain P tags := by
  have hread := normalize_eq_ok.mp h
  have hlyrics : ∀ trackForm discForm,
      optionalLyrics (spelled trackForm discForm metadata) = optionalLyrics tags ↔
        firstLyricsCharacter tags ≠ some invalidUtf8Marker := by
    intro trackForm discForm
    apply optionalLyrics_again_iff
    rw [lyricsValues_spelled, hread.lyrics]
  have hgenres := splitGenreTagValues_again_iff hC (tags.get "GENRE")
  rw [← hread.lyrics] at hlyrics
  rw [← hread.genres] at hgenres
  constructor
  · intro hwell
    have hagain := (reads_spelled_iff hP hread).mp (normalize_eq_ok.mp (hwell.again .slash .slash))
    exact ⟨hread.year_iff.mp hwell.year, (hlyrics _ _).mp hagain.2, hgenres.mp hagain.1⟩
  · intro hplain
    obtain ⟨_, -, htitle⟩ := requiredSingleTag_eq_ok.mp hread.title
    obtain ⟨_, -, halbum⟩ := requiredSingleTag_eq_ok.mp hread.album
    have hartists := requiredArtistCredits_eq_ok hread.artists
    have halbumArtists := requiredArtistCredits_eq_ok hread.albumArtists
    have hkept : ∀ value, (∃ raw, normalizeValue P raw = some value) → IsIdentityValue value := by
      rintro value ⟨raw, hraw⟩
      exact isIdentityValue_of_normalizeValue hraw
    have hdisc := isPosition_discPosition hread.disc
    exact
      { title := hkept _ ⟨_, htitle⟩
        album := hkept _ ⟨_, halbum⟩
        artists := ⟨hartists.1, fun artist hartist => hkept _ (hartists.2 artist hartist)⟩
        albumArtists :=
          ⟨halbumArtists.1, fun artist hartist => hkept _ (halbumArtists.2 artist hartist)⟩
        track := isPosition_trackPosition hread.track
        disc := hdisc.1
        unnumbered := hdisc.2
        noDate := hread.noDate
        year := hread.year_iff.mpr hplain.date
        trackTotal := fun form => normalize_eq_ok.mpr (hread.withTrack hP form)
        discTotal := fun hnumbered form => normalize_eq_ok.mpr (hread.withDisc hP hnumbered form)
        again := fun trackForm discForm => normalize_eq_ok.mpr
          ((reads_spelled_iff hP hread).mpr
            ⟨hgenres.mpr hplain.genres, (hlyrics trackForm discForm).mpr hplain.lyrics⟩) }

end Main

/-! ### A song -/

section Song

open ManagedImport (plainPlatform)

def asciiCasing : Casing where
  toUppercase c := [c.toUpper]
  toLowercase := List.map Char.toLower

theorem keepsMarker_asciiCasing : KeepsMarker asciiCasing := by
  intro value
  cases value with
  | nil => rfl
  | cons c value =>
    simp only [asciiCasing, List.map_cons, List.head?_cons, Option.some.injEq]
    by_cases hupper : 'A'.val ≤ c.val ∧ c.val ≤ 'Z'.val
    · -- an upper-case letter, which neither is nor becomes the mark
      have hall : ∀ n ≤ 90, 65 ≤ n → (Char.ofNat n).toLower ≠ invalidUtf8Marker ∧
          Char.ofNat n ≠ invalidUtf8Marker := by decide
      have hletter := hall c.toNat hupper.2 hupper.1
      rw [Char.ofNat_toNat] at hletter
      simp [hletter]
    · have hkept : c.toLower = c := dif_neg hupper
      rw [hkept]

theorem isNormalForm_plainPlatform : IsNormalForm plainPlatform :=
  ⟨fun _ => rfl, fun _ _ => rfl, fun _ _ _ _ => rfl, fun _ _ _ _ => rfl⟩

def noGain : ReplayGain := ⟨none, none, none, none⟩

def songTags (date : String) : Tags :=
  [⟨"TITLE", ["Song"]⟩, ⟨"ARTIST", ["Singer"]⟩, ⟨"ALBUMARTIST", ["Band"]⟩, ⟨"ALBUM", ["Songs"]⟩,
    ⟨"TRACKNUMBER", ["3/12"]⟩, ⟨"DATE", [date]⟩].toAList

def song (year : ℤ) : NormalizedMetadata where
  albumIdentityKey := ""
  title := "Song"
  artists := ["Singer"]
  albumArtists := ["Band"]
  album := "Songs"
  trackPosition := ⟨3, 12⟩
  discPosition := ⟨1, 0⟩
  genres := []
  year
  replayGain := noGain
  lyrics := ""
  hasDiscNumber := false

theorem normalize_isWellFormed_iff_song :
    IsWellFormed plainPlatform asciiCasing (songTags "2021") noGain (song 2021) ↔
      IsPlain plainPlatform (songTags "2021") :=
  normalize_isWellFormed_iff isNormalForm_plainPlatform keepsMarker_asciiCasing rfl

/-- A date that begins with a plus sign is accepted, with a year of three digits. -/
theorem signed_date_not_isWellFormed :
    normalize plainPlatform asciiCasing (songTags "+123") noGain = .ok (song 123) ∧
      ¬IsWellFormed plainPlatform asciiCasing (songTags "+123") noGain (song 123) := by
  have hread : normalize plainPlatform asciiCasing (songTags "+123") noGain = .ok (song 123) := rfl
  refine ⟨hread, fun hwell => ?_⟩
  exact (normalize_eq_ok.mp hread).year_iff.mp hwell.year "+123" "+123" rfl rfl rfl

end Song

end Harmony.Inspect
