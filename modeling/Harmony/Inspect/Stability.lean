/-
# Genres and lyrics read again

Genres are split at their delimiters and lyrics get line feeds as line ends. What comes of
either is read again as it is, unless it begins with the mark of a value that was not valid
UTF-8: the mark is dropped from the front of every value that is read.
-/

import Mathlib.Algebra.GroupWithZero.Nat
import Harmony.Inspect.Metadata
import Harmony.Library.Words

namespace Harmony.Inspect

theorem withoutMarker_of_head {value : List Char} (h : value.head? ≠ some invalidUtf8Marker) :
    withoutMarker value = value :=
  if_neg h

theorem withoutMarker_of_marked {value : List Char} (h : value.head? = some invalidUtf8Marker) :
    withoutMarker value = value.tail ∧ value.length = value.tail.length + 1 := by
  cases value with
  | nil => cases h
  | cons c value => exact ⟨if_pos h, List.length_cons⟩

variable (value : List Char)

theorem length_withoutMarker_le :
    (withoutMarker value).length ≤ value.length := by
  rw [withoutMarker]
  split_ifs
  · rw [List.length_tail]
    omega
  · exact Nat.le_refl _

/-! ### The first of every case -/

section Cases

variable {C : Casing}

theorem newCases_sublist (seen values : List (List Char)) :
    (newCases C seen values).Sublist values := by
  induction values generalizing seen with
  | nil => exact .slnil
  | cons value values ih =>
    rw [newCases]
    split_ifs
    · exact (ih seen).cons value
    · exact (ih _).cons_cons value

/-- No two of what is kept have one lower case, and none has one seen before. -/
theorem newCases_distinct (seen values : List (List Char)) :
    ((newCases C seen values).map C.toLowercase).Nodup ∧
      ∀ value ∈ newCases C seen values, C.toLowercase value ∉ seen := by
  induction values generalizing seen with
  | nil => exact ⟨List.nodup_nil, nofun⟩
  | cons value values ih =>
    rw [newCases]
    split_ifs with hseen
    · exact ih seen
    · have hrest := ih (C.toLowercase value :: seen)
      rw [List.map_cons, List.nodup_cons, List.forall_mem_cons]
      refine ⟨⟨?_, hrest.1⟩, hseen, ?_⟩
      · intro hmem
        obtain ⟨other, hother, hcase⟩ := List.mem_map.mp hmem
        apply hrest.2 other hother
        rw [hcase]
        exact List.mem_cons_self
      · intro other hother hmem
        exact hrest.2 other hother (List.mem_cons_of_mem _ hmem)

/-- Values of different cases are all kept. -/
theorem newCases_eq_self {seen values : List (List Char)}
    (hdistinct : (values.map C.toLowercase).Nodup)
    (hseen : ∀ value ∈ values, C.toLowercase value ∉ seen) : newCases C seen values = values := by
  induction values generalizing seen with
  | nil => rfl
  | cons value values ih =>
    rw [List.map_cons, List.nodup_cons] at hdistinct
    rw [List.forall_mem_cons] at hseen
    rw [newCases, if_neg hseen.1, ih hdistinct.2]
    intro other hother hmem
    rcases List.mem_cons.mp hmem with hsame | hmem
    · exact hdistinct.1 (List.mem_map.mpr ⟨other, hother, hsame⟩)
    · exact hseen.2 other hother hmem

theorem newCases_singleton : newCases C [] [value] = [value] := by
  simp [newCases]

/-- Every value has its case among what was seen or is kept. -/
theorem exists_case_of_mem {seen values : List (List Char)} {value : List Char}
    (h : value ∈ values) :
    C.toLowercase value ∈ seen ∨
      ∃ kept ∈ newCases C seen values, C.toLowercase kept = C.toLowercase value := by
  induction values generalizing seen with
  | nil => cases h
  | cons first values ih =>
    rw [newCases]
    rcases List.mem_cons.mp h with rfl | hmem
    · split_ifs with hseen
      · exact .inl hseen
      · exact .inr ⟨value, List.mem_cons_self, rfl⟩
    · split_ifs with hseen
      · exact ih hmem
      · rcases @ih (C.toLowercase first :: seen) hmem with hcase | ⟨kept, hkept, hcase⟩
        · rcases List.mem_cons.mp hcase with hfirst | hcase
          · exact .inr ⟨first, List.mem_cons_self, hfirst.symm⟩
          · exact .inl hcase
        · exact .inr ⟨kept, List.mem_cons_of_mem _ hkept, hcase⟩

end Cases

/-! ### Genres -/

/-- The parts of a delimited text that are not blank. -/
def genreParts (raw : List Char) : List (List Char) :=
  (((Chars.trim raw).splitOnP isGenreDelimiter).map Chars.trim).filter (· ≠ [])

/-- A genre: trimmed, not empty, and without delimiters. -/
structure IsGenre (genre : List Char) : Prop where
  nonempty : genre ≠ []
  trimmed : Chars.trim genre = genre
  undelimited : ∀ c ∈ genre, isGenreDelimiter c = false

theorem isGenre_of_mem_genreParts {raw genre : List Char} (h : genre ∈ genreParts raw) :
    IsGenre genre := by
  obtain ⟨hmem, hne⟩ := List.mem_filter.mp h
  obtain ⟨piece, hpiece, rfl⟩ := List.mem_map.mp hmem
  refine ⟨by simpa using hne, Chars.trim_trim piece, ?_⟩
  intro c hc
  exact Chars.not_sep_of_mem _ piece hpiece ((Chars.trim_part piece).subset hc)

/-- Without delimiters there is at most one part. -/
theorem genreParts_of_undelimited {raw : List Char}
    (h : ∀ c ∈ raw, isGenreDelimiter c = false) :
    genreParts raw = if Chars.trim raw = [] then [] else [Chars.trim raw] := by
  have hsplit : (Chars.trim raw).splitOnP isGenreDelimiter = [Chars.trim raw] :=
    List.splitOnP_eq_singleton fun c hc => h c ((Chars.trim_part raw).subset hc)
  rw [genreParts, hsplit, List.map_singleton, Chars.trim_trim]
  split_ifs with hempty
  · simp [hempty]
  · simp [hempty]

section Genres

variable {C : Casing}

theorem splitGenres_eq (raw : List Char) : splitGenres C raw = newCases C [] (genreParts raw) :=
  rfl

theorem isGenre_of_mem_splitGenreTagValues {values : List String} {genre : String}
    (h : genre ∈ splitGenreTagValues C values) : IsGenre genre.toList := by
  obtain ⟨text, htext, rfl⟩ := List.mem_map.mp h
  obtain ⟨value, -, hsplit⟩ := List.mem_flatMap.mp ((newCases_sublist _ _).subset htext)
  rw [String.toList_ofList]
  exact isGenre_of_mem_genreParts ((newCases_sublist _ _).subset hsplit)

/-- A genre without the mark at its front is read as itself. -/
theorem splitGenres_withoutMarker {genre : List Char} (h : IsGenre genre)
    (hhead : genre.head? ≠ some invalidUtf8Marker) :
    splitGenres C (withoutMarker genre) = [genre] := by
  rw [withoutMarker_of_head hhead, splitGenres_eq, genreParts_of_undelimited h.undelimited,
    h.trimmed, if_neg h.nonempty]
  exact newCases_singleton genre

theorem splitGenreTagValues_distinct (values : List String) :
    ((splitGenreTagValues C values).map fun genre => C.toLowercase genre.toList).Nodup := by
  rw [splitGenreTagValues, List.map_map]
  simp only [Function.comp_def, String.toList_ofList]
  exact (newCases_distinct _ _).1

/-- Genres without the mark are read again as they are. -/
theorem splitGenreTagValues_again {values : List String}
    (h : ∀ genre ∈ splitGenreTagValues C values, genre.toList.head? ≠ some invalidUtf8Marker) :
    splitGenreTagValues C (splitGenreTagValues C values) = splitGenreTagValues C values := by
  have hdistinct := splitGenreTagValues_distinct (C := C) values
  have hgenre : ∀ genre, genre ∈ splitGenreTagValues C values → IsGenre genre.toList :=
    fun _ hmem => isGenre_of_mem_splitGenreTagValues hmem
  generalize splitGenreTagValues C values = genres at h hdistinct hgenre
  have hsplit : (genres.flatMap fun value => splitGenres C (withoutMarker value.toList)) =
      genres.map String.toList := by
    clear hdistinct
    induction genres with
    | nil => rfl
    | cons genre genres ih =>
      rw [List.forall_mem_cons] at h hgenre
      rw [List.flatMap_cons, splitGenres_withoutMarker hgenre.1 h.1, ih h.2 hgenre.2]
      rfl
  rw [splitGenreTagValues, hsplit, newCases_eq_self (by simpa [Function.comp_def] using hdistinct)
    (fun _ _ => List.not_mem_nil), List.map_map]
  simp [Function.comp_def]

/-- How many characters some texts have. -/
def totalLength (values : List (List Char)) : ℕ := (values.map List.length).sum

theorem totalLength_cons (values : List (List Char)) :
    totalLength (value :: values) = value.length + totalLength values := by
  rw [totalLength, List.map_cons, List.sum_cons]
  rfl

theorem totalLength_append (first second : List (List Char)) :
    totalLength (first ++ second) = totalLength first + totalLength second := by
  rw [totalLength, List.map_append, List.sum_append]
  rfl

theorem totalLength_mono {values kept : List (List Char)} (h : kept.Sublist values) :
    totalLength kept ≤ totalLength values := by
  induction h with
  | slnil => exact Nat.le_refl _
  | cons value _ ih =>
    rw [totalLength_cons]
    omega
  | cons_cons value _ ih =>
    rw [totalLength_cons, totalLength_cons]
    omega

theorem totalLength_splitGenres_le {genre : List Char} (h : IsGenre genre) :
    totalLength (splitGenres C (withoutMarker genre)) ≤ (withoutMarker genre).length := by
  have hundelimited : ∀ c ∈ withoutMarker genre, isGenreDelimiter c = false := by
    intro c hc
    apply h.undelimited c
    rw [withoutMarker] at hc
    split_ifs at hc
    · exact List.mem_of_mem_tail hc
    · exact hc
  have htrim := Chars.length_trim_le (withoutMarker genre)
  rw [splitGenres_eq, genreParts_of_undelimited hundelimited]
  split_ifs
  · exact Nat.zero_le _
  · rw [newCases_singleton]
    simpa [totalLength] using htrim

/-- Read again, genres are not longer, and shorter where one has the mark at its front. -/
theorem totalLength_flatMap_le {genres : List String}
    (h : ∀ genre ∈ genres, IsGenre genre.toList) :
    totalLength (genres.flatMap fun value => splitGenres C (withoutMarker value.toList)) ≤
      totalLength (genres.map String.toList) ∧
    ((∃ genre ∈ genres, genre.toList.head? = some invalidUtf8Marker) →
      totalLength (genres.flatMap fun value => splitGenres C (withoutMarker value.toList)) <
        totalLength (genres.map String.toList)) := by
  induction genres with
  | nil => simp [totalLength]
  | cons genre genres ih =>
    rw [List.forall_mem_cons] at h
    have hrest := ih h.2
    have hfirst := totalLength_splitGenres_le (C := C) h.1
    have hshort := length_withoutMarker_le genre.toList
    rw [List.flatMap_cons, totalLength_append, List.map_cons, totalLength_cons]
    constructor
    · omega
    · rintro ⟨marked, hmem, hhead⟩
      rcases List.mem_cons.mp hmem with rfl | hmem
      · have hdrop := withoutMarker_of_marked hhead
        have hlt : (withoutMarker marked.toList).length < marked.toList.length := by
          rw [hdrop.1]
          omega
        omega
      · have hlater := hrest.2 ⟨marked, hmem, hhead⟩
        omega

/-- A genre with the mark at its front is read as something shorter. -/
theorem splitGenreTagValues_shorter {genres : List String}
    (hgenre : ∀ genre ∈ genres, IsGenre genre.toList)
    (hmarked : ∃ genre ∈ genres, genre.toList.head? = some invalidUtf8Marker) :
    splitGenreTagValues C genres ≠ genres := by
  have hshorter := (totalLength_flatMap_le (C := C) hgenre).2 hmarked
  intro hsame
  have hkept := totalLength_mono (newCases_sublist (C := C) []
    (genres.flatMap fun value => splitGenres C (withoutMarker value.toList)))
  have hback : newCases C [] (genres.flatMap fun value =>
      splitGenres C (withoutMarker value.toList)) = genres.map String.toList := by
    conv_rhs => rw [← hsame]
    simp [splitGenreTagValues, Function.comp_def]
  rw [hback] at hkept
  omega

/-- The mark survives in the lower case, and nothing else turns into it. -/
def KeepsMarker (C : Casing) : Prop :=
  ∀ value, (C.toLowercase value).head? = some invalidUtf8Marker ↔
    value.head? = some invalidUtf8Marker

/-- Genres are read again as they are exactly where no part of the raw values has the mark at
its front. -/
theorem splitGenreTagValues_again_iff (hC : KeepsMarker C) (values : List String) :
    splitGenreTagValues C (splitGenreTagValues C values) = splitGenreTagValues C values ↔
      ∀ value ∈ values, ∀ part ∈ genreParts (withoutMarker value.toList),
        part.head? ≠ some invalidUtf8Marker := by
  constructor
  · intro hagain value hvalue part hpart hhead
    -- what is kept of the part's case has the mark as well
    have hsplit : ∃ kept ∈ splitGenres C (withoutMarker value.toList),
        C.toLowercase kept = C.toLowercase part := by
      rcases @exists_case_of_mem C [] _ _ hpart with hnone | hkept
      · cases hnone
      · exact hkept
    obtain ⟨kept, hkept, hcase⟩ := hsplit
    have hall : ∃ genre ∈ newCases C [] (values.flatMap fun value =>
        splitGenres C (withoutMarker value.toList)), C.toLowercase genre = C.toLowercase kept := by
      have hmem : kept ∈ values.flatMap fun value => splitGenres C (withoutMarker value.toList) :=
        List.mem_flatMap.mpr ⟨value, hvalue, hkept⟩
      rcases @exists_case_of_mem C [] _ _ hmem with hnone | hgenre
      · cases hnone
      · exact hgenre
    obtain ⟨genre, hgenre, hsame⟩ := hall
    apply splitGenreTagValues_shorter (C := C)
      (fun genre => isGenre_of_mem_splitGenreTagValues) ?_ hagain
    refine ⟨String.ofList genre, List.mem_map_of_mem hgenre, ?_⟩
    rw [String.toList_ofList, ← hC genre, hsame, hcase, hC part]
    exact hhead
  · intro hplain
    apply splitGenreTagValues_again
    intro genre hgenre
    obtain ⟨text, htext, rfl⟩ := List.mem_map.mp hgenre
    obtain ⟨value, hvalue, hsplit⟩ := List.mem_flatMap.mp ((newCases_sublist _ _).subset htext)
    rw [String.toList_ofList]
    exact hplain value hvalue text ((newCases_sublist _ _).subset hsplit)

end Genres

/-! ### Lyrics -/

/-- The first character of a lyrics value that is not white space, its mark apart. -/
def firstCharacter (value : String) : Option Char :=
  (withoutMarker value.toList).find? fun c => !Chars.isWhitespace c

theorem find?_lineFeeds (text : List Char) :
    (lineFeeds text).find? (fun c => !Chars.isWhitespace c) =
      text.find? fun c => !Chars.isWhitespace c := by
  induction text using lineFeeds.induct with
  | case1 rest ih =>
    -- a line end of two characters
    rw [lineFeeds]
    simpa [Chars.isWhitespace] using ih
  | case2 c rest hpair ih =>
    rw [lineFeeds.eq_2 _ _ hpair, List.find?_cons, List.find?_cons, ih]
    split_ifs with hreturn
    · rw [hreturn]
      rfl
    · rfl
  | case3 => rfl

theorem head?_normalizedLyrics (value : String) :
    (normalizedLyrics value).head? = firstCharacter value := by
  rw [normalizedLyrics, Chars.head?_trim, find?_lineFeeds, firstCharacter]

theorem not_mem_lineFeeds (text : List Char) : '\r' ∉ lineFeeds text := by
  induction text using lineFeeds.induct with
  | case1 rest ih =>
    rw [lineFeeds]
    simpa using ih
  | case2 c rest hpair ih =>
    rw [lineFeeds.eq_2 _ _ hpair, List.mem_cons, not_or]
    refine ⟨?_, ih⟩
    split_ifs with hreturn
    · decide
    · exact fun h => hreturn h.symm
  | case3 => exact List.not_mem_nil

theorem lineFeeds_eq_self {text : List Char} (h : '\r' ∉ text) : lineFeeds text = text := by
  induction text using lineFeeds.induct with
  | case1 rest ih => exact absurd List.mem_cons_self h
  | case2 c rest hpair ih =>
    rw [List.mem_cons, not_or] at h
    rw [lineFeeds.eq_2 _ _ hpair, ih h.2, if_neg fun hreturn => h.1 hreturn.symm]
  | case3 => rfl

/-- Lyrics that were read: trimmed, with line feeds as line ends. -/
theorem normalizedLyrics_kept (value : String) :
    Chars.trim (normalizedLyrics value) = normalizedLyrics value ∧
      '\r' ∉ normalizedLyrics value := by
  refine ⟨Chars.trim_trim _, ?_⟩
  intro hmem
  exact not_mem_lineFeeds _ ((Chars.trim_part _).subset hmem)

/-- They are read again as they are exactly where the mark is not at their front. -/
theorem normalizedLyrics_again_iff (value : String) :
    normalizedLyrics (String.ofList (normalizedLyrics value)) = normalizedLyrics value ↔
      firstCharacter value ≠ some invalidUtf8Marker := by
  have hkept := normalizedLyrics_kept value
  rw [← head?_normalizedLyrics]
  generalize normalizedLyrics value = lyrics at hkept
  rw [normalizedLyrics, String.toList_ofList]
  by_cases hhead : lyrics.head? = some invalidUtf8Marker
  · have hdrop := withoutMarker_of_marked hhead
    have hreturn : '\r' ∉ lyrics.tail := fun hmem => hkept.2 (List.mem_of_mem_tail hmem)
    rw [hdrop.1, lineFeeds_eq_self hreturn]
    simp only [hhead, ne_eq, not_true_eq_false, iff_false]
    intro hsame
    have hle := Chars.length_trim_le lyrics.tail
    rw [hsame] at hle
    omega
  · rw [withoutMarker_of_head hhead, lineFeeds_eq_self hkept.2, hkept.1]
    simp [hhead]

/-- The first character of the lyrics: of the first value that is not blank. -/
def firstLyricsCharacter (tags : Tags) : Option Char := (lyricsValues tags).findSome? firstCharacter

/-- The lyrics are those of the first value that is not blank, where there is one. -/
theorem optionalLyrics_cases (tags : Tags) :
    optionalLyrics tags = "" ∧ firstLyricsCharacter tags = none ∨
      ∃ value, normalizedLyrics value ≠ [] ∧
        optionalLyrics tags = String.ofList (normalizedLyrics value) ∧
        firstLyricsCharacter tags = firstCharacter value := by
  rw [optionalLyrics, firstLyricsCharacter]
  induction lyricsValues tags with
  | nil => exact .inl ⟨rfl, rfl⟩
  | cons value values ih =>
    have hfirst := head?_normalizedLyrics value
    by_cases hblank : normalizedLyrics value = []
    · rw [hblank] at hfirst
      rw [List.map_cons, List.find?_cons_of_neg (by simpa using hblank), List.findSome?_cons,
        ← hfirst]
      exact ih
    · obtain ⟨c, rest, hlyrics⟩ := List.exists_cons_of_ne_nil hblank
      refine .inr ⟨value, hblank, ?_, ?_⟩
      · rw [List.map_cons, List.find?_cons_of_pos (by simpa using hblank), Option.getD_some]
      · rw [List.findSome?_cons, ← hfirst, hlyrics]
        rfl

/-- As the only lyrics, what was read is read as it is exactly where the mark is not at its
front. -/
theorem optionalLyrics_again_iff {tags again : Tags}
    (h : lyricsValues again = if optionalLyrics tags = "" then [] else [optionalLyrics tags]) :
    optionalLyrics again = optionalLyrics tags ↔
      firstLyricsCharacter tags ≠ some invalidUtf8Marker := by
  rcases optionalLyrics_cases tags with ⟨hempty, hnone⟩ | ⟨value, hne, hlyrics, hfirst⟩
  · rw [if_pos hempty] at h
    rw [hempty, hnone, optionalLyrics, h]
    simp
  · have hsome : String.ofList (normalizedLyrics value) ≠ "" := by
      intro hempty
      exact hne (by simpa using congrArg String.toList hempty)
    rw [hlyrics, if_neg hsome] at h
    rw [hlyrics, hfirst, ← normalizedLyrics_again_iff, optionalLyrics, h, List.map_singleton,
      String.ofList_inj]
    by_cases hblank : normalizedLyrics (String.ofList (normalizedLyrics value)) = []
    · simp [hblank]
    · simp [hblank]

end Harmony.Inspect
