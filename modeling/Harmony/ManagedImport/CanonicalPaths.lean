/-
# Canonical paths

The readable parts of a canonical path are slugs, and its unique part is an id. None of its
components leads anywhere else, so that a path beneath the root and the path on the file
system stand for each other.
-/

import Harmony.Library.LexicalPath
import Harmony.Library.Utf8
import Harmony.ManagedImport.Placement
import Mathlib.Data.List.Chain

namespace Harmony.ManagedImport

open LexicalPath

/-! ### Paths beneath the root -/

/-- A lexically cleaned absolute path, by its names. -/
def absolute (currentDir path : List Char) : List (List Char) :=
  clean (components (if path.head? = some '/' then path else join currentDir path))

/-- The path beneath the root, never the root itself. -/
def relativePath (root : List (List Char)) (currentDir path : List Char) :
    Except Error (List Char) :=
  let absolutePath := absolute currentDir path
  if root <+: absolutePath ∧ absolutePath.drop root.length ≠ [] then
    .ok (text (absolutePath.drop root.length))
  else
    let path := String.ofList path
    .error (.wrap .unsafeStoragePath s!"path \"{path}\" escapes Managed Storage")

def absolutePath (root : List (List Char)) (relative : List Char) : List Char :=
  join ('/' :: text root) relative

/-- The text of a path beneath the root. -/
def pathText (path : RelativePath) : List Char := text (path.map String.toList)

section Roots

variable {root names : List (List Char)} {currentDir path : List Char}

theorem relativePath_eq_ok {relative : List Char} :
    relativePath root currentDir path = .ok relative ↔
      ∃ names, names ≠ [] ∧ (∀ name ∈ names, IsName name) ∧
        absolute currentDir path = root ++ names ∧ relative = text names := by
  rw [relativePath]
  constructor
  · intro h
    split at h
    · rename_i hbeneath
      obtain ⟨⟨rest, hrest⟩, hne⟩ := hbeneath
      rw [← hrest, List.drop_left] at hne h
      refine ⟨rest, hne, fun name hname => ?_, hrest.symm, (Except.ok.inj h).symm⟩
      exact isName_of_mem_clean _ name (hrest ▸ List.mem_append_right _ hname)
    · cases h
  · rintro ⟨names, hne, -, habsolute, rfl⟩
    have hbeneath : root <+: absolute currentDir path ∧
        (absolute currentDir path).drop root.length ≠ [] := by
      rw [habsolute, List.drop_left]
      exact ⟨List.prefix_append _ _, hne⟩
    rw [if_pos hbeneath, habsolute, List.drop_left]

/-- What leads out of the root is refused. -/
theorem relativePath_outside (h : ¬root <+: absolute currentDir path) :
    ∃ error, relativePath root currentDir path = .error error ∧
      error.is .unsafeStoragePath = true := by
  rw [relativePath, if_neg fun hbeneath => h hbeneath.1]
  exact ⟨_, rfl, by simp [Error.is, Error.wrap]⟩

theorem relativePath_absolutePath (hroot : ∀ name ∈ root, IsName name) (hne : names ≠ [])
    (hnames : ∀ name ∈ names, IsName name) :
    relativePath root currentDir (absolutePath root (text names)) = .ok (text names) := by
  have hrelative := head_text hne hnames
  have hslash : (absolutePath root (text names)).head? = some '/' := by
    rw [absolutePath, join, if_neg hrelative]
    split <;> rfl
  have hbase : components ('/' :: text root) = root := by
    rw [components_cons]
    cases root with
    | nil => rfl
    | cons first others => exact components_text (List.cons_ne_nil _ _) hroot
  have habsolute : absolute currentDir (absolutePath root (text names)) = root ++ names := by
    rw [absolute, if_pos hslash, absolutePath, components_join _ hrelative, hbase,
      components_text hne hnames]
    exact clean_names fun name hname => (List.mem_append.mp hname).elim (hroot name) (hnames name)
  exact relativePath_eq_ok.mpr ⟨names, hne, hnames, habsolute, rfl⟩

end Roots

/-! ### Slugs -/

def isWordChar (c : Char) : Bool := ('a' ≤ c ∧ c ≤ 'z') ∨ ('0' ≤ c ∧ c ≤ '9')

/-- No two hyphens stand next to each other. -/
def SingleHyphens (cs : List Char) : Prop := cs.IsChain fun a b => ¬(a = '-' ∧ b = '-')

theorem SingleHyphens.part {cs part : List Char} (h : SingleHyphens cs) (hpart : part <:+: cs) :
    SingleHyphens part :=
  List.IsChain.infix h hpart

instance (cs : List Char) : Decidable (SingleHyphens cs) :=
  inferInstanceAs (Decidable (List.IsChain _ _))

/-- Lower-case words with single hyphens between them, at most 80 bytes. -/
structure IsSlug (cs : List Char) : Prop where
  ne_nil : cs ≠ []
  characters : ∀ c ∈ cs, isWordChar c = true ∨ c = '-'
  single : SingleHyphens cs
  first : cs.head? ≠ some '-'
  last : cs.getLast? ≠ some '-'
  length : cs.length ≤ maxSlugBytes

theorem isWordChar_ne_hyphen {c : Char} (h : isWordChar c = true) : c ≠ '-' := by
  rintro rfl
  exact absurd h (by decide)

/-- What is left of the characters, by induction along the text with the run it is in. -/
theorem replaceSeparators_spec (inRun : Bool) (cs : List Char) :
    (∀ c ∈ replaceSeparators inRun cs, isWordChar c = true ∨ c = '-') ∧
      SingleHyphens (replaceSeparators inRun cs) ∧
      (inRun = true → (replaceSeparators inRun cs).head? ≠ some '-') := by
  induction cs generalizing inRun with
  | nil => exact ⟨nofun, List.isChain_nil, fun _ => nofun⟩
  | cons c cs ih =>
    rw [replaceSeparators]
    by_cases hword : ('a' ≤ c ∧ c ≤ 'z') ∨ ('0' ≤ c ∧ c ≤ '9')
    · rw [if_pos hword]
      obtain ⟨hchars, hsingle, -⟩ := ih false
      have hc : isWordChar c = true := decide_eq_true hword
      have hhyphen := isWordChar_ne_hyphen hc
      refine ⟨List.forall_mem_cons.mpr ⟨.inl hc, hchars⟩, ?_, fun _ => ?_⟩
      · exact List.isChain_cons.mpr ⟨fun _ _ h => hhyphen h.1, hsingle⟩
      · rintro ⟨rfl⟩
        exact hhyphen rfl
    · rw [if_neg hword]
      obtain ⟨hchars, hsingle, hhead⟩ := ih true
      cases inRun with
      | true => exact ⟨hchars, hsingle, fun _ => hhead rfl⟩
      | false =>
        refine ⟨List.forall_mem_cons.mpr ⟨.inr rfl, hchars⟩, ?_, nofun⟩
        refine List.isChain_cons.mpr ⟨fun next hnext h => hhead rfl ?_, hsingle⟩
        rw [← h.2]
        exact hnext

theorem trimHyphens_part (cs : List Char) : trimHyphens cs <:+: cs := by
  have hback : ∀ l : List Char, (l.reverse.dropWhile (· = '-')).reverse <+: l := by
    intro l
    have hsuffix := List.dropWhile_suffix (fun c => decide (c = '-')) (l := l.reverse)
    rw [← List.reverse_prefix, List.reverse_reverse] at hsuffix
    exact hsuffix
  exact (hback _).isInfix.trans (List.dropWhile_suffix _).isInfix

theorem trimHyphens_last (cs : List Char) : (trimHyphens cs).getLast? ≠ some '-' := by
  rw [trimHyphens, List.getLast?_reverse]
  intro h
  have hnot := List.head?_dropWhile_not (fun c => decide (c = '-'))
    (cs.dropWhile (· = '-')).reverse
  rw [h] at hnot
  simp at hnot

theorem trimHyphens_first (cs : List Char) : (trimHyphens cs).head? ≠ some '-' := by
  intro h
  have hfront : trimHyphens cs <+: cs.dropWhile (· = '-') := by
    have hsuffix := List.dropWhile_suffix (fun c => decide (c = '-'))
      (l := (cs.dropWhile (· = '-')).reverse)
    rw [← List.reverse_prefix, List.reverse_reverse] at hsuffix
    exact hsuffix
  have hhead : (cs.dropWhile (· = '-')).head? = some '-' := by
    obtain ⟨rest, hrest⟩ := hfront
    rw [← hrest, List.head?_append, h]
    rfl
  have hnot := List.head?_dropWhile_not (fun c => decide (c = '-')) cs
  rw [hhead] at hnot
  simp at hnot

/-- The characters between the hyphens at the two ends. -/
theorem isSlug_trimHyphens {cs : List Char} (hne : trimHyphens cs ≠ [])
    (hchars : ∀ c ∈ cs, isWordChar c = true ∨ c = '-') (hsingle : SingleHyphens cs)
    (hlength : cs.length ≤ maxSlugBytes) : IsSlug (trimHyphens cs) where
  ne_nil := hne
  characters c hc := hchars c ((trimHyphens_part cs).subset hc)
  single := hsingle.part (trimHyphens_part cs)
  first := trimHyphens_first cs
  last := trimHyphens_last cs
  length := (trimHyphens_part cs).length_le.trans hlength

theorem isSlug_untitled : IsSlug "untitled".toList :=
  ⟨by decide, by simp [isWordChar], by decide, by decide, by decide, by decide⟩

/-- A value has a slug, whatever is left of it. -/
theorem isSlug_slug (value : String) : IsSlug (slug value).toList := by
  obtain ⟨hchars, hsingle, -⟩ := replaceSeparators_spec false (value.toList.map lowerAscii)
  rw [slug]
  generalize replaceSeparators false (value.toList.map lowerAscii) = replaced at hchars hsingle ⊢
  by_cases hlong : maxSlugBytes < (trimHyphens replaced).length
  · rw [if_pos hlong]
    by_cases hempty : trimHyphens ((trimHyphens replaced).take maxSlugBytes) = []
    · rw [if_pos hempty]
      exact isSlug_untitled
    · rw [if_neg hempty, String.toList_ofList]
      have htaken := (List.take_prefix maxSlugBytes (trimHyphens replaced)).isInfix
      refine isSlug_trimHyphens hempty (fun c hc => hchars c ?_)
        ((hsingle.part (trimHyphens_part replaced)).part htaken) (List.length_take_le _ _)
      exact (trimHyphens_part replaced).subset (htaken.subset hc)
  · rw [if_neg hlong]
    by_cases hempty : trimHyphens replaced = []
    · rw [if_pos hempty]
      exact isSlug_untitled
    · rw [if_neg hempty, String.toList_ofList]
      have htrimmed : IsSlug (trimHyphens replaced) :=
        ⟨hempty, fun c hc => hchars c ((trimHyphens_part replaced).subset hc),
          hsingle.part (trimHyphens_part replaced), trimHyphens_first _, trimHyphens_last _,
          not_lt.mp hlong⟩
      exact htrimmed

theorem lt_ascii_of_isWordChar {c : Char} (h : isWordChar c = true) : c.val < 128 := by
  rcases of_decide_eq_true h with ⟨-, hle⟩ | ⟨-, hle⟩
  · exact UInt32.lt_of_le_of_lt hle (by decide)
  · exact UInt32.lt_of_le_of_lt hle (by decide)

theorem lowerAscii_eq_self {c : Char} (h : isWordChar c = true ∨ c = '-') : lowerAscii c = c := by
  rcases h with hword | rfl
  · have hcases := of_decide_eq_true hword
    have hlower : ¬(c.val ≥ 'A'.val ∧ c.val ≤ 'Z'.val) := by
      rintro ⟨hA, hZ⟩
      rcases hcases with ⟨ha, -⟩ | ⟨-, h9⟩
      · exact absurd (UInt32.le_trans ha hZ) (by decide)
      · exact absurd (UInt32.le_trans hA h9) (by decide)
    rw [lowerAscii, if_pos (lt_ascii_of_isWordChar hword)]
    exact dif_neg hlower
  · decide

/-- Characters that are kept, one for one. -/
theorem replaceSeparators_eq_self {inRun : Bool} {cs : List Char}
    (hchars : ∀ c ∈ cs, isWordChar c = true ∨ c = '-') (hsingle : SingleHyphens cs)
    (hhead : inRun = true → cs.head? ≠ some '-') : replaceSeparators inRun cs = cs := by
  induction cs generalizing inRun with
  | nil => rfl
  | cons c cs ih =>
    obtain ⟨hc, hrest⟩ := List.forall_mem_cons.mp hchars
    obtain ⟨hnext, htail⟩ := List.isChain_cons.mp hsingle
    rw [replaceSeparators]
    rcases hc with hword | hc
    · rw [if_pos (of_decide_eq_true hword), @ih false hrest htail nofun]
    · subst hc
      have hhyphen : inRun = false := by
        cases inRun with
        | false => rfl
        | true => exact absurd rfl (hhead rfl)
      rw [hhyphen, if_neg (by decide), if_neg (by decide)]
      refine congrArg ('-' :: ·) (@ih true hrest htail fun _ hhyphen => ?_)
      exact hnext '-' hhyphen ⟨rfl, rfl⟩

theorem trimHyphens_eq_self {cs : List Char} (hfirst : cs.head? ≠ some '-')
    (hlast : cs.getLast? ≠ some '-') : trimHyphens cs = cs := by
  have hdrop : ∀ l : List Char, l.head? ≠ some '-' → l.dropWhile (· = '-') = l := by
    intro l hl
    cases l with
    | nil => rfl
    | cons c l =>
      refine List.dropWhile_cons_of_neg ?_
      rw [decide_eq_true_eq]
      rintro rfl
      exact hl rfl
  rw [trimHyphens, hdrop cs hfirst, hdrop _ (by rwa [List.head?_reverse]), List.reverse_reverse]

/-- A slug is its own slug. -/
theorem slug_of_isSlug {value : String} (h : IsSlug value.toList) : slug value = value := by
  have hlower : value.toList.map lowerAscii = value.toList :=
    (List.map_congr_left fun c hc => lowerAscii_eq_self (h.characters c hc)).trans (List.map_id' _)
  rw [slug]
  rw [hlower, @replaceSeparators_eq_self false _ h.characters h.single nofun,
    trimHyphens_eq_self h.first h.last, if_neg (not_lt.mpr h.length), if_neg h.ne_nil,
    String.ofList_toList]

theorem slug_slug (value : String) : slug (slug value) = slug value :=
  slug_of_isSlug (isSlug_slug value)

/-- A slug has as many bytes as characters. -/
theorem utf8ByteSize_slug (value : String) : (slug value).utf8ByteSize ≤ maxSlugBytes := by
  have hslug := isSlug_slug value
  have hbytes : Utf8.encode (slug value).toList =
      (slug value).toList.map fun c => UInt8.ofNat c.toNat := by
    rw [Utf8.encode, ← List.flatMap_pure_eq_map]
    refine List.flatMap_congr fun c hc => Utf8.utf8EncodeChar_ascii ?_
    rcases hslug.characters c hc with hword | rfl
    · exact lt_ascii_of_isWordChar hword
    · decide
  have hsize := Utf8.utf8ByteSize_ofList (slug value).toList
  rw [String.ofList_toList, hbytes, List.length_map] at hsize
  exact hsize ▸ hslug.length

/-! ### Names -/

/-- The text of a UUID. -/
structure IsUuidText (id : String) : Prop where
  length : id.length = 36
  characters : ∀ c ∈ id.toList, isWordChar c = true ∨ c = '-'

/-- A character of a file name: it neither separates names nor starts an extension. -/
def isPlain (c : Char) : Bool := c ≠ '/' ∧ c ≠ '.'

def AllPlain (name : String) : Prop := ∀ c ∈ name.toList, isPlain c = true

theorem isPlain_of_slug {c : Char} (h : isWordChar c = true ∨ c = '-') : isPlain c = true := by
  refine decide_eq_true ⟨?_, ?_⟩
  · rintro rfl
    exact absurd h (by decide)
  · rintro rfl
    exact absurd h (by decide)

theorem AllPlain.append {first second : String} (hfirst : AllPlain first)
    (hsecond : AllPlain second) : AllPlain (first ++ second) := by
  intro c hc
  rw [String.toList_append] at hc
  exact (List.mem_append.mp hc).elim (hfirst c) (hsecond c)

theorem allPlain_slug (value : String) : AllPlain (slug value) :=
  fun c hc => isPlain_of_slug ((isSlug_slug value).characters c hc)

theorem IsUuidText.allPlain {id : String} (h : IsUuidText id) : AllPlain id :=
  fun c hc => isPlain_of_slug (h.characters c hc)

theorem allPlain_hyphen : AllPlain "-" := by
  intro c hc
  rw [List.mem_singleton.mp hc]
  decide

theorem allPlain_pad2 (n : ℤ) : AllPlain (pad2 n) := by
  have hnat : ∀ m : ℕ, AllPlain (Nat.repr m) := by
    intro m c hc
    rw [Nat.toList_repr] at hc
    have hdigit := Nat.isDigit_of_mem_toDigits (by decide) (by decide) hc
    refine decide_eq_true ⟨?_, ?_⟩
    · rintro rfl
      exact absurd hdigit (by decide)
    · rintro rfl
      exact absurd hdigit (by decide)
  have hint : AllPlain (toString n) := by
    cases n with
    | ofNat m => exact hnat m
    | negSucc m => exact allPlain_hyphen.append (hnat (m + 1))
  rw [pad2]
  split
  · refine AllPlain.append (fun c hc => ?_) hint
    rw [List.mem_singleton.mp hc]
    decide
  · exact hint

/-- A name with an id in it is a name. -/
theorem isName_of_length {part : List Char} (hplain : '/' ∉ part) (hlength : 2 < part.length) :
    IsName part where
  ne_nil h := by rw [h] at hlength; exact absurd hlength (by decide)
  plain := hplain
  not_dot h := by rw [h] at hlength; exact absurd hlength (by decide)
  not_dots h := by rw [h] at hlength; exact absurd hlength (by decide)

theorem AllPlain.not_slash {name : String} (h : AllPlain name) : '/' ∉ name.toList :=
  fun hmem => absurd (h '/' hmem) (by decide)

theorem AllPlain.not_dot {name : String} (h : AllPlain name) : '.' ∉ name.toList :=
  fun hmem => absurd (h '.' hmem) (by decide)

theorem isName_directory {id : String} (hid : IsUuidText id) (value : String) :
    IsName (slug value ++ "-" ++ id).toList := by
  have hplain := ((allPlain_slug value).append allPlain_hyphen).append hid.allPlain
  refine isName_of_length hplain.not_slash ?_
  rw [String.toList_append, List.length_append, String.length_toList, String.length_toList,
    hid.length]
  omega

section Files

variable {inspection : MediaInspection} {identity : CommitIdentity} {extension : String}

theorem slash_sourceExtension {format : String} (h : sourceExtension format = .ok extension) :
    '/' ∉ extension.toList := by
  unfold sourceExtension at h
  split_ifs at h <;> cases h <;> decide

/-- The name of the audio file before its extension. -/
def audioStem (inspection : MediaInspection) (identity : CommitIdentity) : String :=
  pad2 inspection.metadata.discPosition.number ++
    ("-" ++ pad2 inspection.metadata.trackPosition.number ++ "-" ++
      slug inspection.metadata.title ++ "-") ++ identity.trackId

theorem audioFilename_eq :
    audioFilename inspection identity extension = audioStem inspection identity ++ extension := by
  rw [audioFilename, audioStem]
  simp only [String.append_assoc]

theorem allPlain_audioStem (hid : IsUuidText identity.trackId) :
    AllPlain (audioStem inspection identity) :=
  (((allPlain_pad2 _).append ((((allPlain_hyphen.append (allPlain_pad2 _)).append
    allPlain_hyphen).append (allPlain_slug _)).append allPlain_hyphen)).append hid.allPlain)

theorem slash_audioFilename (hid : IsUuidText identity.trackId)
    (hextension : '/' ∉ extension.toList) :
    '/' ∉ (audioFilename inspection identity extension).toList := by
  rw [audioFilename_eq, String.toList_append, List.mem_append]
  exact not_or.mpr ⟨(allPlain_audioStem hid).not_slash, hextension⟩

theorem isName_audioFilename (hid : IsUuidText identity.trackId)
    (hextension : '/' ∉ extension.toList) :
    IsName (audioFilename inspection identity extension).toList := by
  refine isName_of_length (slash_audioFilename hid hextension) ?_
  rw [audioFilename_eq, audioStem, String.toList_append, String.toList_append, List.length_append,
    List.length_append, String.length_toList (s := identity.trackId), hid.length]
  omega

theorem isName_coverFilename : IsName (coverFilename inspection).toList := by
  have hall : ∀ extension ∈ [".jpg", ".webp", ".png"],
      '/' ∉ ("cover" ++ extension).toList ∧ 2 < ("cover" ++ extension).toList.length := by decide
  have hextension : artworkExtension inspection.albumArtwork.mimeType ∈
      [".jpg", ".webp", ".png"] := by
    rw [artworkExtension]
    split_ifs <;> decide
  exact isName_of_length (hall _ hextension).1 (hall _ hextension).2

/-- The id is read off the name of the audio file. -/
theorem trackId_of_audioFilename {inspection' : MediaInspection} {identity' : CommitIdentity}
    {extension' : String} (hid : IsUuidText identity.trackId) (hid' : IsUuidText identity'.trackId)
    (hextension : IsExtension extension) (hextension' : IsExtension extension')
    (h : audioFilename inspection identity extension =
      audioFilename inspection' identity' extension') :
    identity.trackId = identity'.trackId := by
  rw [audioFilename_eq, audioFilename_eq] at h
  have hstem := congrArg (fun name => stem name.toList) h
  simp only [stem_append (allPlain_audioStem hid).not_dot hextension,
    stem_append (allPlain_audioStem hid').not_dot hextension'] at hstem
  simp only [audioStem, String.toList_append] at hstem
  -- both ids have the same length, so the texts in front of them end at the same place
  refine String.toList_inj.mp (List.append_inj_right' hstem ?_)
  rw [String.length_toList, String.length_toList, hid.length, hid'.length]

/-! ### Placements -/

section Placements

variable {staged album : RelativePath} {placed : PlacedFiles}

/-- A path whose components are names. -/
def Named (path : RelativePath) : Prop := ∀ part ∈ path, IsName part.toList

theorem named_albumDirectory (hartist : IsUuidText identity.albumArtistId)
    (halbum : IsUuidText identity.albumId) (h : albumDirectory inspection identity = .ok album) :
    Named album := by
  rw [albumDirectory] at h
  split at h
  · cases h
  · cases h
    refine List.forall_mem_cons.mpr ⟨⟨?_, ?_, ?_, ?_⟩, ?_⟩
    iterate 4 decide
    refine List.forall_mem_cons.mpr ⟨isName_directory hartist _, ?_⟩
    exact List.forall_mem_singleton.mpr (isName_directory halbum _)

theorem Named.append {name : String} (halbum : Named album) (hname : IsName name.toList) :
    Named (album ++ [name]) := by
  intro part hpart
  rcases List.mem_append.mp hpart with hold | hnew
  · exact halbum part hold
  · rw [List.mem_singleton.mp hnew]
    exact hname

/-- Where a plan puts the audio file, in a new Album or in an existing one. -/
theorem planPlacement_audio (h : planPlacement inspection identity staged = .ok placed) :
    ∃ album extension, IsAlbumPath album ∧
      sourceExtension inspection.audio.format = .ok extension ∧
      placed.audioPath = album ++ [audioFilename inspection identity extension] := by
  have hin : ∀ album artwork, planPlacementInAlbum inspection identity staged album artwork =
      .ok placed → ∃ extension, sourceExtension inspection.audio.format = .ok extension ∧
        placed.audioPath = album ++ [audioFilename inspection identity extension] := by
    intro album artwork h
    rw [planPlacementInAlbum] at h
    cases hextension : sourceExtension inspection.audio.format with
    | error e =>
      rw [hextension] at h
      cases h
    | ok extension =>
      rw [hextension] at h
      cases h
      exact ⟨extension, rfl, rfl⟩
  rw [planPlacement] at h
  cases hplanned : albumDirectory inspection identity with
  | error e =>
    rw [hplanned] at h
    cases h
  | ok planned =>
    rw [hplanned] at h
    change (if _ then _ else _) = _ at h
    split_ifs at h
    · obtain ⟨extension, hextension, hpath⟩ := hin _ _ h
      exact ⟨planned, extension, isAlbumPath_albumDirectory hplanned, hextension, hpath⟩
    · cases hcanonical : existingCanonicalAlbum identity with
      | error e =>
        rw [hcanonical] at h
        cases h
      | ok album =>
        rw [hcanonical] at h
        obtain ⟨extension, hextension, hpath⟩ := hin _ _ h
        exact ⟨album, extension, (existingCanonicalAlbum_eq_ok hcanonical).1, hextension, hpath⟩

/-- A path beneath the root that leads to where it says, there and back. -/
structure Safe (path : RelativePath) : Prop where
  named : Named path
  parts : (pathText path).splitOn '/' = path.map String.toList
  roundTrip : ∀ configured firstDir currentDir,
    relativePath (absolute firstDir configured) currentDir
      (absolutePath (absolute firstDir configured) (pathText path)) = .ok (pathText path)

theorem Named.safe {path : RelativePath} (h : Named path) (hne : path ≠ []) : Safe path := by
  have hnames : ∀ name ∈ path.map String.toList, IsName name := by
    intro name hname
    obtain ⟨part, hpart, rfl⟩ := List.mem_map.mp hname
    exact h part hpart
  have hsome : path.map String.toList ≠ [] := fun h => hne (List.map_eq_nil_iff.mp h)
  refine ⟨h, splitOn_text hsome hnames, fun configured firstDir currentDir => ?_⟩
  exact relativePath_absolutePath (isName_of_mem_clean _) hsome hnames

/-- In a new Album both files get safe paths. -/
theorem planPlacement_new (hnew : identity.existingArtworkPath = [])
    (hcredits : inspection.metadata.albumArtists ≠ [])
    (hextension : sourceExtension inspection.audio.format = .ok extension)
    (hartist : IsUuidText identity.albumArtistId) (halbum : IsUuidText identity.albumId)
    (htrack : IsUuidText identity.trackId) :
    ∃ placed, planPlacement inspection identity staged = .ok placed ∧ Safe placed.audioPath ∧
      (placed.artworkPath ≠ [] → Safe placed.artworkPath) := by
  obtain ⟨album, hdirectory⟩ : ∃ album, albumDirectory inspection identity = .ok album := by
    rw [albumDirectory]
    cases hhead : inspection.metadata.albumArtists.head? with
    | none => exact absurd (List.head?_eq_none_iff.mp hhead) hcredits
    | some artist => exact ⟨_, rfl⟩
  have hnamed := named_albumDirectory hartist halbum hdirectory
  refine ⟨{ audioPath := album ++ [audioFilename inspection identity extension]
            artworkPath := newArtworkPath inspection album
            stagedPath := staged
            artworkCreated := false }, ?_, ?_, ?_⟩
  · rw [planPlacement, hdirectory]
    change (if _ then _ else _) = _
    rw [if_pos hnew, planPlacementInAlbum, hextension]
    rfl
  · have hfile := @isName_audioFilename inspection identity extension htrack
      (slash_sourceExtension hextension)
    exact (hnamed.append hfile).safe (by simp)
  · intro hartwork
    change Safe (newArtworkPath inspection album)
    change newArtworkPath inspection album ≠ [] at hartwork
    rw [newArtworkPath] at hartwork ⊢
    split_ifs at hartwork ⊢
    · exact absurd rfl hartwork
    · exact (hnamed.append isName_coverFilename).safe hartwork

/-- Different Tracks lie at different places, beneath the root and on the file system. -/
theorem audioPath_ne {inspection' : MediaInspection} {identity' : CommitIdentity}
    {staged' : RelativePath} {placed' : PlacedFiles} (htrack : IsUuidText identity.trackId)
    (htrack' : IsUuidText identity'.trackId) (hne : identity.trackId ≠ identity'.trackId)
    (h : planPlacement inspection identity staged = .ok placed)
    (h' : planPlacement inspection' identity' staged' = .ok placed') (root : List (List Char)) :
    absolutePath root (pathText placed.audioPath) ≠
      absolutePath root (pathText placed'.audioPath) := by
  obtain ⟨album, extension, halbum, hextension, hpath⟩ := planPlacement_audio h
  obtain ⟨album', extension', halbum', hextension', hpath'⟩ := planPlacement_audio h'
  have hhead : ∀ (album : RelativePath) (name : String), IsAlbumPath album →
      (pathText (album ++ [name])).head? ≠ some '/' := by
    intro album name halbum
    obtain ⟨hfirst, -⟩ := halbum
    cases album with
    | nil => cases hfirst
    | cons first others =>
      cases hfirst
      have htext := head_text_cons 'l' "ibrary".toList ((others ++ [name]).map String.toList)
      exact fun hslash => absurd (htext.symm.trans hslash) (by decide)
  rw [hpath, hpath']
  intro hequal
  have hrelative := join_injective _ (hhead _ _ halbum) (hhead _ _ halbum') hequal
  rw [pathText, pathText, List.map_append, List.map_append] at hrelative
  have hname := last_eq_of_text_eq
    (slash_audioFilename htrack (slash_sourceExtension hextension))
    (slash_audioFilename htrack' (slash_sourceExtension hextension')) hrelative
  exact hne (trackId_of_audioFilename htrack htrack' (isExtension_sourceExtension hextension)
    (isExtension_sourceExtension hextension') (String.toList_inj.mp hname))

end Placements

end Files

/-- Any value has a slug, which is its own; in a new Album the files get paths of names
that lead there and back; what leads out of the root is refused, and what is accepted lies
beneath it; and Tracks with different ids get different audio paths. -/
theorem canonical_paths_safe :
    (∀ value : String, IsSlug (slug value).toList ∧ (slug value).utf8ByteSize ≤ maxSlugBytes ∧
      slug (slug value) = slug value) ∧
    (∀ (inspection : MediaInspection) (identity : CommitIdentity) (staged : RelativePath)
        (extension : String), identity.existingArtworkPath = [] →
      inspection.metadata.albumArtists ≠ [] →
      sourceExtension inspection.audio.format = .ok extension →
      IsUuidText identity.albumArtistId → IsUuidText identity.albumId →
      IsUuidText identity.trackId →
      ∃ placed, planPlacement inspection identity staged = .ok placed ∧ Safe placed.audioPath ∧
        (placed.artworkPath ≠ [] → Safe placed.artworkPath)) ∧
    (∀ configured firstDir currentDir path,
      (¬absolute firstDir configured <+: absolute currentDir path →
        ∃ error, relativePath (absolute firstDir configured) currentDir path = .error error ∧
          error.is .unsafeStoragePath = true) ∧
      (∀ relative, relativePath (absolute firstDir configured) currentDir path = .ok relative →
        ∃ names, names ≠ [] ∧ (∀ name ∈ names, IsName name) ∧
          absolute currentDir path = absolute firstDir configured ++ names ∧
          relative = text names)) ∧
    ∀ (inspection inspection' : MediaInspection) (identity identity' : CommitIdentity)
      (staged staged' : RelativePath) (placed placed' : PlacedFiles)
      (root : List (List Char)), IsUuidText identity.trackId → IsUuidText identity'.trackId →
      identity.trackId ≠ identity'.trackId →
      planPlacement inspection identity staged = .ok placed →
      planPlacement inspection' identity' staged' = .ok placed' →
      absolutePath root (pathText placed.audioPath) ≠
        absolutePath root (pathText placed'.audioPath) := by
  refine ⟨fun value => ⟨isSlug_slug value, utf8ByteSize_slug value, slug_slug value⟩, ?_, ?_, ?_⟩
  · intro inspection identity staged extension hnew hcredits hextension hartist halbum htrack
    exact planPlacement_new hnew hcredits hextension hartist halbum htrack
  · intro configured firstDir currentDir path
    exact ⟨relativePath_outside, fun relative h => relativePath_eq_ok.mp h⟩
  · intro inspection inspection' identity identity' staged staged' placed placed' root htrack
      htrack' hne h h'
    exact audioPath_ne htrack htrack' hne h h' root

/-- A file whose tags read like paths. -/
def dotsInspection : MediaInspection where
  metadata :=
    { albumIdentityKey := ""
      title := "../.."
      artists := ["/"]
      albumArtists := ["/etc"]
      album := "É"
      trackPosition := ⟨1, 0⟩
      discPosition := ⟨1, 0⟩
      genres := []
      year := 0
      replayGain := ⟨none, none, none, none⟩
      lyrics := "" }
  albumArtwork := ⟨"image/png", 1, 1, [7], "7"⟩
  audio := ⟨"flac", "flac", "flac", 1000, 44100, 2, 16, 800⟩
  fileSha256 := "new"

def dotsIdentity (trackId : String) : CommitIdentity where
  albumArtistId := "00000000-0000-4000-8000-00000000000a"
  albumId := "00000000-0000-4000-8000-00000000000b"
  trackId := trackId
  existingArtworkPath := []
  existingArtworkSha256 := ""

def dotsPlaced (trackId : String) : PlacedFiles where
  audioPath := ["library", "etc-00000000-0000-4000-8000-00000000000a",
    "untitled-00000000-0000-4000-8000-00000000000b", "01-01-untitled-" ++ trackId ++ ".flac"]
  artworkPath := ["library", "etc-00000000-0000-4000-8000-00000000000a",
    "untitled-00000000-0000-4000-8000-00000000000b", "cover.png"]
  stagedPath := [".staging", ".import-1.upload"]
  artworkCreated := false

theorem canonical_paths_safe_dots :
    (∃ placed, planPlacement dotsInspection
        (dotsIdentity "00000000-0000-4000-8000-000000000001") [".staging", ".import-1.upload"] =
        .ok placed ∧
      Safe placed.audioPath ∧ (placed.artworkPath ≠ [] → Safe placed.artworkPath)) ∧
    (∃ error, relativePath (absolute "/".toList "/srv".toList) "/".toList "/srv/../etc".toList =
      .error error ∧ error.is .unsafeStoragePath = true) ∧
    absolutePath [] (pathText (dotsPlaced "00000000-0000-4000-8000-000000000001").audioPath) ≠
      absolutePath [] (pathText (dotsPlaced "00000000-0000-4000-8000-000000000002").audioPath) := by
  obtain ⟨-, hplaced, hrelative, hdifferent⟩ := canonical_paths_safe
  refine ⟨?_, ?_, ?_⟩
  · exact hplaced dotsInspection _ _ ".flac" rfl (by decide) rfl
      ⟨by decide, by simp [dotsIdentity, isWordChar]⟩
      ⟨by decide, by simp [dotsIdentity, isWordChar]⟩
      ⟨by decide, by simp [dotsIdentity, isWordChar]⟩
  · exact (hrelative _ _ _ _).1 (by decide +kernel)
  · exact hdifferent dotsInspection dotsInspection
      (dotsIdentity "00000000-0000-4000-8000-000000000001")
      (dotsIdentity "00000000-0000-4000-8000-000000000002") [".staging", ".import-1.upload"]
      [".staging", ".import-1.upload"] _ _ [] ⟨by decide, by simp [dotsIdentity, isWordChar]⟩
      ⟨by decide, by simp [dotsIdentity, isWordChar]⟩
      (by decide) (by decide +kernel) (by decide +kernel)

end Harmony.ManagedImport
