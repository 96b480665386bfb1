/-
# Sources round-trip

A source that is read from a request is stored only as a text that is read as the same
source, and written again for a client. What may refuse it is its length: the limit is for
the text, which the escaped characters make longer than the request was.
-/

import Harmony.Playback.Sources

namespace Harmony.Playback

open CommaList (commas)
open Search.Json (Literal escape escape_append escape_of_plain quoted special)

/-! ### What the library is trusted with -/

/-- The JSON text stands for the string. -/
def Spells (text : List Char) (value : String) : Prop :=
  ∃ body, text = quoted body ∧ Literal body value.toList

/-- A string, or a list of strings. -/
def IsValue (text : List Char) : Prop :=
  (∃ value, Spells text value) ∨
    ∃ items, text = arrayText items ∧ ∀ item ∈ items, ∃ value, Spells item value

/-- A name with nothing to escape. -/
def IsName (name : String) : Prop :=
  ∀ c ∈ name.toList, c ≠ '"' ∧ c ≠ '\\' ∧ 0x20 ≤ c.toNat

/-- What the library says of itself, for the JSON that the program writes: it takes a text
apart as the grammar does, and a string that it writes stands for that string. -/
structure Serde.Documented (serde : Serde) : Prop where
  quote : ∀ value, Spells (serde.quote value) value
  string : ∀ {text value}, Spells text value → serde.string text = some value
  array : ∀ {items}, (∀ item ∈ items, ∃ value, Spells item value) →
    serde.array (arrayText items) = some items
  object : ∀ {members}, (∀ member ∈ members, IsName member.1 ∧ IsValue member.2) →
    serde.object (objectText members) = some members
  notNull : ∀ {c} rest, c = '"' ∨ c = '[' ∨ c = '\x7b' → serde.isNull (c :: rest) = false
  null : ∀ {text}, serde.isNull text = true → serde.string text = none ∧ serde.array text = none
  nothing : serde.isNull [] = false ∧ serde.string [] = none ∧ serde.array [] = none

/-! ### Escaped texts -/

theorem escape_commas (parts : List (List Char)) :
    escape (commas parts) = commas (parts.map escape) := by
  induction parts with
  | nil => rfl
  | cons part parts ih =>
    cases parts with
    | nil => simp [commas]
    | cons next parts =>
      have hcomma : escape [','] = [','] := rfl
      simp only [commas, List.intercalate_cons_cons, List.map_cons, escape_append, hcomma] at ih ⊢
      rw [ih]

theorem escape_arrayText (items : List (List Char)) :
    escape (arrayText items) = arrayText (items.map escape) := by
  rw [arrayText, ← List.singleton_append, escape_append, escape_append, escape_commas, arrayText]
  rfl

/-- The names and the punctuation of an object have nothing to escape. -/
theorem escape_objectText {members : List (String × List Char)}
    (hnames : ∀ member ∈ members, ∀ c ∈ member.1.toList, c ∉ special) :
    escape (objectText members) =
      objectText (members.map fun member => (member.1, escape member.2)) := by
  have hmember : ∀ member ∈ members, escape (memberText member) =
      memberText (member.1, escape member.2) := by
    intro member hmember
    have hcolon : ':' :: member.2 = [':'] ++ member.2 := rfl
    rw [memberText, escape_append, Search.Json.escape_quoted, escape_of_plain (hnames _ hmember),
      hcolon, escape_append]
    rfl
  have hmembers : (members.map memberText).map escape =
      (members.map fun member => (member.1, escape member.2)).map memberText := by
    rw [List.map_map, List.map_map]
    exact List.map_congr_left hmember
  rw [objectText, ← List.singleton_append, escape_append, escape_append, escape_commas, hmembers,
    objectText]
  rfl

theorem Spells.escape {text : List Char} {value : String} (h : Spells text value) :
    Spells (escape text) value := by
  obtain ⟨body, rfl, hbody⟩ := h
  exact ⟨Search.Json.escape body, Search.Json.escape_quoted body, hbody.escape⟩

/-! ### Accepted sources -/

/-- Not blank, and not too long. -/
def IsText (text : String) : Prop := isBlank text = false ∧ text.length ≤ maxStringLength

/-- The sources that are read: just the fields of their kind, within the limits. -/
inductive Accepted : QueueItemSource → Prop
  | album {albumId albumTitle artistName : String} (hid : IsText albumId)
      (htitle : IsText albumTitle) (hartist : IsText artistName) :
      Accepted ⟨"album", albumId, albumTitle, artistName, "", "", none⟩
  | playlist {playlistId name : String} (hid : IsText playlistId) (hname : IsText name) :
      Accepted ⟨"playlist", "", "", "", playlistId, name, none⟩
  | user : Accepted .user
  | suggestion {trackIds : List String} (hcount : trackIds.length ≤ maxBasedOn)
      (htexts : ∀ trackId ∈ trackIds, IsText trackId) :
      Accepted ⟨"suggestion", "", "", "", "", "", some trackIds⟩

variable {serde : Serde} {source : QueueItemSource}

theorem IsText.ne_empty {text : String} (h : IsText text) : text ≠ "" := by
  rintro rfl
  exact absurd h.1 (by decide)

theorem validateField_text {field text : String} {raw : List Char} (hfield : field ≠ "basedOn")
    (hraw : serde.string raw = some text) (htext : IsText text) :
    validateField serde field (some raw) = .ok () := by
  have hshort : ¬maxStringLength < text.length := Nat.not_lt.mpr htext.2
  simp only [validateField, if_neg hfield, Option.getD_some, hraw, htext.1, Bool.false_eq_true,
    if_false, if_neg hshort]

theorem validateField_basedOn {raw : List Char} {trackIds : List String}
    (hraw : serde.strings raw = some (some trackIds)) (hcount : trackIds.length ≤ maxBasedOn)
    (htexts : ∀ trackId ∈ trackIds, IsText trackId) :
    validateField serde "basedOn" (some raw) = .ok () := by
  have hfew : ¬maxBasedOn < trackIds.length := Nat.not_lt.mpr hcount
  have hall : ¬(trackIds.any fun trackId =>
      isBlank trackId || decide (maxStringLength < trackId.length)) = true := by
    rw [List.any_eq_true]
    rintro ⟨trackId, htrackId, hbad⟩
    rw [(htexts trackId htrackId).1, Bool.false_or, decide_eq_true_eq] at hbad
    exact absurd hbad (Nat.not_lt.mpr (htexts trackId htrackId).2)
  simp only [validateField, if_true, Option.getD_some, hraw, if_neg hfew, if_neg hall]

theorem text_of_validateField (h : serde.Documented) {field : String} {value : Option (List Char)}
    (hfield : field ≠ "basedOn") (hok : validateField serde field value = .ok ()) :
    ∃ raw text, value = some raw ∧ serde.string raw = some text ∧ IsText text := by
  simp only [validateField, if_neg hfield] at hok
  cases value with
  | none =>
    rw [Option.getD_none, h.nothing.2.1] at hok
    cases hok
  | some raw =>
    rw [Option.getD_some] at hok
    split at hok
    · rename_i text htext
      split_ifs at hok with hblank hlong
      exact ⟨raw, text, rfl, htext, Bool.not_eq_true _ ▸ hblank, Nat.not_lt.mp hlong⟩
    · cases hok

theorem basedOn_of_validateField (h : serde.Documented) {value : Option (List Char)}
    (hok : validateField serde "basedOn" value = .ok ()) :
    ∃ raw trackIds, value = some raw ∧ serde.strings raw = some (some trackIds) ∧
      trackIds.length ≤ maxBasedOn ∧ ∀ trackId ∈ trackIds, IsText trackId := by
  simp only [validateField, if_true] at hok
  cases value with
  | none =>
    have hnothing : serde.strings [] = none := by
      rw [Serde.strings, h.nothing.1, h.nothing.2.2]
      rfl
    rw [Option.getD_none, hnothing] at hok
    cases hok
  | some raw =>
    rw [Option.getD_some] at hok
    split at hok
    · rename_i trackIds htrackIds
      split_ifs at hok with hmany hbad
      refine ⟨raw, trackIds, rfl, htrackIds, Nat.not_lt.mp hmany, fun trackId htrackId => ?_⟩
      have hgood : ¬(isBlank trackId || decide (maxStringLength < trackId.length)) = true :=
        fun hone => hbad (List.any_eq_true.mpr ⟨trackId, htrackId, hone⟩)
      rw [Bool.or_eq_true, decide_eq_true_eq, not_or] at hgood
      exact ⟨Bool.not_eq_true _ ▸ hgood.1, Nat.not_lt.mp hgood.2⟩
    · cases hok

/-! ### What is read -/

section Read

variable {members : List (String × List Char)} {source : QueueItemSource}

theorem nullable_text (h : serde.Documented) {name text : String} {raw : List Char}
    (hraw : fieldAt members name = some raw) (htext : serde.string raw = some text) :
    QueueItemSource.nullable serde members name = some text := by
  have hnull : ¬serde.isNull raw = true := by
    intro hnull
    rw [(h.null hnull).1] at htext
    cases htext
  simp only [QueueItemSource.nullable, hraw, if_neg hnull, htext]

theorem nullable_absent {name : String} (habsent : fieldAt members name = none) :
    QueueItemSource.nullable serde members name = some "" := by
  simp only [QueueItemSource.nullable, habsent]

theorem deserialize_eq_some :
    QueueItemSource.deserialize serde members = some source ↔
      ((members.map Prod.fst).filter fun name => decide (name ∈ QueueItemSource.names)).Nodup ∧
      QueueItemSource.nullable serde members "kind" = some source.kind ∧
      QueueItemSource.nullable serde members "albumId" = some source.albumId ∧
      QueueItemSource.nullable serde members "albumTitle" = some source.albumTitle ∧
      QueueItemSource.nullable serde members "artistName" = some source.artistName ∧
      QueueItemSource.nullable serde members "playlistId" = some source.playlistId ∧
      QueueItemSource.nullable serde members "name" = some source.name ∧
      QueueItemSource.optional serde members "basedOn" = some source.basedOn := by
  rw [QueueItemSource.deserialize]
  by_cases hnodup : ((members.map Prod.fst).filter fun name =>
      decide (name ∈ QueueItemSource.names)).Nodup
  · rw [if_pos hnodup]
    simp only [Option.bind_eq_bind, Option.bind_eq_some_iff, Option.pure_def]
    constructor
    · rintro ⟨kind, hkind, albumId, hid, title, htitle, artist, hartist, playlistId, hplaylist,
        name,
        hname, basedOn, hbasedOn, hsource⟩
      cases hsource
      exact ⟨hnodup, hkind, hid, htitle, hartist, hplaylist, hname, hbasedOn⟩
    · rintro ⟨-, hkind, hid, htitle, hartist, hplaylist, hname, hbasedOn⟩
      exact ⟨_, hkind, _, hid, _, htitle, _, hartist, _, hplaylist, _, hname, _, hbasedOn, rfl⟩
  · rw [if_neg hnodup]
    exact ⟨fun h => absurd h (Option.some_ne_none source).symm, fun h => absurd h.1 hnodup⟩

/-- Where there are as many members as required ones, and all of those, there are no
others. -/
theorem fieldAt_eq_none {required : List String} (hnodup : required.Nodup)
    (hcount : fieldCount members = required.length)
    (hall : ∀ name ∈ required, (fieldAt members name).isSome = true) {name : String}
    (hname : name ∉ required) : fieldAt members name = none := by
  have hmem : ∀ name, (fieldAt members name).isSome = true → name ∈ members.map Prod.fst := by
    intro name hsome
    obtain ⟨text, htext⟩ := Option.isSome_iff_exists.mp hsome
    obtain ⟨before, after, hsplit, -⟩ := List.lookup_eq_some_iff.mp htext
    have hmember : (name, text) ∈ members.reverse := by
      rw [hsplit]
      exact List.mem_append_right before List.mem_cons_self
    exact List.mem_map_of_mem (f := Prod.fst) (List.mem_reverse.mp hmember)
  have hsubset : required ⊆ (members.map Prod.fst).dedup :=
    fun name hname => List.mem_dedup.mpr (hmem name (hall name hname))
  have hperm := (List.subperm_of_subset hnodup hsubset).perm_of_length_le hcount.le
  by_contra hsome
  have hmember := hmem name (Option.isSome_iff_ne_none.mpr hsome)
  exact hname (hperm.mem_iff.mpr (List.mem_dedup.mpr hmember))

/-- What a text that is read went through. -/
theorem parseJson_eq_ok {data : List Char} (hne : data ≠ []) :
    parseJson serde data = .ok source ↔
      (Utf8.encode data).length ≤ maxSourceBytes ∧
      ∃ members names, serde.fields data = some (some members) ∧
        QueueItemSource.deserialize serde members = some source ∧
        required source.kind = some names ∧ fieldCount members = names.length ∧
        ∀ name ∈ names, validateField serde name (fieldAt members name) = .ok () := by
  have hall : ∀ (names : List String) (check : String → Except String Unit)
      (source : QueueItemSource),
      (do names.forM check; return source : Except String QueueItemSource) = .ok source ↔
        ∀ name ∈ names, check name = .ok () := by
    intro names check source
    induction names with
    | nil => simp [pure, Except.pure, bind, Except.bind]
    | cons name names ih =>
      rw [List.forall_mem_cons, List.forM, ← ih]
      cases hname : check name with
      | error error => simp [bind, Except.bind]
      | ok done => simp [bind, Except.bind]
  rw [parseJson, if_neg hne]
  by_cases hlong : maxSourceBytes < (Utf8.encode data).length
  · rw [if_pos hlong]
    constructor
    · intro h
      cases h
    · rintro ⟨hshort, -⟩
      exact absurd hlong (Nat.not_lt.mpr hshort)
  rw [if_neg hlong, and_iff_right (Nat.not_lt.mp hlong)]
  constructor
  · intro h
    split at h
    · rename_i members hmembers
      split at h
      · cases h
      · rename_i found hfound
        split at h
        · cases h
        · rename_i names hnames
          by_cases hcount : fieldCount members = names.length
          · simp only [hcount, ne_eq, not_true_eq_false, if_false] at h
            have heq : found = source := by
              cases hcheck : names.forM fun field =>
                  validateField serde field (fieldAt members field) with
              | error error => simp [hcheck, bind, Except.bind] at h
              | ok done => simpa [hcheck, bind, Except.bind, pure, Except.pure] using h
            subst heq
            exact ⟨members, names, hmembers, hfound, hnames, hcount, (hall names _ found).mp h⟩
          · simp only [ne_eq, hcount, not_false_eq_true, if_true] at h
            cases h
    · cases h
  · rintro ⟨members, names, hmembers, hfound, hnames, hcount, hvalid⟩
    simp only [hmembers, hfound, hnames, hcount, ne_eq, not_true_eq_false, if_false]
    exact (hall names _ source).mpr hvalid

/-- The names of the fields that a kind requires. -/
theorem required_eq_some {kind : String} {names : List String} (h : required kind = some names) :
    (kind = "album" ∧ names = ["kind", "albumId", "albumTitle", "artistName"]) ∨
    (kind = "playlist" ∧ names = ["kind", "playlistId", "name"]) ∨
    (kind = "user" ∧ names = ["kind"]) ∨ (kind = "suggestion" ∧ names = ["kind", "basedOn"]) := by
  rw [required] at h
  split_ifs at h with halbum hplaylist huser hsuggestion
  · exact .inl ⟨halbum, (Option.some.inj h).symm⟩
  · exact .inr (.inl ⟨hplaylist, (Option.some.inj h).symm⟩)
  · exact .inr (.inr (.inl ⟨huser, (Option.some.inj h).symm⟩))
  · exact .inr (.inr (.inr ⟨hsuggestion, (Option.some.inj h).symm⟩))

theorem accepted_of_parseJson (h : serde.Documented) {data : List Char}
    (hparse : parseJson serde data = .ok source) : Accepted source := by
  by_cases hne : data = []
  · rw [parseJson, if_pos hne] at hparse
    cases hparse
    exact .user
  obtain ⟨-, members, names, -, hsource, hnames, hcount, hvalid⟩ := (parseJson_eq_ok hne).mp hparse
  obtain ⟨-, hkind, hid, htitle, hartist, hplaylist, hname, hbasedOn⟩ :=
    deserialize_eq_some.mp hsource
  -- A required text is read as the one that was checked.
  have htext : ∀ {name value}, name ∈ names → name ≠ "basedOn" →
      QueueItemSource.nullable serde members name = some value → IsText value := by
    intro name value hmem hother hvalue
    obtain ⟨raw, text, hraw, hstring, htext⟩ := text_of_validateField h hother (hvalid name hmem)
    rw [nullable_text h hraw hstring] at hvalue
    rwa [← Option.some.inj hvalue]
  have hsome : ∀ name ∈ names, (fieldAt members name).isSome = true := by
    intro name hmem
    by_cases hother : name = "basedOn"
    · subst hother
      obtain ⟨raw, _, hraw, -⟩ := basedOn_of_validateField h (hvalid _ hmem)
      rw [hraw]
      rfl
    · obtain ⟨raw, _, hraw, -⟩ := text_of_validateField h hother (hvalid _ hmem)
      rw [hraw]
      rfl
  -- What is not required is not there.
  have habsent : ∀ {name value}, names.Nodup → name ∉ names →
      QueueItemSource.nullable serde members name = some value → value = "" := by
    intro name value hnodup hnot hvalue
    rw [nullable_absent (fieldAt_eq_none hnodup hcount hsome hnot)] at hvalue
    exact (Option.some.inj hvalue).symm
  have hnone : names.Nodup → "basedOn" ∉ names → source.basedOn = none := by
    intro hnodup hnot
    rw [QueueItemSource.optional, fieldAt_eq_none hnodup hcount hsome hnot] at hbasedOn
    exact (Option.some.inj hbasedOn).symm
  obtain ⟨kind, albumId, albumTitle, artistName, playlistId, name, basedOn⟩ := source
  simp only at hkind hid htitle hartist hplaylist hname hbasedOn hnone hnames
  rcases required_eq_some hnames with ⟨rfl, rfl⟩ | ⟨rfl, rfl⟩ | ⟨rfl, rfl⟩ | ⟨rfl, rfl⟩
  · obtain rfl := habsent (by decide) (by decide) hplaylist
    obtain rfl := habsent (by decide) (by decide) hname
    obtain rfl := hnone (by decide) (by decide)
    exact .album (htext (by decide) (by decide) hid) (htext (by decide) (by decide) htitle)
      (htext (by decide) (by decide) hartist)
  · obtain rfl := habsent (by decide) (by decide) hid
    obtain rfl := habsent (by decide) (by decide) htitle
    obtain rfl := habsent (by decide) (by decide) hartist
    obtain rfl := hnone (by decide) (by decide)
    exact .playlist (htext (by decide) (by decide) hplaylist) (htext (by decide) (by decide) hname)
  · obtain rfl := habsent (by decide) (by decide) hid
    obtain rfl := habsent (by decide) (by decide) htitle
    obtain rfl := habsent (by decide) (by decide) hartist
    obtain rfl := habsent (by decide) (by decide) hplaylist
    obtain rfl := habsent (by decide) (by decide) hname
    obtain rfl := hnone (by decide) (by decide)
    exact .user
  · obtain rfl := habsent (by decide) (by decide) hid
    obtain rfl := habsent (by decide) (by decide) htitle
    obtain rfl := habsent (by decide) (by decide) hartist
    obtain rfl := habsent (by decide) (by decide) hplaylist
    obtain rfl := habsent (by decide) (by decide) hname
    obtain ⟨raw, trackIds, hraw, hstrings, hcount, htexts⟩ :=
      basedOn_of_validateField h (hvalid "basedOn" (by decide))
    have hread : some (some trackIds) = some basedOn := by
      rw [← hbasedOn, QueueItemSource.optional, hraw, ← hstrings]
    cases hread
    exact .suggestion hcount htexts

end Read

/-! ### What is written -/

theorem forEncoding_of_accepted (hs : Accepted source) :
    source.forEncoding = source := by
  cases hs with
  | album _ _ _ => rfl
  | playlist _ _ => rfl
  | user => rfl
  | suggestion _ _ => rfl

/-- Another spelling of what stands for a string or a list. -/
structure Respells (f : List Char → List Char) : Prop where
  string : ∀ {text value}, Spells text value → Spells (f text) value
  list : ∀ items, f (arrayText items) = arrayText (items.map f)

theorem escape_respells : Respells escape where
  string h := h.escape
  list := escape_arrayText

theorem id_respells : Respells id where
  string h := h
  list items := by rw [List.map_id]; rfl

/-- The members of a source in that spelling. -/
def written (f : List Char → List Char) (serde : Serde) (source : QueueItemSource) :
    List (String × List Char) :=
  (source.members serde).map fun member => (member.1, f member.2)

variable {f : List Char → List Char}

theorem names_plain : ∀ name ∈ QueueItemSource.names,
    IsName name ∧ ∀ c ∈ name.toList, c ∉ special := by
  have hall : (QueueItemSource.names.all fun name => name.toList.all fun c =>
      decide (c ≠ '"' ∧ c ≠ '\\' ∧ 0x20 ≤ c.toNat) && decide (c ∉ special)) = true := by
    decide +kernel
  intro name hname
  have hplain := List.all_eq_true.mp (List.all_eq_true.mp hall name hname)
  constructor
  · intro c hc
    exact of_decide_eq_true (Bool.and_eq_true_iff.mp (hplain c hc)).1
  · intro c hc
    exact of_decide_eq_true (Bool.and_eq_true_iff.mp (hplain c hc)).2

/-- Every member is one of the fields, with a string or a list of strings. -/
theorem mem_members (h : serde.Documented) :
    ∀ member ∈ source.members serde, member.1 ∈ QueueItemSource.names ∧
      ((∃ value, Spells member.2 value) ∨
        ∃ trackIds : List String, member.2 = arrayText (trackIds.map serde.quote)) := by
  have hnonempty : ∀ {name value : String}, name ∈ QueueItemSource.names →
      ∀ member ∈ (if value = "" then [] else [(name, serde.quote value)]),
        member.1 ∈ QueueItemSource.names ∧
          ((∃ value, Spells member.2 value) ∨
            ∃ trackIds : List String, member.2 = arrayText (trackIds.map serde.quote)) := by
    intro name value hname member hmember
    split_ifs at hmember
    · cases hmember
    · obtain rfl := List.mem_singleton.mp hmember
      exact ⟨hname, .inl ⟨value, h.quote value⟩⟩
  intro member hmember
  simp only [QueueItemSource.members, List.mem_append, List.mem_singleton] at hmember
  rcases hmember with (((((rfl | hmember) | hmember) | hmember) | hmember) | hmember) | hmember
  · exact ⟨(by decide : "kind" ∈ QueueItemSource.names), .inl ⟨_, h.quote _⟩⟩
  · exact hnonempty (by decide) member hmember
  · exact hnonempty (by decide) member hmember
  · exact hnonempty (by decide) member hmember
  · exact hnonempty (by decide) member hmember
  · exact hnonempty (by decide) member hmember
  · split at hmember
    · cases hmember
    · rename_i trackIds _
      obtain rfl := List.mem_singleton.mp hmember
      exact ⟨(by decide : "basedOn" ∈ QueueItemSource.names), .inr ⟨trackIds, rfl⟩⟩

theorem escape_members (h : serde.Documented) (source : QueueItemSource) :
    escape (objectText (source.members serde)) = objectText (written escape serde source) :=
  escape_objectText fun member hmember => (names_plain _ (mem_members h member hmember).1).2

theorem fields_objectText (h : serde.Documented) (hf : Respells f) (source : QueueItemSource) :
    serde.fields (objectText (written f serde source)) = some (some (written f serde source)) := by
  have hmembers : ∀ member ∈ written f serde source, IsName member.1 ∧ IsValue member.2 := by
    intro member hmember
    obtain ⟨plain, hplain, rfl⟩ := List.mem_map.mp hmember
    obtain ⟨hname, hvalue⟩ := mem_members h plain hplain
    refine ⟨(names_plain _ hname).1, ?_⟩
    rcases hvalue with ⟨value, hvalue⟩ | ⟨trackIds, htrackIds⟩
    · exact .inl ⟨value, hf.string hvalue⟩
    · refine .inr ⟨(trackIds.map serde.quote).map f, ?_, ?_⟩
      · rw [htrackIds, hf.list]
      · intro item hitem
        rw [List.map_map] at hitem
        obtain ⟨trackId, -, rfl⟩ := List.mem_map.mp hitem
        exact ⟨trackId, hf.string (h.quote trackId)⟩
  have hobject : serde.isNull (objectText (written f serde source)) = false :=
    h.notNull _ (.inr (.inr rfl))
  rw [Serde.fields, hobject, h.object hmembers]
  rfl

theorem strings_arrayText (h : serde.Documented) (hf : Respells f) (trackIds : List String) :
    serde.strings (arrayText ((trackIds.map serde.quote).map f)) = some (some trackIds) := by
  have hitems : ∀ item ∈ (trackIds.map serde.quote).map f, ∃ value, Spells item value := by
    intro item hitem
    rw [List.map_map] at hitem
    obtain ⟨trackId, -, rfl⟩ := List.mem_map.mp hitem
    exact ⟨trackId, hf.string (h.quote trackId)⟩
  have hread : ((trackIds.map serde.quote).map f).mapM serde.string = some trackIds := by
    clear hitems
    induction trackIds with
    | nil => rfl
    | cons trackId trackIds ih =>
      rw [List.map_cons, List.map_cons, List.mapM_cons, h.string (hf.string (h.quote trackId)), ih]
      rfl
  have hlist : serde.isNull (arrayText ((trackIds.map serde.quote).map f)) = false :=
    h.notNull _ (.inr (.inl rfl))
  rw [Serde.strings, hlist, h.array hitems, Option.bind_some, hread]
  rfl

/-- What is written for an accepted source is read as that source. -/
theorem deserialize_written (h : serde.Documented) (hf : Respells f) (hs : Accepted source) :
    ∃ names, QueueItemSource.deserialize serde (written f serde source) = some source ∧
      required source.kind = some names ∧ fieldCount (written f serde source) = names.length ∧
      ∀ name ∈ names, validateField serde name
        (fieldAt (written f serde source) name) = .ok () := by
  have hread : ∀ value, serde.string (f (serde.quote value)) = some value :=
    fun value => h.string (hf.string (h.quote value))
  have hkind : ∀ kind, (kind = "album" ∨ kind = "playlist" ∨ kind = "user" ∨ kind = "suggestion") →
      IsText kind := by
    rintro kind (rfl | rfl | rfl | rfl) <;> exact ⟨by decide +kernel, by decide +kernel⟩
  have hvalid : ∀ {name value : String}, name ≠ "basedOn" → IsText value →
      validateField serde name (some (f (serde.quote value))) = .ok () :=
    fun hname hvalue => validateField_text hname (hread _) hvalue
  cases hs with
  | @album albumId albumTitle artistName hid htitle hartist =>
    have hwritten : written f serde ⟨"album", albumId, albumTitle, artistName, "", "", none⟩ =
        [("kind", f (serde.quote "album")), ("albumId", f (serde.quote albumId)),
          ("albumTitle", f (serde.quote albumTitle)),
          ("artistName", f (serde.quote artistName))] := by
      simp [written, QueueItemSource.members, hid.ne_empty, htitle.ne_empty, hartist.ne_empty]
    have hnodup : (["kind", "albumId", "albumTitle", "artistName"].filter fun name =>
        decide (name ∈ QueueItemSource.names)).Nodup := by decide
    rw [hwritten]
    refine ⟨["kind", "albumId", "albumTitle", "artistName"], deserialize_eq_some.mpr
      ⟨hnodup, nullable_text h rfl (hread "album"), nullable_text h rfl (hread albumId),
        nullable_text h rfl (hread albumTitle), nullable_text h rfl (hread artistName),
        nullable_absent rfl, nullable_absent rfl, rfl⟩, rfl, rfl, ?_⟩
    rw [List.forall_mem_cons, List.forall_mem_cons, List.forall_mem_cons, List.forall_mem_singleton]
    exact ⟨hvalid (by decide) (hkind _ (.inl rfl)), hvalid (by decide) hid,
      hvalid (by decide) htitle, hvalid (by decide) hartist⟩
  | @playlist playlistId name hid hname =>
    have hwritten : written f serde ⟨"playlist", "", "", "", playlistId, name, none⟩ =
        [("kind", f (serde.quote "playlist")), ("playlistId", f (serde.quote playlistId)),
          ("name", f (serde.quote name))] := by
      simp [written, QueueItemSource.members, hid.ne_empty, hname.ne_empty]
    have hnodup : (["kind", "playlistId", "name"].filter fun name =>
        decide (name ∈ QueueItemSource.names)).Nodup := by decide
    rw [hwritten]
    refine ⟨["kind", "playlistId", "name"], deserialize_eq_some.mpr
      ⟨hnodup, nullable_text h rfl (hread "playlist"), nullable_absent rfl, nullable_absent rfl,
        nullable_absent rfl, nullable_text h rfl (hread playlistId),
        nullable_text h rfl (hread name), rfl⟩, rfl, rfl, ?_⟩
    rw [List.forall_mem_cons, List.forall_mem_cons, List.forall_mem_singleton]
    exact ⟨hvalid (by decide) (hkind _ (.inr (.inl rfl))), hvalid (by decide) hid,
      hvalid (by decide) hname⟩
  | user =>
    have hwritten : written f serde .user = [("kind", f (serde.quote "user"))] := by
      simp [written, QueueItemSource.members, QueueItemSource.user, QueueItemSource.empty]
    have hnodup : (["kind"].filter fun name =>
        decide (name ∈ QueueItemSource.names)).Nodup := by decide
    rw [hwritten]
    refine ⟨["kind"], deserialize_eq_some.mpr
      ⟨hnodup, nullable_text h rfl (hread "user"), nullable_absent rfl, nullable_absent rfl,
        nullable_absent rfl, nullable_absent rfl, nullable_absent rfl, rfl⟩, rfl, rfl, ?_⟩
    rw [List.forall_mem_singleton]
    exact hvalid (by decide) (hkind _ (.inr (.inr (.inl rfl))))
  | @suggestion trackIds hcount htexts =>
    have hwritten : written f serde ⟨"suggestion", "", "", "", "", "", some trackIds⟩ =
        [("kind", f (serde.quote "suggestion")),
          ("basedOn", arrayText ((trackIds.map serde.quote).map f))] := by
      simp [written, QueueItemSource.members, hf.list]
    have hlist := strings_arrayText h hf trackIds
    have hnodup : (["kind", "basedOn"].filter fun name =>
        decide (name ∈ QueueItemSource.names)).Nodup := by decide
    rw [hwritten]
    refine ⟨["kind", "basedOn"], deserialize_eq_some.mpr
      ⟨hnodup, nullable_text h rfl (hread "suggestion"), nullable_absent rfl, nullable_absent rfl,
        nullable_absent rfl, nullable_absent rfl, nullable_absent rfl, hlist⟩, rfl, rfl, ?_⟩
    rw [List.forall_mem_cons, List.forall_mem_singleton]
    exact ⟨hvalid (by decide) (hkind _ (.inr (.inr (.inr rfl)))),
      validateField_basedOn hlist hcount htexts⟩

/-- However it is spelled, an accepted source is read as that source, unless the text is too
long. -/
theorem parseJson_written (h : serde.Documented) (hf : Respells f) (hs : Accepted source) :
    parseJson serde (objectText (written f serde source)) =
      if (Utf8.encode (objectText (written f serde source))).length ≤ maxSourceBytes then .ok source
      else .error s!"{invalid}: source exceeds {maxSourceBytes} bytes" := by
  have hne : objectText (written f serde source) ≠ [] := List.cons_ne_nil _ _
  obtain ⟨names, hsource, hnames, hcount, hvalid⟩ := deserialize_written h hf hs
  by_cases hlength : (Utf8.encode (objectText (written f serde source))).length ≤ maxSourceBytes
  · rw [if_pos hlength, parseJson_eq_ok hne]
    exact ⟨hlength, written f serde source, names, fields_objectText h hf source, hsource, hnames,
      hcount, hvalid⟩
  · rw [if_neg hlength, parseJson, if_neg hne, if_pos (Nat.not_le.mp hlength)]

theorem sourceText_eq (h : serde.Documented) (hs : Accepted source) :
    sourceText serde source = objectText (written escape serde source) := by
  rw [sourceText, forEncoding_of_accepted hs, escape_members h]

/-- The text of an accepted source is read as that source, unless it is too long. -/
theorem parseJson_sourceText (h : serde.Documented) (hs : Accepted source) :
    parseJson serde (sourceText serde source) =
      if (Utf8.encode (sourceText serde source)).length ≤ maxSourceBytes then .ok source
      else .error s!"{invalid}: source exceeds {maxSourceBytes} bytes" := by
  rw [sourceText_eq h hs, parseJson_written h escape_respells hs]

end Harmony.Playback
