/-
# Texts and revision

What every statement keeps: each entity has exactly one text, that of its current
name, and a statement that changes anything a load reads advances the revision.
The second rests on the first, since it is the deletion of a text that tells of a
deleted entity.
-/

import Harmony.Search.Index

namespace Harmony.Search

/-! ### Tables -/

section Tables

variable {κ ρ : Type} [DecidableEq κ] {rows rows' : Table κ ρ} {key : κ} {newKey : Option κ}
  {change : ρ → ρ}

theorem modify_of_notMem (h : key ∉ rows) : rows.modify key change = rows := by
  apply AList.ext
  rw [Table.modify, Table.updateWhere, Table.rewrite]
  have hkept : ∀ entry ∈ rows.entries,
      Table.rewriteEntry (fun k r => some (if decide (k = key) then change r else r)) entry =
        some entry := by
    rintro ⟨key', row⟩ hentry
    have hne : key' ≠ key := by
      rintro rfl
      exact h (AList.mem_keys.mpr (List.mem_keys_of_mem hentry))
    simp [Table.rewriteEntry, hne]
  exact (List.filterMap_congr hkept).trans (by simp)

/-- What is filed where after a row got a new key and was changed. -/
theorem lookup_rekey (h : Database.rekey rows key newKey change = .ok rows') (k : κ) :
    rows'.lookup k = match rows.lookup key with
      | none => rows.lookup k
      | some row =>
        if k = newKey.getD key then some (change row) else if k = key then none
        else rows.lookup k := by
  unfold Database.rekey at h
  cases newKey with
  | none =>
    cases h
    rw [Table.lookup_modify]
    by_cases hk : k = key
    · subst hk
      cases hrow : rows.lookup k <;> simp
    · cases hrow : rows.lookup key <;> simp [hk]
  | some newKey =>
    cases hrow : rows.lookup key with
    | none =>
      rw [hrow] at h
      cases h
      rfl
    | some row =>
      simp only [hrow] at h
      split_ifs at h
      cases h
      rw [Table.lookup_insert_eq, Table.lookup_erase_eq, Option.getD_some]

/-- Without a new key, and for a row that is not there, the rows stay as they
are but for the change. -/
theorem rekey_of_notMem (h : Database.rekey rows key newKey change = .ok rows')
    (hkey : key ∉ rows) :
    rows' = rows := by
  unfold Database.rekey at h
  rw [AList.lookup_eq_none.mpr hkey] at h
  cases newKey with
  | none => exact (Except.ok.inj h).symm.trans (modify_of_notMem hkey)
  | some newKey => exact (Except.ok.inj h).symm

end Tables

/-! ### Texts -/

section Texts

variable {U : Unicode} {d d' : Database} {names : Kind → String → Option String} {kind : Kind}
  {id name : String}

/-- The texts are those of the names. -/
def TextsOf (U : Unicode) (d : Database) (names : Kind → String → Option String) : Prop :=
  ∀ kind id, d.texts.lookup (kind, id) = (names kind id).map (Database.textOf U kind)

/-- Every entity has exactly one text, that of its current name and kind, and
nothing else has one. -/
def TextsCurrent (U : Unicode) (d : Database) : Prop := TextsOf U d d.nameOf

/-- The names with one of them set. -/
def rename (names : Kind → String → Option String) (kind : Kind) (id : String)
    (name : Option String) : Kind → String → Option String :=
  fun k i => if k = kind ∧ i = id then name else names k i

/-- The statement wrote texts, and the revision with them. -/
structure WritesTexts (d d' : Database) : Prop where
  names : d'.nameOf = d.nameOf
  revision : d.revision < d'.revision

theorem TextsOf.mem_iff (h : TextsOf U d names) :
    (kind, id) ∈ d.texts ↔ (names kind id).isSome = true := by
  rw [← AList.lookup_isSome, h kind id, Option.isSome_map]

theorem TextsOf.insertText (h : TextsOf U d names)
    (hrun : d.insertText U kind id name = .ok d') :
    TextsOf U d' (rename names kind id (some name)) ∧ WritesTexts d d' := by
  rw [Database.insertText] at hrun
  split_ifs at hrun
  cases hrun
  refine ⟨fun k i => ?_, by ext; rfl, Nat.lt_succ_self _⟩
  show AList.lookup (k, i) (AList.insert _ _ _) = _
  rw [Table.lookup_insert_eq, rename]
  by_cases hkey : k = kind ∧ i = id
  · rw [if_pos (by rw [hkey.1, hkey.2]), if_pos hkey, hkey.1]
    rfl
  · rw [if_neg (by simpa using hkey), if_neg hkey, h k i]

theorem TextsOf.deleteText (h : TextsOf U d names) :
    TextsOf U (d.deleteText kind id) (rename names kind id none) ∧
      (d.deleteText kind id).nameOf = d.nameOf ∧
      d.revision ≤ (d.deleteText kind id).revision ∧
      ((names kind id).isSome = true → d.revision < (d.deleteText kind id).revision) := by
  rw [Database.deleteText]
  split_ifs with hmem
  · refine ⟨fun k i => ?_, by ext; rfl, Nat.le_succ _, fun _ => Nat.lt_succ_self _⟩
    show AList.lookup (k, i) (AList.erase _ _) = _
    rw [Table.lookup_erase_eq, rename]
    by_cases hkey : k = kind ∧ i = id
    · rw [if_pos (by rw [hkey.1, hkey.2]), if_pos hkey]
      rfl
    · rw [if_neg (by simpa using hkey), if_neg hkey, h k i]
  · rw [h.mem_iff] at hmem
    refine ⟨fun k i => ?_, rfl, le_refl _, fun hsome => absurd hsome hmem⟩
    rw [rename]
    split_ifs with hkey
    · rw [h k i, hkey.1, hkey.2, Option.not_isSome_iff_eq_none.mp hmem]
    · exact h k i

/-- The names after the row under the ID, if there is one, got another ID or
name. -/
def renamed (names : Kind → String → Option String) (kind : Kind) (id newId : String) :
    Option String → Kind → String → Option String
  | none => names
  | some name => rename (rename names kind id none) kind newId (some name)

theorem TextsOf.afterRename (h : TextsOf U d names) {newId newName old : Option String}
    (hold : old = names kind id)
    (hrun : d.afterRename U kind id newId newName old = .ok d') :
    TextsOf U d' (renamed names kind id (newId.getD id) (old.map newName.getD)) ∧
      (WritesTexts d d' ∨ d' = d ∧ (old = none ∨ newId = none ∧ newName = none)) := by
  cases old with
  | none =>
    cases hrun
    exact ⟨h, Or.inr ⟨rfl, Or.inl rfl⟩⟩
  | some name =>
    rw [Database.afterRename] at hrun
    split_ifs at hrun with hassigned
    · obtain ⟨hdeleted, hnames, hrevision, -⟩ :=
        @TextsOf.deleteText U d names kind id h
      obtain ⟨htexts, hwrites⟩ := hdeleted.insertText hrun
      exact ⟨htexts, Or.inl ⟨hwrites.names.trans hnames, hrevision.trans_lt hwrites.revision⟩⟩
    · simp only [Bool.or_eq_true, not_or, Option.not_isSome_iff_eq_none] at hassigned
      obtain ⟨rfl, rfl⟩ := hassigned
      cases hrun
      refine ⟨fun k i => ?_, Or.inr ⟨rfl, Or.inr ⟨rfl, rfl⟩⟩⟩
      rw [h k i]
      simp only [Option.map_some, renamed, rename, Option.getD_none]
      by_cases hkey : k = kind ∧ i = id
      · rw [if_pos hkey, hkey.1, hkey.2, ← hold]
      · rw [if_neg hkey, if_neg hkey]

end Texts

/-! ### Names -/

section Names

variable {d : Database} {names : Kind → String → Option String} {kind : Kind} {id : String}

/-- The names with those of one kind read from other rows. -/
def withRows {ρ : Type} (names : Kind → String → Option String) (kind : Kind) (label : ρ → String)
    (rows : Table String ρ) : Kind → String → Option String :=
  fun k i => if k = kind then (rows.lookup i).map label else names k i

theorem nameOf_tracks (tracks : Table String TrackRow) :
    ({ d with tracks } : Database).nameOf = withRows d.nameOf .track TrackRow.title tracks := by
  funext k i
  cases k <;> rfl

theorem nameOf_setNames (table : NameTable) (rows : Table String NameRow) :
    (d.setNames table rows).nameOf = withRows d.nameOf table.kind NameRow.name rows := by
  funext k i
  cases table <;> cases k <;> rfl

theorem nameOf_playlists (playlists : Table String PlaylistRow) :
    ({ d with playlists } : Database).nameOf =
      withRows d.nameOf .playlist PlaylistRow.name playlists := by
  funext k i
  cases k <;> rfl

variable {ρ : Type} {label : ρ → String} {rows rows' : Table String ρ}

theorem withRows_insert (h : ∀ i, names kind i = (rows.lookup i).map label) (row : ρ) :
    withRows names kind label (rows.insert id row) = rename names kind id (some (label row)) := by
  funext k i
  rw [withRows, rename, Table.lookup_insert_eq]
  by_cases hk : k = kind
  · subst hk
    by_cases hi : i = id
    · simp [hi]
    · simp [hi, h i]
  · simp [hk]

theorem withRows_erase (h : ∀ i, names kind i = (rows.lookup i).map label) :
    withRows names kind label (rows.erase id) = rename names kind id none := by
  funext k i
  rw [withRows, rename, Table.lookup_erase_eq]
  by_cases hk : k = kind
  · subst hk
    by_cases hi : i = id
    · simp [hi]
    · simp [hi, h i]
  · simp [hk]

theorem withRows_rekey (h : ∀ i, names kind i = (rows.lookup i).map label) {newId : Option String}
    {change : ρ → ρ} (hrekey : Database.rekey rows id newId change = .ok rows') :
    withRows names kind label rows' =
      renamed names kind id (newId.getD id)
        ((rows.lookup id).map fun row => label (change row)) := by
  funext k i
  rw [withRows, lookup_rekey hrekey]
  cases hrow : rows.lookup id with
  | none =>
    by_cases hk : k = kind
    · rw [if_pos hk, hk]
      exact (h i).symm
    · rw [if_neg hk]
      rfl
  | some row =>
    simp only [Option.map_some, renamed, rename]
    by_cases hk : k = kind
    · subst hk
      by_cases hnew : i = newId.getD id
      · simp [hnew]
      · by_cases hi : i = id
        · subst hi
          simp [hnew]
        · simp [hnew, hi, h i]
    · simp [hk]

end Names

/-! ### Statements -/

/-- Nothing a load reads has changed, or the revision has advanced. -/
def Advances (d d' : Database) : Prop :=
  d.revision < d'.revision ∨ d'.revision = d.revision ∧ d'.searched = d.searched

instance : IsPreorder Database Advances where
  refl _ := Or.inr ⟨rfl, rfl⟩
  trans _ _ _ hfirst hsecond := by
    rcases hfirst with hfirst | ⟨hfirst, hsame⟩ <;> rcases hsecond with hsecond | ⟨hsecond, hsame'⟩
    · exact Or.inl (hfirst.trans hsecond)
    · exact Or.inl (hsecond ▸ hfirst)
    · exact Or.inl (hfirst ▸ hsecond)
    · exact Or.inr ⟨hsecond.trans hfirst, hsame'.trans hsame⟩

section Statements

variable {U : Unicode} {d d' : Database} {id : String} {kind : Kind} {table : NameTable}

/-- The texts of a database with other rows are the old ones. -/
theorem TextsCurrent.textsOf (h : TextsCurrent U d) (htexts : d'.texts = d.texts) :
    TextsOf U d' d.nameOf := fun kind id => by rw [htexts]; exact h kind id

theorem TextsOf.current {names : Kind → String → Option String} (h : TextsOf U d names)
    (hnames : d.nameOf = names) : TextsCurrent U d := by
  rw [TextsCurrent, hnames]
  exact h

/-- An entity is inserted with its text. -/
theorem insert_keeps {ρ : Type} {label : ρ → String} (rows : Table String ρ) {row : ρ}
    {inserted : Database} (h : TextsCurrent U d)
    (hrows : ∀ i, d.nameOf kind i = (rows.lookup i).map label)
    (hnames : inserted.nameOf = withRows d.nameOf kind label (rows.insert id row))
    (htexts : inserted.texts = d.texts) (hrevision : inserted.revision = d.revision)
    (hrun : inserted.insertText U kind id (label row) = .ok d') :
    TextsCurrent U d' ∧ Advances d d' := by
  obtain ⟨htextsOf, hwrites⟩ := (h.textsOf htexts).insertText hrun
  refine ⟨htextsOf.current ?_, Or.inl (hrevision ▸ hwrites.revision)⟩
  rw [hwrites.names, hnames, withRows_insert hrows]

/-- An entity is deleted with its text. -/
theorem delete_keeps {ρ : Type} {label : ρ → String} (rows : Table String ρ) {deleted : Database}
    (h : TextsCurrent U d) (hrows : ∀ i, d.nameOf kind i = (rows.lookup i).map label)
    (hmem : id ∈ rows) (hnames : deleted.nameOf = withRows d.nameOf kind label (rows.erase id))
    (htexts : deleted.texts = d.texts) (hrevision : d.revision ≤ deleted.revision) :
    TextsCurrent U (deleted.deleteText kind id) ∧ Advances d (deleted.deleteText kind id) := by
  obtain ⟨htextsOf, hkept, -, hadvances⟩ :=
    @TextsOf.deleteText U deleted d.nameOf kind id (h.textsOf htexts)
  have hsome : (d.nameOf kind id).isSome = true := by
    rw [hrows, Option.isSome_map, AList.lookup_isSome]
    exact hmem
  refine ⟨htextsOf.current ?_, Or.inl (hrevision.trans_lt (hadvances hsome))⟩
  rw [hkept, hnames, withRows_erase hrows]

/-- An entity is updated and its text renamed with it; when neither its name nor
its ID is assigned the database keeps the new rows as they are. -/
theorem update_keeps {ρ : Type} {label : ρ → String} (rows : Table String ρ)
    {rows' : Table String ρ} {updated : Database} {change : ρ → ρ} {newId newName : Option String}
    (h : TextsCurrent U d) (hrows : ∀ i, d.nameOf kind i = (rows.lookup i).map label)
    (hrekey : Database.rekey rows id newId change = .ok rows')
    (hlabel : ∀ row, label (change row) = newName.getD (label row))
    (hnames : updated.nameOf = withRows d.nameOf kind label rows')
    (htexts : updated.texts = d.texts) (hrevision : updated.revision = d.revision)
    (hrun : updated.afterRename U kind id newId newName (d.nameOf kind id) = .ok d') :
    TextsCurrent U d' ∧
      (d.revision < d'.revision ∨ d' = updated ∧ (id ∉ rows ∨ newId = none ∧ newName = none)) := by
  obtain ⟨htextsOf, hwrites⟩ := (h.textsOf htexts).afterRename rfl hrun
  have hkept : d'.nameOf = updated.nameOf := by
    rcases hwrites with hwrites | ⟨rfl, -⟩
    · exact hwrites.names
    · rfl
  constructor
  · refine htextsOf.current ?_
    rw [hkept, hnames, withRows_rekey hrows hrekey, hrows, Option.map_map]
    simp only [hlabel]
    rfl
  · rcases hwrites with hwrites | ⟨rfl, hnot⟩
    · exact Or.inl (hrevision ▸ hwrites.revision)
    · refine Or.inr ⟨rfl, hnot.imp_left fun hnone => ?_⟩
      rw [hrows, Option.map_eq_none_iff, AList.lookup_eq_none] at hnone
      exact hnone

/-! #### Tracks, names and Playlists -/

theorem advanceIf_keeps (h : TextsCurrent U d) (condition : Bool) :
    TextsCurrent U (d.advanceIf condition) ∧ d.revision ≤ (d.advanceIf condition).revision := by
  rw [Database.advanceIf]
  split_ifs
  · exact ⟨h, Nat.le_succ _⟩
  · exact ⟨h, le_refl _⟩

/-- So does an update of an entity, whose trigger watches the other columns that a
search reads. -/
theorem updateIf_keeps {ρ : Type} {label : ρ → String} {searched : ρ → ρ} (rows : Table String ρ)
    {rows' : Table String ρ} {updated : Database} {change : ρ → ρ} {newId newName : Option String}
    (h : TextsCurrent U d) (hrows : ∀ i, d.nameOf kind i = (rows.lookup i).map label)
    (hrekey : Database.rekey rows id newId change = .ok rows')
    (hlabel : ∀ row, label (change row) = newName.getD (label row))
    (hnames : updated.nameOf = withRows d.nameOf kind label rows')
    (htexts : updated.texts = d.texts) (hrevision : updated.revision = d.revision)
    (hrun : updated.afterRename U kind id newId newName (d.nameOf kind id) = .ok d')
    (assigned : Bool)
    (hunread : newName = none → assigned = false → ∀ row, searched (change row) = searched row)
    (hsearched : mapRows searched rows' = mapRows searched rows → updated.searched = d.searched) :
    TextsCurrent U (d'.advanceIf (decide (id ∈ rows) && assigned)) ∧
      Advances d (d'.advanceIf (decide (id ∈ rows) && assigned)) := by
  obtain ⟨hcurrent, hrest⟩ :=
    update_keeps rows h hrows hrekey hlabel hnames htexts hrevision hrun
  obtain ⟨hkept, hadvanced⟩ := advanceIf_keeps hcurrent (decide (id ∈ rows) && assigned)
  refine ⟨hkept, ?_⟩
  rcases hrest with hlt | ⟨rfl, hnot⟩
  · exact Or.inl (hlt.trans_le hadvanced)
  cases hcondition : decide (id ∈ rows) && assigned with
  | true => exact Or.inl (hrevision ▸ Nat.lt_succ_self _)
  | false =>
    refine Or.inr ⟨hrevision, hsearched ?_⟩
    by_cases hmem : id ∈ rows
    · -- Only columns that no search reads were assigned.
      obtain ⟨rfl, rfl⟩ := hnot.resolve_left (not_not_intro hmem)
      have hassigned : assigned = false := by simpa [hmem] using hcondition
      cases hrekey
      exact mapRows_modify (hunread rfl hassigned) rows id
    · rw [rekey_of_notMem hrekey hmem]

theorem deleteCredits_revision (table : CreditTable) :
    d.revision ≤ (d.deleteCredits table id).revision := Nat.le_add_right _ _

theorem insertTrack_keeps {row : TrackRow} (h : TextsCurrent U d)
    (hrun : d.insertTrack U id row = .ok d') : TextsCurrent U d' ∧ Advances d d' := by
  rw [Database.insertTrack] at hrun
  split_ifs at hrun
  exact insert_keeps d.tracks h (fun _ => rfl) (nameOf_tracks _) rfl rfl hrun

theorem updateTrack_keeps {columns : TrackColumns} (h : TextsCurrent U d)
    (hrun : d.updateTrack U id columns = .ok d') : TextsCurrent U d' ∧ Advances d d' := by
  unfold Database.updateTrack at hrun
  cases hrekey : Database.rekey d.tracks id columns.id columns.change with
  | error e => simp [hrekey, bind, Except.bind] at hrun
  | ok tracks =>
    cases hrename : { d with tracks }.afterRename U .track id columns.id columns.title
        (d.nameOf .track id) with
    | error e => simp [hrekey, hrename, bind, Except.bind] at hrun
    | ok renamed =>
      simp only [hrekey, hrename, bind, Except.bind, pure, Except.pure] at hrun
      cases hrun
      refine updateIf_keeps d.tracks h (fun _ => rfl) hrekey (fun _ => rfl) (nameOf_tracks _) rfl
        rfl hrename _ (fun htitle hassigned row => ?_)
        fun hrows => by rw [Database.searched, Database.searched, hrows]
      simp only [Bool.or_eq_false_iff, Option.isSome_eq_false_iff, Option.isNone_iff_eq_none]
        at hassigned
      obtain ⟨⟨halbum, hmissing⟩, hpending⟩ := hassigned
      simp [TrackRow.searched, TrackColumns.change, htitle, halbum, hmissing, hpending]

theorem deleteTrack_keeps (h : TextsCurrent U d) :
    TextsCurrent U (d.deleteTrack id) ∧ Advances d (d.deleteTrack id) := by
  rw [Database.deleteTrack]
  split_ifs with hmem
  · exact delete_keeps d.tracks h (fun _ => rfl) hmem (nameOf_tracks _) rfl
      ((deleteCredits_revision _).trans (deleteCredits_revision _))
  · exact ⟨h, refl d⟩

theorem nameOf_kind (table : NameTable) (i : String) :
    d.nameOf table.kind i = ((d.names table).lookup i).map NameRow.name := by
  cases table <;> rfl

theorem insertName_keeps {row : NameRow} (h : TextsCurrent U d)
    (hrun : d.insertName U table id row = .ok d') : TextsCurrent U d' ∧ Advances d d' := by
  rw [Database.insertName] at hrun
  split_ifs at hrun
  exact insert_keeps (d.names table) h (nameOf_kind table) (nameOf_setNames table _) rfl rfl
    hrun

theorem updateName_keeps {columns : NameColumns} (h : TextsCurrent U d)
    (hrun : d.updateName U table id columns = .ok d') : TextsCurrent U d' ∧ Advances d d' := by
  unfold Database.updateName at hrun
  cases hrekey : Database.rekey (d.names table) id columns.id columns.change with
  | error e => simp [hrekey, bind, Except.bind] at hrun
  | ok rows =>
    simp only [hrekey, bind, Except.bind] at hrun
    have hsearched (hrows : mapRows NameRow.searched rows =
        mapRows NameRow.searched (d.names table)) :
        (d.setNames table rows).searched = d.searched := by
      rw [Database.searched, Database.searched]
      congr 1
      funext other
      by_cases hother : other = table
      · subst hother
        simp [Database.setNames, hrows]
      · simp [Database.setNames, hother]
    have hkept := updateIf_keeps (d.names table) h (nameOf_kind table) hrekey (fun _ => rfl)
      (nameOf_setNames table _) rfl rfl hrun false
      (fun hname _ row => by simp [NameRow.searched, NameColumns.change, hname]) hsearched
    rwa [Bool.and_false] at hkept

theorem deleteName_keeps (h : TextsCurrent U d) :
    TextsCurrent U (d.deleteName table id) ∧ Advances d (d.deleteName table id) := by
  unfold Database.deleteName
  split_ifs with hmem
  · refine delete_keeps (d.names table) h (nameOf_kind table) hmem ?_ ?_ ?_
    · cases table <;> exact nameOf_setNames _ _
    · cases table <;> rfl
    · cases table with
      | albums => exact deleteCredits_revision _
      | artists => exact le_refl _
      | genres => exact le_refl _
  · exact ⟨h, refl d⟩

theorem insertPlaylist_keeps {row : PlaylistRow} (h : TextsCurrent U d)
    (hrun : d.insertPlaylist U id row = .ok d') : TextsCurrent U d' ∧ Advances d d' := by
  rw [Database.insertPlaylist] at hrun
  split_ifs at hrun
  exact insert_keeps d.playlists h (fun _ => rfl) (nameOf_playlists _) rfl rfl hrun

theorem updatePlaylist_keeps {columns : PlaylistColumns} (h : TextsCurrent U d)
    (hrun : d.updatePlaylist U id columns = .ok d') : TextsCurrent U d' ∧ Advances d d' := by
  unfold Database.updatePlaylist at hrun
  cases hrekey : Database.rekey d.playlists id columns.id columns.change with
  | error e => simp [hrekey, bind, Except.bind] at hrun
  | ok playlists =>
    cases hrename : { d with playlists }.afterRename U .playlist id columns.id columns.name
        (d.nameOf .playlist id) with
    | error e => simp [hrekey, hrename, bind, Except.bind] at hrun
    | ok renamed =>
      simp only [hrekey, hrename, bind, Except.bind, pure, Except.pure] at hrun
      cases hrun
      refine updateIf_keeps d.playlists h (fun _ => rfl) hrekey (fun _ => rfl)
        (nameOf_playlists _) rfl rfl hrename _ (fun hname howner row => ?_)
        fun hrows => by rw [Database.searched, Database.searched, hrows]
      simp only [Option.isSome_eq_false_iff, Option.isNone_iff_eq_none] at howner
      simp [PlaylistRow.searched, PlaylistColumns.change, hname, howner]

theorem deletePlaylist_keeps (h : TextsCurrent U d) :
    TextsCurrent U (d.deletePlaylist id) ∧ Advances d (d.deletePlaylist id) := by
  rw [Database.deletePlaylist]
  split_ifs with hmem
  · exact delete_keeps d.playlists h (fun _ => rfl) hmem (nameOf_playlists _) rfl
      (le_refl _)
  · exact ⟨h, refl d⟩

/-! #### Credits -/

/-- A change of a relation has its trigger, and no text. -/
theorem setCredits_keeps (h : TextsCurrent U d) (table : CreditTable)
    (rows : Table (String × String) ℤ) :
    TextsCurrent U (d.setCredits table rows).advance ∧
      Advances d (d.setCredits table rows).advance :=
  ⟨h, Or.inl (Nat.lt_succ_self _)⟩

theorem updateCredit_keeps {table : CreditTable} {key : String × String}
    {newKey : Option (String × String)} {position : Option ℤ} (h : TextsCurrent U d)
    (hrun : d.updateCredit table key newKey position = .ok d') :
    TextsCurrent U d' ∧ Advances d d' := by
  unfold Database.updateCredit at hrun
  cases hrekey : Database.rekey (d.credits table) key newKey fun old => position.getD old with
  | error e => simp [hrekey, bind, Except.bind] at hrun
  | ok rows =>
    simp only [hrekey, bind, Except.bind, pure, Except.pure] at hrun
    cases hrun
    by_cases hmem : key ∈ d.credits table
    · simp only [Database.advanceIf, hmem, decide_true, if_true]
      exact setCredits_keeps h table rows
    · obtain rfl := rekey_of_notMem hrekey hmem
      simp only [Database.advanceIf, hmem, decide_false, Bool.false_eq_true, if_false]
      have hsame : d.setCredits table (d.credits table) = d := by
        rw [Database.setCredits, Function.update_eq_self]
      rw [hsame]
      exact ⟨h, refl d⟩

/-! #### The rebuild -/

/-- Every entity is a source of its text. -/
theorem mem_sources {name : String} :
    (kind, id, name) ∈ d.sources ↔ d.nameOf kind id = some name := by
  have hrow {ρ : Type} {rows : Table String ρ} {label : ρ → String} {kind' : Kind} :
      (kind, id, name) ∈ (rows.entries.map fun entry => (kind', entry.1, label entry.2)) ↔
        kind = kind' ∧ (rows.lookup id).map label = some name := by
    simp only [List.mem_map, Prod.mk.injEq, Option.map_eq_some_iff]
    constructor
    · rintro ⟨⟨key, row⟩, hentry, rfl, rfl, rfl⟩
      exact ⟨rfl, row, AList.mem_lookup_iff.mpr hentry, rfl⟩
    · rintro ⟨rfl, row, hlookup, rfl⟩
      exact ⟨⟨id, row⟩, AList.mem_lookup_iff.mp hlookup, rfl, rfl, rfl⟩
  simp only [Database.sources, List.mem_append, hrow]
  cases kind <;> simp [Database.nameOf]

/-- The texts written are added to those that are there. -/
theorem insertTexts_spec {sources : List (Kind × String × String)}
    (hrun : d.insertTexts U sources = .ok d') :
    (∀ key row, d'.texts.lookup key = some row ↔ d.texts.lookup key = some row ∨
      ∃ source ∈ sources, key = (source.1, source.2.1) ∧
        row = Database.textOf U source.1 source.2.2) ∧
      d'.nameOf = d.nameOf ∧ d'.revision = d.revision + sources.length ∧
      (sources = [] → d' = d) := by
  induction sources generalizing d with
  | nil =>
    cases hrun
    simp
  | cons source sources ih =>
    obtain ⟨kind, id, name⟩ := source
    rw [Database.insertTexts] at hrun
    cases hinsert : d.insertText U kind id name with
    | error e => simp [hinsert, bind, Except.bind] at hrun
    | ok inserted =>
      simp only [hinsert, bind, Except.bind] at hrun
      obtain ⟨hlookup, hnames, hrevision, -⟩ := ih hrun
      rw [Database.insertText] at hinsert
      split_ifs at hinsert with hnew
      cases hinsert
      refine ⟨fun key row => ?_, hnames.trans (by ext; rfl), ?_, by simp⟩
      · have hinserted : AList.lookup key (AList.insert (kind, id) (Database.textOf U kind name)
            d.texts) = some row ↔
            d.texts.lookup key = some row ∨
              key = (kind, id) ∧ row = Database.textOf U kind name := by
          rw [Table.lookup_insert_eq]
          split_ifs with hkey
          · rw [hkey, AList.lookup_eq_none.mpr hnew]
            simp [eq_comm]
          · simp [hkey]
        have hfirst := (hlookup key row).trans (or_congr_left hinserted)
        rw [hfirst]
        simp only [List.exists_mem_cons_iff, or_assoc]
      · rw [hrevision, List.length_cons, Nat.add_comm sources.length 1, ← Nat.add_assoc]
        rfl

theorem rebuild_keeps {force : Bool} (h : TextsCurrent U d)
    (hrun : d.rebuild U force = .ok d') : TextsCurrent U d' ∧ Advances d d' := by
  rw [Database.rebuild] at hrun
  split_ifs at hrun
  · cases hrun
    exact ⟨h, refl d⟩
  · obtain ⟨hlookup, hnames, hrevision, hnone⟩ := insertTexts_spec hrun
    constructor
    · intro kind id
      rw [hnames]
      ext row
      rw [hlookup, Option.map_eq_some_iff]
      constructor
      · rintro (hold | ⟨⟨kind', id', name⟩, hsource, hkey, rfl⟩)
        · cases hold
        · cases hkey
          exact ⟨name, mem_sources.mp hsource, rfl⟩
      · rintro ⟨name, hname, rfl⟩
        exact Or.inr ⟨(kind, id, name), mem_sources.mpr hname, rfl, rfl⟩
    · by_cases hempty : d.texts.size + d.sources.length = 0
      · -- There was no text, and there is none to write.
        have htexts : d.texts = ∅ := by
          apply AList.ext
          exact List.length_eq_zero_iff.mp (Nat.eq_zero_of_add_eq_zero hempty).1
        have hsources : d.sources = [] :=
          List.length_eq_zero_iff.mp (Nat.eq_zero_of_add_eq_zero hempty).2
        have hsize : d.texts.size = 0 := (Nat.eq_zero_of_add_eq_zero hempty).1
        have hsame : d' = d := by rw [hnone hsources, hsize, Nat.add_zero, ← htexts]
        rw [hsame]
        exact refl d
      · left
        have : d'.revision = d.revision + d.texts.size + d.sources.length := hrevision
        omega

/-- Every statement keeps the texts, and advances the revision when it changes
what a load reads. -/
theorem Statement.run_keeps {statement : Statement} (h : TextsCurrent U d)
    (hrun : statement.run U d = .ok d') : TextsCurrent U d' ∧ Advances d d' := by
  cases statement with
  | insertTrack id row => exact insertTrack_keeps h hrun
  | updateTrack id columns => exact updateTrack_keeps h hrun
  | deleteTrack id => exact Except.ok.inj hrun ▸ deleteTrack_keeps h
  | insertName table id row => exact insertName_keeps h hrun
  | updateName table id columns => exact updateName_keeps h hrun
  | deleteName table id => exact Except.ok.inj hrun ▸ deleteName_keeps h
  | insertPlaylist id row => exact insertPlaylist_keeps h hrun
  | updatePlaylist id columns => exact updatePlaylist_keeps h hrun
  | deletePlaylist id => exact Except.ok.inj hrun ▸ deletePlaylist_keeps h
  | insertCredit table key position =>
    simp only [Statement.run, Database.insertCredit] at hrun
    split_ifs at hrun
    exact Except.ok.inj hrun ▸ setCredits_keeps h table _
  | updateCredit table key newKey position => exact updateCredit_keeps h hrun
  | deleteCredit table key =>
    cases hrun
    rw [Database.deleteCredit]
    split_ifs
    · exact setCredits_keeps h table _
    · exact ⟨h, refl d⟩
  | rebuild force => exact rebuild_keeps h hrun

/-- So does every transaction. -/
theorem commit_keeps {statements : List Statement} (h : TextsCurrent U d)
    (hrun : d.commit U statements = .ok d') : TextsCurrent U d' ∧ Advances d d' := by
  induction statements generalizing d with
  | nil =>
    obtain rfl := Except.ok.inj hrun
    exact ⟨h, refl d⟩
  | cons statement statements ih =>
    rw [Database.commit, List.foldlM_cons] at hrun
    cases hfirst : statement.run U d with
    | error e => simp [hfirst, bind, Except.bind] at hrun
    | ok u =>
      simp only [hfirst, bind, Except.bind] at hrun
      obtain ⟨htexts, hadvances⟩ := Statement.run_keeps h hfirst
      obtain ⟨htexts', hadvances'⟩ := ih htexts hrun
      exact ⟨htexts', trans_of Advances hadvances hadvances'⟩

end Statements

end Harmony.Search
