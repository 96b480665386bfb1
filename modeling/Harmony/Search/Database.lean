/-
# The tables of Library Search and their triggers

The library tables as far as search reads them, the derived texts and the search
revision. Every statement fires its triggers: those of the names keep the texts,
and those of the texts, the credits, the visibility of Tracks and the owner of a
Playlist advance the revision. A trigger `AFTER UPDATE OF` fires when one of its
columns is assigned, whether or not the value changes.

A key that is taken refuses a statement. References are not checked here, so the
model also takes statements that a foreign key would refuse; what a deletion
cascades to is deleted.
-/

import Harmony.Library.Table
import Harmony.Search.Text

namespace Harmony.Search

/-! ### Tables -/

/-- A row of `tracks`. The columns that no search reads are one. -/
structure TrackRow where
  title : String
  albumId : String
  missingAt : Option String
  isPendingCommit : Bool
  others : String

/-- `visible_tracks`. -/
def TrackRow.isVisible (row : TrackRow) : Bool := row.missingAt.isNone && !row.isPendingCommit

/-- The tables that hold a name under an ID. -/
inductive NameTable
  | albums
  | artists
  | genres
  deriving DecidableEq

def NameTable.kind : NameTable → Kind
  | albums => .album
  | artists => .artist
  | genres => .genre

/-- A row of `albums`, `artists` or `genres`. -/
structure NameRow where
  name : String
  others : String

structure PlaylistRow where
  userId : String
  name : String
  others : String

/-- The tables that relate two IDs at a position. -/
inductive CreditTable
  | trackArtists
  | albumArtists
  | trackGenres
  deriving DecidableEq

/-- A row of `library_search_texts`, filed under its kind and ID. -/
structure TextRow where
  text : Text
  rulesVersion : ℕ

structure Database where
  tracks : Table String TrackRow
  names : NameTable → Table String NameRow
  playlists : Table String PlaylistRow
  credits : CreditTable → Table (String × String) ℤ
  texts : Table (Kind × String) TextRow
  revision : ℕ

inductive DatabaseError
  | unique

def rulesVersion : ℕ := 1

namespace Database

/-- The name of an entity: `library_search_sources`. -/
def nameOf (d : Database) : Kind → String → Option String
  | .track, id => (d.tracks.lookup id).map TrackRow.title
  | .album, id => ((d.names .albums).lookup id).map NameRow.name
  | .artist, id => ((d.names .artists).lookup id).map NameRow.name
  | .genre, id => ((d.names .genres).lookup id).map NameRow.name
  | .playlist, id => (d.playlists.lookup id).map PlaylistRow.name

def setNames (d : Database) (table : NameTable) (rows : Table String NameRow) : Database :=
  { d with names := Function.update d.names table rows }

def setCredits (d : Database) (table : CreditTable) (rows : Table (String × String) ℤ) : Database :=
  { d with credits := Function.update d.credits table rows }

/-! ### Triggers -/

/-- `UPDATE library_search_revision SET revision = revision + 1`. -/
def advance (d : Database) : Database := { d with revision := d.revision + 1 }

section Triggers

variable (U : Unicode)

/-- `library_search_text(name, kind)` with the version of the rules. -/
def textOf (kind : Kind) (name : String) : TextRow := ⟨prepareStored U name kind, rulesVersion⟩

/-- Inserts a text, which advances the revision. -/
def insertText (kind : Kind) (id name : String) (d : Database) : Except DatabaseError Database :=
  if (kind, id) ∈ d.texts then .error .unique
  else .ok { d with texts := d.texts.insert (kind, id) (textOf U kind name) }.advance

/-- Deletes a text, which advances the revision when there is one. -/
def deleteText (kind : Kind) (id : String) (d : Database) : Database :=
  if (kind, id) ∈ d.texts then { d with texts := d.texts.erase (kind, id) }.advance else d

/-- The trigger of a renamed entity. -/
def renameText (kind : Kind) (id newId name : String) (d : Database) :
    Except DatabaseError Database :=
  insertText U kind newId name (d.deleteText kind id)

end Triggers

/-! ### Statements -/

/-- Files a row that was under one key under another one or leaves it where it
is. -/
def rekey {κ ρ : Type} [DecidableEq κ] (rows : Table κ ρ) (key : κ) (newKey : Option κ)
    (change : ρ → ρ) : Except DatabaseError (Table κ ρ) :=
  match newKey, rows.lookup key with
  | none, _ => .ok (rows.modify key change)
  | some _, none => .ok rows
  | some newKey, some row =>
    let rest := rows.erase key
    if newKey ∈ rest then .error .unique else .ok (rest.insert newKey (change row))

end Database

/-- The columns an update of a Track assigns. -/
structure TrackColumns where
  id : Option String
  title : Option String
  albumId : Option String
  missingAt : Option (Option String)
  isPendingCommit : Option Bool
  others : Option String

def TrackColumns.change (columns : TrackColumns) (row : TrackRow) : TrackRow where
  title := columns.title.getD row.title
  albumId := columns.albumId.getD row.albumId
  missingAt := columns.missingAt.getD row.missingAt
  isPendingCommit := columns.isPendingCommit.getD row.isPendingCommit
  others := columns.others.getD row.others

/-- The columns an update of a name assigns. -/
structure NameColumns where
  id : Option String
  name : Option String
  others : Option String

def NameColumns.change (columns : NameColumns) (row : NameRow) : NameRow :=
  ⟨columns.name.getD row.name, columns.others.getD row.others⟩

/-- The columns an update of a Playlist assigns. -/
structure PlaylistColumns where
  id : Option String
  userId : Option String
  name : Option String
  others : Option String

def PlaylistColumns.change (columns : PlaylistColumns) (row : PlaylistRow) : PlaylistRow :=
  ⟨columns.userId.getD row.userId, columns.name.getD row.name, columns.others.getD row.others⟩

/-- A statement on one row, or the rebuild of the texts. -/
inductive Statement
  | insertTrack (id : String) (row : TrackRow)
  | updateTrack (id : String) (columns : TrackColumns)
  | deleteTrack (id : String)
  | insertName (table : NameTable) (id : String) (row : NameRow)
  | updateName (table : NameTable) (id : String) (columns : NameColumns)
  | deleteName (table : NameTable) (id : String)
  | insertPlaylist (id : String) (row : PlaylistRow)
  | updatePlaylist (id : String) (columns : PlaylistColumns)
  | deletePlaylist (id : String)
  | insertCredit (table : CreditTable) (key : String × String) (position : ℤ)
  | updateCredit (table : CreditTable) (key : String × String) (newKey : Option (String × String))
    (position : Option ℤ)
  | deleteCredit (table : CreditTable) (key : String × String)
  | rebuild (force : Bool)

namespace Database

section Statements

variable (U : Unicode)

/-- The trigger on a table of names, which fires when the name or the ID is
assigned to a row that is there. -/
def afterRename (kind : Kind) (id : String) (newId newName : Option String)
    (name : Option String) (d : Database) : Except DatabaseError Database :=
  match name with
  | some name =>
    if newName.isSome || newId.isSome then
      d.renameText U kind id (newId.getD id) (newName.getD name)
    else .ok d
  | none => .ok d

/-- Advances the revision when the statement assigns a column of a trigger to a
row that is there. -/
def advanceIf (condition : Bool) (d : Database) : Database := if condition then d.advance else d

/-- Deletes the rows of a relation under the first ID, each with its trigger. -/
def deleteCredits (table : CreditTable) (id : String) (d : Database) : Database :=
  let rows := d.credits table
  let kept := rows.filter fun key _ => key.1 ≠ id
  { d.setCredits table kept with revision := d.revision + (rows.size - kept.size) }

def insertTrack (id : String) (row : TrackRow) (d : Database) : Except DatabaseError Database :=
  if id ∈ d.tracks then .error .unique
  else { d with tracks := d.tracks.insert id row }.insertText U .track id row.title

def updateTrack (id : String) (columns : TrackColumns) (d : Database) :
    Except DatabaseError Database := do
  let tracks ← rekey d.tracks id columns.id columns.change
  let renamed ← { d with tracks }.afterRename U .track id columns.id columns.title
    (d.nameOf .track id)
  let assigned := columns.albumId.isSome || columns.missingAt.isSome ||
    columns.isPendingCommit.isSome
  return renamed.advanceIf (decide (id ∈ d.tracks) && assigned)

/-- The credits and genres of the Track are deleted with it. -/
def deleteTrack (id : String) (d : Database) : Database :=
  if id ∈ d.tracks then
    let cascaded := (d.deleteCredits .trackArtists id).deleteCredits .trackGenres id
    { cascaded with tracks := d.tracks.erase id }.deleteText .track id
  else d

def insertName (table : NameTable) (id : String) (row : NameRow) (d : Database) :
    Except DatabaseError Database :=
  if id ∈ d.names table then .error .unique
  else (d.setNames table ((d.names table).insert id row)).insertText U table.kind id row.name

def updateName (table : NameTable) (id : String) (columns : NameColumns) (d : Database) :
    Except DatabaseError Database := do
  let rows ← rekey (d.names table) id columns.id columns.change
  (d.setNames table rows).afterRename U table.kind id columns.id columns.name
    (d.nameOf table.kind id)

/-- The credits of an Album are deleted with it. -/
def deleteName (table : NameTable) (id : String) (d : Database) : Database :=
  if id ∈ d.names table then
    let cascaded := match table with
      | .albums => d.deleteCredits .albumArtists id
      | .artists | .genres => d
    (cascaded.setNames table ((d.names table).erase id)).deleteText table.kind id
  else d

def insertPlaylist (id : String) (row : PlaylistRow) (d : Database) :
    Except DatabaseError Database :=
  if id ∈ d.playlists then .error .unique
  else { d with playlists := d.playlists.insert id row }.insertText U .playlist id row.name

def updatePlaylist (id : String) (columns : PlaylistColumns) (d : Database) :
    Except DatabaseError Database := do
  let playlists ← rekey d.playlists id columns.id columns.change
  let renamed ← { d with playlists }.afterRename U .playlist id columns.id columns.name
    (d.nameOf .playlist id)
  return renamed.advanceIf (decide (id ∈ d.playlists) && columns.userId.isSome)

def deletePlaylist (id : String) (d : Database) : Database :=
  if id ∈ d.playlists then
    { d with playlists := d.playlists.erase id }.deleteText .playlist id
  else d

def insertCredit (table : CreditTable) (key : String × String) (position : ℤ) (d : Database) :
    Except DatabaseError Database :=
  if key ∈ d.credits table then .error .unique
  else .ok (d.setCredits table ((d.credits table).insert key position)).advance

def updateCredit (table : CreditTable) (key : String × String)
    (newKey : Option (String × String)) (position : Option ℤ) (d : Database) :
    Except DatabaseError Database := do
  let rows ← rekey (d.credits table) key newKey fun old => position.getD old
  return (d.setCredits table rows).advanceIf (decide (key ∈ d.credits table))

def deleteCredit (table : CreditTable) (key : String × String) (d : Database) : Database :=
  if key ∈ d.credits table then
    (d.setCredits table ((d.credits table).erase key)).advance
  else d

/-- The entities of `library_search_sources`. -/
def sources (d : Database) : List (Kind × String × String) :=
  (d.tracks.entries.map fun entry => (.track, entry.1, entry.2.title)) ++
    ((d.names .albums).entries.map fun entry => (.album, entry.1, entry.2.name)) ++
    ((d.names .artists).entries.map fun entry => (.artist, entry.1, entry.2.name)) ++
    ((d.names .genres).entries.map fun entry => (.genre, entry.1, entry.2.name)) ++
    d.playlists.entries.map fun entry => (.playlist, entry.1, entry.2.name)

/-- Whether every entity has a text of the current rules. -/
def isCurrent (d : Database) : Bool :=
  d.sources.all fun source =>
    (d.texts.lookup (source.1, source.2.1)).any fun row => row.rulesVersion == rulesVersion

/-- Writes the texts of the entities, one row each. -/
def insertTexts (d : Database) : List (Kind × String × String) → Except DatabaseError Database
  | [] => .ok d
  | (kind, id, name) :: rest => do
    let inserted ← d.insertText U kind id name
    insertTexts inserted rest

/-- Rebuilds missing or outdated texts; with `force`, all of them. -/
def rebuild (force : Bool) (d : Database) : Except DatabaseError Database :=
  if !force && d.isCurrent then .ok d
  else { d with texts := ∅, revision := d.revision + d.texts.size }.insertTexts U d.sources

end Statements

end Database

def Statement.run (U : Unicode) : Statement → Database → Except DatabaseError Database
  | insertTrack id row, d => d.insertTrack U id row
  | updateTrack id columns, d => d.updateTrack U id columns
  | deleteTrack id, d => .ok (d.deleteTrack id)
  | insertName table id row, d => d.insertName U table id row
  | updateName table id columns, d => d.updateName U table id columns
  | deleteName table id, d => .ok (d.deleteName table id)
  | insertPlaylist id row, d => d.insertPlaylist U id row
  | updatePlaylist id columns, d => d.updatePlaylist U id columns
  | deletePlaylist id, d => .ok (d.deletePlaylist id)
  | insertCredit table key position, d => d.insertCredit table key position
  | updateCredit table key newKey position, d => d.updateCredit table key newKey position
  | deleteCredit table key, d => .ok (d.deleteCredit table key)
  | rebuild force, d => d.rebuild U force

/-- The statements of a transaction that commits: one that fails alone changes
nothing. -/
def Database.commit (U : Unicode) (d : Database) (statements : List Statement) :
    Except DatabaseError Database :=
  statements.foldlM (fun d statement => statement.run U d) d

end Harmony.Search
