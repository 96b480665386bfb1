/-
# The search index

What one load reads in one snapshot of the database: the texts, and the fields of
every entity the user may find, grouped by entity in the order of the query. Two
databases that agree but for the columns no search reads give the same index.
-/

import Mathlib.Data.List.Sort
import Harmony.Search.Database

namespace Harmony.Search

/-! ### Views -/

/-- A row of `library_search_entities`. -/
structure EntityRow where
  kind : Kind
  id : String
  userId : String

/-- A field of an entity. -/
inductive Field
  | primary
  | album
  | trackArtist
  | albumArtist
  | genre
  deriving DecidableEq

def Field.name : Field → String
  | primary => "primary"
  | album => "album"
  | trackArtist => "track_artist"
  | albumArtist => "album_artist"
  | genre => "genre"

/-- A row of `library_search_field_sources`. -/
structure FieldSource where
  kind : Kind
  id : String
  field : Field
  relatedKind : Kind
  relatedId : String
  position : ℤ

namespace Database

variable (d : Database)

/-- The IDs and Albums of `visible_tracks`. -/
def visibleTracks : List (String × String) :=
  (d.tracks.entries.filter fun entry => entry.2.isVisible).map fun entry =>
    (entry.1, entry.2.albumId)

def hasVisibleTrack (id : String) : Bool := d.visibleTracks.any fun track => track.1 == id

def hasTrackOfAlbum (albumId : String) : Bool := d.visibleTracks.any fun track => track.2 == albumId

/-- The rows of a relation: both IDs and the position. -/
def creditRows (table : CreditTable) : List (String × String × ℤ) :=
  (d.credits table).entries.map fun entry => (entry.1.1, entry.1.2, entry.2)

def ids (table : NameTable) : List String := (d.names table).entries.map Sigma.fst

/-- `library_search_entities`. -/
def entities : List EntityRow :=
  (d.visibleTracks.map fun track => ⟨.track, track.1, ""⟩) ++
    ((d.ids .albums).filter fun id => d.hasTrackOfAlbum id).map (⟨.album, ·, ""⟩) ++
    ((d.ids .artists).filter fun id =>
      ((d.creditRows .trackArtists).any fun row => row.2.1 == id && d.hasVisibleTrack row.1) ||
        (d.creditRows .albumArtists).any fun row =>
          row.2.1 == id && d.hasTrackOfAlbum row.1).map (⟨.artist, ·, ""⟩) ++
    ((d.ids .genres).filter fun id =>
      (d.creditRows .trackGenres).any fun row =>
        row.2.1 == id && d.hasVisibleTrack row.1).map (⟨.genre, ·, ""⟩) ++
    d.playlists.entries.map fun entry => ⟨.playlist, entry.1, entry.2.userId⟩

/-- `library_search_field_sources`. -/
def fieldSources : List FieldSource :=
  (d.entities.map fun entity => ⟨entity.kind, entity.id, .primary, entity.kind, entity.id, 0⟩) ++
    (d.visibleTracks.map fun track => ⟨.track, track.1, .album, .album, track.2, 0⟩) ++
    ((d.creditRows .trackArtists).map fun row =>
      ⟨.track, row.1, .trackArtist, .artist, row.2.1, row.2.2⟩) ++
    (d.visibleTracks.flatMap fun track =>
      ((d.creditRows .albumArtists).filter fun row => row.1 == track.2).map fun row =>
        ⟨.track, track.1, .albumArtist, .artist, row.2.1, row.2.2⟩) ++
    ((d.creditRows .trackGenres).map fun row =>
      ⟨.track, row.1, .genre, .genre, row.2.1, row.2.2⟩) ++
    (d.creditRows .albumArtists).map fun row =>
      ⟨.album, row.1, .albumArtist, .artist, row.2.1, row.2.2⟩

end Database

/-- The order of the query for the fields. -/
def FieldSource.compare (a b : FieldSource) : Ordering :=
  let rank (source : FieldSource) : ℕ := if source.field = .primary then 0 else 1
  (Ord.compare a.kind.name b.kind.name).then <| (Ord.compare a.id b.id).then <|
    (Ord.compare (rank a) (rank b)).then <| (Ord.compare a.field.name b.field.name).then <|
      (Ord.compare a.position b.position).then (Ord.compare a.relatedId b.relatedId)

/-- The fields of the entities that the user may find. -/
def Database.fieldsFor (d : Database) (userId : String) : List FieldSource :=
  let joined := d.fieldSources.flatMap fun source =>
    (d.entities.filter fun entity => entity.kind == source.kind && entity.id == source.id &&
      (entity.userId == "" || entity.userId == userId)).map fun _ => source
  joined.insertionSort fun a b => (a.compare b).isLE = true

/-! ### The index -/

structure FieldRef where
  name : Field
  relatedId : String
  text : PreparedText

structure Entity where
  kind : Kind
  id : String
  primary : PreparedText
  related : List FieldRef

structure Index where
  entities : List Entity

inductive IndexError
  | database
  | invalid (message : String)

/-- An entity while its fields are read. -/
structure Building where
  kind : Kind
  id : String
  primary : Option PreparedText
  related : List FieldRef

def Building.add (current : Building) (source : FieldSource) (text : PreparedText) : Building :=
  if source.field = .primary then { current with primary := some text }
  else { current with related := current.related ++ [⟨source.field, source.relatedId, text⟩] }

namespace Repository

/-- Adds a field to the entities read so far, of which the last one comes
first. -/
def addSource (texts : Table (Kind × String) PreparedText) (building : List Building)
    (source : FieldSource) : Except IndexError (List Building) :=
  match texts.lookup (source.relatedKind, source.relatedId) with
  | none =>
    let kind := source.relatedKind.name
    let id := source.relatedId
    .error (.invalid
      s!"prepared Library Search data for {kind} \"{id}\" is missing; rebuild derived data")
  | some text =>
    match building with
    | current :: rest =>
      if current.kind = source.kind ∧ current.id = source.id then
        .ok (current.add source text :: rest)
      else .ok (Building.add ⟨source.kind, source.id, none, []⟩ source text :: current :: rest)
    | [] => .ok [Building.add ⟨source.kind, source.id, none, []⟩ source text]

def finish (building : Building) : Except IndexError Entity :=
  match building.primary with
  | some primary => .ok ⟨building.kind, building.id, primary, building.related⟩
  | none =>
    let kind := building.kind.name
    let id := building.id
    .error (.invalid s!"searchable {kind} \"{id}\" has no primary name")

/-- The index of what one snapshot holds. -/
def build (U : Unicode) (texts : Table (Kind × String) TextRow) (sources : List FieldSource) :
    Except IndexError Index := do
  let prepared := texts.entries.map fun entry =>
    (⟨entry.1, PreparedText.new U entry.2.text⟩ : (_ : Kind × String) × PreparedText)
  let building ← sources.foldlM (addSource prepared.toAList) []
  let entities ← building.reverse.mapM finish
  return ⟨entities⟩

/-- Reads the revision and, unless `reuse` accepts it, every field from one
snapshot. -/
def load (U : Unicode) (d : Database) (userId : String) (reuse : ℕ → Bool) :
    Except IndexError (Option Index × ℕ) := do
  if reuse d.revision then return (none, d.revision)
  let index ← build U d.texts (d.fieldsFor userId)
  return (some index, d.revision)

end Repository

/-! ### What a load depends on -/

/-- Every row changed. -/
def mapRows {κ ρ : Type} (f : ρ → ρ) (rows : Table κ ρ) : Table κ ρ :=
  rows.rewrite fun _ row => some (f row)

theorem entries_mapRows {κ ρ : Type} (f : ρ → ρ) (rows : Table κ ρ) :
    (mapRows f rows).entries = rows.entries.map fun entry => ⟨entry.1, f entry.2⟩ := by
  exact congrFun List.filterMap_eq_map rows.entries

/-- A change of one row that another one undoes is not seen after it. -/
theorem mapRows_modify {κ ρ : Type} [DecidableEq κ] {f g : ρ → ρ} (h : ∀ row, f (g row) = f row)
    (rows : Table κ ρ) (key : κ) : mapRows f (rows.modify key g) = mapRows f rows := by
  apply AList.ext
  rw [entries_mapRows, entries_mapRows, Table.modify, Table.updateWhere, Table.rewrite]
  simp only [List.map_filterMap]
  rw [← List.filterMap_eq_map]
  apply List.filterMap_congr
  rintro ⟨key', row⟩ -
  simp only [Table.rewriteEntry, Option.map_some, Function.comp_apply]
  split_ifs <;> simp [h]

/-- The row without the columns that no search reads. -/
def TrackRow.searched (row : TrackRow) : TrackRow := { row with others := "" }

def NameRow.searched (row : NameRow) : NameRow := { row with others := "" }

def PlaylistRow.searched (row : PlaylistRow) : PlaylistRow := { row with others := "" }

/-- The database without the columns that no search reads. -/
def Database.searched (d : Database) : Database :=
  { d with
    tracks := mapRows TrackRow.searched d.tracks
    names := fun table => mapRows NameRow.searched (d.names table)
    playlists := mapRows PlaylistRow.searched d.playlists }

section Searched

variable (d : Database)

theorem visibleTracks_searched : d.searched.visibleTracks = d.visibleTracks := by
  simp only [Database.visibleTracks, Database.searched, entries_mapRows, List.filter_map,
    List.map_map]
  rfl

theorem entities_searched : d.searched.entities = d.entities := by
  have hids : ∀ table, d.searched.ids table = d.ids table := by
    intro table
    simp only [Database.ids, Database.searched, entries_mapRows, List.map_map]
    rfl
  have hplaylists : (d.searched.playlists.entries.map fun entry =>
      (⟨.playlist, entry.1, entry.2.userId⟩ : EntityRow)) =
      d.playlists.entries.map fun entry => ⟨.playlist, entry.1, entry.2.userId⟩ := by
    simp only [Database.searched, entries_mapRows, List.map_map]
    rfl
  simp only [Database.entities, Database.hasVisibleTrack, Database.hasTrackOfAlbum,
    visibleTracks_searched, hids, hplaylists]
  rfl

theorem fieldsFor_searched (userId : String) :
    d.searched.fieldsFor userId = d.fieldsFor userId := by
  have hsources : d.searched.fieldSources = d.fieldSources := by
    simp only [Database.fieldSources, entities_searched, visibleTracks_searched]
    rfl
  rw [Database.fieldsFor, hsources, entities_searched, ← Database.fieldsFor]

theorem load_searched (U : Unicode) (userId : String) (reuse : ℕ → Bool) :
    Repository.load U d.searched userId reuse = Repository.load U d userId reuse := by
  rw [Repository.load, fieldsFor_searched]
  rfl

end Searched

/-- A load reads no other columns. -/
theorem load_congr {U : Unicode} {d d' : Database} (h : d'.searched = d.searched)
    (userId : String) (reuse : ℕ → Bool) :
    Repository.load U d' userId reuse = Repository.load U d userId reuse := by
  rw [← load_searched, h, load_searched]

end Harmony.Search
