/-
# The playback queue

The tables behind every user's queue and the transactions that change them. The
positions of a user's items are a unique key of the table, so each statement that
moves an item can fail; a mutation that fails rolls its transaction back.

A mutation advances the revision of the queue first, and only from the revision
its request names.
-/

import Mathlib.Data.List.Dedup
import Mathlib.Data.List.Sort
import Harmony.Library.Transaction
import Harmony.Library.UniqueTable

namespace Harmony.Playback

/-! ### Tables -/

/-- A row of `tracks`, with what a queue request reads of it. -/
structure TrackRow where
  isVisible : Bool

/-- A row of `playback_queue`, filed under its ID. -/
structure QueueRow where
  userId : String
  position : ℤ
  trackId : String
  source : String

/-- The columns of `UNIQUE(user_id, position)`. -/
def QueueRow.slot (row : QueueRow) : String × ℤ := (row.userId, row.position)

abbrev QueueTable := UniqueTable String QueueRow.slot

/-- A row of `playback_queue_state`. -/
structure QueueStateRow where
  revision : ℕ
  eventSequence : ℕ

structure Store where
  tracks : Table String TrackRow
  queue : QueueTable
  states : Table String QueueStateRow

inductive DatabaseError
  | unique (violation : UniqueViolation)
  | foreignKey
  deriving DecidableEq

inductive QueueError
  | notFound
  | revisionConflict
  | invalidOrder
  | limitExceeded
  | invalidSource (message : String)
  | trackNotFound
  | database (error : DatabaseError)
  | other (message : String)
  deriving DecidableEq

def maxQueueItems : ℕ := 1000

/-- A queue item as a read of the table returns it. -/
structure ItemRow where
  id : String
  trackId : String
  position : ℤ
  source : String
  deriving DecidableEq

/-- The row of an item of the user. -/
def ItemRow.row (userId : String) (item : ItemRow) : QueueRow :=
  ⟨userId, item.position, item.trackId, item.source⟩

/-- The item of a row, when it is one of the user's. -/
def itemOf (userId : String) (entry : (_ : String) × QueueRow) : Option ItemRow :=
  if entry.2.userId = userId then
    some ⟨entry.1, entry.2.trackId, entry.2.position, entry.2.source⟩
  else none

/-- The user's items in the order of the table. -/
def QueueTable.userRows (queue : QueueTable) (userId : String) : List ItemRow :=
  queue.rows.entries.filterMap (itemOf userId)

/-- The user's items in the order of their positions. -/
def QueueTable.items (queue : QueueTable) (userId : String) : List ItemRow :=
  (queue.userRows userId).insertionSort fun a b => a.position ≤ b.position

/-! ### Statements -/

/-- A transaction on the queue tables. -/
abbrev Tx := Transaction Store QueueError

open Transaction

/-- A statement on `playback_queue`, which fails where it would break a unique
key. -/
def writeQueue (result : QueueTable → Except UniqueViolation QueueTable) : Tx Unit := do
  let s ← get
  match result s.queue with
  | .ok queue => set { s with queue }
  | .error violation => throw (.database (.unique violation))

def itemIds (userId : String) : Tx (List String) := do
  return ((← get).queue.items userId).map ItemRow.id

/-- `id` is the UUID drawn for the item. -/
def insertItem (id userId : String) (position : ℤ) (trackId source : String) : Tx Unit := do
  writeQueue fun queue => queue.insert id ⟨userId, position, trackId, source⟩
  require (decide (trackId ∈ (← get).tracks)) (.database .foreignKey)

/-- Whether the row under this ID is one of the user's. -/
def isItemOf (userId itemId : String) (id : String) (row : QueueRow) : Bool :=
  decide (id = itemId) && decide (row.userId = userId)

/-- Deletes the user's item and returns the number of rows affected. -/
def deleteItem (userId itemId : String) : Tx ℕ := do
  let s ← get
  set { s with queue := s.queue.deleteWhere (isItemOf userId itemId) }
  return if s.queue.rows.any (isItemOf userId itemId) then 1 else 0

def clear (userId : String) : Tx Unit :=
  modify fun s =>
    let queue := s.queue.deleteWhere fun _ row => decide (row.userId = userId)
    { s with queue }

/-- `UPDATE playback_queue SET position = .. WHERE id = ? AND user_id = ?`. -/
def updatePosition (userId itemId : String) (position : ℤ → ℤ) : Tx Unit :=
  writeQueue fun queue =>
    match queue.rows.lookup itemId with
    | some row =>
      if row.userId = userId then queue.put itemId { row with position := position row.position }
      else .ok queue
    | none => .ok queue

def setPositions (userId : String) (itemIds : List String) : Tx Unit :=
  forEach (fun entry => updatePosition userId entry.1 fun _ => (entry.2 : ℤ)) itemIds.zipIdx

/-- `UPDATE playback_queue SET position = -position - 1 WHERE user_id = ?`: the
unique key is checked as each row is written. -/
def negatePositions (userId : String) : Tx Unit := do
  let rows := (← get).queue.userRows userId
  forEach (fun item => updatePosition userId item.id fun position => -position - 1) rows

/-! ### The repository -/

structure Snapshot where
  items : List ItemRow
  revision : String
  eventSequence : String
  deriving DecidableEq

/-- The user's row of `playback_queue_state`, read as zeros where there is
none. -/
def Store.state (s : Store) (userId : String) : QueueStateRow :=
  (s.states.lookup userId).getD ⟨0, 0⟩

namespace Repository

def read (s : Store) (userId : String) : Snapshot where
  items := s.queue.items userId
  revision := toString (s.state userId).revision
  eventSequence := toString (s.state userId).eventSequence

/-- Advances the revision, when it is still the expected one. -/
def beginMutation (userId expectedRevision : String) : Tx Unit := do
  let s ← get
  let state := s.state userId
  require (decide (toString state.revision = expectedRevision)) .revisionConflict
  let advanced : QueueStateRow := ⟨state.revision + 1, state.eventSequence + 1⟩
  set { s with states := s.states.insert userId advanced }

/-- The UUIDs are those drawn for the items, in order. -/
def replace (uuids : ℕ → String) (userId expectedRevision : String) (trackIds : List String)
    (source : String) : Tx Unit := do
  beginMutation userId expectedRevision
  clear userId
  forEach (fun entry => insertItem (uuids entry.2) userId entry.2 entry.1 source)
    trackIds.zipIdx

/-- `COALESCE(MAX(position) + 1, 0)`. -/
def nextPosition (items : List ItemRow) : ℤ :=
  match (items.map ItemRow.position).max? with
  | some last => last + 1
  | none => 0

def append (uuid userId expectedRevision trackId source : String) : Tx Unit := do
  beginMutation userId expectedRevision
  let rows := (← get).queue.userRows userId
  require (decide (rows.length < maxQueueItems)) .limitExceeded
  insertItem uuid userId (nextPosition rows) trackId source

/-- Deletes the item and closes the gap in positions. -/
def remove (userId expectedRevision itemId : String) : Tx Unit := do
  beginMutation userId expectedRevision
  let deleted ← deleteItem userId itemId
  require (decide (deleted ≠ 0)) .notFound
  let remaining ← itemIds userId
  setPositions userId remaining

/-- Deletes every item after `afterItemId` (all of them when empty); the rest
keep their IDs and positions. -/
def clear (userId expectedRevision afterItemId : String) : Tx Unit := do
  beginMutation userId expectedRevision
  if afterItemId = "" then Playback.clear userId
  else
    let current ← itemIds userId
    let index ← fromOption .notFound (current.findIdx? fun itemId => itemId == afterItemId)
    forEach (fun itemId => do let _ ← deleteItem userId itemId) (current.drop (index + 1))

/-- Applies `itemIdsInOrder` as the order once `accept` approves the current
IDs. -/
def reorder (userId expectedRevision : String) (itemIdsInOrder : List String)
    (accept : List String → Bool) : Tx Unit := do
  beginMutation userId expectedRevision
  let current ← itemIds userId
  require (accept current) .invalidOrder
  -- Below zero first, so renumbering cannot hit the unique key.
  negatePositions userId
  setPositions userId itemIdsInOrder

end Repository

/-! ### The service's check of a new order -/

/-- Removes the IDs one by one; `none` once one is not there. -/
def removeEach (seen : List String) : List String → Option (List String)
  | [] => some seen
  | itemId :: rest => if itemId ∈ seen then removeEach (seen.erase itemId) rest else none

def sameItems (current requested : List String) : Bool :=
  if current.length ≠ requested.length then false
  else removeEach current.dedup requested == some []

/-! ### Mutations -/

/-- What a request asks of the queue. -/
inductive Mutation
  | replace (trackIds : List String) (source : String)
  | append (trackId source : String)
  | remove (itemId : String)
  | clear (afterItemId : String)
  | reorder (itemIds : List String)

/-- The transaction of a mutation, with the UUIDs it draws. -/
def Mutation.run (uuids : ℕ → String) (userId expectedRevision : String) : Mutation → Tx Unit
  | replace trackIds source => Repository.replace uuids userId expectedRevision trackIds source
  | append trackId source => Repository.append (uuids 0) userId expectedRevision trackId source
  | remove itemId => Repository.remove userId expectedRevision itemId
  | clear afterItemId => Repository.clear userId expectedRevision afterItemId
  | reorder itemIds =>
    Repository.reorder userId expectedRevision itemIds fun current => sameItems current itemIds

/-! ### Deleted Tracks -/

/-- Advances the queue state of each user, creating it at one. -/
def advanceQueues (userIds : List String) : Tx Unit :=
  forEach (fun userId => modify fun s =>
    let state := s.state userId
    { s with states := s.states.insert userId ⟨state.revision + 1, state.eventSequence + 1⟩ })
    userIds

/-- The users with the Track in their queue. -/
def listQueues (queue : QueueTable) (trackId : String) : List String :=
  ((queue.rows.entries.filter fun entry => entry.2.trackId = trackId).map
    fun entry => entry.2.userId).dedup

/-- What the finalization of a Permanent Track Deletion does to the queues. -/
def finalizeTrackDeletion (trackId : String) : Tx Unit := do
  advanceQueues (listQueues (← get).queue trackId)
  modify fun s =>
    let queue := s.queue.deleteWhere fun _ row => decide (row.trackId = trackId)
    { s with queue, tracks := s.tracks.erase trackId }

/-- Any other change of the library's Tracks: the queue rows of Tracks that are
gone go with them. -/
def changeTracks (tracks : Table String TrackRow) (s : Store) : Store :=
  let queue := s.queue.deleteWhere fun _ row => decide (row.trackId ∉ tracks)
  { s with tracks, queue }

end Harmony.Playback
