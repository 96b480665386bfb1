/-
# Queue requests and event streams

The server between two steps: the queue tables, the requests under way and the
event streams that are open. A request checks its Tracks one by one, runs its
transaction, reads the queue back and publishes what it read, and any other step
may come between two of these. A stream holds the latest publication in a slot
and reads the queue once after it has subscribed.
-/

import Harmony.Playback.QueueList

namespace Harmony.Playback

open Transaction

/-! ### Requests -/

inductive Phase
  /-- The Tracks whose existence is still to be checked. -/
  | checking (trackIds : List String)
  /-- The transaction has committed. -/
  | committed
  /-- The queue has been read back. -/
  | fetched (queue : Snapshot)
  | answered (result : Except QueueError Unit)

/-- What a request asks. -/
structure Call where
  userId : String
  expectedRevision : String
  mutation : Mutation
  /-- Why the source of the items cannot be stored, when it cannot. -/
  sourceError : Option String

structure Request where
  call : Call
  phase : Phase

/-- What `Service` does before the first Track is checked. -/
def Call.start (call : Call) : Phase :=
  let encoded (next : Phase) : Phase :=
    match call.sourceError with
    | some message => .answered (.error (.invalidSource message))
    | none => next
  match call.mutation with
  | .replace trackIds _ =>
    if trackIds.length > maxQueueItems then .answered (.error .limitExceeded)
    else encoded (.checking trackIds)
  | .append trackId _ => encoded (.checking [trackId])
  | .remove _ | .clear _ | .reorder _ => .checking []

/-- The tables once the transaction of the call has committed. -/
def Call.transaction (call : Call) (uuids : ℕ → String) (s : Store) : Except QueueError Store :=
  outcome (call.mutation.run uuids call.userId call.expectedRevision) s

def Store.isVisible (s : Store) (trackId : String) : Bool :=
  (s.tracks.lookup trackId).any TrackRow.isVisible

/-- The queue that `Service::get_queue` answers with, at one moment: the items of hidden
Tracks are left out. -/
def Store.shownQueue (s : Store) (userId : String) : Snapshot :=
  let queue := Repository.read s userId
  { queue with items := queue.items.filter fun item => s.isVisible item.trackId }

/-! ### Streams -/

structure Invalidation where
  revision : String
  sequence : String
  deriving DecidableEq

def Snapshot.invalidation (queue : Snapshot) : Invalidation := ⟨queue.revision, queue.eventSequence⟩

/-- An open event stream: the watch channel of its subscription and the events
written to it, the newest first. -/
structure Stream where
  userId : String
  slot : Option Invalidation
  /-- The slot was set since it was last read. -/
  isChanged : Bool
  events : List Invalidation

/-- `watch::Sender::send_replace`. -/
def Stream.sendReplace (event : Invalidation) (stream : Stream) : Stream :=
  { stream with slot := some event, isChanged := true }

/-! ### The server -/

structure Server where
  store : Store
  requests : Table ℕ Request
  streams : Table ℕ Stream

def Server.empty : Server := ⟨.empty, ∅, ∅⟩

def Server.setPhase (s : Server) (id : ℕ) (phase : Phase) : Server :=
  let requests := s.requests.modify id fun request => { request with phase }
  { s with requests }

def Server.publish (s : Server) (userId : String) (event : Invalidation) : Server :=
  let streams := s.streams.updateWhere (fun _ stream => decide (stream.userId = userId))
    (Stream.sendReplace event)
  { s with streams }

def Server.setStream (s : Server) (id : ℕ) (stream : Stream) : Server :=
  { s with streams := s.streams.insert id stream }

/-- Writes an event to the stream. -/
def Stream.write (event : Invalidation) (stream : Stream) : Stream :=
  { stream with events := event :: stream.events }

/-- A step of the server. The UUIDs are those the transaction draws. -/
inductive Step
  | submit (id : ℕ) (call : Call)
  | requireTrack (id : ℕ)
  | transact (id : ℕ) (uuids : ℕ → String)
  | fetch (id : ℕ)
  | publish (id : ℕ)
  | subscribe (id : ℕ) (userId : String)
  | first (id : ℕ)
  | poll (id : ℕ)
  | unsubscribe (id : ℕ)
  | changeTracks (tracks : Table String TrackRow)

/-- The step from a state in which it can be taken. -/
def Server.perform (s : Server) : Step → Option Server
  | .submit id call =>
    if id ∈ s.requests then none
    else some { s with requests := s.requests.insert id ⟨call, call.start⟩ }
  | .requireTrack id => do
    let request ← s.requests.lookup id
    match request.phase with
    | .checking (trackId :: rest) =>
      if s.store.isVisible trackId then some (s.setPhase id (.checking rest))
      else some (s.setPhase id (.answered (.error .trackNotFound)))
    | _ => none
  | .transact id uuids => do
    let request ← s.requests.lookup id
    match request.phase with
    | .checking [] =>
      match request.call.transaction uuids s.store with
      | .ok store => some { s.setPhase id .committed with store }
      | .error e => some (s.setPhase id (.answered (.error e)))
    | _ => none
  | .fetch id => do
    let request ← s.requests.lookup id
    match request.phase with
    | .committed => some (s.setPhase id (.fetched (s.store.shownQueue request.call.userId)))
    | _ => none
  | .publish id => do
    let request ← s.requests.lookup id
    match request.phase with
    | .fetched queue =>
      some ((s.publish request.call.userId queue.invalidation).setPhase id (.answered (.ok ())))
    | _ => none
  | .subscribe id userId =>
    if id ∈ s.streams then none
    else some (s.setStream id ⟨userId, none, false, []⟩)
  | .first id => do
    let stream ← s.streams.lookup id
    if stream.events ≠ [] then none
    else
      let event := (s.store.shownQueue stream.userId).invalidation
      some (s.setStream id (stream.write event))
  | .poll id => do
    let stream ← s.streams.lookup id
    let event ← stream.slot
    if stream.events = [] ∨ stream.isChanged = false then none
    else
      some (s.setStream id ({ stream with isChanged := false }.write event))
  | .unsubscribe id => some { s with streams := s.streams.erase id }
  -- Deleting a Track that a queue holds is a transaction of its own.
  | .changeTracks tracks =>
    if s.store.queue.rows.any (fun _ row => decide (row.trackId ∉ tracks)) then none
    else some { s with store := changeTracks tracks s.store }

/-! ### When a step can be taken -/

section Perform

variable {s t : Server} {id : ℕ}

theorem perform_submit {call : Call} :
    s.perform (.submit id call) = some t ↔
      id ∉ s.requests ∧ { s with requests := s.requests.insert id ⟨call, call.start⟩ } = t := by
  rw [Server.perform]
  split_ifs with hid
  · simp [hid]
  · simp [hid]

theorem perform_requireTrack :
    s.perform (.requireTrack id) = some t ↔
      ∃ request trackId rest, s.requests.lookup id = some request ∧
        request.phase = .checking (trackId :: rest) ∧
        s.setPhase id (if s.store.isVisible trackId then .checking rest
          else .answered (.error .trackNotFound)) = t := by
  simp only [Server.perform, Option.bind_eq_bind, Option.bind_eq_some_iff]
  constructor
  · rintro ⟨request, hrequest, h⟩
    split at h
    case h_2 => cases h
    rename_i trackId rest hphase
    refine ⟨request, trackId, rest, hrequest, hphase, ?_⟩
    split_ifs at h ⊢ <;> exact Option.some.inj h
  · rintro ⟨request, trackId, rest, hrequest, hphase, rfl⟩
    refine ⟨request, hrequest, ?_⟩
    simp only [hphase]
    split_ifs <;> rfl

theorem perform_transact {uuids : ℕ → String} :
    s.perform (.transact id uuids) = some t ↔
      ∃ request, s.requests.lookup id = some request ∧ request.phase = .checking [] ∧
        (match request.call.transaction uuids s.store with
          | .ok store => { s.setPhase id .committed with store }
          | .error e => s.setPhase id (.answered (.error e))) = t := by
  simp only [Server.perform, Option.bind_eq_bind, Option.bind_eq_some_iff]
  constructor
  · rintro ⟨request, hrequest, h⟩
    split at h
    case h_2 => cases h
    rename_i hphase
    refine ⟨request, hrequest, hphase, ?_⟩
    cases hrun : request.call.transaction uuids s.store <;> simp only [hrun] at h <;>
      exact Option.some.inj h
  · rintro ⟨request, hrequest, hphase, rfl⟩
    refine ⟨request, hrequest, ?_⟩
    simp only [hphase]
    cases request.call.transaction uuids s.store <;> rfl

theorem perform_fetch :
    s.perform (.fetch id) = some t ↔
      ∃ request, s.requests.lookup id = some request ∧ request.phase = .committed ∧
        s.setPhase id (.fetched (s.store.shownQueue request.call.userId)) = t := by
  simp only [Server.perform, Option.bind_eq_bind, Option.bind_eq_some_iff]
  constructor
  · rintro ⟨request, hrequest, h⟩
    split at h
    case h_2 => cases h
    rename_i hphase
    exact ⟨request, hrequest, hphase, Option.some.inj h⟩
  · rintro ⟨request, hrequest, hphase, rfl⟩
    exact ⟨request, hrequest, by simp only [hphase]⟩

theorem perform_publish :
    s.perform (.publish id) = some t ↔
      ∃ request queue, s.requests.lookup id = some request ∧ request.phase = .fetched queue ∧
        (s.publish request.call.userId queue.invalidation).setPhase id
        (.answered (.ok ())) = t := by
  simp only [Server.perform, Option.bind_eq_bind, Option.bind_eq_some_iff]
  constructor
  · rintro ⟨request, hrequest, h⟩
    split at h
    case h_2 => cases h
    rename_i queue hphase
    exact ⟨request, queue, hrequest, hphase, Option.some.inj h⟩
  · rintro ⟨request, queue, hrequest, hphase, rfl⟩
    exact ⟨request, hrequest, by simp only [hphase]⟩

theorem perform_subscribe {userId : String} :
    s.perform (.subscribe id userId) = some t ↔
      id ∉ s.streams ∧
        s.setStream id ⟨userId, none, false, []⟩ = t := by
  rw [Server.perform]
  split_ifs with hid
  · simp [hid]
  · simp [hid]

theorem perform_first :
    s.perform (.first id) = some t ↔
      ∃ stream, s.streams.lookup id = some stream ∧ stream.events = [] ∧
        s.setStream id (stream.write (s.store.shownQueue stream.userId).invalidation) = t := by
  simp only [Server.perform, Option.bind_eq_bind, Option.bind_eq_some_iff]
  constructor
  · rintro ⟨stream, hstream, h⟩
    split_ifs at h with hevents
    exact ⟨stream, hstream, not_not.mp hevents, Option.some.inj h⟩
  · rintro ⟨stream, hstream, hevents, rfl⟩
    exact ⟨stream, hstream, by simp [hevents]⟩

theorem perform_poll :
    s.perform (.poll id) = some t ↔
      ∃ stream event, s.streams.lookup id = some stream ∧ stream.slot = some event ∧
        stream.events ≠ [] ∧ stream.isChanged = true ∧
        s.setStream id ({ stream with isChanged := false }.write event) = t := by
  simp only [Server.perform, Option.bind_eq_bind, Option.bind_eq_some_iff]
  constructor
  · rintro ⟨stream, hstream, event, hslot, h⟩
    split_ifs at h with hidle
    rw [not_or, Bool.not_eq_false] at hidle
    exact ⟨stream, event, hstream, hslot, hidle.1, hidle.2, Option.some.inj h⟩
  · rintro ⟨stream, event, hstream, hslot, hevents, hchanged, rfl⟩
    exact ⟨stream, hstream, event, hslot, by simp [hevents, hchanged]⟩

theorem perform_unsubscribe :
    s.perform (.unsubscribe id) = some t ↔ { s with streams := s.streams.erase id } = t := by
  simp [Server.perform]

theorem perform_changeTracks {tracks : Table String TrackRow} :
    s.perform (.changeTracks tracks) = some t ↔
      (∀ id row, s.store.queue.rows.lookup id = some row → row.trackId ∈ tracks) ∧
        { s with store := changeTracks tracks s.store } = t := by
  rw [Server.perform]
  split_ifs with hgone
  · rw [Table.any_eq_true] at hgone
    obtain ⟨id, row, hrow, hnot⟩ := hgone
    simp only [false_iff, not_and]
    exact fun hall => absurd (hall id row hrow) (of_decide_eq_true hnot)
  · rw [Bool.not_eq_true, Table.any_eq_false] at hgone
    have hall : ∀ id row, s.store.queue.rows.lookup id = some row → row.trackId ∈ tracks :=
      fun id row hrow => not_not.mp (of_decide_eq_false (hgone id row hrow))
    rw [and_iff_right hall, Option.some.injEq]

end Perform

/-! ### Runs -/

def Server.Steps (s : Server) (step : Step) (t : Server) : Prop := s.perform step = some t

def Server.Reachable (s : Server) : Prop :=
  Transition.Reachable (fun s => s = Server.empty) Server.Steps s

end Harmony.Playback
