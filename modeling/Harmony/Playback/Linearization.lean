/-
# Queue mutations are linearizable

Whatever the order of their steps, the mutations that commit form one sequence,
the order of their transactions, and each is the operation of its request on the
items of exactly the revision it names. A revision names one list of items for
good. A request that fails leaves the tables as they were.
-/

import Harmony.Playback.Requests

namespace Harmony.Playback

open Transaction

/-! ### The sequential queue -/

/-- A user's queue, its revision and its event sequence. -/
structure QueueState where
  items : List Content
  revision : ℕ
  eventSequence : ℕ

def Store.queueState (s : Store) (userId : String) : QueueState :=
  ⟨s.queue.contents userId, (s.state userId).revision, (s.state userId).eventSequence⟩

/-- A mutation as it was committed. -/
structure Entry where
  expectedRevision : String
  uuids : ℕ → String
  mutation : Mutation

/-- One mutation after another, each from the revision it names. -/
def QueueState.apply (queue : QueueState) (entry : Entry) : Except QueueError QueueState :=
  if toString queue.revision = entry.expectedRevision then
    (entry.mutation.onList entry.uuids queue.items).map fun items =>
      ⟨items, queue.revision + 1, queue.eventSequence + 1⟩
  else .error .revisionConflict

theorem apply_eq_ok {queue queue' : QueueState} {entry : Entry} :
    queue.apply entry = .ok queue' ↔ toString queue.revision = entry.expectedRevision ∧
      entry.mutation.onList entry.uuids queue.items = .ok queue'.items ∧
      queue'.revision = queue.revision + 1 ∧ queue'.eventSequence = queue.eventSequence + 1 := by
  rw [QueueState.apply]
  split_ifs with hcurrent
  · rw [and_iff_right hcurrent]
    cases entry.mutation.onList entry.uuids queue.items with
    | error e => simp [Except.map]
    | ok items =>
      cases queue'
      simp [Except.map, eq_comm]
  · rw [iff_false_right fun h => hcurrent h.1]
    simp

/-! ### What a step does to the tables -/

/-- The mutation that the step commits for the user, when it does. -/
def Server.committedBy (userId : String) (s : Server) : Step → Option Entry
  | .transact id uuids => do
    let request ← s.requests.lookup id
    match request.phase, request.call.transaction uuids s.store with
    | .checking [], .ok _ =>
      if request.call.userId = userId then
        some ⟨request.call.expectedRevision, uuids, request.call.mutation⟩
      else none
    | _, _ => none
  | _ => none

/-- The mutations that a run of steps commits for the user, in order. -/
def Server.committedIn (userId : String) (s : Server) : List Step → List Entry
  | [] => []
  | step :: steps =>
    (s.committedBy userId step).toList ++
      match s.perform step with
      | some t => t.committedIn userId steps
      | none => []

section Steps

variable {s t : Server} {step : Step} {userId : String}

/-- A step leaves the tables alone, commits the transaction of a request or
changes Tracks that no queue holds. -/
theorem perform_store (h : s.perform step = some t) :
    (t.store = s.store ∧ ∀ userId, s.committedBy userId step = none) ∨
    (∃ id uuids request, step = .transact id uuids ∧ s.requests.lookup id = some request ∧
      request.phase = .checking [] ∧
      request.call.transaction uuids s.store = .ok t.store) ∨
    ∃ tracks, step = .changeTracks tracks ∧
      (∀ id row, s.store.queue.rows.lookup id = some row → row.trackId ∈ tracks) ∧
      t.store = changeTracks tracks s.store := by
  cases step with
  | transact id uuids =>
    obtain ⟨request, hrequest, hphase, h⟩ := perform_transact.mp h
    cases hrun : request.call.transaction uuids s.store with
    | ok store =>
      simp only [hrun] at h
      exact .inr (.inl ⟨id, uuids, request, rfl, hrequest, hphase, h ▸ hrun⟩)
    | error e =>
      simp only [hrun] at h
      exact .inl ⟨h ▸ rfl, fun userId => by simp [Server.committedBy, hrequest, hphase, hrun]⟩
  | changeTracks tracks =>
    obtain ⟨hall, rfl⟩ := perform_changeTracks.mp h
    exact .inr (.inr ⟨tracks, rfl, hall, rfl⟩)
  | submit id call =>
    obtain ⟨-, rfl⟩ := perform_submit.mp h
    exact .inl ⟨rfl, fun _ => rfl⟩
  | requireTrack id =>
    obtain ⟨_, _, _, -, -, rfl⟩ := perform_requireTrack.mp h
    exact .inl ⟨rfl, fun _ => rfl⟩
  | fetch id =>
    obtain ⟨_, -, -, rfl⟩ := perform_fetch.mp h
    exact .inl ⟨rfl, fun _ => rfl⟩
  | publish id =>
    obtain ⟨_, _, -, -, rfl⟩ := perform_publish.mp h
    exact .inl ⟨rfl, fun _ => rfl⟩
  | subscribe id user =>
    obtain ⟨-, rfl⟩ := perform_subscribe.mp h
    exact .inl ⟨rfl, fun _ => rfl⟩
  | first id =>
    obtain ⟨_, -, -, rfl⟩ := perform_first.mp h
    exact .inl ⟨rfl, fun _ => rfl⟩
  | poll id =>
    obtain ⟨_, _, -, -, -, -, rfl⟩ := perform_poll.mp h
    exact .inl ⟨rfl, fun _ => rfl⟩
  | unsubscribe id =>
    obtain rfl := perform_unsubscribe.mp h
    exact .inl ⟨rfl, fun _ => rfl⟩

theorem perform_nonNegative (hs : ∀ userId, NonNegative s.store.queue userId)
    (h : s.perform step = some t) (userId : String) : NonNegative t.store.queue userId := by
  rcases perform_store h with
    ⟨heq, -⟩ | ⟨id, uuids, request, -, -, -, hrun⟩ | ⟨tracks, -, -, heq⟩
  · rw [heq]
    exact hs userId
  · exact Event.perform_nonNegative (e := .mutate _ _ uuids _) hs hrun userId
  · exact Event.perform_nonNegative (e := .changeTracks tracks) hs (heq ▸ rfl) userId

/-- No item of a reachable server is below zero. -/
theorem Server.Reachable.nonNegative (h : s.Reachable) :
    ∀ userId, NonNegative s.store.queue userId := by
  let Inv (s : Server) : Prop := ∀ userId, NonNegative s.store.queue userId
  have hinv : Inv s := by
    refine Transition.Reachable.invariant ?_ ?_ h
    · rintro s rfl
      exact Playback.Reachable.nonNegative (Transition.Reachable.start rfl)
    · exact fun s step t hs hstep => perform_nonNegative hs hstep
  exact hinv

/-- Tracks that no queue holds can change under a queue. -/
theorem items_changeTracks {store : Store} {tracks : Table String TrackRow}
    (h : ∀ id row, store.queue.rows.lookup id = some row → row.trackId ∈ tracks) (userId : String) :
    (changeTracks tracks store).queue.items userId = store.queue.items userId := by
  refine Lists.items_eq (fun item => ?_) sorted_items
  rw [lists_items item]
  refine Iff.trans ?_ UniqueTable.lookup_deleteWhere.symm
  constructor
  · intro hrow
    exact ⟨hrow, by simpa using h _ _ hrow⟩
  · exact And.left

theorem queueState_changeTracks {store : Store} {tracks : Table String TrackRow}
    (h : ∀ id row, store.queue.rows.lookup id = some row → row.trackId ∈ tracks) :
    (changeTracks tracks store).queueState userId = store.queueState userId := by
  rw [Store.queueState, contents_eq (items_changeTracks h userId)]
  rfl

/-- A transaction that commits is the next one of the sequential queue of its
user, and no other user's queue moves. -/
theorem queueState_transaction {call : Call} {uuids : ℕ → String} {store store' : Store}
    (hpositions : NonNegative store.queue call.userId)
    (h : call.transaction uuids store = .ok store') :
    ((store.queueState call.userId).apply ⟨call.expectedRevision, uuids, call.mutation⟩ =
      .ok (store'.queueState call.userId)) ∧
    ∀ other ≠ call.userId, store'.queueState other = store.queueState other := by
  obtain ⟨⟨⟩, hrun⟩ := outcome_eq_ok.mp h
  obtain ⟨hcurrent, hcommitted⟩ := (run_meets call.mutation hpositions).committed hrun
  have hstates := hcommitted.writes.states
  constructor
  · rw [apply_eq_ok]
    refine ⟨hcurrent, hcommitted.contents, ?_, ?_⟩
    · simp [Store.queueState, Store.state, hstates, Store.advanced]
    · simp [Store.queueState, Store.state, hstates, Store.advanced]
  · intro other hother
    rw [Store.queueState, contents_eq (hcommitted.writes.others.items_eq hother)]
    simp [Store.queueState, Store.state, hstates, Store.advanced, AList.lookup_insert_ne hother,
      QueueTable.contents]

theorem committedBy_transact {id : ℕ} {uuids : ℕ → String} {request : Request} {store : Store}
    (hrequest : s.requests.lookup id = some request) (hphase : request.phase = .checking [])
    (hrun : request.call.transaction uuids s.store = .ok store) :
    s.committedBy userId (.transact id uuids) =
      if request.call.userId = userId then
        some ⟨request.call.expectedRevision, uuids, request.call.mutation⟩
      else none := by
  simp only [Server.committedBy, hrequest, Option.bind_eq_bind, Option.bind_some, hphase, hrun]

/-- A step that commits a mutation of the user is that mutation on the sequential
queue; every other step leaves the user's queue as it was. -/
theorem perform_queueState (h : s.perform step = some t)
    (hpositions : ∀ userId, NonNegative s.store.queue userId) :
    (s.committedBy userId step).toList.foldlM QueueState.apply (s.store.queueState userId) =
      .ok (t.store.queueState userId) := by
  rcases perform_store h with
    ⟨hstore, hnone⟩ | ⟨id, uuids, request, rfl, hrequest, hphase, hrun⟩ |
      ⟨tracks, rfl, hall, hstore⟩
  · rw [hnone, hstore]
    rfl
  · obtain ⟨happly, hothers⟩ := queueState_transaction (hpositions _) hrun
    rw [committedBy_transact hrequest hphase hrun]
    split_ifs with huser
    · subst huser
      rw [Option.toList_some, List.foldlM_cons, happly]
      rfl
    · rw [hothers userId (Ne.symm huser)]
      rfl
  · rw [hstore, queueState_changeTracks hall]
    rfl

end Steps

/-! ### Whole runs -/

section Runs

variable {s t : Server} {steps : List Step}

/-- The mutations that a run commits, one after another, lead the sequential
queue where the run leads the tables. -/
theorem run_queueState (h : s.Reachable) (hrun : Transition.Run Server.Steps s steps t)
    (userId : String) :
    (s.committedIn userId steps).foldlM QueueState.apply (s.store.queueState userId) =
      .ok (t.store.queueState userId) := by
  induction hrun with
  | nil => rfl
  | @cons s u t step steps hstep hrest ih =>
    have hu : u.Reachable := h.run (.cons hstep (.nil u))
    have hfirst : (s.committedBy userId step).toList.foldlM QueueState.apply
        (s.store.queueState userId) = .ok (u.store.queueState userId) :=
      perform_queueState hstep h.nonNegative
    rw [Server.committedIn, show s.perform step = some u from hstep, List.foldlM_append, hfirst]
    exact ih hu

/-- Each mutation of a sequence takes the revision and the event sequence one
further. -/
theorem foldlM_apply_revision {entries : List Entry} {queue queue' : QueueState}
    (h : entries.foldlM QueueState.apply queue = .ok queue') :
    queue'.revision = queue.revision + entries.length ∧
      queue'.eventSequence = queue.eventSequence + entries.length := by
  induction entries generalizing queue with
  | nil =>
    cases h
    simp
  | cons entry entries ih =>
    rw [List.foldlM_cons] at h
    cases happly : queue.apply entry with
    | error e =>
      rw [happly] at h
      cases h
    | ok next =>
      rw [happly] at h
      obtain ⟨-, -, hrevision, hsequence⟩ := apply_eq_ok.mp happly
      obtain ⟨hrevision', hsequence'⟩ := ih h
      rw [List.length_cons]
      omega

theorem toString_injective {m n : ℕ} (h : toString m = toString n) : m = n := by
  rw [Nat.toString_eq_ofList_toDigits, Nat.toString_eq_ofList_toDigits] at h
  have hdigits : Nat.toDigits 10 m = Nat.toDigits 10 n := String.ofList_injective h
  rw [← Nat.ofDigitChars_ten_toDigits (n := m), hdigits, Nat.ofDigitChars_ten_toDigits]

/-- The request has been answered with an error. -/
def Server.isRefused (s : Server) (id : ℕ) (e : QueueError) : Prop :=
  ∃ request, s.requests.lookup id = some request ∧ request.phase = .answered (.error e)

theorem lookup_setPhase {id id' : ℕ} {phase : Phase} :
    (s.setPhase id phase).requests.lookup id' =
      if id' = id then (s.requests.lookup id').map fun request => { request with phase }
      else s.requests.lookup id' := by
  rw [Server.setPhase, Table.lookup_modify]

/-- The step that answers a request with an error leaves the tables alone. -/
theorem refused_store {step : Step} {id : ℕ} {e : QueueError} (h : s.perform step = some t)
    (hbefore : ¬s.isRefused id e) (hafter : t.isRefused id e) : t.store = s.store := by
  rcases perform_store h with
    ⟨hstore, -⟩ | ⟨id', uuids, request, rfl, hrequest, hphase, hrun⟩ | ⟨tracks, rfl, -, -⟩
  · exact hstore
  · -- A request whose transaction commits is not answered yet.
    exfalso
    obtain ⟨request', hrequest', -, ht⟩ := perform_transact.mp h
    cases hrequest.symm.trans hrequest'
    simp only [hrun] at ht
    obtain ⟨answered, hanswered, herror⟩ := hafter
    rw [← ht, lookup_setPhase] at hanswered
    split_ifs at hanswered with hid
    · obtain ⟨old, -, rfl⟩ := Option.map_eq_some_iff.mp hanswered
      cases herror
    · exact hbefore ⟨answered, hanswered, herror⟩
  · obtain ⟨-, rfl⟩ := perform_changeTracks.mp h
    exact absurd hafter hbefore

/-- Over any run of requests, in any order of their steps: the mutations that
commit for a user form one sequence, the order of their transactions, and the
user's queue is what they make of it one after another, each from the revision
its request names; the revision and the event sequence rise by one for each; a
revision read twice is of the same items, so a request is applied to the items
its revision was read with; and a request that fails, at whatever point, leaves
the tables as they were. -/
theorem mutations_linearizable (h : s.Reachable) (hrun : Transition.Run Server.Steps s steps t)
    (userId : String) :
    (s.committedIn userId steps).foldlM QueueState.apply (s.store.queueState userId) =
      .ok (t.store.queueState userId) ∧
    (t.store.queueState userId).revision =
      (s.store.queueState userId).revision + (s.committedIn userId steps).length ∧
    (t.store.queueState userId).eventSequence =
      (s.store.queueState userId).eventSequence + (s.committedIn userId steps).length ∧
    ((Repository.read t.store userId).revision = (Repository.read s.store userId).revision →
      t.store.queueState userId = s.store.queueState userId) ∧
    ∀ step u id e, t.perform step = some u → ¬t.isRefused id e → u.isRefused id e →
      u.store = t.store := by
  have hsequence := run_queueState h hrun userId
  obtain ⟨hrevision, hevents⟩ := foldlM_apply_revision hsequence
  refine ⟨hsequence, hrevision, hevents, fun hsame => ?_, fun step u id e hstep =>
    refused_store hstep⟩
  -- A revision that has not risen has seen no mutation.
  have hequal : (t.store.queueState userId).revision = (s.store.queueState userId).revision :=
    toString_injective hsame
  have hnone : s.committedIn userId steps = [] := List.length_eq_zero_iff.mp (by omega)
  rw [hnone] at hsequence
  exact (Except.ok.inj hsequence).symm

/-- Two clients append from the same revision; the second one is too late. -/
def racingSteps : List Step :=
  [.changeTracks (AList.insert "a" ⟨true⟩ ∅),
    .submit 0 ⟨"user", "0", .append "a" "first", none⟩,
    .submit 1 ⟨"user", "0", .append "a" "second", none⟩,
    .requireTrack 0, .requireTrack 1, .transact 0 fun _ => "x"]

def racingServer : Server := (racingSteps.foldlM Server.perform .empty).getD .empty

theorem racingServer_run : Transition.Run Server.Steps .empty racingSteps racingServer := by
  have hsome : (racingSteps.foldlM Server.perform .empty).isSome = true := by decide +kernel
  obtain ⟨t, ht⟩ := Option.isSome_iff_exists.mp hsome
  rw [racingServer, ht]
  exact .of_option ht

/-- The second append is refused. -/
theorem racing_append_refused :
    (racingServer.perform (.transact 1 fun _ => "y")).any (fun t => t.requests.lookup 1 |>.any
      fun request => match request.phase with
        | .answered (.error .revisionConflict) => true
        | _ => false) ∧
    (Server.empty.committedIn "user" racingSteps).foldlM QueueState.apply
        (Server.empty.store.queueState "user") = .ok (racingServer.store.queueState "user") ∧
    (racingServer.store.queueState "user").revision = 1 := by
  have hlinearizable := mutations_linearizable (.start rfl) racingServer_run "user"
  exact ⟨by decide +kernel, hlinearizable.1, by decide +kernel⟩

end Runs

end Harmony.Playback
