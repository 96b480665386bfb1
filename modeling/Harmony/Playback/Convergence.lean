/-
# A client's queue converges

A response is applied by the order in which its request was issued, not by what it
carries, so it may take the client back behind an event that the client has settled
already. While no applied response does, each settled event stays settled: whatever
the user's latest mutation still has under way ends in a queue that is the latest.
-/

import Harmony.Playback.Synchronizer

namespace Harmony.Playback

/-! ### What one step of the server leaves -/

variable {queue : Snapshot} {userId : String}

section Perform

variable {s t : Server} {step : Step}

/-- The user's queue is as it was, or a mutation of the user has just committed. -/
theorem perform_read (h : s.perform step = some t)
    (hpositions : ∀ userId, NonNegative s.store.queue userId) (userId : String) :
    (t.sequence userId = s.sequence userId ∧
      Repository.read t.store userId = Repository.read s.store userId ∧
      (t.store.state userId).revision = (s.store.state userId).revision) ∨
    (t.sequence userId = s.sequence userId + 1 ∧ t.isOwed userId ∧
      (t.store.state userId).revision = (s.store.state userId).revision + 1) := by
  rcases perform_store h with
    ⟨hstore, -⟩ | ⟨id, uuids, request, rfl, hrequest, hphase, hrun⟩ | ⟨tracks, rfl, hall, hstore⟩
  · exact .inl ⟨by rw [Server.sequence, Server.sequence, hstore], by rw [hstore], by rw [hstore]⟩
  · obtain ⟨⟨⟩, hcommit⟩ := Transaction.outcome_eq_ok.mp hrun
    obtain ⟨-, hcommitted⟩ := (run_meets request.call.mutation (hpositions _)).committed hcommit
    have hstates := hcommitted.writes.states
    by_cases huser : request.call.userId = userId
    · right
      subst huser
      refine ⟨by simp [Server.sequence, Store.state, hstates, Store.advanced], ?_,
        by simp [Store.state, hstates, Store.advanced]⟩
      obtain ⟨request', hrequest', -, ht⟩ := perform_transact.mp h
      cases hrequest.symm.trans hrequest'
      simp only [hrun] at ht
      rw [← ht]
      refine ⟨id, { request with phase := .committed }, ?_, rfl, trivial⟩
      show (s.setPhase id .committed).requests.lookup id = _
      rw [lookup_setPhase, if_pos rfl, hrequest]
      rfl
    · left
      have hstate : t.store.state userId = s.store.state userId := by
        simp [Store.state, hstates, Store.advanced, AList.lookup_insert_ne (Ne.symm huser)]
      refine ⟨by rw [Server.sequence, Server.sequence, hstate], ?_, by rw [hstate]⟩
      rw [Repository.read, Repository.read, hstate,
        hcommitted.writes.others.items_eq (Ne.symm huser)]
      rfl
  · refine .inl ⟨by rw [Server.sequence, Server.sequence, hstore]; rfl, ?_, by rw [hstore]; rfl⟩
    rw [hstore, Repository.read, items_changeTracks hall]
    rfl

/-- A step leaves the requests, takes a new one or moves one of them on. -/
theorem perform_requests (h : s.perform step = some t) :
    t.requests = s.requests ∨
    (∃ id call, step = .submit id call ∧ id ∉ s.requests ∧
      t.requests = s.requests.insert id ⟨call, call.start⟩) ∨
    ∃ id request phase, s.requests.lookup id = some request ∧
      t.requests = (s.setPhase id phase).requests ∧
      (∀ queue, phase = .fetched queue →
        queue = t.store.shownQueue request.call.userId) ∧
      (step = .publish id ∨ (request.phase.owes (s.sequence request.call.userId) →
        phase.owes (s.sequence request.call.userId))) := by
  cases step with
  | submit id call =>
    obtain ⟨hnew, rfl⟩ := perform_submit.mp h
    exact .inr (.inl ⟨id, call, rfl, hnew, rfl⟩)
  | requireTrack id =>
    obtain ⟨request, _, rest, hrequest, hphase, rfl⟩ := perform_requireTrack.mp h
    refine .inr (.inr ⟨id, request, _, hrequest, rfl, ?_, .inr fun howes => ?_⟩)
    · split_ifs <;> rintro queue ⟨⟩
    · rw [hphase] at howes
      exact howes.elim
  | transact id uuids =>
    obtain ⟨request, hrequest, hphase, ht⟩ := perform_transact.mp h
    cases hrun : request.call.transaction uuids s.store with
    | ok store =>
      simp only [hrun] at ht
      subst ht
      exact .inr (.inr ⟨id, request, .committed, hrequest, rfl, nofun, .inr fun _ => trivial⟩)
    | error e =>
      simp only [hrun] at ht
      subst ht
      refine .inr
        (.inr ⟨id, request, .answered (.error e), hrequest, rfl, nofun, .inr fun howes => ?_⟩)
      rw [hphase] at howes
      exact howes.elim
  | fetch id =>
    obtain ⟨request, hrequest, hphase, rfl⟩ := perform_fetch.mp h
    refine .inr (.inr ⟨id, request, _, hrequest, rfl, ?_, .inr fun _ => number_shownQueue⟩)
    rintro queue ⟨⟩
    rfl
  | publish id =>
    obtain ⟨request, queue, hrequest, hphase, rfl⟩ := perform_publish.mp h
    exact .inr (.inr ⟨id, request, _, hrequest, rfl, nofun, .inl rfl⟩)
  | subscribe id userId =>
    obtain ⟨-, rfl⟩ := perform_subscribe.mp h
    exact .inl rfl
  | first id =>
    obtain ⟨_, -, -, rfl⟩ := perform_first.mp h
    exact .inl rfl
  | poll id =>
    obtain ⟨_, _, -, -, -, -, rfl⟩ := perform_poll.mp h
    exact .inl rfl
  | unsubscribe id =>
    obtain rfl := perform_unsubscribe.mp h
    exact .inl rfl
  | changeTracks tracks =>
    obtain ⟨-, rfl⟩ := perform_changeTracks.mp h
    exact .inl rfl

/-- A request is never forgotten, nor what it asked. -/
theorem perform_kept (h : s.perform step = some t) {id : ℕ} {request : Request}
    (hrequest : s.requests.lookup id = some request) :
    ∃ request', t.requests.lookup id = some request' ∧ request'.call = request.call := by
  rcases perform_requests h with
    hsame | ⟨id', call, -, hnew, hinsert⟩ | ⟨id', moved, phase, hmoved, hset, -, -⟩
  · exact ⟨request, hsame ▸ hrequest, rfl⟩
  · refine ⟨request, ?_, rfl⟩
    rw [hinsert, Table.lookup_insert_eq, if_neg]
    · exact hrequest
    · rintro rfl
      exact hnew (AList.lookup_isSome.mp (Option.isSome_of_eq_some hrequest))
  · rw [hset, lookup_setPhase, hrequest]
    split_ifs
    · exact ⟨_, rfl, rfl⟩
    · exact ⟨_, rfl, rfl⟩

/-- What a request has fetched it had already, or it is the queue as it is now. -/
theorem perform_fetched (h : s.perform step = some t) {id : ℕ} {request : Request}
    (hrequest : t.requests.lookup id = some request) (hphase : request.phase = .fetched queue) :
    s.requests.lookup id = some request ∨
      queue = t.store.shownQueue request.call.userId := by
  rcases perform_requests h with
    hsame | ⟨id', call, -, hnew, hinsert⟩ | ⟨id', moved, phase, hmoved, hset, hread, -⟩
  · exact .inl (hsame ▸ hrequest)
  · rw [hinsert, Table.lookup_insert_eq] at hrequest
    split_ifs at hrequest
    · cases hrequest
      exact absurd hphase start_isNotFetched
    · exact .inl hrequest
  · rw [hset, lookup_setPhase] at hrequest
    split_ifs at hrequest with hid
    · rw [hid, hmoved, Option.map_some] at hrequest
      cases hrequest
      exact .inr (hread queue hphase)
    · exact .inl hrequest

/-- While the sequence stays, only a publication of it pays what is owed. -/
theorem perform_owed (h : s.perform step = some t) (howed : s.isOwed userId)
    (hsequence : t.sequence userId = s.sequence userId) :
    t.isOwed userId ∨ ∃ id request queue, step = .publish id ∧
      s.requests.lookup id = some request ∧ request.call.userId = userId ∧
      request.phase = .fetched queue ∧ queue.invalidation.number = s.sequence userId := by
  have hlift {u : Server} (hsame : t.requests = u.requests)
      (hu : u.sequence userId = s.sequence userId) (howed : u.isOwed userId) :
      t.isOwed userId := by
    obtain ⟨id, request, hrequest, huser, howes⟩ := howed
    exact ⟨id, request, hsame ▸ hrequest, huser, by rwa [hsequence, ← hu]⟩
  rcases perform_requests h with
    hsame | ⟨id', call, -, hnew, hinsert⟩ | ⟨id', moved, phase, hmoved, hset, -, hpaid⟩
  · exact .inl (hlift hsame rfl howed)
  · obtain ⟨id, request, hrequest, huser, howes⟩ := howed
    refine .inl ⟨id, request, ?_, huser, by rwa [hsequence]⟩
    rw [hinsert, Table.lookup_insert_eq, if_neg]
    · exact hrequest
    · rintro rfl
      exact hnew (AList.lookup_isSome.mp (Option.isSome_of_eq_some hrequest))
  · rcases hpaid with rfl | hkept
    · obtain ⟨request, queue, hrequest, hphase, -⟩ := perform_publish.mp h
      cases hmoved.symm.trans hrequest
      by_cases hlatest : moved.call.userId = userId ∧ queue.invalidation.number = s.sequence userId
      · exact .inr ⟨id', moved, queue, rfl, hmoved, hlatest.1, hphase, hlatest.2⟩
      · refine .inl (hlift hset rfl (howed.setPhase hmoved fun huser howes => ?_))
        rw [hphase, owes_of_fetched] at howes
        exact absurd ⟨huser, howes⟩ hlatest
    · exact .inl (hlift hset rfl (howed.setPhase hmoved fun huser => huser ▸ hkept))

end Perform

/-! ### Queues as the server had them -/

/-- The step hides no Track of the user's queue, and shows none again. -/
def Server.keepsShown (s : Server) (userId : String) : Step → Bool
  | .changeTracks tracks => (s.store.queue.items userId).all fun item =>
    (changeTracks tracks s.store).isVisible item.trackId == s.store.isVisible item.trackId
  | _ => true

theorem shownQueue_eq {store store' : Store}
    (hread : Repository.read store' userId = Repository.read store userId)
    (hvisible : ∀ item ∈ store.queue.items userId,
      store'.isVisible item.trackId = store.isVisible item.trackId) :
    store'.shownQueue userId = store.shownQueue userId := by
  rw [Store.shownQueue, Store.shownQueue, hread]
  congr 1
  exact List.filter_congr hvisible

/-- While the sequence stays, what the user is shown stays. -/
theorem perform_shownQueue {s t : Server} {step : Step} (h : s.perform step = some t)
    (hpositions : ∀ userId, NonNegative s.store.queue userId)
    (hkeeps : s.keepsShown userId step = true) (hsequence : t.sequence userId = s.sequence userId) :
    t.store.shownQueue userId = s.store.shownQueue userId := by
  have hread : Repository.read t.store userId = Repository.read s.store userId := by
    rcases perform_read h hpositions userId with ⟨-, hread, -⟩ | ⟨hnext, -⟩
    · exact hread
    · omega
  refine shownQueue_eq hread fun item hitem => ?_
  rcases perform_store h with
    ⟨hstore, -⟩ | ⟨id, uuids, request, rfl, hrequest, hphase, hrun⟩ | ⟨tracks, rfl, hall, hstore⟩
  · rw [hstore]
  · obtain ⟨⟨⟩, hcommit⟩ := Transaction.outcome_eq_ok.mp hrun
    obtain ⟨-, hcommitted⟩ := (run_meets request.call.mutation (hpositions _)).committed hcommit
    rw [Store.isVisible, hcommitted.writes.tracks]
    rfl
  · rw [hstore]
    exact eq_of_beq (List.all_eq_true.mp hkeeps item hitem)

theorem read_empty :
    Repository.read Store.empty userId = ⟨[], "0", "0"⟩ := by
  rw [Repository.read]
  congr 1
  · show toString (0 : ℕ) = "0"
    decide +kernel
  · show toString (0 : ℕ) = "0"
    decide +kernel

/-- The queue names a sequence that the user's queue has had. -/
structure Server.HasHad (s : Server) (userId : String) (queue : Snapshot) : Prop where
  revision : queue.revision = queue.eventSequence
  number_le : queue.invalidation.number ≤ s.sequence userId

/-- The user's queue as it was shown at some sequence. -/
structure Server.WasLatest (s : Server) (userId : String) (queue : Snapshot) : Prop extends
    s.HasHad userId queue where
  latest : queue.invalidation.number = s.sequence userId → queue = s.store.shownQueue userId

/-- What a server that has started empty has for a user. -/
structure Server.Counts (s : Server) (userId : String) : Prop where
  positions : ∀ userId, NonNegative s.store.queue userId
  revision : (s.store.state userId).revision = s.sequence userId
  start : s.sequence userId = 0 → Repository.read s.store userId = ⟨[], "0", "0"⟩
  fetched : ∀ id request queue, s.requests.lookup id = some request →
    request.call.userId = userId → request.phase = .fetched queue → s.HasHad userId queue

section Counts

variable {s t : Server} {step : Step} {userId : String} {queue : Snapshot}

theorem perform_sequence_le (h : s.perform step = some t)
    (hpositions : ∀ userId, NonNegative s.store.queue userId) :
    s.sequence userId ≤ t.sequence userId := by
  rcases perform_read h hpositions userId with ⟨hsequence, -⟩ | ⟨hsequence, -⟩
  · exact hsequence.ge
  · exact hsequence ▸ Nat.le_succ _

theorem Server.HasHad.perform (h : s.HasHad userId queue)
    (hpositions : ∀ userId, NonNegative s.store.queue userId) (hstep : s.perform step = some t) :
    t.HasHad userId queue :=
  ⟨h.revision, h.number_le.trans (perform_sequence_le hstep hpositions)⟩

theorem Server.WasLatest.perform (h : s.WasLatest userId queue)
    (hpositions : ∀ userId, NonNegative s.store.queue userId) (hstep : s.perform step = some t)
    (hkeeps : s.keepsShown userId step = true) : t.WasLatest userId queue := by
  refine ⟨h.toHasHad.perform hpositions hstep, fun hlatest => ?_⟩
  have hle : s.sequence userId ≤ t.sequence userId := perform_sequence_le hstep hpositions
  have hsequence : t.sequence userId = s.sequence userId := by
    have hnumber := h.number_le
    omega
  rw [perform_shownQueue hstep hpositions hkeeps hsequence]
  exact h.latest (hlatest.trans hsequence)

theorem wasLatest_shownQueue (hrevision : (s.store.state userId).revision = s.sequence userId) :
    s.WasLatest userId (s.store.shownQueue userId) :=
  ⟨⟨congrArg toString hrevision, number_shownQueue.le⟩, fun _ => rfl⟩

theorem Server.Counts.perform (h : s.Counts userId) (hstep : s.perform step = some t) :
    t.Counts userId := by
  have hrevision : (t.store.state userId).revision = t.sequence userId := by
    rcases perform_read hstep h.positions userId with
      ⟨hsequence, -, hrevision⟩ | ⟨hsequence, -, hrevision⟩
    · rw [hrevision, hsequence, h.revision]
    · rw [hrevision, hsequence, h.revision]
  refine ⟨perform_nonNegative h.positions hstep, hrevision, fun hzero => ?_, ?_⟩
  · rcases perform_read hstep h.positions userId with ⟨hsequence, hread, -⟩ | ⟨hsequence, -⟩
    · rw [hread, h.start (hsequence ▸ hzero)]
    · omega
  · intro id request queue hrequest huser hphase
    rcases perform_fetched hstep hrequest hphase with hold | rfl
    · exact (h.fetched id request queue hold huser hphase).perform h.positions hstep
    · exact huser ▸ (wasLatest_shownQueue (huser ▸ hrevision)).toHasHad

theorem Server.Reachable.counts (h : s.Reachable) (userId : String) : s.Counts userId := by
  let Inv (s : Server) : Prop := s.Counts userId
  have hinv : Inv s := by
    refine Transition.Reachable.invariant ?_ ?_ h
    · rintro s rfl
      exact ⟨Server.Reachable.nonNegative (.start rfl), rfl, fun _ => read_empty,
        fun _ _ _ hrequest => nomatch hrequest⟩
    · exact fun s step t hs hstep => hs.perform hstep
  exact hinv

theorem Server.Counts.wasLatest (h : s.Counts userId) :
    s.WasLatest userId (s.store.shownQueue userId) :=
  wasLatest_shownQueue h.revision

/-- The empty queue that a client starts from. -/
theorem Server.Counts.wasLatest_start (h : s.Counts userId) :
    s.WasLatest userId ⟨[], "0", "0"⟩ := by
  have hnumber : (Snapshot.invalidation ⟨[], "0", "0"⟩).number = 0 := by decide +kernel
  refine ⟨⟨rfl, hnumber ▸ Nat.zero_le _⟩, fun hlatest => ?_⟩
  rw [Store.shownQueue, h.start (hlatest.symm.trans hnumber), List.filter_nil]

end Counts

/-! ### What is under way to the client -/

/-- The queue that a request will be answered with, once it is known. -/
def Exchange.Holds (server : Server) (responses : Table ℕ Snapshot) (queue : Snapshot) :
    Exchange → Prop
  | .read answer => answer = some queue
  | .mutation id =>
    (∃ request, server.requests.lookup id = some request ∧ request.phase = .fetched queue) ∨
      responses.lookup id = some queue

namespace Synchronizing

def sequence (s : Synchronizing) : ℕ := s.server.sequence s.userId

/-- Why the latest sequence is not missed. -/
inductive Told (s : Synchronizing) : Prop
  | failed (hfailed : s.failed = true)
  | owed (howed : s.server.isOwed s.userId)
  | apart (hapart : s.connection ≠ .streaming)
  | arriving {event : Invalidation} (hevent : event ∈ s.arriving)
      (hnumber : event.number = s.sequence)
  | settled (hsettled : s.client.latestEventSequence = some s.sequence)
  | awaited {pending : PendingQueueRequest} (hpending : pending ∈ s.requests)
      (hpurpose : pending.purpose = .invalidated s.sequence)

structure Synced (s : Synchronizing) : Prop where
  counts : s.server.Counts s.userId
  client : s.server.WasLatest s.userId s.client.queue
  responses : ∀ id queue, s.responses.lookup id = some queue → id ∈ s.server.requests
  own : ∀ pending ∈ s.requests, ∀ id, pending.exchange = .mutation id →
    ∃ request, s.server.requests.lookup id = some request ∧ request.call.userId = s.userId
  holds : ∀ pending ∈ s.requests, ∀ queue,
    pending.exchange.Holds s.server s.responses queue → s.server.WasLatest s.userId queue
  arriving : ∀ event ∈ s.arriving, event.revision = event.sequence ∧ event.number ≤ s.sequence
  order_le : ∀ pending ∈ s.requests, pending.order ≤ s.client.nextQueueRequest
  applied_le : s.client.latestAppliedRequest ≤ s.client.nextQueueRequest
  /-- The client is not behind an event that it has settled. -/
  settled : ∀ latest, s.client.latestEventSequence = some latest →
    latest ≤ s.client.queue.invalidation.number
  awaited : ∀ sequence ∈ s.client.pendingEventSequences,
    ∃ pending ∈ s.requests, pending.purpose = .invalidated sequence
  refresh_le : ∀ pending ∈ s.requests, ∀ sequence, pending.purpose = .invalidated sequence →
    sequence ≤ s.sequence
  /-- A refresh was sent after its event had come. -/
  refresh : ∀ pending ∈ s.requests, ∀ sequence, pending.purpose = .invalidated sequence →
    ∀ later ∈ s.requests, pending.order ≤ later.order → ∀ queue,
    later.exchange.Holds s.server s.responses queue → sequence ≤ queue.invalidation.number
  /-- What has overtaken a refresh was sent after its event too. -/
  overtaken : ∀ pending ∈ s.requests, ∀ sequence, pending.purpose = .invalidated sequence →
    pending.order < s.client.latestAppliedRequest → sequence ≤ s.client.queue.invalidation.number
  told : s.Told

variable {s t : Synchronizing} {pending : PendingQueueRequest} {index : ℕ} {purpose : Purpose}
  {step : Playback.Step} {exchange : Exchange}

theorem Told.withClient (h : s.Told) {client : SynchronizedQueue}
    (hkept : s.client.latestEventSequence = some s.sequence →
      client.latestEventSequence = some s.sequence) : Told { s with client } := by
  cases h with
  | failed hfailed => exact .failed hfailed
  | owed howed => exact .owed howed
  | apart hapart => exact .apart hapart
  | arriving hevent hnumber => exact .arriving hevent hnumber
  | settled hsettled => exact .settled (hkept hsettled)
  | awaited hpending hpurpose => exact .awaited hpending hpurpose

theorem Told.send (h : s.Told) :
    (s.send purpose exchange).Told := by
  cases h with
  | failed hfailed => exact .failed hfailed
  | owed howed => exact .owed howed
  | apart hapart => exact .apart hapart
  | arriving hevent hnumber => exact .arriving hevent hnumber
  | settled hsettled => exact .settled hsettled
  | awaited hpending hawaits => exact .awaited (List.mem_append_left _ hpending) hawaits

theorem Synced.converges (h : s.Synced) : s.Converges := by
  intro hquiet hfailed
  have hlatest : s.client.latestEventSequence = some s.sequence := by
    cases h.told with
    | failed hfailed' => exact absurd hfailed' (by simp [hfailed])
    | owed howed =>
      obtain ⟨id, request, hrequest, huser, howes⟩ := howed
      obtain ⟨result, hphase⟩ := hquiet.server id request hrequest huser
      rw [hphase] at howes
      exact howes.elim
    | apart hapart => exact absurd hquiet.connection hapart
    | arriving hevent => simp [hquiet.arriving] at hevent
    | settled hsettled => exact hsettled
    | awaited hpending => simp [hquiet.requests] at hpending
  exact h.client.latest (h.client.number_le.antisymm (h.settled _ hlatest))

/-! ### What the client does -/

theorem Synced.apply (h : s.Synced) (hpending : pending ∈ s.requests)
    (hholds : pending.exchange.Holds s.server s.responses queue)
    (hpace : s.client.latestAppliedRequest ≤ pending.order → ∀ latest,
      s.client.latestEventSequence = some latest → latest ≤ queue.invalidation.number)
    :
    Synced { s with client := s.client.applyQueue queue pending.order } := by
  rw [SynchronizedQueue.applyQueue]
  split_ifs with happlied
  · exact h
  · refine { h with
      client := h.holds pending hpending queue hholds
      applied_le := h.order_le pending hpending
      settled := hpace (not_lt.mp happlied)
      overtaken := ?_
      told := ?_ }
    · intro earlier hearlier sequence hpurpose horder
      exact h.refresh earlier hearlier sequence hpurpose pending hpending horder.le queue hholds
    · exact h.told.withClient id

/-- A sequence that the client has reached may be settled. -/
theorem Synced.settle (h : s.Synced) {sequence : ℕ}
    (hreached : sequence ≤ s.client.queue.invalidation.number) :
    Synced { s with client := s.client.settle sequence } := by
  have hlatest : ∀ latest, (s.client.settle sequence).latestEventSequence = some latest →
      latest ≤ s.client.queue.invalidation.number := by
    intro latest hlatest
    rw [SynchronizedQueue.settle] at hlatest
    dsimp only at hlatest
    split_ifs at hlatest
    · exact Option.some.inj hlatest ▸ hreached
    · exact h.settled latest hlatest
  refine { h with
    settled := hlatest
    awaited := fun awaited hawaited => h.awaited awaited (List.mem_of_mem_filter hawaited)
    told := h.told.withClient fun hsettled => ?_ }
  have hle := hreached.trans h.client.number_le
  have hnot : ¬(s.client.latestEventSequence.all fun latest => latest < sequence) = true := by
    rw [hsettled, Option.all_some, decide_eq_true_eq, not_lt]
    exact hle
  rw [SynchronizedQueue.settle, if_neg hnot]
  exact hsettled

/-- A client that settles the latest sequence had settled none past it. -/
theorem Synced.settle_latest (h : s.Synced) {sequence : ℕ} (hlatest : sequence = s.sequence) :
    (s.client.settle sequence).latestEventSequence = some sequence := by
  rw [SynchronizedQueue.settle]
  dsimp only
  split_ifs with hall
  · rfl
  · rw [Option.all_eq_true] at hall
    push Not at hall
    obtain ⟨latest, hsettled, hnot⟩ := hall
    have hge : sequence ≤ latest := not_lt.mp fun hlt => hnot (decide_eq_true hlt)
    have hle : latest ≤ s.sequence := (h.settled latest hsettled).trans h.client.number_le
    rw [hsettled, hge.antisymm (hlatest ▸ hle)]

theorem Synced.conflict (h : s.Synced) (queueConflict : Option String) :
    Synced { s with client := { s.client with queueConflict } } :=
  { h with told := h.told.withClient id }

/-- A request goes once its purpose is met. -/
theorem Synced.erase (h : s.Synced)
    (hpending : s.requests[index]? = some pending)
    (hmet : ∀ sequence, pending.purpose = .invalidated sequence →
      sequence ∉ s.client.pendingEventSequences ∧
        (sequence = s.sequence → s.failed = true ∨ s.client.latestEventSequence = some sequence)) :
    Synced { s with requests := s.requests.eraseIdx index } := by
  have hkept : ∀ other ∈ s.requests, other.purpose ≠ pending.purpose →
      other ∈ s.requests.eraseIdx index := by
    intro other hother hpurpose
    obtain ⟨i, hi⟩ := List.mem_iff_getElem?.mp hother
    refine List.mem_eraseIdx_iff_getElem?.mpr ⟨i, ?_, hi⟩
    rintro rfl
    exact hpurpose (congrArg PendingQueueRequest.purpose
      (Option.some.inj (hi.symm.trans hpending)))
  have hof {other : PendingQueueRequest} (hother : other ∈ s.requests.eraseIdx index) :
      other ∈ s.requests := List.mem_of_mem_eraseIdx hother
  refine { h with
    own := fun other hother => h.own other (hof hother)
    holds := fun other hother => h.holds other (hof hother)
    order_le := fun other hother => h.order_le other (hof hother)
    awaited := ?_
    refresh_le := fun other hother => h.refresh_le other (hof hother)
    refresh := fun other hother sequence hpurpose later hlater =>
      h.refresh other (hof hother) sequence hpurpose later (hof hlater)
    overtaken := fun other hother => h.overtaken other (hof hother)
    told := ?_ }
  · intro sequence hsequence
    obtain ⟨other, hother, hpurpose⟩ := h.awaited sequence hsequence
    refine ⟨other, hkept other hother fun hsame => ?_, hpurpose⟩
    exact (hmet sequence (hsame ▸ hpurpose)).1 hsequence
  · cases h.told with
    | failed hfailed => exact .failed hfailed
    | owed howed => exact .owed howed
    | apart hapart => exact .apart hapart
    | arriving hevent hnumber => exact .arriving hevent hnumber
    | settled hsettled => exact .settled hsettled
    | @awaited other hother hpurpose =>
      by_cases hsame : other.purpose = pending.purpose
      · rcases (hmet _ (hsame ▸ hpurpose)).2 rfl with hfailed | hsettled
        · exact .failed hfailed
        · exact .settled hsettled
      · exact .awaited (hkept other hother hsame) hpurpose

/-- A sequence is waited for while a refresh for it is pending. -/
theorem Synced.await (h : s.Synced) {sequence : ℕ} (hpending : pending ∈ s.requests)
    (hpurpose : pending.purpose = .invalidated sequence) :
    Synced { s with
      client := { s.client with
        pendingEventSequences := sequence :: s.client.pendingEventSequences } } := by
  refine { h with awaited := fun awaited hawaited => ?_, told := h.told.withClient id }
  rcases List.mem_cons.mp hawaited with rfl | hold
  · exact ⟨pending, hpending, hpurpose⟩
  · exact h.awaited awaited hold

/-- A new request holds nothing yet. -/
theorem Synced.send (h : s.Synced)
    (hnone : ∀ queue, ¬exchange.Holds s.server s.responses queue)
    (hown : ∀ id, exchange = .mutation id →
      ∃ request, s.server.requests.lookup id = some request ∧ request.call.userId = s.userId)
    (hpurpose : ∀ sequence, purpose = .invalidated sequence → sequence ≤ s.sequence) :
    (s.send purpose exchange).Synced := by
  have hcases {pending : PendingQueueRequest}
    (hpending : pending ∈ (s.send purpose exchange).requests) :
      pending ∈ s.requests ∨ pending = ⟨s.client.nextQueueRequest + 1, purpose, exchange⟩ := by
    rcases List.mem_append.mp hpending with hold | hnew
    · exact .inl hold
    · exact .inr (List.mem_singleton.mp hnew)
  refine { h with
    own := ?_, holds := ?_, order_le := ?_, applied_le := ?_, awaited := ?_, refresh_le := ?_
    refresh := ?_, overtaken := ?_, told := ?_ }
  · intro pending hpending id hexchange
    rcases hcases hpending with hold | rfl
    · exact h.own pending hold id hexchange
    · exact hown id hexchange
  · intro pending hpending queue hholds
    rcases hcases hpending with hold | rfl
    · exact h.holds pending hold queue hholds
    · exact absurd hholds (hnone queue)
  · intro pending hpending
    rcases hcases hpending with hold | rfl
    · exact (h.order_le pending hold).trans (Nat.le_succ _)
    · exact le_refl _
  · exact h.applied_le.trans (Nat.le_succ _)
  · intro sequence hsequence
    obtain ⟨pending, hpending, hawaits⟩ := h.awaited sequence hsequence
    exact ⟨pending, List.mem_append_left _ hpending, hawaits⟩
  · intro pending hpending sequence hsequence
    rcases hcases hpending with hold | rfl
    · exact h.refresh_le pending hold sequence hsequence
    · exact hpurpose sequence hsequence
  · intro pending hpending sequence hsequence later hlater horder queue hholds
    rcases hcases hlater with hlater | rfl
    · rcases hcases hpending with hold | rfl
      · exact h.refresh pending hold sequence hsequence later hlater horder queue hholds
      · -- No request was sent after the new one.
        have hle := h.order_le later hlater
        have hlt : s.client.nextQueueRequest + 1 ≤ later.order := horder
        omega
    · exact absurd hholds (hnone queue)
  · intro pending hpending sequence hsequence horder
    rcases hcases hpending with hold | rfl
    · exact h.overtaken pending hold sequence hsequence horder
    · have hle := h.applied_le
      have hlt : s.client.nextQueueRequest + 1 < s.client.latestAppliedRequest := horder
      omega
  · exact h.told.send

theorem Synced.sendRead (h : s.Synced)
    (hpurpose : ∀ sequence, purpose = .invalidated sequence → sequence ≤ s.sequence) :
    (s.send purpose (.read none)).Synced :=
  h.send nofun nofun hpurpose

/-- The request that fails need not be waited for, and its failure is noted. -/
theorem Synced.fail (h : s.Synced) (hpending : s.requests[index]? = some pending) :
    Synced ({ s with requests := s.requests.eraseIdx index }.fail pending) := by
  rw [Synchronizing.fail]
  split
  case h_1 sequence hpurpose =>
    have hdropped : Synced { s with
        client := { s.client with
          pendingEventSequences := s.client.pendingEventSequences.filter (· ≠ sequence) }
        failed := true } :=
      { h with
        awaited := fun awaited hawaited => h.awaited awaited (List.mem_of_mem_filter hawaited)
        told := .failed rfl }
    refine hdropped.erase hpending fun sequence' hpurpose' => ⟨?_, fun _ => .inl rfl⟩
    obtain rfl := Purpose.invalidated.inj (hpurpose.symm.trans hpurpose')
    simp
  case h_2 hpurpose =>
    have hnoted : Synced { s with failed := true } := { h with told := .failed rfl }
    exact hnoted.erase hpending fun sequence' hpurpose' => absurd hpurpose' (hpurpose sequence')

/-- An event goes once it is known not to be missed. -/
theorem Synced.taken (h : s.Synced) {arriving : List Invalidation} (hof : arriving ⊆ s.arriving)
    (htold : Told { s with arriving }) : Synced { s with arriving } :=
  { h with
    arriving := fun event hevent => h.arriving event (hof hevent)
    told := htold }

theorem Told.withoutEvent (h : s.Told) {event : Invalidation}
    (hevent : s.arriving[index]? = some event) :
    event.number = s.sequence ∨ Told { s with arriving := s.arriving.eraseIdx index } := by
  cases h with
  | failed hfailed => exact .inr (.failed hfailed)
  | owed howed => exact .inr (.owed howed)
  | apart hapart => exact .inr (.apart hapart)
  | @arriving other hother hnumber =>
    by_cases hsame : other = event
    · exact .inl (hsame ▸ hnumber)
    · obtain ⟨i, hi⟩ := List.mem_iff_getElem?.mp hother
      refine .inr (.arriving (List.mem_eraseIdx_iff_getElem?.mpr ⟨i, ?_, hi⟩) hnumber)
      rintro rfl
      exact hsame (Option.some.inj (hi.symm.trans hevent))
  | settled hsettled => exact .inr (.settled hsettled)
  | awaited hpending hpurpose => exact .inr (.awaited hpending hpurpose)

theorem Synced.onEvent (h : s.Synced) {event : Invalidation}
    (hevent : s.arriving[index]? = some event) :
    Synced ({ s with arriving := s.arriving.eraseIdx index }.onEvent event) := by
  obtain ⟨hrevision, hnumber⟩ := h.arriving event (List.mem_of_getElem? hevent)
  have hof : s.arriving.eraseIdx index ⊆ s.arriving := List.eraseIdx_subset
  have htold := h.told.withoutEvent hevent
  dsimp only [Synchronizing.onEvent]
  split_ifs with hold hawaited hshown
  · -- The client has settled the event, so it is the latest only if that was.
    refine h.taken hof (htold.elim (fun hlatest => ?_) id)
    obtain ⟨latest, hsettled, hle⟩ := Option.any_eq_true _ _ |>.mp hold
    have hreached := (h.settled latest hsettled).trans h.client.number_le
    have heq : latest = s.sequence := by
      have hle' := of_decide_eq_true hle
      unfold Synchronizing.sequence at hlatest ⊢
      omega
    exact .settled (heq ▸ hsettled)
  · refine h.taken hof (htold.elim (fun hlatest => ?_) id)
    obtain ⟨pending, hpending, hpurpose⟩ := h.awaited _ hawaited
    exact .awaited hpending (hlatest ▸ hpurpose)
  · have hsame : event.number = s.client.queue.invalidation.number := by
      have hspelled : event.sequence = s.client.queue.eventSequence :=
        hrevision.symm.trans (hshown.trans h.client.revision)
      exact congrArg (fun spelled : String => Nat.ofDigitChars 10 spelled.toList 0) hspelled
    have hsettled : Synced { s with
        client := { s.client with latestEventSequence := some event.number } } := by
      refine { h with
        settled := fun latest hlatest => (Option.some.inj hlatest ▸ hsame).le
        told := h.told.withClient fun hlatest => ?_ }
      have hle := hnumber
      rw [hlatest, Option.any_some, decide_eq_true_eq] at hold
      exact absurd hnumber hold
    refine hsettled.taken hof ?_
    rcases htold with hlatest | htold
    · exact .settled (congrArg some hlatest)
    · refine htold.withClient fun hlatest => ?_
      rw [hlatest, Option.any_some, decide_eq_true_eq] at hold
      exact absurd hnumber hold
  · have hsent : (s.send (.invalidated event.number) (.read none)).Synced :=
      h.sendRead fun sequence hpurpose => Purpose.invalidated.inj hpurpose ▸ hnumber
    have hnew : (⟨s.client.nextQueueRequest + 1, .invalidated event.number, .read none⟩ :
        PendingQueueRequest) ∈ (s.send (.invalidated event.number) (.read none)).requests :=
      List.mem_append_right _ (List.mem_singleton_self _)
    refine Synced.taken (hsent.await hnew rfl) hof ?_
    rcases htold with hlatest | htold
    · exact .awaited hnew (congrArg Purpose.invalidated hlatest)
    · exact Told.withClient htold.send id

/-! ### What the server does -/

/-- The server may move on while whoever pays the latest sequence tells the client. -/
theorem Synced.move (h : s.Synced) {server : Server}
    (hstep : s.server.perform step = some server)
    (hkeeps : s.server.keepsShown s.userId step = true)
    (hpublished : ∀ id request queue, step = .publish id →
      s.server.requests.lookup id = some request → request.call.userId = s.userId →
      request.phase = .fetched queue → queue.invalidation.number = s.sequence →
      s.connection ≠ .streaming ∨ queue.invalidation ∈ s.arriving) :
    Synced { s with server } := by
  have hcounts := h.counts.perform hstep
  have hle : s.sequence ≤ server.sequence s.userId :=
    perform_sequence_le hstep h.counts.positions
  have hkept {queue : Snapshot} (hqueue : s.server.WasLatest s.userId queue) :
      server.WasLatest s.userId queue := hqueue.perform h.counts.positions hstep hkeeps
  -- what a request comes to hold is the queue as it now is
  have hholds {pending : PendingQueueRequest} (hpending : pending ∈ s.requests) {queue : Snapshot}
      (hafter : pending.exchange.Holds server s.responses queue) :
      pending.exchange.Holds s.server s.responses queue ∨
        queue = server.store.shownQueue s.userId := by
    cases hexchange : pending.exchange with
    | read answer =>
      rw [hexchange] at hafter
      exact .inl hafter
    | mutation id =>
      rw [hexchange] at hafter
      rcases hafter with ⟨request, hrequest, hphase⟩ | hresponse
      · rcases perform_fetched hstep hrequest hphase with hold | rfl
        · exact .inl (.inl ⟨request, hold, hphase⟩)
        · obtain ⟨old, hold, huser⟩ := h.own pending hpending id hexchange
          obtain ⟨kept, hkeptRequest, hcall⟩ := perform_kept hstep hold
          cases hrequest.symm.trans hkeptRequest
          rw [hcall, huser]
          exact .inr rfl
      · exact .inl (.inr hresponse)
  refine { h with
    counts := hcounts, client := hkept h.client, responses := ?_, own := ?_, holds := ?_
    arriving := fun event hevent => (h.arriving event hevent).imp_right (·.trans hle)
    refresh_le := fun pending hpending sequence hpurpose =>
      (h.refresh_le pending hpending sequence hpurpose).trans hle
    refresh := ?_, told := ?_ }
  · intro id queue hresponse
    obtain ⟨request, hrequest⟩ :=
      Option.isSome_iff_exists.mp (AList.lookup_isSome.mpr (h.responses id queue hresponse))
    obtain ⟨request', hrequest', -⟩ := perform_kept hstep hrequest
    exact AList.lookup_isSome.mp (Option.isSome_of_eq_some hrequest')
  · intro pending hpending id hexchange
    obtain ⟨request, hrequest, huser⟩ := h.own pending hpending id hexchange
    obtain ⟨request', hrequest', hcall⟩ := perform_kept hstep hrequest
    exact ⟨request', hrequest', hcall ▸ huser⟩
  · intro pending hpending queue hafter
    rcases hholds hpending hafter with hbefore | rfl
    · exact hkept (h.holds pending hpending queue hbefore)
    · exact hcounts.wasLatest
  · intro pending hpending sequence hpurpose later hlater horder queue hafter
    rcases hholds hlater hafter with hbefore | rfl
    · exact h.refresh pending hpending sequence hpurpose later hlater horder queue hbefore
    · rw [number_shownQueue]
      exact (h.refresh_le pending hpending sequence hpurpose).trans hle
  · have hsame : server.sequence s.userId = s.sequence ∨ server.isOwed s.userId := by
      rcases perform_read hstep h.counts.positions s.userId with ⟨hsame, -⟩ | ⟨-, howed, -⟩
      · exact .inl hsame
      · exact .inr howed
    rcases hsame with hsame | howed
    case inr => exact .owed howed
    cases h.told with
    | failed hfailed => exact .failed hfailed
    | owed howed =>
      rcases perform_owed hstep howed hsame with
        howed | ⟨id, request, queue, hpublish, hrequest, huser, hphase, hlatest⟩
      · exact .owed howed
      · rcases hpublished id request queue hpublish hrequest huser hphase hlatest with
          hapart | harriving
        · exact .apart hapart
        · exact .arriving harriving (hlatest.trans hsame.symm)
    | apart hapart => exact .apart hapart
    | arriving hevent hnumber => exact .arriving hevent (hnumber.trans hsame.symm)
    | settled hsettled => exact .settled (hsettled.trans (congrArg some hsame.symm))
    | awaited hpending hpurpose =>
      exact .awaited hpending (hpurpose.trans (congrArg Purpose.invalidated hsame.symm))

/-- A publication answers its request and tells the client, if it listens. -/
theorem Synced.publish (h : s.Synced) {id : ℕ} {call : Call}
    (hrequest : s.server.requests.lookup id = some ⟨call, .fetched queue⟩) :
    let isTold := call.userId = s.userId ∧ s.connection ≠ .away
    Synced { s with
      responses := s.responses.insert id queue
      arriving := if isTold then queue.invalidation :: s.arriving else s.arriving } := by
  intro isTold
  have hhad : call.userId = s.userId → s.server.HasHad s.userId queue :=
    fun huser => h.counts.fetched id _ queue hrequest huser rfl
  -- a response holds what its request had fetched
  have hholds {exchange : Exchange} {queue' : Snapshot}
      (hafter : exchange.Holds s.server (s.responses.insert id queue) queue') :
      exchange.Holds s.server s.responses queue' := by
    cases exchange with
    | read answer => exact hafter
    | mutation id' =>
      rcases hafter with hfetched | hresponse
      · exact .inl hfetched
      · rw [Table.lookup_insert_eq] at hresponse
        split_ifs at hresponse with hid
        · exact .inl ⟨_, hid ▸ hrequest, congrArg Phase.fetched (Option.some.inj hresponse)⟩
        · exact .inr hresponse
  refine { h with
    responses := ?_, arriving := ?_, told := ?_
    holds := fun pending hpending queue' hafter => h.holds pending hpending queue' (hholds hafter)
    refresh := fun pending hpending sequence hpurpose later hlater horder queue' hafter =>
      h.refresh pending hpending sequence hpurpose later hlater horder queue' (hholds hafter) }
  · intro id' queue' hresponse
    rw [Table.lookup_insert_eq] at hresponse
    split_ifs at hresponse with hid
    · subst hid
      exact AList.lookup_isSome.mp (Option.isSome_of_eq_some hrequest)
    · exact h.responses id' queue' hresponse
  · intro event hevent
    dsimp only at hevent
    split_ifs at hevent with htold
    · rcases List.mem_cons.mp hevent with rfl | hold
      · exact ⟨(hhad htold.1).revision, (hhad htold.1).number_le⟩
      · exact h.arriving event hold
    · exact h.arriving event hevent
  · cases h.told with
    | failed hfailed => exact .failed hfailed
    | owed howed => exact .owed howed
    | apart hapart => exact .apart hapart
    | arriving hevent hnumber =>
      refine .arriving ?_ hnumber
      dsimp only
      split_ifs
      · exact List.mem_cons_of_mem _ hevent
      · exact hevent
    | settled hsettled => exact .settled hsettled
    | awaited hpending hpurpose => exact .awaited hpending hpurpose

theorem serve_eq_some :
    s.serve step = some t ↔ ∃ server, s.server.perform step = some server ∧
      ((∀ id, step ≠ .publish id) ∧ { s with server } = t ∨
        ∃ id call queue, step = .publish id ∧
          s.server.requests.lookup id = some ⟨call, .fetched queue⟩ ∧
          { s with
            server
            responses := s.responses.insert id queue
            arriving :=
              if call.userId = s.userId ∧ s.connection ≠ .away then
                queue.invalidation :: s.arriving
              else s.arriving } = t) := by
  rw [Synchronizing.serve, Option.bind_eq_bind, Option.bind_eq_some_iff]
  refine exists_congr fun server => and_congr_right fun hstep => ?_
  cases step with
  | publish id =>
    obtain ⟨request, queue, hrequest, hphase, -⟩ := perform_publish.mp hstep
    obtain ⟨call, phase⟩ := request
    obtain rfl : phase = .fetched queue := hphase
    simp [hrequest]
  | _ => simp

theorem Synced.serve (h : s.Synced) (hkeeps : s.server.keepsShown s.userId step = true)
    (hserve : s.serve step = some t) :
    t.Synced := by
  obtain ⟨server, hstep, ⟨hnot, rfl⟩ | ⟨id, call, queue, rfl, hrequest, rfl⟩⟩ :=
    serve_eq_some.mp hserve
  · exact h.move hstep hkeeps fun id _ _ hpublish => absurd hpublish (hnot id)
  · refine (h.publish hrequest).move hstep hkeeps ?_
    rintro _ request published ⟨⟩ hrequest' huser hphase -
    cases hrequest.symm.trans hrequest'
    obtain rfl := Phase.fetched.inj hphase
    by_cases haway : s.connection = .away
    · exact .inl (by simp [haway])
    · right
      dsimp only
      rw [if_pos ⟨huser, haway⟩]
      exact List.mem_cons_self

/-! ### Runs -/

/-- The server answers a read with the queue as it is. -/
theorem Synced.answerRead (h : s.Synced) (hpending : s.requests[index]? = some pending) :
    Synced { s with
      requests := s.requests.set index { pending with exchange := .read (some s.latest) } } := by
  have hmem := List.mem_of_getElem? hpending
  have hcases {other : PendingQueueRequest}
      (hother : other ∈ s.requests.set index { pending with exchange := .read (some s.latest) }) :
      other ∈ s.requests ∨ other = { pending with exchange := .read (some s.latest) } :=
    List.mem_or_eq_of_mem_set hother
  have hold {other : PendingQueueRequest}
      (hother : other ∈ s.requests.set index { pending with exchange := .read (some s.latest) }) :
      ∃ old ∈ s.requests, old.order = other.order ∧ old.purpose = other.purpose := by
    rcases hcases hother with hother | rfl
    · exact ⟨other, hother, rfl, rfl⟩
    · exact ⟨pending, hmem, rfl, rfl⟩
  have hnew {sequence : ℕ} (hawaited : ∃ old ∈ s.requests, old.purpose = .invalidated sequence) :
      ∃ other ∈ s.requests.set index { pending with exchange := .read (some s.latest) },
        other.purpose = .invalidated sequence := by
    obtain ⟨old, hmemOld, hpurpose⟩ := hawaited
    obtain ⟨i, hi⟩ := List.mem_iff_getElem?.mp hmemOld
    by_cases hsame : index = i
    · subst hsame
      obtain rfl := Option.some.inj (hi.symm.trans hpending)
      refine ⟨{ old with exchange := .read (some s.latest) },
        List.mem_iff_getElem?.mpr ⟨index, ?_⟩, hpurpose⟩
      rw [List.getElem?_set_self (List.getElem?_eq_some_iff.mp hi).1]
    · exact ⟨old, List.mem_iff_getElem?.mpr ⟨i, by rw [List.getElem?_set_ne hsame, hi]⟩, hpurpose⟩
  refine { h with
    own := ?_, holds := ?_, order_le := ?_, awaited := fun sequence hsequence =>
      hnew (h.awaited sequence hsequence)
    refresh_le := ?_, refresh := ?_, overtaken := ?_, told := ?_ }
  · intro other hother id hexchange
    rcases hcases hother with hother | rfl
    · exact h.own other hother id hexchange
    · cases hexchange
  · intro other hother queue hholds
    rcases hcases hother with hother | rfl
    · exact h.holds other hother queue hholds
    · obtain rfl := Option.some.inj hholds
      exact h.counts.wasLatest
  · intro other hother
    obtain ⟨old, hmemOld, horder, -⟩ := hold hother
    exact horder ▸ h.order_le old hmemOld
  · intro other hother sequence hpurpose
    obtain ⟨old, hmemOld, -, hsame⟩ := hold hother
    exact h.refresh_le old hmemOld sequence (hsame.trans hpurpose)
  · intro other hother sequence hpurpose later hlater horder queue hholds
    obtain ⟨old, hmemOld, hsameOrder, hsame⟩ := hold hother
    rcases hcases hlater with hlater | rfl
    · exact h.refresh old hmemOld sequence (hsame.trans hpurpose) later hlater
        (hsameOrder ▸ horder) queue hholds
    · obtain rfl := Option.some.inj hholds
      exact (h.refresh_le old hmemOld sequence (hsame.trans hpurpose)).trans number_shownQueue.ge
  · intro other hother sequence hpurpose horder
    obtain ⟨old, hmemOld, hsameOrder, hsame⟩ := hold hother
    exact h.overtaken old hmemOld sequence (hsame.trans hpurpose) (hsameOrder ▸ horder)
  · cases h.told with
    | failed hfailed => exact .failed hfailed
    | owed howed => exact .owed howed
    | apart hapart => exact .apart hapart
    | arriving hevent hnumber => exact .arriving hevent hnumber
    | settled hsettled => exact .settled hsettled
    | @awaited old hmemOld hpurpose =>
      obtain ⟨other, hother, hpurpose⟩ := hnew ⟨old, hmemOld, hpurpose⟩
      exact .awaited hother hpurpose

/-- A mutation is sent under a number that the server has for no other. -/
theorem Synced.sendMutation (h : s.Synced) {operation : QueueOperation} {revision : String} {id : ℕ}
    (hpurpose : ∀ sequence, purpose ≠ .invalidated sequence)
    (hsend : s.sendMutation purpose operation revision id = some t) : t.Synced := by
  rw [Synchronizing.sendMutation, Option.bind_eq_bind, Option.bind_eq_some_iff] at hsend
  obtain ⟨server, hstep, ⟨⟩⟩ := hsend
  have hmoved := h.move hstep rfl fun _ _ _ hpublish => nomatch hpublish
  obtain ⟨hid, rfl⟩ := perform_submit.mp hstep
  let call : Call := ⟨s.userId, revision, operation.mutation, none⟩
  have hlookup : (s.server.requests.insert id ⟨call, call.start⟩).lookup id =
      some ⟨call, call.start⟩ := AList.lookup_insert _
  refine hmoved.send ?_ ?_ fun sequence hsequence => absurd hsequence (hpurpose sequence)
  · rintro queue (⟨request, hrequest, hphase⟩ | hresponse)
    · cases hlookup.symm.trans hrequest
      exact start_isNotFetched hphase
    · exact hid (h.responses id queue hresponse)
  · rintro _ ⟨⟩
    exact ⟨_, hlookup, rfl⟩

/-- A response that is applied is not behind an event that the client has settled, and what is
shown of the user's queue changes with its sequence only. -/
def keepsPace (s : Synchronizing) : SynchronizingEvent → Bool
  | .deliver index _ =>
    match s.requests[index]? with
    | some pending =>
      match s.answer pending.exchange with
      | some (.ok data) =>
        decide (pending.order < s.client.latestAppliedRequest) ||
          s.client.latestEventSequence.all fun latest => decide (latest ≤ data.invalidation.number)
      | _ => true
    | none => true
  | .server step => s.server.keepsShown s.userId step
  | _ => true

theorem answer_holds (h : s.answer exchange = some (.ok queue)) :
    exchange.Holds s.server s.responses queue := by
  cases exchange with
  | read answer =>
    obtain ⟨_, hanswer, ⟨⟩⟩ := Option.map_eq_some_iff.mp h
    exact hanswer
  | mutation id =>
    rw [Synchronizing.answer, Option.bind_eq_bind, Option.bind_eq_some_iff] at h
    obtain ⟨request, -, h⟩ := h
    split at h
    case h_1 =>
      obtain ⟨_, hresponse, ⟨⟩⟩ := Option.map_eq_some_iff.mp h
      exact .inr hresponse
    case h_2 => cases h
    case h_3 => cases h

theorem Synced.succeed (h : s.Synced) {index id : ℕ} (hpending : s.requests[index]? = some pending)
    (hanswer : s.answer pending.exchange = some (.ok queue))
    (hpace : s.keepsPace (.deliver index id) = true)
    (hsucceed : { s with requests := s.requests.eraseIdx index }.succeed pending queue id = some t)
    :
    t.Synced := by
  have hmem := List.mem_of_getElem? hpending
  have hholds := answer_holds hanswer
  have happlied := h.apply hmem hholds fun horder latest hlatest => by
    simpa [keepsPace, hpending, hanswer, horder.not_gt, hlatest] using hpace
  have herased (hpurpose : ∀ sequence, pending.purpose ≠ .invalidated sequence)
      (queueConflict : Option String) :
      Synced { s with
        client := { s.client.applyQueue queue pending.order with queueConflict }
        requests := s.requests.eraseIdx index } :=
    (happlied.conflict queueConflict).erase hpending fun sequence hsequence =>
      absurd hsequence (hpurpose sequence)
  rw [Synchronizing.succeed] at hsucceed
  cases hpurpose : pending.purpose with
  | refresh =>
    simp only [hpurpose, Option.some.injEq] at hsucceed
    exact hsucceed ▸ herased (by simp [hpurpose]) _
  | invalidated sequence =>
    simp only [hpurpose, Option.some.injEq] at hsucceed
    have hreached : sequence ≤
        (s.client.applyQueue queue pending.order).queue.invalidation.number := by
      rw [SynchronizedQueue.applyQueue]
      split_ifs with horder
      · exact h.overtaken pending hmem sequence hpurpose horder
      · exact h.refresh pending hmem sequence hpurpose pending hmem le_rfl queue hholds
    subst hsucceed
    refine (happlied.settle hreached).erase hpending fun sequence' hsequence' => ?_
    obtain rfl := Purpose.invalidated.inj (hpurpose.symm.trans hsequence')
    exact ⟨by simp [SynchronizedQueue.settle], fun hlatest => .inr (happlied.settle_latest hlatest)⟩
  | operation operation | retry operation =>
    simp only [hpurpose, Option.some.injEq] at hsucceed
    exact hsucceed ▸ herased (by simp [hpurpose]) none
  | reread operation =>
    simp only [hpurpose] at hsucceed
    split_ifs at hsucceed with hretried
    · exact (herased (by simp [hpurpose]) _).sendMutation (fun _ => by simp) hsucceed
    · cases hsucceed
      exact herased (by simp [hpurpose]) operation.conflict

theorem Synced.refuse (h : s.Synced) {error : QueueError}
    (hpending : s.requests[index]? = some pending) :
    Synced ({ s with requests := s.requests.eraseIdx index }.refuse pending error) := by
  unfold Synchronizing.refuse
  split
  case h_1 operation hpurpose =>
    refine Synced.sendRead ?_ nofun
    exact h.erase hpending fun sequence hsequence => by simp [hpurpose] at hsequence
  case h_2 => exact h.fail hpending

theorem Synced.perform (h : s.Synced) {event : SynchronizingEvent}
    (hpace : s.keepsPace event = true) (hstep : s.perform event = some t) : t.Synced := by
  cases event with
  | server step => exact h.serve hpace hstep
  | read index =>
    simp only [Synchronizing.perform, Option.bind_eq_bind, Option.bind_eq_some_iff] at hstep
    obtain ⟨pending, hpending, hstep⟩ := hstep
    split at hstep
    case h_1 => exact Option.some.inj hstep ▸ h.answerRead hpending
    case h_2 => cases hstep
  | refresh => exact Option.some.inj hstep ▸ h.sendRead nofun
  | operate operation id => exact h.sendMutation (fun _ => by simp) hstep
  | deliver index id =>
    simp only [Synchronizing.perform, Option.bind_eq_bind, Option.bind_eq_some_iff] at hstep
    obtain ⟨pending, hpending, answer, hanswer, hstep⟩ := hstep
    cases answer with
    | ok data => exact h.succeed hpending hanswer hpace hstep
    | error error => exact Option.some.inj hstep ▸ h.refuse hpending
  | lose index =>
    simp only [Synchronizing.perform, Option.bind_eq_bind, Option.bind_eq_some_iff] at hstep
    obtain ⟨pending, hpending, ⟨⟩⟩ := hstep
    exact h.fail hpending
  | connect =>
    rw [Synchronizing.perform] at hstep
    split_ifs at hstep
    exact Option.some.inj hstep ▸ { h with told := .apart nofun }
  | first =>
    rw [Synchronizing.perform] at hstep
    split_ifs at hstep
    have hlatest := h.counts.wasLatest
    refine Option.some.inj hstep ▸ { h with arriving := ?_, told := ?_ }
    · intro event hevent
      rcases List.mem_cons.mp hevent with rfl | hold
      · exact ⟨hlatest.revision, hlatest.number_le⟩
      · exact h.arriving event hold
    · exact .arriving List.mem_cons_self number_shownQueue
  | disconnect => exact Option.some.inj hstep ▸ { h with arriving := nofun, told := .apart nofun }
  | event index =>
    simp only [Synchronizing.perform, Option.bind_eq_bind, Option.bind_eq_some_iff] at hstep
    obtain ⟨event, hevent, ⟨⟩⟩ := hstep
    exact h.onEvent hevent
  | overtake index =>
    simp only [Synchronizing.perform, Option.bind_eq_bind, Option.bind_eq_some_iff] at hstep
    obtain ⟨event, hevent, hstep⟩ := hstep
    split_ifs at hstep with hlater
    cases hstep
    refine h.taken List.eraseIdx_subset ((h.told.withoutEvent hevent).elim (fun hlatest => ?_) id)
    obtain ⟨later, hmem, hle⟩ := List.any_eq_true.mp hlater
    have hreached := (h.arriving later (List.mem_of_mem_eraseIdx hmem)).2
    exact .arriving hmem (hreached.antisymm (hlatest ▸ of_decide_eq_true hle))

def StepKeepingPace (s : Synchronizing) (event : SynchronizingEvent) (t : Synchronizing) : Prop :=
  s.keepsPace event = true ∧ Step s event t

theorem Init.synced (h : Init s) : s.Synced := by
  obtain ⟨hserver, hclient, hrequests, hresponses, hconnection, harriving, -⟩ := h
  have hcounts := hserver.counts s.userId
  have hpending {pending : PendingQueueRequest} (h : pending ∈ s.requests) :
      pending = ⟨1, .refresh, .read none⟩ := List.mem_singleton.mp (hrequests ▸ h)
  have hpurpose {pending : PendingQueueRequest} (h : pending ∈ s.requests) (sequence : ℕ) :
      pending.purpose ≠ .invalidated sequence := by simp [hpending h]
  exact {
    counts := hcounts
    client := by rw [hclient]; exact hcounts.wasLatest_start
    responses := fun id queue hresponse => by simp [hresponses] at hresponse
    own := fun pending hmem id hexchange => by simp [hpending hmem] at hexchange
    holds := fun pending hmem queue hholds => by simp [hpending hmem, Exchange.Holds] at hholds
    arriving := fun event hevent => by simp [harriving] at hevent
    order_le := fun pending hmem => by simp [hpending hmem, hclient]
    applied_le := by simp [hclient]
    settled := fun latest hlatest => by simp [hclient] at hlatest
    awaited := fun sequence hsequence => by simp [hclient] at hsequence
    refresh_le := fun pending hmem sequence h => absurd h (hpurpose hmem sequence)
    refresh := fun pending hmem sequence h => absurd h (hpurpose hmem sequence)
    overtaken := fun pending hmem sequence h => absurd h (hpurpose hmem sequence)
    told := .apart (by simp [hconnection]) }

end Synchronizing

/-- While no response takes the client back behind an event it has settled and no Track of its
queue is hidden or shown again, its queue converges. -/
theorem queue_converges {s t : Synchronizing} {events : List SynchronizingEvent}
    (hinit : s.Init) (hrun : Transition.Run Synchronizing.StepKeepingPace s events t) :
    t.Converges := by
  have hsynced : t.Synced := by
    refine hrun.preserves (fun _ => True) ?_ (fun _ _ => trivial) hinit.synced
    rintro s event u - h ⟨hpace, hstep⟩
    exact h.perform hpace hstep
  exact hsynced.converges

/-- The server commits an append, reads the queue back and publishes it. -/
def appendSteps (id : ℕ) (uuid : String) : List SynchronizingEvent :=
  [.server (.requireTrack id), .server (.transact id fun _ => uuid), .server (.fetch id),
    .server (.publish id)]

def startedSynchronizing : Synchronizing :=
  ⟨"user", .empty, ⟨⟨[], "0", "0"⟩, none, [], 1, 0, none⟩, [⟨1, .refresh, .read none⟩], ∅, .away,
    [], false⟩

theorem startedSynchronizing_init : startedSynchronizing.Init :=
  ⟨.start rfl, rfl, rfl, rfl, rfl, rfl, rfl⟩

/-- Another client appends, and the refresh for its event is answered. -/
def refreshedEvents : List SynchronizingEvent :=
  [.server (.changeTracks (AList.insert "a" ⟨true⟩ ∅)), .connect, .first, .read 0, .deliver 0 0,
      .event 0, .server (.submit 0 ⟨"user", "0", .append "a" "user", none⟩)] ++
    appendSteps 0 "x" ++ [.event 0, .read 0, .deliver 0 0]

def Synchronizing.performKeepingPace (s : Synchronizing) (event : SynchronizingEvent) :
    Option Synchronizing :=
  if s.keepsPace event then s.perform event else none

def refreshedSynchronizing : Synchronizing :=
  (refreshedEvents.foldlM Synchronizing.performKeepingPace startedSynchronizing).getD
    startedSynchronizing

theorem refreshedSynchronizing_run :
    Transition.Run Synchronizing.StepKeepingPace startedSynchronizing refreshedEvents
      refreshedSynchronizing := by
  have hsome : (refreshedEvents.foldlM Synchronizing.performKeepingPace
      startedSynchronizing).isSome = true := by decide +kernel
  obtain ⟨t, ht⟩ := Option.isSome_iff_exists.mp hsome
  rw [refreshedSynchronizing, ht]
  exact Transition.Run.of_guarded ht

theorem refreshed_queue_converges :
    refreshedSynchronizing.Converges ∧ refreshedSynchronizing.requests = [] ∧
      refreshedSynchronizing.arriving = [] ∧ refreshedSynchronizing.failed = false ∧
      refreshedSynchronizing.client.queue.items.map ItemRow.id = ["x"] :=
  ⟨queue_converges startedSynchronizing_init refreshedSynchronizing_run, by decide +kernel,
    by decide +kernel, by decide +kernel, by decide +kernel⟩

/-- The client appends twice. The stream's first event arrives after the first append, and the
refresh for it is served before the second one commits but answered after it. -/
def overtakenEvents : List SynchronizingEvent :=
  [.server (.changeTracks (AList.insert "a" ⟨true⟩ ∅)), .connect, .first, .read 0, .deliver 0 0,
      .operate (.append "a" "user") 0] ++ appendSteps 0 "x" ++
    [.deliver 0 0, .operate (.append "a" "user") 1, .event 1, .read 1, .event 0] ++
    appendSteps 1 "y" ++ [.deliver 0 0, .event 0, .deliver 0 0]

def overtakenSynchronizing : Synchronizing :=
  (overtakenEvents.foldlM Synchronizing.perform startedSynchronizing).getD startedSynchronizing

/-- The client is left with the queue before its second append. -/
theorem overtaken_queue_kept :
    overtakenSynchronizing.Reachable ∧ ¬overtakenSynchronizing.Converges ∧
      overtakenSynchronizing.client.queue.items.map ItemRow.id = ["x"] ∧
      overtakenSynchronizing.latest.items.map ItemRow.id = ["x", "y"] := by
  have hsome :
      (overtakenEvents.foldlM Synchronizing.perform startedSynchronizing).isSome = true := by
    decide +kernel
  have hreachable : overtakenSynchronizing.Reachable := by
    obtain ⟨t, ht⟩ := Option.isSome_iff_exists.mp hsome
    rw [overtakenSynchronizing, ht]
    exact ⟨_, _, startedSynchronizing_init, .of_option ht⟩
  have hclient : overtakenSynchronizing.client.queue.items.map ItemRow.id = ["x"] := by
    decide +kernel
  have hlatest : overtakenSynchronizing.latest.items.map ItemRow.id = ["x", "y"] := by
    decide +kernel
  have hserver : overtakenSynchronizing.server.isQuiet overtakenSynchronizing.userId :=
    isQuiet_of_any (by decide +kernel)
  refine ⟨hreachable, fun hconverges => ?_, hclient, hlatest⟩
  have hsame := hconverges ⟨hserver, by decide +kernel, by decide +kernel, by decide +kernel⟩
    (by decide +kernel)
  rw [hsame, hlatest] at hclient
  simp at hclient

end Harmony.Playback
