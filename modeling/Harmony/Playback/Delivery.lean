/-
# Queue invalidations on the event streams

A slot keeps the publication that came last, not the one that names the latest
sequence, and a stream reads the queue after it has subscribed. So a publication
that a later one has overtaken takes a stream back, and so does a publication
that the first read of a stream has overtaken. Where neither happens, the events
of every stream only go forward, and once every request is answered each stream
has reached the last committed sequence.
-/

import Harmony.Playback.Linearization

namespace Harmony.Playback

open Transaction

/-! ### Sequences -/

/-- The number that a sequence spells. -/
def Invalidation.number (event : Invalidation) : ℕ := Nat.ofDigitChars 10 event.sequence.toList 0

/-- The committed event sequence of the user. -/
def Server.sequence (s : Server) (userId : String) : ℕ := (s.store.state userId).eventSequence

theorem number_shownQueue {s : Server} {userId : String} :
    (s.store.shownQueue userId).invalidation.number = s.sequence userId := by
  have hdigits : (toString (s.sequence userId)).toList = Nat.toDigits 10 (s.sequence userId) := by
    rw [Nat.toString_eq_ofList_toDigits, String.toList_ofList]
  exact (congrArg (fun digits => Nat.ofDigitChars 10 digits 0) hdigits).trans
    Nat.ofDigitChars_ten_toDigits

/-- A step takes the sequence one further for each mutation that it commits. -/
theorem perform_sequence {s t : Server} {step : Step} (h : s.perform step = some t)
    (hpositions : ∀ userId, NonNegative s.store.queue userId) (userId : String) :
    t.sequence userId = s.sequence userId + (s.committedBy userId step).toList.length :=
  (foldlM_apply_revision (perform_queueState h hpositions)).2

/-! ### What is delivered -/

/-- The last event a subscriber has received once it has read what its slot
holds. -/
def Stream.last (stream : Stream) : Option Invalidation :=
  if stream.isChanged then stream.slot else stream.events.head?

/-- The events of a stream go forward and none is past the committed sequence. -/
structure Stream.Orderly (latest : ℕ) (stream : Stream) : Prop where
  changed : stream.isChanged = true → stream.slot.isSome = true
  slot_le : ∀ event, stream.slot = some event → event.number ≤ latest
  events_le : ∀ event ∈ stream.events, event.number ≤ latest
  sorted : stream.events.Pairwise fun later earlier => earlier.number ≤ later.number
  /-- What is in the slot comes after what was written. -/
  pending : ∀ event, stream.events ≠ [] → stream.isChanged = true → stream.slot = some event →
    ∀ earlier ∈ stream.events, earlier.number ≤ event.number

variable {stream : Stream}

theorem Stream.Orderly.mono {latest latest' : ℕ} (h : stream.Orderly latest)
    (hle : latest ≤ latest') : stream.Orderly latest' where
  changed := h.changed
  slot_le event hslot := (h.slot_le event hslot).trans hle
  events_le event hevent := (h.events_le event hevent).trans hle
  sorted := h.sorted
  pending := h.pending

/-- The request is still to publish the sequence. -/
def Phase.owes (sequence : ℕ) : Phase → Prop
  | .committed => True
  | .fetched queue => queue.invalidation.number = sequence
  | _ => False

/-- Some request is still to publish the user's committed sequence. -/
def Server.isOwed (s : Server) (userId : String) : Prop :=
  ∃ id request, s.requests.lookup id = some request ∧ request.call.userId = userId ∧
    request.phase.owes (s.sequence userId)

def Stream.isUpToDate (latest : ℕ) (stream : Stream) : Prop :=
  ∃ event, stream.last = some event ∧ event.number = latest

structure Server.Delivers (s : Server) : Prop where
  fetched_le : ∀ id request queue, s.requests.lookup id = some request →
    request.phase = .fetched queue → queue.invalidation.number ≤ s.sequence request.call.userId
  orderly : ∀ id stream, s.streams.lookup id = some stream →
    stream.Orderly (s.sequence stream.userId)
  owed : ∀ id stream, s.streams.lookup id = some stream → stream.events ≠ [] →
    stream.isUpToDate (s.sequence stream.userId) ∨ s.isOwed stream.userId

/-! ### Steps in order -/

/-- The stream holds or has written a sequence past the event's. -/
def Stream.isPast (event : Invalidation) (stream : Stream) : Bool :=
  (stream.slot.toList ++ stream.events).any fun held => decide (event.number < held.number)

/-- The step writes no event that a later one has overtaken: a publication names
no sequence below one that an open stream of the user holds or has written, and a
stream's first read finds nothing older in its slot. -/
def Server.inOrder (s : Server) : Step → Bool
  | .publish id =>
    match s.requests.lookup id with
    | some ⟨call, .fetched queue⟩ =>
      !s.streams.any fun _ stream =>
        decide (stream.userId = call.userId) && stream.isPast queue.invalidation
    | _ => true
  | .first id =>
    match s.streams.lookup id with
    | some stream =>
      !stream.isChanged || stream.slot.all fun held =>
        decide (held.number = s.sequence stream.userId)
    | none => true
  | _ => true

section Preservation

variable {s t : Server} {id : ℕ} {request : Request} {phase : Phase} {userId : String}
  {event : Invalidation} {queue : Snapshot}

theorem Server.isOwed.setPhase (h : s.isOwed userId)
    (hrequest : s.requests.lookup id = some request)
    (howes : request.call.userId = userId → request.phase.owes (s.sequence userId) →
      phase.owes (s.sequence userId)) :
    (s.setPhase id phase).isOwed userId := by
  obtain ⟨id', owing, howing, huser, hphase⟩ := h
  by_cases hid : id' = id
  · subst hid
    cases hrequest.symm.trans howing
    exact ⟨id', { request with phase }, by rw [lookup_setPhase, if_pos rfl, hrequest]; rfl, huser,
      howes huser hphase⟩
  · exact ⟨id', owing, by rw [lookup_setPhase, if_neg hid, howing], huser, hphase⟩

/-- A request may take a phase in which it owes what it owed. -/
theorem Server.Delivers.setPhase (h : s.Delivers) (hrequest : s.requests.lookup id = some request)
    (hfetched : ∀ queue, phase = .fetched queue →
      queue.invalidation.number ≤ s.sequence request.call.userId)
    (howes : request.phase.owes (s.sequence request.call.userId) →
      phase.owes (s.sequence request.call.userId)) :
    (s.setPhase id phase).Delivers where
  fetched_le id' request' queue hlookup hphase := by
    rw [lookup_setPhase] at hlookup
    split_ifs at hlookup with hid
    · rw [hid, hrequest, Option.map_some] at hlookup
      cases hlookup
      exact hfetched queue hphase
    · exact h.fetched_le id' request' queue hlookup hphase
  orderly := h.orderly
  owed id' stream hstream hevents :=
    (h.owed id' stream hstream hevents).imp_right fun howed =>
      howed.setPhase hrequest fun huser => huser ▸ howes

/-- The tables may move on while a request of every user whose sequence rises has
still to read the queue. -/
theorem Server.Delivers.withStore (h : s.Delivers) {store : Store}
    (hle : ∀ userId, s.sequence userId ≤ (store.state userId).eventSequence)
    (hrises : ∀ userId, (store.state userId).eventSequence = s.sequence userId ∨
      ∃ id request, s.requests.lookup id = some request ∧ request.call.userId = userId ∧
        request.phase = .committed) :
    Server.Delivers { s with store } where
  fetched_le id request queue hlookup hphase :=
    (h.fetched_le id request queue hlookup hphase).trans (hle _)
  orderly id stream hstream := (h.orderly id stream hstream).mono (hle _)
  owed id stream hstream hevents := by
    rcases hrises stream.userId with hsame | ⟨id', request, hrequest, huser, hphase⟩
    · have hsequence : Server.sequence { s with store } stream.userId = s.sequence stream.userId :=
        hsame
      rcases h.owed id stream hstream hevents with hdone | ⟨id', request, hrequest, huser, howes⟩
      · exact Or.inl (hsequence ▸ hdone)
      · exact Or.inr ⟨id', request, hrequest, huser, hsequence ▸ howes⟩
    · exact Or.inr ⟨id', request, hrequest, huser, by rw [hphase]; trivial⟩

theorem owes_of_fetched {sequence : ℕ} :
    (Phase.fetched queue).owes sequence ↔ queue.invalidation.number = sequence := Iff.rfl

theorem start_isNotFetched {call : Call} : call.start ≠ .fetched queue := by
  rw [Call.start]
  cases call.mutation <;> cases call.sourceError <;> simp <;> split_ifs <;> simp

theorem Server.Delivers.submit (h : s.Delivers) {call : Call} (hid : id ∉ s.requests) :
    Server.Delivers { s with requests := s.requests.insert id ⟨call, call.start⟩ } where
  fetched_le id' request queue hlookup hphase := by
    rw [Table.lookup_insert_eq] at hlookup
    split_ifs at hlookup with heq
    · cases hlookup
      exact absurd hphase start_isNotFetched
    · exact h.fetched_le id' request queue hlookup hphase
  orderly := h.orderly
  owed id' stream hstream hevents := by
    refine (h.owed id' stream hstream hevents).imp_right ?_
    rintro ⟨owing, request, howing, huser, hphase⟩
    have hne : owing ≠ id := by
      rintro rfl
      rw [AList.lookup_eq_none.mpr hid] at howing
      cases howing
    exact ⟨owing, request, by rw [Table.lookup_insert_eq, if_neg hne, howing], huser, hphase⟩

theorem Server.Delivers.setStream (h : s.Delivers)
    (horderly : stream.Orderly (s.sequence stream.userId))
    (howed : stream.events ≠ [] →
      stream.isUpToDate (s.sequence stream.userId) ∨ s.isOwed stream.userId) :
    (s.setStream id stream).Delivers where
  fetched_le := h.fetched_le
  orderly id' stream' hlookup := by
    rw [Server.setStream, Table.lookup_insert_eq] at hlookup
    split_ifs at hlookup
    · cases hlookup
      exact horderly
    · exact h.orderly id' stream' hlookup
  owed id' stream' hlookup hevents := by
    rw [Server.setStream, Table.lookup_insert_eq] at hlookup
    split_ifs at hlookup
    · cases hlookup
      exact howed hevents
    · exact h.owed id' stream' hlookup hevents

/-- The first read of a stream. -/
theorem Server.Delivers.first (h : s.Delivers)
    (hstream : s.streams.lookup id = some stream) (hevents : stream.events = [])
    (hnumber : event.number = s.sequence stream.userId)
    (hslot : ∀ held, stream.isChanged = true → stream.slot = some held →
      held.number = s.sequence stream.userId) :
    (s.setStream id (stream.write event)).Delivers := by
  have hold := h.orderly id stream hstream
  refine h.setStream ⟨hold.changed, hold.slot_le, ?_, ?_, ?_⟩ fun _ => Or.inl ?_
  · simp [Stream.write, hevents, hnumber]
  · simp [Stream.write, hevents]
  · intro held _ hchanged hheld
    simp [Stream.write, hevents, hnumber, hslot held hchanged hheld]
  · cases hchanged : stream.isChanged with
    | true =>
      obtain ⟨held, hheld⟩ := Option.isSome_iff_exists.mp (hold.changed hchanged)
      exact ⟨held, by simp [Stream.last, Stream.write, hchanged, hheld], hslot held hchanged hheld⟩
    | false => exact ⟨event, by simp [Stream.last, Stream.write, hchanged], hnumber⟩

/-- A stream writes what its slot holds. -/
theorem Server.Delivers.poll (h : s.Delivers) (hstream : s.streams.lookup id = some stream)
    (hevents : stream.events ≠ []) (hchanged : stream.isChanged = true)
    (hslot : stream.slot = some event) :
    (s.setStream id ({ stream with isChanged := false }.write event)).Delivers := by
  have hold := h.orderly id stream hstream
  refine h.setStream ⟨by simp [Stream.write], hold.slot_le, ?_, ?_, by simp [Stream.write]⟩ ?_
  · intro written hwritten
    rcases List.mem_cons.mp hwritten with rfl | hearlier
    · exact hold.slot_le written hslot
    · exact hold.events_le written hearlier
  · exact List.pairwise_cons.mpr ⟨hold.pending event hevents hchanged hslot, hold.sorted⟩
  · intro _
    refine (h.owed id stream hstream hevents).imp_left ?_
    rintro ⟨last, hlast, hnumber⟩
    rw [Stream.last, if_pos hchanged, hslot] at hlast
    exact ⟨last, hlast, hnumber⟩

theorem lookup_publish :
    (s.publish userId event).streams.lookup id = (s.streams.lookup id).map fun stream =>
      if stream.userId = userId then stream.sendReplace event else stream := by
  rw [Server.publish, Table.lookup_updateWhere]
  simp

/-- No stream of the user is past a publication in order. -/
theorem publish_inOrder (hrequest : s.requests.lookup id = some request)
    (hphase : request.phase = .fetched queue) (horder : s.inOrder (.publish id) = true) {id' : ℕ}
    (hstream : s.streams.lookup id' = some stream) (huser : stream.userId = request.call.userId)
    (hevent : stream.slot = some event ∨ event ∈ stream.events) :
    event.number ≤ queue.invalidation.number := by
  obtain ⟨call, phase⟩ := request
  obtain rfl : phase = .fetched queue := hphase
  simp only [Server.inOrder, hrequest, Bool.not_eq_true', Table.any_eq_false] at horder
  have hahead := horder id' stream hstream
  rw [decide_eq_true huser, Bool.true_and, Stream.isPast, List.any_eq_false] at hahead
  have hmem : event ∈ stream.slot.toList ++ stream.events := by
    rw [List.mem_append, Option.mem_toList]
    exact hevent
  simpa using hahead event hmem

theorem first_inOrder (hstream : s.streams.lookup id = some stream)
    (horder : s.inOrder (.first id) = true) {held : Invalidation}
    (hchanged : stream.isChanged = true) (hslot : stream.slot = some held) :
    held.number = s.sequence stream.userId := by
  simpa [Server.inOrder, hstream, hchanged, hslot] using horder

/-- A publication that no stream of the user is past. -/
theorem Server.Delivers.publish (h : s.Delivers) (hrequest : s.requests.lookup id = some request)
    (hphase : request.phase = .fetched queue) (horder : s.inOrder (.publish id) = true) :
    ((s.publish request.call.userId queue.invalidation).setPhase id
      (.answered (.ok ()))).Delivers where
  fetched_le id' request' queue' hlookup hphase' := by
    rw [lookup_setPhase] at hlookup
    split_ifs at hlookup with hid
    · obtain ⟨old, -, rfl⟩ := Option.map_eq_some_iff.mp hlookup
      cases hphase'
    · exact h.fetched_le id' request' queue' hlookup hphase'
  orderly id' stream hlookup := by
    obtain ⟨old, hold, rfl⟩ := Option.map_eq_some_iff.mp (lookup_publish ▸ hlookup)
    have horderly := h.orderly id' old hold
    split_ifs with huser
    · have hle : queue.invalidation.number ≤ s.sequence old.userId :=
        huser ▸ h.fetched_le id request queue hrequest hphase
      refine ⟨fun _ => rfl, ?_, horderly.events_le, horderly.sorted, ?_⟩
      · rintro event ⟨⟩
        exact hle
      · rintro event - - ⟨⟩ earlier hearlier
        exact publish_inOrder hrequest hphase horder hold huser (Or.inr hearlier)
    · exact horderly
  owed id' stream hlookup hevents := by
    obtain ⟨old, hold, rfl⟩ := Option.map_eq_some_iff.mp (lookup_publish ▸ hlookup)
    have hkept : ∀ userId, (request.call.userId = userId →
        queue.invalidation.number ≠ s.sequence userId) → s.isOwed userId →
        ((s.publish request.call.userId queue.invalidation).setPhase id
          (.answered (.ok ()))).isOwed userId := by
      intro userId hless howed
      have howed' : (s.publish request.call.userId queue.invalidation).isOwed userId := howed
      refine howed'.setPhase hrequest fun huser howes => ?_
      rw [hphase, owes_of_fetched] at howes
      exact absurd howes (hless huser)
    split_ifs at hevents ⊢ with huser
    · by_cases hlatest : queue.invalidation.number = s.sequence old.userId
      · exact Or.inl ⟨queue.invalidation, by simp [Stream.last, Stream.sendReplace], hlatest⟩
      · -- The stream was behind, so another request still owes the latest.
        refine Or.inr (hkept old.userId (fun _ => hlatest) ?_)
        rcases h.owed id' old hold hevents with ⟨last, hlast, hnumber⟩ | howed
        · have hle : last.number ≤ queue.invalidation.number := by
            refine publish_inOrder hrequest hphase horder hold huser ?_
            rw [Stream.last] at hlast
            split_ifs at hlast
            · exact Or.inl hlast
            · exact Or.inr (List.mem_of_mem_head? hlast)
          have hge : queue.invalidation.number ≤ s.sequence old.userId :=
            huser ▸ h.fetched_le id request queue hrequest hphase
          omega
        · exact howed
    · exact (h.owed id' old hold hevents).imp_right
        (hkept old.userId fun heq => absurd heq.symm huser)

end Preservation

/-! ### Runs -/

/-- Every step in order preserves the delivery. -/
theorem Server.Delivers.perform {s t : Server} {step : Step} (h : s.Delivers)
    (hpositions : ∀ userId, NonNegative s.store.queue userId) (horder : s.inOrder step = true)
    (hstep : s.perform step = some t) : t.Delivers := by
  cases step with
  | submit id call =>
    obtain ⟨hid, rfl⟩ := perform_submit.mp hstep
    exact h.submit hid
  | requireTrack id =>
    obtain ⟨request, trackId, rest, hrequest, hphase, rfl⟩ := perform_requireTrack.mp hstep
    refine h.setPhase hrequest ?_ (by simp [hphase, Phase.owes])
    split_ifs <;> simp
  | transact id uuids =>
    have hsequence := perform_sequence hstep hpositions
    obtain ⟨request, hrequest, hphase, ht⟩ := perform_transact.mp hstep
    cases hrun : request.call.transaction uuids s.store with
    | error e =>
      simp only [hrun] at ht
      exact ht ▸ h.setPhase hrequest (by simp) (by simp [hphase, Phase.owes])
    | ok store =>
      simp only [hrun] at ht
      have hcommitted : (s.setPhase id .committed).Delivers :=
        h.setPhase hrequest (by simp) fun _ => trivial
      subst ht
      refine hcommitted.withStore (fun userId => Nat.le.intro (hsequence userId).symm) ?_
      intro userId
      by_cases huser : request.call.userId = userId
      · exact Or.inr ⟨id, { request with phase := .committed },
          by rw [lookup_setPhase, if_pos rfl, hrequest]; rfl, huser, rfl⟩
      · left
        have hsame := hsequence userId
        rwa [committedBy_transact hrequest hphase hrun, if_neg huser] at hsame
  | fetch id =>
    obtain ⟨request, hrequest, hphase, rfl⟩ := perform_fetch.mp hstep
    refine h.setPhase hrequest ?_ fun _ => number_shownQueue
    rintro queue ⟨⟩
    exact number_shownQueue.le
  | publish id =>
    obtain ⟨request, queue, hrequest, hphase, rfl⟩ := perform_publish.mp hstep
    exact h.publish hrequest hphase horder
  | subscribe id userId =>
    obtain ⟨-, rfl⟩ := perform_subscribe.mp hstep
    exact h.setStream ⟨by simp, by simp, by simp, by simp, by simp⟩ (by simp)
  | first id =>
    obtain ⟨stream, hstream, hevents, rfl⟩ := perform_first.mp hstep
    exact h.first hstream hevents number_shownQueue fun _ => first_inOrder hstream horder
  | poll id =>
    obtain ⟨stream, event, hstream, hslot, hevents, hchanged, rfl⟩ := perform_poll.mp hstep
    exact h.poll hstream hevents hchanged hslot
  | unsubscribe id =>
    obtain rfl := perform_unsubscribe.mp hstep
    have hold : ∀ id' stream, AList.lookup id' (s.streams.erase id) = some stream →
        s.streams.lookup id' = some stream := by
      intro id' stream hlookup
      rw [Table.lookup_erase_eq] at hlookup
      split_ifs at hlookup
      exact hlookup
    exact ⟨h.fetched_le, fun id' stream hlookup => h.orderly id' stream (hold id' stream hlookup),
      fun id' stream hlookup => h.owed id' stream (hold id' stream hlookup)⟩
  | changeTracks tracks =>
    obtain ⟨-, rfl⟩ := perform_changeTracks.mp hstep
    exact h.withStore (fun _ => le_refl _) fun _ => Or.inl rfl

/-- A step that is in order. -/
def Server.StepsInOrder (s : Server) (step : Step) (t : Server) : Prop :=
  s.inOrder step = true ∧ s.Steps step t

/-- Every request of the user has been answered. -/
def Server.isQuiet (s : Server) (userId : String) : Prop :=
  ∀ id request, s.requests.lookup id = some request → request.call.userId = userId →
    ∃ result, request.phase = .answered result

def Phase.isAnswered : Phase → Bool
  | .answered _ => true
  | _ => false

theorem isQuiet_of_any {s : Server} {userId : String}
    (h : s.requests.any (fun _ request => !request.phase.isAnswered) = false) :
    s.isQuiet userId := by
  rw [Table.any_eq_false] at h
  intro id request hrequest _
  have hphase := h id request hrequest
  cases hanswer : request.phase with
  | answered result => exact ⟨result, rfl⟩
  | checking | committed | fetched => simp [hanswer, Phase.isAnswered] at hphase

/-- No event of a stream goes back, and the streams of a user whose requests are
all answered end in the committed sequence. -/
def Server.NoneLost (s : Server) : Prop :=
  ∀ id stream, s.streams.lookup id = some stream →
    (stream.events.Pairwise fun later earlier => earlier.number ≤ later.number) ∧
    (s.isQuiet stream.userId → stream.events ≠ [] →
      ∃ event, stream.last = some event ∧ event.number = s.sequence stream.userId)

theorem Server.Delivers.noneLost {s : Server} (h : s.Delivers) : s.NoneLost := by
  intro id stream hstream
  refine ⟨(h.orderly id stream hstream).sorted, fun hquiet hevents => ?_⟩
  rcases h.owed id stream hstream hevents with hdone | ⟨owing, request, hrequest, huser, howes⟩
  · exact hdone
  · obtain ⟨result, hphase⟩ := hquiet owing request hrequest huser
    rw [hphase] at howes
    exact howes.elim

theorem delivers_empty : Server.empty.Delivers :=
  ⟨by simp [Server.empty, EmptyCollection.emptyCollection, AList.lookup],
    by simp [Server.empty, EmptyCollection.emptyCollection, AList.lookup],
    by simp [Server.empty, EmptyCollection.emptyCollection, AList.lookup]⟩

/-- In a run in which no publication and no first read writes an event that a
later one has overtaken, no invalidation is lost. -/
theorem invalidations_not_lost {t : Server} {steps : List Step}
    (hrun : Transition.Run Server.StepsInOrder .empty steps t) : t.NoneLost := by
  let Inv (s : Server) : Prop := s.Delivers ∧ ∀ userId, NonNegative s.store.queue userId
  have hinv : Inv t := by
    refine hrun.preserves (fun _ => True) ?_ (fun _ _ => trivial)
      ⟨delivers_empty, Server.Reachable.nonNegative (.start rfl)⟩
    rintro s step u - ⟨hdelivers, hpositions⟩ ⟨horder, hstep⟩
    exact ⟨hdelivers.perform hpositions horder hstep, perform_nonNegative hpositions hstep⟩
  exact hinv.1.noneLost

/-- A stream follows one mutation. -/
def followedSteps : List Step :=
  [.subscribe 0 "user", .first 0, .submit 0 ⟨"user", "0", .clear "", none⟩,
    .transact 0 fun _ => "", .fetch 0, .publish 0, .poll 0]

def Server.performInOrder (s : Server) (step : Step) : Option Server :=
  if s.inOrder step then s.perform step else none

def followedServer : Server := (followedSteps.foldlM Server.performInOrder .empty).getD .empty

theorem followedServer_run :
    Transition.Run Server.StepsInOrder .empty followedSteps followedServer := by
  have hsome : (followedSteps.foldlM Server.performInOrder .empty).isSome = true := by
    decide +kernel
  obtain ⟨t, ht⟩ := Option.isSome_iff_exists.mp hsome
  rw [followedServer, ht]
  exact Transition.Run.of_guarded ht

theorem followed_invalidation_not_lost :
    followedServer.NoneLost ∧ (followedServer.streams.lookup 0).map Stream.events =
      some [⟨"1", "1"⟩, ⟨"0", "0"⟩] :=
  ⟨invalidations_not_lost followedServer_run, by decide +kernel⟩

/-- Two mutations commit one after the other and publish the other way round. -/
def overtakenSteps : List Step :=
  [.subscribe 0 "user", .first 0, .submit 0 ⟨"user", "0", .clear "", none⟩,
    .submit 1 ⟨"user", "1", .clear "", none⟩, .transact 0 fun _ => "", .fetch 0,
    .transact 1 fun _ => "", .fetch 1, .publish 1, .poll 0, .publish 0, .poll 0]

def overtakenServer : Server := (overtakenSteps.foldlM Server.perform .empty).getD .empty

/-- The stream goes back and ends one short of the committed sequence. -/
theorem overtaken_invalidation_lost :
    Transition.Run Server.Steps .empty overtakenSteps overtakenServer ∧
      overtakenServer.isQuiet "user" ∧ overtakenServer.sequence "user" = 2 ∧
      (overtakenServer.streams.lookup 0).map Stream.events =
        some [⟨"1", "1"⟩, ⟨"2", "2"⟩, ⟨"0", "0"⟩] ∧ ¬overtakenServer.NoneLost := by
  have hsome : (overtakenSteps.foldlM Server.perform .empty).isSome = true := by decide +kernel
  have hrun : Transition.Run Server.Steps .empty overtakenSteps overtakenServer := by
    obtain ⟨t, ht⟩ := Option.isSome_iff_exists.mp hsome
    rw [overtakenServer, ht]
    exact .of_option ht
  have hevents : (overtakenServer.streams.lookup 0).map Stream.events =
      some [⟨"1", "1"⟩, ⟨"2", "2"⟩, ⟨"0", "0"⟩] := by decide +kernel
  have hquiet : overtakenServer.isQuiet "user" := isQuiet_of_any (by decide +kernel)
  refine ⟨hrun, hquiet, by decide +kernel, hevents, fun hnone => ?_⟩
  obtain ⟨stream, hstream, hwritten⟩ := Option.map_eq_some_iff.mp hevents
  have hsorted := (hnone 0 stream hstream).1
  rw [hwritten] at hsorted
  revert hsorted
  decide

end Harmony.Playback
