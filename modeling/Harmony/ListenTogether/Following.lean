/-
# Following the open Room

Rooms end and are never open again, so what a client has to tell apart is a snapshot
of the open Room from one of a Room that has ended. It has revisions only, and each
Room starts at the first. Where its comparison agrees with the Rooms at everything
that reaches it, it shows the open Room and adopts no other; at the first arrival
where it does not, it fails.
-/

import Harmony.ListenTogether.Provider
import Harmony.ListenTogether.StreamOrder

namespace Harmony.ListenTogether

/-! ### What the service does meanwhile -/

namespace Service

variable {hashes : Hashes} {service next : Service}

/-- At most one operation. -/
def Moves (hashes : Hashes) (service next : Service) : Prop :=
  next = service ∨ ∃ event, Step hashes service event next

theorem Moves.of_step (event : ServiceEvent) (h : Step hashes service event next) :
    service.Moves hashes next := .inr ⟨event, h⟩

theorem Moves.reachable (h : service.Moves hashes next) (hservice : service.Reachable hashes) :
    next.Reachable hashes := by
  rcases h with rfl | ⟨event, hstep⟩
  · exact hservice
  · exact hservice.run (.cons hstep (.nil _))

theorem Reachable.nextGeneration_pos (h : service.Reachable hashes) :
    0 < service.nextGeneration := by
  let IsPositive (service : Service) : Prop := 0 < service.nextGeneration
  show IsPositive service
  refine Transition.Reachable.invariant ?_ (fun before event after hbefore hstep => ?_) h
  · rintro _ ⟨publicOrigin, maxGuests, timings, now, rfl⟩
    exact Nat.one_pos
  · exact Nat.lt_of_lt_of_le hbefore (step_follows hstep hbefore).1

theorem Moves.nextGeneration (h : service.Moves hashes next)
    (hpositive : 0 < service.nextGeneration) : service.nextGeneration ≤ next.nextGeneration := by
  rcases h with rfl | ⟨event, hstep⟩
  · exact Nat.le_refl _
  · exact (step_follows hstep hpositive).1

/-- A Room that has ended stays ended. -/
theorem Moves.roomOf (h : service.Moves hashes next) {generation : ℕ}
    (hgeneration : generation < service.nextGeneration)
    (hopen : (next.roomOf generation).isSome = true) :
    (service.roomOf generation).isSome = true := by
  rcases h with rfl | ⟨event, hstep⟩
  · exact hopen
  · rcases (step_follows hstep hgeneration).2 with hnone | ⟨room, room', hroom, -, -⟩
    · simp [hnone] at hopen
    · rw [hroom]
      rfl

theorem answerOf_room {reply : Except RoomError RoomState} {snapshot : Snapshot}
    (h : answerOf reply service = .room snapshot) (hservice : service.Reachable hashes) :
    snapshot.generation < service.nextGeneration := by
  unfold answerOf at h
  cases hroom : service.room with
  | none => cases reply <;> simp [hroom] at h
  | some room =>
    cases reply with
    | error error => simp at h
    | ok state =>
      simp only [hroom, Answer.room.injEq] at h
      rw [← h]
      exact hservice.openRooms.generation room hroom

/-- One operation that is answered with the Room, if there is one. -/
theorem answered_spec {reply : Except RoomError RoomState} {progress : Progress}
    (hservice : service.Reachable hashes) (hmoves : service.Moves hashes next)
    (hprogress : .answered (answerOf reply next) = progress) :
    service.Moves hashes next ∧
      ∀ snapshot, progress = .answered (.room snapshot) →
        snapshot.generation < next.nextGeneration := by
  refine ⟨hmoves, fun snapshot hsnapshot => ?_⟩
  rw [← hprogress] at hsnapshot
  exact answerOf_room (Progress.answered.inj hsnapshot) (hmoves.reachable hservice)

/-- Handling a request is at most one operation, and its reply is about a Room that
was opened. -/
theorem handle_spec {pending : PendingRequest} {handling : Handling} {progress : Progress}
    (hservice : service.Reachable hashes)
    (h : service.handle hashes pending handling = some (progress, next)) :
    service.Moves hashes next ∧
      ∀ snapshot, progress = .answered (.room snapshot) →
        snapshot.generation < next.nextGeneration := by
  obtain ⟨request, client, standing⟩ := pending
  unfold handle at h
  cases standing with
  | answered answer => simp at h
  | taken command =>
    obtain ⟨⟨reply, after⟩, hfinish, h⟩ := Option.bind_eq_some_iff.mp h
    obtain ⟨hprogress, rfl⟩ := Prod.mk.inj (Option.some.inj h)
    refine answered_spec hservice (.of_step (.finishCommand handling.clock client command) ?_)
      hprogress
    simp [Step, perform, hfinish]
  | sent =>
    cases request with
    | boot | recheck | reconnect | poll | openedRoom =>
      obtain ⟨hprogress, rfl⟩ := Prod.mk.inj (Option.some.inj h)
      exact answered_spec hservice (.of_step (.roomView handling.clock client) rfl) hprogress
    | openRoom =>
      cases client with
      | owner =>
        obtain ⟨hprogress, rfl⟩ := Prod.mk.inj (Option.some.inj h)
        exact answered_spec hservice
          (.of_step (.openRoom handling.clock handling.opening) rfl) hprogress
      | guest session =>
        cases h
        exact ⟨.inl rfl, by simp⟩
    | command command =>
      have hmoves : service.Moves hashes (service.takeCommand handling.clock client).2 :=
        .of_step (.takeCommand handling.clock client) rfl
      simp only at h
      rcases htaken : service.takeCommand handling.clock client with ⟨error | _, after⟩
      · simp only [htaken] at h
        cases h
        exact ⟨by rwa [htaken] at hmoves, by simp⟩
      · -- Whatever the rest finds, the service is as the budget left it.
        simp only [htaken] at h
        have hafter : next = after ∧ ∀ snapshot, progress ≠ .answered (.room snapshot) := by
          split at h
          · cases h
            exact ⟨rfl, by simp⟩
          · split at h
            · cases h
              exact ⟨rfl, by simp⟩
            · cases h
              exact ⟨rfl, by simp⟩
        obtain ⟨rfl, hprogress⟩ := hafter
        exact ⟨by rwa [htaken] at hmoves, fun snapshot hroom => absurd hroom (hprogress snapshot)⟩
    | closeRoom =>
      cases client with
      | owner =>
        have hmoves : service.Moves hashes (service.close handling.clock).2 :=
          .of_step (.close handling.clock) rfl
        simp only at h
        cases hreply : (service.close handling.clock).1 <;>
        · simp only [hreply] at h
          cases h
          exact ⟨hmoves, by simp⟩
      | guest session =>
        cases h
        exact ⟨.inl rfl, by simp⟩
    | leaveRoom generation =>
      cases client with
      | owner =>
        cases h
        exact ⟨.inl rfl, by simp⟩
      | guest session =>
        have hmoves : service.Moves hashes (service.leave handling.clock session).2 :=
          .of_step (.leave handling.clock session) rfl
        simp only at h
        cases hreply : (service.leave handling.clock session).1 <;>
        · simp only [hreply] at h
          cases h
          exact ⟨hmoves, by simp⟩
    | joinRoom token currentSession =>
      cases client with
      | owner =>
        cases h
        exact ⟨.inl rfl, by simp⟩
      | guest session =>
        obtain ⟨hprogress, rfl⟩ := Prod.mk.inj (Option.some.inj h)
        exact answered_spec hservice
          (.of_step (.join handling.clock token currentSession handling.sessionToken) rfl) hprogress

end Service

/-- What the client is brought is about a Room that was opened. -/
def Arrival.NumberedBelow (bound : ℕ) : Arrival → Prop
  | .snapshot next | .unchanged next | .joined next => next.generation < bound
  | .nothing | .ended _ => True

namespace Following

variable {hashes : Hashes} {s t : Following} {event : FollowEvent} {arrival : Arrival}

/-! ### The claims on one state -/

/-- Once a snapshot of the open Room was received, that Room is shown. -/
def FollowsOpenRoom (s : Following) : Prop :=
  ∀ generation, s.IsOpen generation → generation ∈ s.received →
    s.provider.shown = some generation

/-- No Room was adopted after it had ended. -/
def AdoptsOpenRooms (s : Following) : Prop := ∀ adoption ∈ s.adopted, adoption.wasOpen = true

/-- The comparison of revisions decides as that of the Rooms would: a snapshot of the
open Room is stale only if that Room is shown, one of an ended Room is, and no end
comes while the open Room is shown. -/
def Tells (s : Following) : Arrival → Prop
  | .nothing => True
  | .snapshot next =>
    if s.IsOpen next.generation then
      isStaleSnapshot next.state s.provider.newestRevision = true →
        s.provider.shown = some next.generation
    else isStaleSnapshot next.state s.provider.newestRevision = true
  | .unchanged next => s.IsOpen next.generation → s.provider.shown = some next.generation
  | .joined next => s.IsOpen next.generation
  | .ended _ => ∀ generation ∈ s.provider.shown, s.IsOpen generation → generation ∉ s.received

instance (s : Following) (arrival : Arrival) : Decidable (s.Tells arrival) := by
  cases arrival <;> unfold Tells <;> infer_instance

/-- What the step brings to the client can be told by its revision. -/
def Recognizes (hashes : Hashes) (s : Following) (event : FollowEvent) : Prop :=
  ∀ arrival t, s.bring hashes event = some (arrival, t) → t.Tells arrival

/-! ### What reaches the client -/

theorem IsOpen.unique {generation other : ℕ} (h : s.IsOpen generation) (h' : s.IsOpen other) :
    generation = other := by
  obtain ⟨room, hroom⟩ := Option.isSome_iff_exists.mp h
  obtain ⟨room', hroom'⟩ := Option.isSome_iff_exists.mp h'
  rw [Service.roomOf_eq_some] at hroom hroom'
  cases hroom.1.symm.trans hroom'.1
  exact hroom.2.symm.trans hroom'.2

/-- Adopting what is compared rightly keeps both claims, and nothing else does. -/
theorem adopt_iff {next : Snapshot} (hfollows : s.FollowsOpenRoom) (hadopts : s.AdoptsOpenRooms) :
    (s.adopt next).FollowsOpenRoom ∧ (s.adopt next).AdoptsOpenRooms ↔
      s.Tells (.snapshot next) := by
  simp only [Tells]
  by_cases hopen : s.IsOpen next.generation
  · rw [if_pos hopen]
    by_cases hstale : isStaleSnapshot next.state s.provider.newestRevision = true
    · have hkept : (s.adopt next).provider = s.provider := by
        simp [adopt, Provider.adoptRoom, hstale]
      constructor
      · rintro ⟨hnext, -⟩ -
        rw [← hkept]
        exact hnext _ hopen List.mem_cons_self
      · intro hshown
        refine ⟨fun generation hgeneration hreceived => ?_, ?_⟩
        · rw [hkept]
          rcases List.mem_cons.mp hreceived with rfl | hreceived
          · exact hshown hstale
          · exact hfollows generation hgeneration hreceived
        · simpa [AdoptsOpenRooms, adopt, hstale] using hadopts
    · refine iff_of_true ⟨fun generation hgeneration _ => ?_, ?_⟩ fun h => absurd h hstale
      · have hsame : next.generation = generation := hopen.unique hgeneration
        simp [adopt, Provider.adoptRoom, hstale, Provider.shown, hsame]
      · intro adoption hmem
        simp only [adopt, hstale, Bool.false_eq_true, if_false, List.mem_cons] at hmem
        rcases hmem with rfl | hmem
        · simpa using hopen
        · exact hadopts adoption hmem
  · rw [if_neg hopen]
    constructor
    · rintro ⟨-, hnext⟩
      by_contra hfresh
      have hlate := hnext ⟨next.generation, s.IsOpen next.generation⟩ (by simp [adopt, hfresh])
      simp [hopen] at hlate
    · intro hstale
      refine ⟨fun generation hgeneration hreceived => ?_, ?_⟩
      · have hkept : (s.adopt next).provider = s.provider := by
          simp [adopt, Provider.adoptRoom, hstale]
        rw [hkept]
        rcases List.mem_cons.mp hreceived with rfl | hreceived
        · exact absurd hgeneration hopen
        · exact hfollows generation hgeneration hreceived
      · simpa [AdoptsOpenRooms, adopt, hstale] using hadopts

theorem shown_endRoom (provider : Provider) (reason : ListenTogetherEnding) :
    (provider.endRoom reason).shown = none := by
  rw [Provider.endRoom]
  cases hroom : provider.room with
  | none => simp [Provider.shown, hroom]
  | some room => simp [Provider.shown]

theorem arrive_iff (hfollows : s.FollowsOpenRoom) (hadopts : s.AdoptsOpenRooms)
    (arrival : Arrival) :
    (s.arrive arrival).FollowsOpenRoom ∧ (s.arrive arrival).AdoptsOpenRooms ↔
      s.Tells arrival := by
  cases arrival with
  | nothing => exact iff_of_true ⟨hfollows, hadopts⟩ trivial
  | snapshot next => exact adopt_iff hfollows hadopts
  | unchanged next =>
    constructor
    · rintro ⟨hnext, -⟩ hopen
      exact hnext _ hopen List.mem_cons_self
    · intro htells
      refine ⟨fun generation hgeneration hreceived => ?_, hadopts⟩
      rcases List.mem_cons.mp hreceived with rfl | hreceived
      · exact htells hgeneration
      · exact hfollows generation hgeneration hreceived
  | joined next =>
    -- Joining forgets the newest revision, so nothing is stale.
    let fresh : Following := { s with
      provider := { s.provider with newestRevision := none, role := .guest, ending := none } }
    have hfresh : fresh.Tells (.snapshot next) ↔ s.IsOpen next.generation := by
      have hstale : isStaleSnapshot next.state fresh.provider.newestRevision = false := rfl
      simp only [Tells, hstale, Bool.false_eq_true, false_implies]
      by_cases hopen : fresh.IsOpen next.generation
      · exact iff_of_true (by rw [if_pos hopen]; trivial) hopen
      · exact iff_of_false (by rw [if_neg hopen]; exact id) hopen
    have hkept : fresh.FollowsOpenRoom := hfollows
    exact (adopt_iff hkept hadopts).trans hfresh
  | ended reason =>
    have hshown : (s.arrive (.ended reason)).provider.shown = none := shown_endRoom _ reason
    constructor
    · rintro ⟨hnext, -⟩ generation - hopen hreceived
      have hleft := hnext generation hopen hreceived
      rw [hshown] at hleft
      simp at hleft
    · intro htells
      refine ⟨fun generation hopen hreceived => ?_, hadopts⟩
      exact absurd hreceived (htells generation (hfollows generation hopen hreceived) hopen)

/-! ### What a step does before -/

/-- Everything that was ever sent is about a Room that was opened. -/
structure Numbered (hashes : Hashes) (s : Following) : Prop where
  service : s.service.Reachable hashes
  received : ∀ generation ∈ s.received, generation < s.service.nextGeneration
  requests : ∀ pending ∈ s.requests, ∀ snapshot, pending.progress = .answered (.room snapshot) →
    snapshot.generation < s.service.nextGeneration
  streaming : ∀ id generation inviteUrl,
    s.subscription = some (id, .streaming generation inviteUrl) →
    generation < s.service.nextGeneration

/-- Before anything reaches the client, a step adopts nothing and shows nothing else. -/
structure Prepares (hashes : Hashes) (s t : Following) : Prop where
  service : s.service.Moves hashes t.service
  shown : t.provider.shown = s.provider.shown
  adopted : t.adopted = s.adopted
  received : ∀ generation ∈ t.received, generation ∈ s.received
  numbered : s.Numbered hashes → t.Numbered hashes

theorem Prepares.claims (h : Prepares hashes s t) (hnumbered : s.Numbered hashes)
    (hfollows : s.FollowsOpenRoom) (hadopts : s.AdoptsOpenRooms) :
    t.FollowsOpenRoom ∧ t.AdoptsOpenRooms := by
  constructor
  · intro generation hopen hreceived
    have hbefore := h.received generation hreceived
    rw [h.shown]
    exact hfollows generation
      (h.service.roomOf (hnumbered.received generation hbefore) hopen) hbefore
  · rw [AdoptsOpenRooms, h.adopted]
    exact hadopts

/-- The client's own bookkeeping: no request is answered and no stream begins. -/
structure Keeps (s t : Following) : Prop where
  service : t.service = s.service
  shown : t.provider.shown = s.provider.shown
  adopted : t.adopted = s.adopted
  received : ∀ generation ∈ t.received, generation ∈ s.received
  requests : ∀ pending ∈ t.requests, pending ∈ s.requests ∨
    ∀ snapshot, pending.progress ≠ .answered (.room snapshot)
  streaming : ∀ id generation inviteUrl,
    t.subscription = some (id, .streaming generation inviteUrl) →
    s.subscription = some (id, .streaming generation inviteUrl)

theorem Keeps.prepares (h : s.Keeps t) : Prepares hashes s t where
  service := .inl h.service
  shown := h.shown
  adopted := h.adopted
  received := h.received
  numbered hnumbered := by
    constructor
    case service => exact h.service ▸ hnumbered.service
    case received =>
      intro generation hmem
      rw [h.service]
      exact hnumbered.received generation (h.received generation hmem)
    case requests =>
      intro pending hmem snapshot hanswered
      rw [h.service]
      rcases h.requests pending hmem with hold | hnew
      · exact hnumbered.requests pending hold snapshot hanswered
      · exact absurd hanswered (hnew snapshot)
    case streaming =>
      intro id generation inviteUrl hsubscription
      rw [h.service]
      exact hnumbered.streaming id generation inviteUrl (h.streaming _ _ _ hsubscription)

theorem Keeps.refl (s : Following) : s.Keeps s :=
  ⟨rfl, rfl, rfl, fun _ => id, fun _ => .inl, fun _ _ _ => id⟩

theorem Keeps.trans {u : Following} (h : s.Keeps t) (h' : t.Keeps u) : s.Keeps u where
  service := h'.service.trans h.service
  shown := h'.shown.trans h.shown
  adopted := h'.adopted.trans h.adopted
  received generation hmem := h.received generation (h'.received generation hmem)
  requests pending hmem := by
    rcases h'.requests pending hmem with hold | hnew
    · exact h.requests pending hold
    · exact .inr hnew
  streaming id generation inviteUrl hsubscription :=
    h.streaming _ _ _ (h'.streaming _ _ _ hsubscription)

theorem Keeps.send (s : Following) (request : Request) (client : Client) :
    s.Keeps (s.send request client) := by
  refine ⟨rfl, rfl, rfl, fun _ => id, fun pending hmem => ?_, fun _ _ _ => id⟩
  rcases List.mem_append.mp hmem with hold | hnew
  · exact .inl hold
  · obtain rfl := List.mem_singleton.mp hnew
    exact .inr fun _ => by simp

theorem Keeps.inPhase (s : Following) (id : ℕ) {phase : SubscriptionPhase}
    (hphase : ∀ generation inviteUrl, phase ≠ .streaming generation inviteUrl) :
    s.Keeps (s.inPhase id phase) := by
  refine ⟨rfl, rfl, rfl, fun _ h => h, fun _ => .inl, fun _ generation inviteUrl h => ?_⟩
  exact absurd (Prod.mk.inj (Option.some.inj h)).2 (hphase generation inviteUrl)

/-- The role and the availability are no part of what is shown. -/
theorem Keeps.provider (s : Following) {provider : Provider}
    (hroom : provider.room = s.provider.room) : s.Keeps { s with provider } :=
  ⟨rfl, by rw [Provider.shown, Provider.shown, hroom], rfl, fun _ => id, fun _ => .inl,
    fun _ _ _ => id⟩

theorem Keeps.subscribe (s : Following) (id nextSubscription : ℕ) {phase : SubscriptionPhase}
    (hphase : ∀ generation inviteUrl, phase ≠ .streaming generation inviteUrl) :
    s.Keeps { s with subscription := some (id, phase), nextSubscription } := by
  refine ⟨rfl, rfl, rfl, fun _ h => h, fun _ => .inl, fun _ generation inviteUrl h => ?_⟩
  exact absurd (Prod.mk.inj (Option.some.inj h)).2 (hphase generation inviteUrl)

theorem Keeps.unsubscribe (s : Following) : s.Keeps { s with subscription := none } :=
  ⟨rfl, rfl, rfl, fun _ => id, fun _ => .inl, fun _ _ _ h => by simp at h⟩

theorem Keeps.renew (s : Following) : s.Keeps s.renew := by
  dsimp only [Following.renew]
  split_ifs
  · exact ⟨rfl, rfl, rfl, fun _ => id, fun _ => .inl, fun _ _ _ => id⟩
  · exact ⟨rfl, rfl, rfl, fun _ => id, fun _ hmem => .inl (List.mem_of_mem_filter hmem),
      fun _ _ _ => id⟩

theorem Keeps.resubscribe (s : Following) (client : Client) : s.Keeps (s.resubscribe client) := by
  dsimp only [Following.resubscribe]
  split_ifs
  · exact .refl s
  · have hconnecting : s.Keeps { s with
        subscription := some (s.nextSubscription, .connecting)
        nextSubscription := s.nextSubscription + 1 } := .subscribe s _ _ (by simp)
    have hpolling : s.Keeps { s with
        subscription := some (s.nextSubscription, .polling none)
        nextSubscription := s.nextSubscription + 1 } := .subscribe s _ _ (by simp)
    split
    · exact hconnecting
    · exact hpolling.trans (.send _ _ client)
  · exact .unsubscribe s

/-- A reply is about the Room its answer is about. -/
theorem reply_spec {request : Request} {client : Client} {answer : Answer} {bound : ℕ}
    (hanswer : ∀ snapshot, answer = .room snapshot → snapshot.generation < bound)
    (h : s.reply request client answer = (arrival, t)) :
    s.Keeps t ∧ arrival.NumberedBelow bound := by
  unfold reply at h
  cases request with
  | boot role isAvailable =>
    have hkeeps : s.Keeps { s with provider := { s.provider with role, isAvailable } } :=
      .provider s rfl
    cases answer with
    | room next =>
      cases h
      exact ⟨hkeeps, hanswer next rfl⟩
    | done | refused | failed =>
      cases h
      exact ⟨hkeeps, trivial⟩
  | recheck =>
    have hkeeps : s.Keeps { s with provider := { s.provider with isAvailable := true } } :=
      .provider s rfl
    cases answer with
    | room next =>
      cases h
      exact ⟨hkeeps, hanswer next rfl⟩
    | done | refused | failed =>
      cases h
      exact ⟨hkeeps, trivial⟩
  | reconnect id =>
    simp only at h
    split_ifs at h with hcurrent
    · cases h
      exact ⟨.refl s, trivial⟩
    · cases answer with
      | room next =>
        cases h
        exact ⟨.inPhase s id (by simp), hanswer next rfl⟩
      | done | refused | failed =>
        simp only at h
        split_ifs at h
        all_goals
          cases h
          exact ⟨.inPhase s id (by simp), trivial⟩
  | poll id =>
    simp only at h
    split at h
    · split_ifs at h with hcurrent
      · cases h
        exact ⟨.refl s, trivial⟩
      · cases answer with
        | room next =>
          simp only at h
          split_ifs at h
          all_goals
            cases h
            exact ⟨.inPhase s id (by simp), hanswer next rfl⟩
        | done | refused | failed =>
          simp only at h
          split_ifs at h
          all_goals
            cases h
            exact ⟨.inPhase s id (by simp), trivial⟩
    · cases h
      exact ⟨.refl s, trivial⟩
  | openRoom =>
    cases answer with
    | room next =>
      cases h
      exact ⟨.refl s, hanswer next rfl⟩
    | refused error =>
      simp only at h
      split_ifs at h
      · cases h
        exact ⟨.send s _ client, trivial⟩
      · cases h
        exact ⟨.refl s, trivial⟩
    | done | failed =>
      cases h
      exact ⟨.refl s, trivial⟩
  | openedRoom | joinRoom =>
    cases answer with
    | room next =>
      cases h
      exact ⟨.refl s, hanswer next rfl⟩
    | done | refused | failed =>
      cases h
      exact ⟨.refl s, trivial⟩
  | command command =>
    cases answer with
    | room next =>
      cases h
      exact ⟨.refl s, hanswer next rfl⟩
    | done | refused | failed =>
      cases h
      refine ⟨.refl s, ?_⟩
      split_ifs <;> trivial
  | closeRoom =>
    cases h
    refine ⟨.refl s, ?_⟩
    split_ifs <;> trivial
  | leaveRoom generation =>
    simp only at h
    split_ifs at h
    · cases h
      exact ⟨⟨rfl, rfl, rfl, fun _ => List.mem_of_mem_filter, fun _ => .inl,
        fun _ _ _ => id⟩, trivial⟩
    · cases h
      exact ⟨.refl s, trivial⟩

/-- The service moves on, and what the client holds may change with it. -/
theorem Prepares.serve {next : Service} (hnumbered : s.Numbered hashes)
    (hmoves : s.service.Moves hashes next) : Prepares hashes s { s with service := next } where
  service := hmoves
  shown := rfl
  adopted := rfl
  received _ := id
  numbered _ := by
    have hmono := hmoves.nextGeneration hnumbered.service.nextGeneration_pos
    refine ⟨hmoves.reachable hnumbered.service, fun generation hmem => ?_,
      fun pending hmem snapshot hanswered => ?_, fun id generation inviteUrl hsubscription => ?_⟩
    · exact (hnumbered.received generation hmem).trans_le hmono
    · exact (hnumbered.requests pending hmem snapshot hanswered).trans_le hmono
    · exact (hnumbered.streaming id generation inviteUrl hsubscription).trans_le hmono

/-- A request is replaced by one whose answer is about a Room that was opened. -/
theorem Prepares.answer {index : ℕ} {pending : PendingRequest}
    (hpending : ∀ snapshot, pending.progress = .answered (.room snapshot) →
      snapshot.generation < s.service.nextGeneration) :
    Prepares hashes s { s with requests := s.requests.set index pending } where
  service := .inl rfl
  shown := rfl
  adopted := rfl
  received _ := id
  numbered hnumbered := by
    refine ⟨hnumbered.service, hnumbered.received, fun other hmem => ?_, hnumbered.streaming⟩
    rcases List.mem_or_eq_of_mem_set hmem with hold | rfl
    · exact hnumbered.requests other hold
    · exact hpending

theorem bring_spec (hnumbered : s.Numbered hashes) (h : s.bring hashes event = some (arrival, t)) :
    Prepares hashes s t ∧ arrival.NumberedBelow t.service.nextGeneration := by
  unfold bring at h
  cases event with
  | serve event =>
    obtain ⟨service, hstep, h⟩ := Option.map_eq_some_iff.mp h
    cases h
    exact ⟨.serve hnumbered (.of_step event hstep), trivial⟩
  | boot role isAvailable client =>
    simp only at h
    have hbooted : s.Keeps { s with isBooting := false } :=
      ⟨rfl, rfl, rfl, fun _ => id, fun _ => .inl, fun _ _ _ => id⟩
    split_ifs at h
    · cases h
      exact ⟨(hbooted.trans (.send _ _ client)).prepares, trivial⟩
    · cases h
      have hrole : s.Keeps { s with
          isBooting := false, provider := { s.provider with role, isAvailable } } :=
        hbooted.trans (.provider _ rfl)
      exact ⟨hrole.prepares, trivial⟩
  | recheck client =>
    simp only at h
    split_ifs at h
    cases h
    exact ⟨(Keeps.send s _ client).prepares, trivial⟩
  | openRoom client =>
    cases h
    have hkeeps : s.Keeps { s with
        provider := { s.provider with ending := none, newestRevision := none } } := .provider s rfl
    exact ⟨(hkeeps.trans (.send _ _ client)).prepares, trivial⟩
  | command | closeRoom | leaveRoom | joinRoom =>
    cases h
    exact ⟨(Keeps.send s _ _).prepares, trivial⟩
  | handle index handling =>
    obtain ⟨pending, -, h⟩ := Option.bind_eq_some_iff.mp h
    obtain ⟨⟨progress, next⟩, hhandle, h⟩ := Option.bind_eq_some_iff.mp h
    cases h
    obtain ⟨hmoves, hroom⟩ := Service.handle_spec hnumbered.service hhandle
    have hserve := Prepares.serve hnumbered hmoves
    have hanswer : Prepares hashes { s with service := next } { s with
        service := next, requests := s.requests.set index { pending with progress } } :=
      .answer hroom
    exact ⟨⟨hmoves, rfl, rfl, fun _ => id, fun hs => hanswer.numbered (hserve.numbered hs)⟩,
      trivial⟩
  | lose index =>
    obtain ⟨pending, -, h⟩ := Option.bind_eq_some_iff.mp h
    cases h
    exact ⟨.answer (by simp), trivial⟩
  | deliver index =>
    obtain ⟨pending, hpending, h⟩ := Option.bind_eq_some_iff.mp h
    have hmem := List.mem_of_getElem? hpending
    cases hprogress : pending.progress with
    | sent | taken => simp [hprogress] at h
    | answered answer =>
      simp only [hprogress] at h
      have herased : s.Keeps { s with requests := s.requests.eraseIdx index } :=
        ⟨rfl, rfl, rfl, fun _ => id, fun _ hmem => .inl (List.mem_of_mem_eraseIdx hmem),
          fun _ _ _ => id⟩
      obtain ⟨hkeeps, hbelow⟩ := reply_spec
        (fun snapshot hroom => hnumbered.requests pending hmem snapshot (by rw [hprogress, hroom]))
        (Option.some.inj h)
      have hall := herased.trans hkeeps
      exact ⟨hall.prepares, hall.service ▸ hbelow⟩
  | render client =>
    cases h
    exact ⟨((Keeps.renew s).trans (.resubscribe s.renew client)).prepares, trivial⟩
  | connect clock client =>
    simp only at h
    split at h
    case h_2 => simp at h
    case h_1 id hsubscription =>
      have hmoves : s.service.Moves hashes (s.service.subscribe clock client).2 :=
        .of_step (.subscribe clock client) rfl
      have hserve := Prepares.serve hnumbered hmoves
      rcases hreply : s.service.subscribe clock client with ⟨error | subscription, next⟩
      · simp only [hreply, Option.some.injEq, Prod.mk.injEq] at h hserve hmoves
        obtain ⟨rfl, rfl⟩ := h
        have hphase : Keeps { s with service := next }
            (inPhase { s with service := next } id .disconnected) := .inPhase _ id (by simp)
        exact ⟨⟨hmoves, rfl, rfl, fun _ h => h,
          fun hs => hphase.prepares.numbered (hserve.numbered hs)⟩, trivial⟩
      · simp only [hreply, Option.some.injEq, Prod.mk.injEq] at h hserve hmoves
        obtain ⟨rfl, rfl⟩ := h
        obtain ⟨room, hroom, hgeneration, -⟩ := Streaming.subscribe_ok hreply
        have hopened := (hmoves.reachable hnumbered.service).openRooms.generation room hroom
        refine ⟨⟨hmoves, rfl, rfl, fun _ h => h, fun hs => ?_⟩, trivial⟩
        have hserved := hserve.numbered hs
        refine ⟨hserved.service, hserved.received, hserved.requests, ?_⟩
        rintro _ _ _ ⟨-⟩
        exact hgeneration ▸ hopened
  | frame entry =>
    simp only at h
    split at h
    case h_2 => simp at h
    case h_1 id generation inviteUrl hsubscription =>
      split_ifs at h
      cases entry with
      | state room =>
        cases h
        exact ⟨(Keeps.refl s).prepares, hnumbered.streaming _ _ _ hsubscription⟩
      | closed =>
        cases h
        exact ⟨(Keeps.inPhase s id (by simp)).prepares, trivial⟩
  | disconnect =>
    simp only at h
    split at h
    case h_3 => simp at h
    all_goals
      cases h
      exact ⟨(Keeps.inPhase s _ (by simp)).prepares, trivial⟩
  | wake client =>
    simp only at h
    split at h
    case h_3 => simp at h
    case h_1 id hsubscription =>
      cases h
      have hreading : s.Keeps (s.inPhase id .reading) := .inPhase s id (by simp)
      exact ⟨(hreading.trans (.send _ _ client)).prepares, trivial⟩
    case h_2 id revision hsubscription =>
      cases h
      have hpolling : s.Keeps (s.inPhase id (.polling revision)) := .inPhase s id (by simp)
      exact ⟨(hpolling.trans (.send _ _ client)).prepares, trivial⟩

/-! ### Whole runs -/

theorem Numbered.arrive (h : s.Numbered hashes)
    (hbelow : arrival.NumberedBelow s.service.nextGeneration) :
    (s.arrive arrival).Numbered hashes := by
  cases arrival with
  | nothing => exact h
  | snapshot next | joined next | unchanged next =>
    refine ⟨h.service, fun generation hmem => ?_, h.requests, h.streaming⟩
    rcases List.mem_cons.mp hmem with rfl | hmem
    · exact hbelow
    · exact h.received generation hmem
  | ended reason => exact ⟨h.service, h.received, h.requests, h.streaming⟩

/-- What holds in every state of a run that brings nothing that cannot be told. -/
structure Sound (hashes : Hashes) (s : Following) : Prop where
  numbered : s.Numbered hashes
  follows : s.FollowsOpenRoom
  adopts : s.AdoptsOpenRooms

theorem Init.sound (h : Init hashes s) : s.Sound hashes := by
  obtain ⟨hservice, -, -, -, hsubscription, hrequests, hreceived, hadopted⟩ := h
  refine ⟨⟨hservice, ?_, ?_, ?_⟩, ?_, ?_⟩
  · simp [hreceived]
  · simp [hrequests]
  · simp [hsubscription]
  · intro generation _ hmem
    simp [hreceived] at hmem
  · simp [AdoptsOpenRooms, hadopted]

/-- One step keeps both claims exactly when its arrival can be told. -/
theorem Sound.step_iff (h : s.Sound hashes) (hstep : Step hashes s event t) :
    t.Numbered hashes ∧ (t.FollowsOpenRoom ∧ t.AdoptsOpenRooms ↔ s.Recognizes hashes event) := by
  obtain ⟨⟨arrival, prepared⟩, hbring, rfl⟩ := Option.map_eq_some_iff.mp hstep
  obtain ⟨hprepares, hbelow⟩ := bring_spec h.numbered hbring
  obtain ⟨hfollows, hadopts⟩ := hprepares.claims h.numbered h.follows h.adopts
  refine ⟨(hprepares.numbered h.numbered).arrive hbelow, ?_⟩
  rw [arrive_iff hfollows hadopts]
  constructor
  · intro htells other u hother
    cases hbring.symm.trans hother
    exact htells
  · intro hrecognizes
    exact hrecognizes arrival prepared hbring

/-- What runs lead to in which everything that reaches the client can be told. -/
def ReachableRecognizing (hashes : Hashes) : Following → Prop :=
  Transition.Reachable (Init hashes) fun s event t => Step hashes s event t ∧
    s.Recognizes hashes event

theorem Sound.step (h : s.Sound hashes) (hstep : Step hashes s event t)
    (hrecognizes : s.Recognizes hashes event) : t.Sound hashes := by
  obtain ⟨hnumbered, hiff⟩ := h.step_iff hstep
  obtain ⟨hfollows, hadopts⟩ := hiff.mpr hrecognizes
  exact ⟨hnumbered, hfollows, hadopts⟩

theorem ReachableRecognizing.sound (h : ReachableRecognizing hashes s) : s.Sound hashes := by
  obtain ⟨start, events, hinit, hrun⟩ := h
  refine hrun.preserves (fun _ => True) (fun before event after _ hsound hstep => ?_)
    (fun _ _ => trivial) (Init.sound hinit)
  exact Sound.step hsound hstep.1 hstep.2

/-- The open Room is followed as long as revisions tell the Rooms apart, and no step
longer. -/
theorem follows_open_room (hashes : Hashes) :
    (∀ s, ReachableRecognizing hashes s → s.FollowsOpenRoom ∧ s.AdoptsOpenRooms) ∧
    (∀ s event t, ReachableRecognizing hashes s → Step hashes s event t →
      (t.FollowsOpenRoom ∧ t.AdoptsOpenRooms ↔ s.Recognizes hashes event)) := by
  constructor
  · intro s h
    exact ⟨h.sound.follows, h.sound.adopts⟩
  · intro s event t h hstep
    exact (h.sound.step_iff hstep).2

/-! ### A Room that was missed and a reply that is late -/

open Service (plainHashes clockAt sampleOpening)

/-- The Owner's client, before it has read anything. -/
def startedClient : Following where
  service := Service.new (some "https://music.example") 8 ⟨1000, 60⟩ 0
  provider := ⟨.loading, false, none, none, none⟩
  mode := .stream
  rendered := ⟨.loading, false, false⟩
  isBooting := true
  subscription := none
  nextSubscription := 0
  requests := []
  received := []
  adopted := []

theorem startedClient_init : Init plainHashes startedClient :=
  ⟨.start ⟨some "https://music.example", 8, ⟨1000, 60⟩, 0, rfl⟩, rfl, rfl, rfl, rfl, rfl, rfl, rfl⟩

def handlingAt (now : ℕ) : Handling := ⟨clockAt now, sampleOpening, "session", .ok ()⟩

/-- The client opens the first Room and streams it. -/
def openFirst : List FollowEvent :=
  [.boot .owner true .owner, .handle 0 (handlingAt 1), .deliver 0,
    .openRoom .owner, .handle 0 (handlingAt 2), .deliver 0,
    .render .owner, .connect (clockAt 3) .owner]

/-- A command raises the revision, and its reply is on the way. -/
def openLyrics : List FollowEvent :=
  openFirst ++ [.command (.setLyricsOpen true) .owner, .handle 0 (handlingAt 4),
    .handle 0 (handlingAt 5)]

/-- While the stream is down the Room is closed and another is opened. -/
def missClosing : List FollowEvent :=
  openLyrics ++ [.deliver 0, .disconnect, .serve (.close (clockAt 6)),
    .serve (.openRoom (clockAt 7) sampleOpening), .wake .owner, .handle 0 (handlingAt 8),
    .deliver 0]

/-- The Room is closed, the client is told, and then the reply comes. -/
def replyLate : List FollowEvent :=
  openLyrics ++ [.serve (.close (clockAt 6)), .frame .closed, .deliver 0]

/-- The client shows the closed Room although it has read the open one, and adopts a
closed Room of which it was told that it had ended. -/
theorem closed_room_followed :
    (∃ s : Following, s.Reachable plainHashes ∧ ¬ s.FollowsOpenRoom) ∧
      ∃ s : Following, s.Reachable plainHashes ∧ ¬ s.AdoptsOpenRooms := by
  constructor
  · have hchecked : (missClosing.foldlM (perform plainHashes) startedClient).any (fun s =>
        decide (s.IsOpen 2) && decide (2 ∈ s.received) &&
          decide (s.provider.shown = some 1)) = true := by decide +kernel
    cases hrun : missClosing.foldlM (perform plainHashes) startedClient with
    | none => simp [hrun] at hchecked
    | some s =>
    simp only [hrun, Option.any_some, Bool.and_eq_true, decide_eq_true_eq] at hchecked
    obtain ⟨⟨hopen, hreceived⟩, hshown⟩ := hchecked
    refine ⟨s, (Transition.Reachable.start startedClient_init).run (.of_option hrun),
      fun hfollows => ?_⟩
    have hsecond := hfollows 2 hopen hreceived
    simp [hshown] at hsecond
  · have hchecked : (replyLate.foldlM (perform plainHashes) startedClient).any (fun s =>
        decide (s.provider.ending = some .closed) && s.adopted.any (!·.wasOpen)) = true := by
      decide +kernel
    cases hrun : replyLate.foldlM (perform plainHashes) startedClient with
    | none => simp [hrun] at hchecked
    | some s =>
    simp only [hrun, Option.any_some, Bool.and_eq_true, List.any_eq_true,
      Bool.not_eq_true'] at hchecked
    obtain ⟨-, adoption, hmem, hlate⟩ := hchecked
    refine ⟨s, (Transition.Reachable.start startedClient_init).run (.of_option hrun),
      fun hadopts => ?_⟩
    simp [hadopts adoption hmem] at hlate

/-- The client hears that the first Room is closed and then asks for the second. -/
def hearClosing : List FollowEvent :=
  openLyrics ++ [.deliver 0, .serve (.close (clockAt 6)), .frame .closed, .render .owner,
    .serve (.openRoom (clockAt 7) sampleOpening), .openRoom .owner, .handle 0 (handlingAt 8),
    .deliver 0, .handle 0 (handlingAt 9), .deliver 0]

/-- One step, if what it brings can be told. -/
def performRecognizing (hashes : Hashes) (s : Following) (event : FollowEvent) : Option Following :=
  match s.bring hashes event with
  | some (arrival, t) => if t.Tells arrival then some (t.arrive arrival) else none
  | none => none

theorem performRecognizing_step (h : performRecognizing hashes s event = some t) :
    Step hashes s event t ∧ s.Recognizes hashes event := by
  rw [performRecognizing] at h
  cases hbring : s.bring hashes event with
  | none => simp [hbring] at h
  | some prepared =>
    simp only [hbring] at h
    split_ifs at h with htells
    refine ⟨by simp [Step, perform, hbring, Option.some.inj h], fun arrival u hother => ?_⟩
    rw [hbring] at hother
    rw [Option.some.inj hother] at htells
    exact htells

theorem heard_closing_followed :
    ∃ s : Following, ReachableRecognizing plainHashes s ∧ s.IsOpen 2 ∧
      s.provider.shown = some 2 ∧ s.AdoptsOpenRooms := by
  have hchecked : (hearClosing.foldlM (performRecognizing plainHashes) startedClient).any (fun s =>
      decide (s.IsOpen 2) && decide (2 ∈ s.received)) = true := by decide +kernel
  cases hrun : hearClosing.foldlM (performRecognizing plainHashes) startedClient with
  | none => simp [hrun] at hchecked
  | some s =>
  simp only [hrun, Option.any_some, Bool.and_eq_true, decide_eq_true_eq] at hchecked
  obtain ⟨hopen, hreceived⟩ := hchecked
  have hreachable : ReachableRecognizing plainHashes s :=
    (Transition.Reachable.start startedClient_init).run
      ((Transition.Run.of_option hrun).mono fun _ _ _ => performRecognizing_step)
  obtain ⟨hfollows, hadopts⟩ := (follows_open_room plainHashes).1 s hreachable
  exact ⟨s, hreachable, hopen, hfollows 2 hopen hreceived, hadopts⟩

end Following

end Harmony.ListenTogether
