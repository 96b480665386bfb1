/-
# What receivers see between any two sends

After every single send receivers see an ordered feed whose end is its last entry,
and a revocation that comes before the end is one of a session that ended while the
Room was open. Once an operation has sent everything, receivers see the open Room
as it is, or the end of its feed.
-/

import Harmony.ListenTogether.EventStream

namespace Harmony.ListenTogether

open Service

/-! ### What receivers see at any time -/

/-- What holds of the receivers after every send: `left` says whether the session
ended while the Room was open. -/
structure Heard (session : Option String) (left : Bool) (told : Receivers) : Prop where
  ordered : OrderedFeed told.feed.values
  last : Feed.closed ∉ told.feed.older
  alive : told.feed.alive = false → told.feed.newest = .closed
  revoked : ∀ key, session = some key → key ∈ told.revoked →
    left = true ∨ told.feed.newest = .closed

/-- It holds now and after each of the sends to come. -/
def HeardThroughout (session : Option String) (left : Bool) : Receivers → List Signal → Prop
  | told, [] => Heard session left told
  | told, signal :: rest =>
    Heard session left told ∧ HeardThroughout session left (told.receive signal) rest

section Heard

variable {session : Option String} {left : Bool} {told : Receivers} {signals : List Signal}

theorem HeardThroughout.heard (h : HeardThroughout session left told signals) :
    Heard session left told := by
  cases signals with
  | nil => exact h
  | cons signal rest => exact h.1

theorem Heard.mono {left' : Bool} (h : Heard session left told)
    (hleft : left = true → left' = true) : Heard session left' told where
  ordered := h.ordered
  last := h.last
  alive := h.alive
  revoked key hkey hrevoked := (h.revoked key hkey hrevoked).imp_left hleft

theorem Heard.revoke (h : Heard session left told) {key : String}
    (hkey : session = some key → left = true ∨ told.feed.newest = .closed) :
    Heard session left (told.receive (.revoke key)) where
  ordered := h.ordered
  last := h.last
  alive := h.alive
  revoked key' hsession hmem := by
    rcases List.mem_cons.mp hmem with rfl | hbefore
    · exact hkey hsession
    · exact h.revoked key' hsession hbefore

/-- The revocations come first: whether they leave the receivers in order is
decided before anything is published. -/
theorem HeardThroughout.revokes {keys : List String} (h : Heard session left told)
    (hkeys : ∀ key ∈ keys, session = some key → left = true ∨ told.feed.newest = .closed)
    (hrest : HeardThroughout session left (told.receiveAll (keys.map .revoke)) signals) :
    HeardThroughout session left told (keys.map .revoke ++ signals) := by
  induction keys generalizing told with
  | nil => exact hrest
  | cons key keys ih =>
    refine ⟨h, ih (h.revoke (hkeys key List.mem_cons_self)) ?_ hrest⟩
    intro key' hmem
    exact hkeys key' (List.mem_cons_of_mem _ hmem)

theorem receiveAll_revokes (told : Receivers) (keys : List String) :
    told.receiveAll (keys.map .revoke) =
      { told with revoked := keys.reverse ++ told.revoked } := by
  induction keys generalizing told with
  | nil => rfl
  | cons key keys ih =>
    rw [List.map_cons, Receivers.receiveAll, List.foldl_cons]
    show (told.receive (.revoke key)).receiveAll (keys.map .revoke) = _
    rw [ih]
    simp [Receivers.receive]

theorem receiveAll_append (told : Receivers) (first second : List Signal) :
    told.receiveAll (first ++ second) = (told.receiveAll first).receiveAll second :=
  List.foldl_append ..

end Heard

theorem added_append {α : Type} (new old : List α) : added old (new ++ old) = new.reverse := by
  simp [added]

theorem added_cons {α : Type} (new : α) (old : List α) : added old (new :: old) = [new] :=
  added_append [new] old

@[simp] theorem added_self {α : Type} (old : List α) : added old old = [] := by
  simp [added]

namespace Streaming

/-! ### The receivers and the service -/

/-- What receivers see once everything is sent. -/
structure Settled (s : Streaming) (told : Receivers) : Prop where
  gone : s.room = none → told.feed.newest = .closed
  shown : ∀ room, s.room = some room → told.feed.values = room.channels.feed ∧
    told.feed.alive = true
  out : ∀ room key, s.room = some room → s.session = some key → key ∉ room.guests →
    s.left = true ∧ key ∈ told.revoked
  left : s.left = true → ∃ key, s.session = some key ∧ key ∈ told.revoked

/-- The service, the sends still to come and what receivers see. -/
structure Synced (hashes : Hashes) (s : Streaming) : Prop where
  service : s.service.Reachable hashes
  generation : s.subscription.generation < s.service.nextGeneration
  heard : HeardThroughout s.session s.left s.told s.sending
  settled : s.Settled (s.told.receiveAll s.sending)

variable {hashes : Hashes} {s t : Streaming} {service next : Service}

theorem subscribe_ok {clock : Clock} {client : Client} {subscription : Subscription}
    (h : service.subscribe clock client = (.ok subscription, next)) :
    ∃ room, next.room = some room ∧ room.generation = subscription.generation ∧
      ∀ presence, subscription.presence = some presence → presence.key ∈ room.guests := by
  simp only [subscribe, withRoom] at h
  cases hroom : (service.lock clock.lockedAt).room with
  | none => simp [hroom] at h
  | some room =>
    simp only [hroom] at h
    cases client with
    | owner =>
      simp only [Room.require, Prod.mk.injEq, Except.ok.injEq] at h
      obtain ⟨rfl, rfl⟩ := h
      exact ⟨room, rfl, rfl, by simp⟩
    | guest session =>
      by_cases hguest : (room.guests.lookup session.key).isSome
      · simp only [Room.require, hguest, if_true, Prod.mk.injEq, Except.ok.injEq] at h
        obtain ⟨rfl, rfl⟩ := h
        refine ⟨_, rfl, rfl, ?_⟩
        rintro _ ⟨rfl⟩
        rw [← AList.lookup_isSome, Table.lookup_modify, if_pos rfl, Option.isSome_map]
        exact hguest
      · simp [Room.require, hguest] at h

theorem Init.synced (h : Init hashes s) : s.Synced hashes := by
  obtain ⟨service, clock, client, room, hservice, hsubscribe, hroom, hfeed, halive, hrevoked,
    hsending, hleft, -, -⟩ := h
  have hreachable : s.service.Reachable hashes := by
    refine hservice.run (.cons (e := .subscribe clock client) ?_ (.nil _))
    show some _ = some _
    rw [hsubscribe]
  obtain ⟨room', hroom', hgeneration, hguest⟩ := subscribe_ok hsubscribe
  cases hroom.symm.trans hroom'
  have hfollowed : s.room = some room := roomOf_eq_some.mpr ⟨hroom, hgeneration⟩
  have hopen := hreachable.openRooms
  have hvalues : s.told.feed.newest :: s.told.feed.older = room.channels.feed := hfeed
  refine ⟨hreachable, hgeneration ▸ hopen.generation room hroom, ?_, ?_⟩
  · rw [hsending]
    refine ⟨?_, ?_, by simp [halive], by simp [hrevoked]⟩
    · rw [hfeed]
      exact (hreachable.consistent.room room hroom).ordered
    · intro hclosed
      refine hopen.feed room hroom ?_
      rw [← hvalues]
      exact List.mem_cons_of_mem _ hclosed
  · rw [hsending]
    refine ⟨?_, ?_, ?_, by simp [hleft]⟩
    · intro hnone
      simp [hnone] at hfollowed
    · intro other hother
      cases hfollowed.symm.trans hother
      exact ⟨hfeed, halive⟩
    · intro other key hother hsession hout
      cases hfollowed.symm.trans hother
      obtain ⟨presence, hpresence, rfl⟩ := Option.map_eq_some_iff.mp hsession
      exact absurd (hguest presence hpresence) hout

theorem receive_of_synced {signal : Signal} {rest : List Signal} (h : s.Synced hashes)
    (hsending : s.sending = signal :: rest) :
    { s with told := s.told.receive signal, sending := rest }.Synced hashes where
  service := h.service
  generation := h.generation
  heard := by
    have hheard := h.heard
    rw [hsending] at hheard
    exact hheard.2
  settled := by
    have hsettled := h.settled
    rw [hsending] at hsettled
    exact ⟨hsettled.gone, hsettled.shown, hsettled.out, hsettled.left⟩

theorem Synced.settledNow (h : s.Synced hashes) (hsending : s.sending = []) :
    s.Settled s.told := by
  have hsettled := h.settled
  rwa [hsending] at hsettled

theorem isOut_eq_true : s.isOut = true ↔
    ∃ room key, s.room = some room ∧ s.session = some key ∧ key ∉ room.guests := by
  simp [isOut, Option.any_eq_true]

theorem step_operate {event : ServiceEvent} : Step hashes s (.operate event) t ↔
    s.sending = [] ∧ ∃ next, s.service.perform hashes event = some next ∧ s.operate next = t := by
  cases hsending : s.sending <;> simp [Step, perform, hsending]

theorem step_send : Step hashes s .send t ↔ ∃ signal rest, s.sending = signal :: rest ∧
    { s with told := s.told.receive signal, sending := rest } = t := by
  cases hsending : s.sending <;> simp [Step, perform, hsending]

theorem step_respond : Step hashes s .respond t ↔
    s.body = none ∧ { s with body := some (eventStream s.told s.subscription) } = t := by
  cases hbody : s.body <;> simp [Step, perform, hbody]

theorem left_operate (s : Streaming) (next : Service) :
    (s.operate next).left = true ↔ s.left = true ∨ (s.operate next).isOut = true :=
  Bool.or_eq_true s.left _ ▸ Iff.rfl

theorem signals_open {generation : ℕ} {room room' : Room}
    (hroom : service.roomOf generation = some room) (hroom' : next.roomOf generation = some room') :
    signals generation service next = room.signals room' := by
  simp [signals, hroom, hroom']

theorem signals_close {generation : ℕ} {room : Room} (hroom : service.roomOf generation = some room)
    (hgone : next.roomOf generation = none) :
    signals generation service next = room.closeSignals := by
  simp [signals, hroom, hgone]

/-- An operation while the Room stays open: sessions end, then the new state may be
published. -/
theorem tells_synced {next : Service} {room room' : Room} (h : s.Synced hashes)
    (hsending : s.sending = []) (hnext : next.Reachable hashes)
    (hmono : s.service.nextGeneration ≤ next.nextGeneration) (hroom : s.room = some room)
    (hroom' : next.roomOf s.subscription.generation = some room') (htells : room.Tells room') :
    (s.operate next).Synced hashes := by
  have hsettled := h.settledNow hsending
  have hheard := h.heard.heard
  obtain ⟨hvalues, halive⟩ := hsettled.shown room hroom
  obtain ⟨keys, hrevoked, hgone, hends⟩ := htells.revoked
  have hafter : (s.operate next).room = some room' := hroom'
  have hleft : s.left = true → (s.operate next).left = true :=
    fun h => (left_operate s next).mpr (.inl h)
  have hout : ∀ key, s.session = some key → key ∉ room'.guests →
      (s.operate next).left = true := fun key hkey hnot =>
    (left_operate s next).mpr (.inr (isOut_eq_true.mpr ⟨room', key, hafter, hkey, hnot⟩))
  have hsignals : (s.operate next).sending = room.signals room' := signals_open hroom hroom'
  have hkeys : ∀ key ∈ keys.reverse, s.session = some key →
      (s.operate next).left = true ∨ s.told.feed.newest = .closed := by
    intro key hkey hsession
    exact .inl (hout key hsession (hgone key (List.mem_reverse.mp hkey)))
  -- What receivers see once the sessions have ended.
  let ended : Receivers := { s.told with revoked := keys ++ s.told.revoked }
  have hended : s.told.receiveAll (keys.reverse.map .revoke) = ended := by
    rw [receiveAll_revokes, List.reverse_reverse]
  have hheardEnded : Heard s.session (s.operate next).left ended := by
    have hmono := hheard.mono hleft
    refine ⟨hmono.ordered, hmono.last, hmono.alive, fun key hsession hmem => ?_⟩
    rcases List.mem_append.mp hmem with hnew | hbefore
    · exact hkeys key (List.mem_reverse.mpr hnew) hsession
    · exact hmono.revoked key hsession hbefore
  have hkeepsLeft : (s.operate next).left = true →
      ∃ key, s.session = some key ∧ key ∈ ended.revoked := by
    intro hnow
    rcases (left_operate s next).mp hnow with hbefore | hisOut
    · obtain ⟨key, hsession, hmem⟩ := hsettled.left hbefore
      exact ⟨key, hsession, List.mem_append_right _ hmem⟩
    · obtain ⟨_, key, hother, hsession, hnot⟩ := isOut_eq_true.mp hisOut
      cases hother.symm.trans hafter
      refine ⟨key, hsession, ?_⟩
      by_cases hwas : key ∈ room.guests
      · exact List.mem_append_left _ (hends key hwas hnot)
      · exact List.mem_append_right _ (hsettled.out room key hroom hsession hwas).2
  have houtEnded : ∀ key, s.session = some key → key ∉ room'.guests →
      (s.operate next).left = true ∧ key ∈ ended.revoked := by
    intro key hsession hnot
    refine ⟨hout key hsession hnot, ?_⟩
    obtain ⟨key', hsession', hmem⟩ := hkeepsLeft (hout key hsession hnot)
    cases hsession.symm.trans hsession'
    exact hmem
  have hthrough : ∀ rest, HeardThroughout s.session (s.operate next).left ended rest →
      HeardThroughout s.session (s.operate next).left s.told
        (keys.reverse.map .revoke ++ rest) := by
    intro rest hrest
    exact .revokes (hheard.mono hleft) hkeys (by rw [hended]; exact hrest)
  rcases htells.feed with hsame | hstate
  · have hsends : room.signals room' = keys.reverse.map .revoke ++ [] := by
      rw [Room.signals, hrevoked, added_append, hsame, added_self, List.map_nil]
    refine ⟨hnext, h.generation.trans_le hmono, ?_, ?_⟩
    · rw [hsignals, hsends]
      exact hthrough [] hheardEnded
    · rw [hsignals, hsends, receiveAll_append]
      show (s.operate next).Settled (s.told.receiveAll _)
      rw [hended]
      refine ⟨fun hnone => by simp [hnone] at hafter, ?_, ?_, hkeepsLeft⟩
      · intro other hother
        cases hother.symm.trans hafter
        exact ⟨hvalues.trans hsame.symm, halive⟩
      · intro other key hother hsession hnot
        cases hother.symm.trans hafter
        exact houtEnded key hsession hnot
  · have hsends : room.signals room' =
        keys.reverse.map .revoke ++ [.feed (.state room'.state)] := by
      rw [Room.signals, hrevoked, added_append, hstate, added_cons, List.map_singleton]
    have hopen : Feed.closed ∉ s.told.feed.values := by
      rw [hvalues]
      exact h.service.openRooms.feed room (roomOf_eq_some.mp hroom).1
    have hordered : OrderedFeed (.state room'.state :: s.told.feed.values) := by
      have hconsistent := hnext.consistent.room room' (roomOf_eq_some.mp hroom').1
      have := hconsistent.ordered
      rwa [hstate, ← hvalues] at this
    refine ⟨hnext, h.generation.trans_le hmono, ?_, ?_⟩
    · rw [hsignals, hsends]
      refine hthrough _ ⟨hheardEnded, hordered, hopen, ?_, ?_⟩
      · intro hdropped
        have hdead : s.told.feed.alive = false := hdropped
        simp [hdead] at halive
      · intro key hsession hmem
        rcases hheardEnded.revoked key hsession hmem with hleft | hclosed
        · exact .inl hleft
        · refine absurd ?_ hopen
          rw [← hclosed]
          exact List.mem_cons_self
    · rw [hsignals, hsends, receiveAll_append]
      show (s.operate next).Settled ((s.told.receiveAll _).receiveAll _)
      rw [hended]
      refine ⟨fun hnone => by simp [hnone] at hafter, ?_, ?_, hkeepsLeft⟩
      · intro other hother
        cases hother.symm.trans hafter
        refine ⟨?_, halive⟩
        rw [hstate, ← hvalues]
        rfl
      · intro other key hother hsession hnot
        cases hother.symm.trans hafter
        exact houtEnded key hsession hnot

/-- An operation that closes the Room: the end of the feed comes first. -/
theorem closes_synced {next : Service} {room : Room} (h : s.Synced hashes)
    (hsending : s.sending = []) (hnext : next.Reachable hashes)
    (hmono : s.service.nextGeneration ≤ next.nextGeneration) (hroom : s.room = some room)
    (hgone : next.roomOf s.subscription.generation = none) :
    (s.operate next).Synced hashes := by
  have hsettled := h.settledNow hsending
  have hheard := h.heard.heard
  obtain ⟨hvalues, halive⟩ := hsettled.shown room hroom
  have hafter : (s.operate next).room = none := hgone
  have hleft : (s.operate next).left = true ↔ s.left = true := by
    rw [left_operate, or_iff_left]
    rintro hout
    obtain ⟨_, _, hother, -⟩ := isOut_eq_true.mp hout
    simp [hother] at hafter
  have hopen : Feed.closed ∉ s.told.feed.values := by
    rw [hvalues]
    exact h.service.openRooms.feed room (roomOf_eq_some.mp hroom).1
  have hsignals : (s.operate next).sending = room.closeSignals := signals_close hroom hgone
  let closed := s.told.receive (.feed .closed)
  let ended : Receivers :=
    { closed with revoked := room.guests.keys.reverse ++ closed.revoked }
  have hended : closed.receiveAll (room.guests.keys.map .revoke) = ended :=
    receiveAll_revokes closed room.guests.keys
  have hheardAll : ∀ told : Receivers, told.feed.values = .closed :: s.told.feed.values →
      Heard s.session (s.operate next).left told := by
    intro told hfeed
    obtain ⟨hnewest, holder⟩ := List.cons.inj hfeed
    refine ⟨?_, holder ▸ hopen, fun _ => hnewest, fun _ _ _ => .inr hnewest⟩
    rw [hfeed]
    exact hheard.ordered.closed
  refine ⟨hnext, h.generation.trans_le hmono, ?_, ?_⟩
  · rw [hsignals, Room.closeSignals]
    refine ⟨hheard.mono hleft.mpr, .revokes (hheardAll closed rfl) (fun _ _ _ => .inr rfl) ?_⟩
    show HeardThroughout s.session _ (closed.receiveAll _) [.drop]
    rw [hended]
    exact ⟨hheardAll ended rfl, hheardAll (ended.receive .drop) rfl⟩
  · rw [hsignals, Room.closeSignals]
    show (s.operate next).Settled (closed.receiveAll _)
    rw [receiveAll_append, hended]
    refine ⟨fun _ => rfl, fun _ hother => ?_, fun _ _ hother => ?_, fun hnow => ?_⟩
    · simp [hother] at hafter
    · simp [hother] at hafter
    · obtain ⟨key, hsession, hmem⟩ := hsettled.left (hleft.mp hnow)
      exact ⟨key, hsession, List.mem_append_right _ hmem⟩

theorem operate_synced {next : Service} {event : ServiceEvent} (h : s.Synced hashes)
    (hsending : s.sending = []) (hperform : s.service.perform hashes event = some next) :
    (s.operate next).Synced hashes := by
  have hnext : next.Reachable hashes := h.service.run (.cons hperform (.nil _))
  obtain ⟨hmono, hfollows⟩ := step_follows hperform h.generation
  cases hroom : s.room with
  | some room =>
    rcases hfollows with hgone | ⟨before, room', hbefore, hroom', htells⟩
    · exact closes_synced h hsending hnext hmono hroom hgone
    · cases hroom.symm.trans hbefore
      exact tells_synced h hsending hnext hmono hroom hroom' htells
  | none =>
    have hgone : next.roomOf s.subscription.generation = none := by
      rcases hfollows with hgone | ⟨before, _, hbefore, -⟩
      · exact hgone
      · have hnone : s.service.roomOf s.subscription.generation = none := hroom
        simp [hnone] at hbefore
    have hafter : (s.operate next).room = none := hgone
    have hsignals : (s.operate next).sending = [] := by
      show signals _ _ _ = _
      have hnone : s.service.roomOf s.subscription.generation = none := hroom
      simp [signals, hnone]
    have hleft : (s.operate next).left = true ↔ s.left = true := by
      rw [left_operate, or_iff_left]
      rintro hout
      obtain ⟨_, _, hother, -⟩ := isOut_eq_true.mp hout
      simp [hother] at hafter
    have hsettled := h.settledNow hsending
    refine ⟨hnext, h.generation.trans_le hmono, ?_, ?_⟩
    · rw [hsignals]
      exact h.heard.heard.mono hleft.mpr
    · rw [hsignals]
      refine ⟨fun _ => hsettled.gone hroom, fun _ hother => ?_, fun _ _ hother => ?_,
        fun hnow => hsettled.left (hleft.mp hnow)⟩
      · simp [hother] at hafter
      · simp [hother] at hafter

theorem Synced.step {event : StreamEvent} (h : s.Synced hashes) (hstep : Step hashes s event t) :
    t.Synced hashes := by
  cases event with
  | operate event =>
    obtain ⟨hsending, next, hperform, rfl⟩ := step_operate.mp hstep
    exact operate_synced h hsending hperform
  | send =>
    obtain ⟨signal, rest, hsending, rfl⟩ := step_send.mp hstep
    exact receive_of_synced h hsending
  | respond =>
    obtain ⟨-, rfl⟩ := step_respond.mp hstep
    exact ⟨h.service, h.generation, h.heard,
      ⟨h.settled.gone, h.settled.shown, h.settled.out, h.settled.left⟩⟩
  | poll keepAliveDue =>
    obtain ⟨body, -, rfl⟩ := Option.map_eq_some_iff.mp hstep
    split <;> exact ⟨h.service, h.generation, h.heard,
      ⟨h.settled.gone, h.settled.shown, h.settled.out, h.settled.left⟩⟩

end Streaming

end Harmony.ListenTogether
