/-
# The event stream is ordered and ends as its Room or session does

What the stream has produced follows the feed up to the version it saw last: that is
the invariant beside the one of the receivers. From it follow what a poll may emit
in each state, and what a whole run has emitted at its end.
-/

import Harmony.ListenTogether.StreamOrder

namespace Harmony.ListenTogether

open Service

variable {event : StreamEvent} {events : List StreamEvent} {state : RoomState} {body : Body}

namespace Streaming

variable {hashes : Hashes} {s t : Streaming}

theorem Init.frames (h : Init hashes s) : s.body = none ∧ s.frames = [] := by
  obtain ⟨_, _, _, _, -, -, -, -, -, -, -, -, hbody, hframes⟩ := h
  exact ⟨hbody, hframes⟩

/-! ### What one step does to the stream -/

/-- What a step that does not poll does: receivers see more, of the same order. -/
structure HearsMore (s t : Streaming) : Prop where
  subscription : t.subscription = s.subscription
  left : s.left = true → t.left = true
  version : s.told.feed.version ≤ t.told.feed.version
  valueAt : ∀ seen ≤ s.told.feed.version, t.told.feed.valueAt seen = s.told.feed.valueAt seen
  closed : s.Closed → t.Closed
  revoked : s.Revoked → t.Revoked

theorem HearsMore.ofTold (hsubscription : t.subscription = s.subscription)
    (hleft : s.left = true → t.left = true) (htold : t.told = s.told) : HearsMore s t where
  subscription := hsubscription
  left := hleft
  version := by rw [htold]
  valueAt seen _ := by rw [htold]
  closed := by simp only [Closed, htold]; exact id
  revoked := by simp only [Revoked, session, htold, hsubscription]; exact id

/-- Nothing is sent on a feed after its end. -/
theorem receive_hearsMore {signal : Signal} {rest : List Signal} (h : s.Synced hashes)
    (hsending : s.sending = signal :: rest) :
    HearsMore s { s with told := s.told.receive signal, sending := rest } := by
  have hafter := (receive_of_synced h hsending).heard.heard
  cases signal with
  | feed entry =>
    refine ⟨rfl, id, Nat.le_succ _,
      fun seen hseen => Watch.Channel.valueAt_send entry hseen, ?_, id⟩
    intro hclosed
    refine absurd ?_ hafter.last
    show Feed.closed ∈ s.told.feed.newest :: s.told.feed.older
    rw [show s.told.feed.newest = .closed from hclosed]
    exact List.mem_cons_self
  | revoke key =>
    refine ⟨rfl, id, le_rfl, fun _ _ => rfl, id, ?_⟩
    rintro ⟨key', hsession, hmem⟩
    exact ⟨key', hsession, List.mem_cons_of_mem _ hmem⟩
  | drop => exact ⟨rfl, id, le_rfl, fun _ _ => rfl, id, id⟩

theorem step_hearsMore (h : s.Synced hashes) (hstep : Step hashes s event t) : HearsMore s t := by
  cases event with
  | operate event =>
    obtain ⟨-, next, -, rfl⟩ := step_operate.mp hstep
    exact .ofTold rfl (fun hleft => (left_operate s next).mpr (.inl hleft)) rfl
  | send =>
    obtain ⟨signal, rest, hsending, rfl⟩ := step_send.mp hstep
    exact receive_hearsMore h hsending
  | respond =>
    obtain ⟨-, rfl⟩ := step_respond.mp hstep
    exact .ofTold rfl id rfl
  | poll keepAliveDue =>
    obtain ⟨body, -, rfl⟩ := Option.map_eq_some_iff.mp hstep
    split <;> exact .ofTold rfl id rfl

/-! ### What the stream has produced -/

/-- The frames so far, the pending initial one included. -/
def produced (s : Streaming) (body : Body) : List Frame := body.first.toList ++ s.frames

/-- The stream goes on: its last snapshot is that of the version it saw. -/
structure Going (s : Streaming) (body : Body) (stream : EventStream) : Prop where
  inviteUrl : stream.inviteUrl = s.subscription.inviteUrl
  session : stream.revoked = s.session
  seen : stream.seen ≤ s.told.feed.version
  last : ∃ state, s.told.feed.valueAt stream.seen = some (.state state) ∧
    ((s.produced body).filterMap Frame.revision).head? = some state.revision ∧
    ((s.produced body).filterMap Frame.data).head? =
      some (frameData state s.subscription.inviteUrl)
  unclosed : .roomClosed ∉ s.produced body

/-- The stream is over: the Room was closed, or the session ended on its own. -/
structure Over (s : Streaming) (body : Body) : Prop where
  cause : ((s.produced body).count .roomClosed = 1 ∧ s.Closed) ∨
    (body.first = none ∧ .roomClosed ∉ s.produced body ∧ s.Revoked ∧ s.left = true)

structure Emits (s : Streaming) (body : Body) : Prop where
  first : body.first.isSome → s.frames = []
  revisions : ((s.produced body).filterMap Frame.revision).Pairwise (· > ·)
  going : ∀ stream, body.later = some stream → s.Going body stream
  ended : body.later = none → s.Over body

theorem Emits.hearsMore (h : s.Emits body) (hmore : HearsMore s t) (hframes : t.frames = s.frames) :
    t.Emits body := by
  have hproduced : t.produced body = s.produced body := by rw [produced, produced, hframes]
  refine ⟨fun hfirst => hframes.trans (h.first hfirst),
    by rw [hproduced]; exact h.revisions, ?_, ?_⟩
  · intro stream hlater
    obtain ⟨hinvite, hsession, hseen, ⟨state, hvalue, hrevision, hdata⟩, hopen⟩ :=
      h.going stream hlater
    refine ⟨?_, ?_, hseen.trans hmore.version, ⟨state, ?_, ?_, ?_⟩, hproduced ▸ hopen⟩
    · rw [hmore.subscription]
      exact hinvite
    · rw [hsession, Streaming.session, Streaming.session, hmore.subscription]
    · rw [hmore.valueAt _ hseen]
      exact hvalue
    · rw [hproduced]
      exact hrevision
    · rw [hproduced, hmore.subscription]
      exact hdata
  · intro hlater
    constructor
    rw [hproduced]
    rcases (h.ended hlater).cause with ⟨hcount, hclosed⟩ | ⟨hfirst, hopen, hrevoked, hleft⟩
    · exact .inl ⟨hcount, hmore.closed hclosed⟩
    · exact .inr ⟨hfirst, hopen, hmore.revoked hrevoked, hmore.left hleft⟩

/-- The response starts with the state of the moment it is built at. -/
theorem emits_eventStream (hframes : s.frames = []) :
    { s with body := some (eventStream s.told s.subscription) }.Emits
      (eventStream s.told s.subscription) := by
  cases hnewest : s.told.feed.newest with
  | closed =>
    have hbody : eventStream s.told s.subscription = ⟨some .roomClosed, none⟩ := by
      simp [eventStream, frame, hnewest]
    rw [hbody]
    refine ⟨fun _ => hframes, ?_, fun _ hlater => by simp at hlater, fun _ => ⟨.inl ⟨?_, hnewest⟩⟩⟩
    · simp [produced, hframes, Frame.revision, List.filterMap_cons]
    · simp [produced, hframes]
  | state state =>
    let stream : EventStream := ⟨s.subscription.inviteUrl, s.told.feed.version, s.session⟩
    let first : Frame := .roomState state.revision (frameData state s.subscription.inviteUrl)
    have hbody : eventStream s.told s.subscription = ⟨some first, some stream⟩ := by
      simp [eventStream, frame, hnewest, first, stream, session]
    rw [hbody]
    refine ⟨fun _ => hframes, ?_, fun other hlater => ?_, fun hlater => by simp at hlater⟩
    · simp [produced, hframes, first, Frame.revision]
    · cases hlater
      refine ⟨rfl, rfl, le_rfl, ⟨state, ?_, ?_, ?_⟩, ?_⟩
      · rw [← hnewest]
        exact Watch.Channel.valueAt_version _
      · simp [produced, hframes, first, Frame.revision]
      · simp [produced, hframes, first, Frame.data]
      · simp [produced, hframes, first]

section Next

variable {body : Body} {stream : EventStream}

theorem Going.sessionEnded (h : s.Going body stream) :
    stream.sessionEnded s.told = true ↔ s.Revoked := by
  rw [EventStream.sessionEnded, h.session]
  simp [Revoked, Option.any_eq_true]

/-- The end of the Room is announced, whether the stream was woken by it or by the
end of its session. -/
theorem Going.next_closed (h : s.Going body stream) (hclosed : s.Closed) (keepAliveDue : Bool) :
    (stream.next s.told keepAliveDue).1 = .ready (some (.roomClosed, true)) := by
  have hnewest : s.told.feed.newest = .closed := hclosed
  rw [EventStream.next]
  by_cases hended : stream.sessionEnded s.told = true
  · simp [hended, hnewest, frame]
  · have hseen : stream.seen ≠ s.told.feed.version := by
      intro hsame
      obtain ⟨state, hvalue, -⟩ := h.last
      rw [hsame, Watch.Channel.valueAt_version, hnewest] at hvalue
      simp at hvalue
    simp [hended, Watch.Channel.changed, hseen, hnewest, frame]

/-- A snapshot that waits loses to the end of the session. -/
theorem Going.next_revoked (h : s.Going body stream) (hrevoked : s.Revoked) (hclosed : ¬ s.Closed)
    (keepAliveDue : Bool) : stream.next s.told keepAliveDue = (.ready none, stream) := by
  rw [EventStream.next, if_pos (h.sessionEnded.mpr hrevoked)]
  cases hnewest : s.told.feed.newest with
  | closed => exact absurd hnewest hclosed
  | state state => rfl

theorem Going.next_newer (h : s.Going body stream) (hrevoked : ¬ s.Revoked)
    (hseen : stream.seen ≠ s.told.feed.version) (hnewest : s.told.feed.newest = .state state)
    (keepAliveDue : Bool) :
    stream.next s.told keepAliveDue =
      (.ready (some (.roomState state.revision (frameData state s.subscription.inviteUrl), false)),
        { stream with seen := s.told.feed.version }) := by
  rw [EventStream.next, if_neg (h.sessionEnded.not.mpr hrevoked), h.inviteUrl]
  simp [Watch.Channel.changed, hseen, hnewest, frame]

theorem Going.next_seen (h : s.Going body stream) (hheard : Heard s.session s.left s.told)
    (hrevoked : ¬ s.Revoked) (hclosed : ¬ s.Closed) (hseen : stream.seen = s.told.feed.version)
    (keepAliveDue : Bool) :
    stream.next s.told keepAliveDue =
      (if keepAliveDue then .ready (some (.keepAlive, false)) else .pending, stream) := by
  have halive : s.told.feed.alive = true := by
    by_contra hdead
    exact hclosed (hheard.alive (Bool.eq_false_iff.mpr hdead))
  rw [EventStream.next, if_neg (h.sessionEnded.not.mpr hrevoked)]
  simp only [Watch.Channel.changed, hseen, ne_eq, not_true_eq_false, if_false, halive, if_true]
  cases keepAliveDue <;> rfl

end Next

/-- What a poll may emit, with the body after it. -/
def polled (s : Streaming) (keepAliveDue : Bool) (body : Body) : Streaming :=
  match body.poll s.told keepAliveDue with
  | (.ready (some chunk), body) => { s with body := some body, frames := chunk :: s.frames }
  | (_, body) => { s with body := some body }

theorem step_poll {keepAliveDue : Bool} :
    Step hashes s (.poll keepAliveDue) t ↔
      ∃ body, s.body = some body ∧ t = s.polled keepAliveDue body := by
  simp only [Step, perform, polled, Option.map_eq_some_iff]
  constructor <;> rintro ⟨body, hbody, h⟩ <;> exact ⟨body, hbody, h.symm⟩

theorem polled_first {first : Frame} (h : body.first = some first) (keepAliveDue : Bool) :
    s.polled keepAliveDue body =
      { s with body := some { body with first := none }, frames := first :: s.frames } := by
  simp [polled, Body.poll, h]

theorem polled_ended (h : body.Ended) (keepAliveDue : Bool) :
    s.polled keepAliveDue body = { s with body := some body } := by
  simp [polled, Body.poll, h.1, h.2]

section Polled

variable {body : Body} {stream : EventStream} (hheard : Heard s.session s.left s.told)
  (hfirst : body.first = none) (hlater : body.later = some stream)
include hfirst hlater

theorem polled_of_ready {chunk : Frame} {ended : Bool} {keepAliveDue : Bool}
    (h : (stream.next s.told keepAliveDue).1 = .ready (some (chunk, ended))) :
    s.polled keepAliveDue body =
      { s with
        body := some ⟨none, if ended then none else some (stream.next s.told keepAliveDue).2⟩
        frames := chunk :: s.frames } := by
  simp only [polled, Body.poll, hfirst, hlater]
  rw [show stream.next s.told keepAliveDue =
    (.ready (some (chunk, ended)), (stream.next s.told keepAliveDue).2) from Prod.ext h rfl]

theorem polled_closed (hgoing : s.Going body stream) (hclosed : s.Closed) (keepAliveDue : Bool) :
    s.polled keepAliveDue body =
      { s with body := some ⟨none, none⟩, frames := .roomClosed :: s.frames } := by
  rw [polled_of_ready hfirst hlater (hgoing.next_closed hclosed keepAliveDue)]
  rfl

theorem polled_revoked (hgoing : s.Going body stream) (hrevoked : s.Revoked)
    (hclosed : ¬ s.Closed) (keepAliveDue : Bool) :
    s.polled keepAliveDue body = { s with body := some ⟨none, none⟩ } := by
  simp only [polled, Body.poll, hfirst, hlater, hgoing.next_revoked hrevoked hclosed]

theorem polled_newer (hgoing : s.Going body stream) (hrevoked : ¬ s.Revoked)
    (hseen : stream.seen ≠ s.told.feed.version) (hnewest : s.told.feed.newest = .state state)
    (keepAliveDue : Bool) :
    s.polled keepAliveDue body =
      { s with
        body := some ⟨none, some { stream with seen := s.told.feed.version }⟩
        frames := .roomState state.revision (frameData state s.subscription.inviteUrl) ::
          s.frames } := by
  simp only [polled, Body.poll, hfirst, hlater, hgoing.next_newer hrevoked hseen hnewest]
  rfl

include hheard in
theorem polled_seen (hgoing : s.Going body stream) (hrevoked : ¬ s.Revoked) (hclosed : ¬ s.Closed)
    (hseen : stream.seen = s.told.feed.version) (keepAliveDue : Bool) :
    s.polled keepAliveDue body =
      { s with
        body := some ⟨none, some stream⟩
        frames := if keepAliveDue then .keepAlive :: s.frames else s.frames } := by
  simp only [polled, Body.poll, hfirst, hlater,
    hgoing.next_seen hheard hrevoked hclosed hseen keepAliveDue]
  cases keepAliveDue <;> rfl

end Polled

/-- A poll keeps what the stream has produced in order. By what is found: the initial
frame waits, the body is over, the Room has closed, the session has ended, a newer
snapshot is there, or nothing is. -/
theorem Emits.polled (h : s.Emits body) (hheard : Heard s.session s.left s.told)
    (hbody : s.body = some body) (keepAliveDue : Bool) :
    ∃ body', (s.polled keepAliveDue body).body = some body' ∧
      (s.polled keepAliveDue body).Emits body' := by
  cases hfirst : body.first with
  | some first =>
    -- The initial frame only moves from the body to the frames.
    rw [polled_first hfirst]
    have hproduced : produced { s with
        body := some { body with first := none }, frames := first :: s.frames }
        { body with first := none } = s.produced body := by
      simp [produced, hfirst, h.first (by simp [hfirst])]
    refine ⟨_, rfl, by simp, ?_, fun stream hlater => ?_, fun hlater => ⟨?_⟩⟩
    · rw [hproduced]
      exact h.revisions
    · have hgoing := h.going stream hlater
      refine ⟨hgoing.inviteUrl, hgoing.session, hgoing.seen, ?_, ?_⟩
      · rw [hproduced]
        exact hgoing.last
      · rw [hproduced]
        exact hgoing.unclosed
    · rw [hproduced]
      rcases (h.ended hlater).cause with hannounced | ⟨hnone, -⟩
      · exact .inl hannounced
      · simp [hfirst] at hnone
  | none =>
    have hproduced : s.produced body = s.frames := by simp [produced, hfirst]
    cases hlater : body.later with
    | none =>
      rw [polled_ended ⟨hfirst, hlater⟩, ← hbody]
      exact ⟨body, hbody, h⟩
    | some stream =>
      have hgoing := h.going stream hlater
      have hrevisions := h.revisions
      have hunclosed := hgoing.unclosed
      rw [hproduced] at hrevisions hunclosed
      by_cases hclosed : s.Closed
      · rw [polled_closed hfirst hlater hgoing hclosed]
        refine ⟨_, rfl, by simp, ?_, by simp, fun _ => ⟨.inl ⟨?_, hclosed⟩⟩⟩
        · simpa [produced, Frame.revision, List.filterMap_cons] using hrevisions
        · simp [produced, List.count_eq_zero.mpr hunclosed]
      · by_cases hrevoked : s.Revoked
        · rw [polled_revoked hfirst hlater hgoing hrevoked hclosed]
          refine ⟨_, rfl, by simp, by simpa [produced] using hrevisions, by simp,
            fun _ => ⟨.inr ?_⟩⟩
          obtain ⟨key, hsession, hmem⟩ := hrevoked
          refine ⟨rfl, by simpa [produced] using hunclosed, ⟨key, hsession, hmem⟩, ?_⟩
          exact (hheard.revoked key hsession hmem).resolve_right hclosed
        · obtain ⟨state, hvalue, hrevision, hdata⟩ := hgoing.last
          rw [hproduced] at hrevision hdata
          by_cases hseen : stream.seen = s.told.feed.version
          · rw [polled_seen hheard hfirst hlater hgoing hrevoked hclosed hseen]
            refine ⟨_, rfl, by simp, ?_, ?_, by simp⟩
            · cases keepAliveDue <;>
                simpa [produced, Frame.revision, List.filterMap_cons] using hrevisions
            · rintro _ ⟨rfl⟩
              refine ⟨hgoing.inviteUrl, hgoing.session, hgoing.seen, ⟨state, hvalue, ?_, ?_⟩, ?_⟩
              · cases keepAliveDue <;>
                  simpa [produced, Frame.revision, List.filterMap_cons] using hrevision
              · cases keepAliveDue <;>
                  simpa [produced, Frame.data, List.filterMap_cons] using hdata
              · cases keepAliveDue <;> simpa [produced] using hunclosed
          · cases hnewest : s.told.feed.newest with
            | closed => exact absurd hnewest hclosed
            | state newer =>
              have hlt : state.revision < newer.revision := by
                have hnewer := Watch.Channel.newest_follows hheard.ordered
                  (lt_of_le_of_ne hgoing.seen hseen) hvalue
                rwa [hnewest] at hnewer
              rw [polled_newer hfirst hlater hgoing hrevoked hseen hnewest]
              refine ⟨_, rfl, by simp, ?_, ?_, by simp⟩
              · refine List.Pairwise.cons ?_ (by simpa [produced] using hrevisions)
                -- Greater than the last revision, hence than all.
                intro revision hmem
                have hmem : revision ∈ s.frames.filterMap Frame.revision := hmem
                obtain ⟨rest, hrest⟩ := List.head?_eq_some_iff.mp hrevision
                rw [hrest] at hmem hrevisions
                rcases List.mem_cons.mp hmem with rfl | hmem
                · exact hlt
                · exact ((List.pairwise_cons.mp hrevisions).1 revision hmem).trans hlt
              · rintro _ ⟨rfl⟩
                refine ⟨hgoing.inviteUrl, hgoing.session, le_rfl, ⟨newer, ?_, rfl, rfl⟩, ?_⟩
                · rw [← hnewest]
                  exact Watch.Channel.valueAt_version _
                · simpa [produced] using hunclosed

/-- What holds of every reachable state. -/
structure Sound (hashes : Hashes) (s : Streaming) : Prop where
  synced : s.Synced hashes
  unread : s.body = none → s.frames = []
  emits : ∀ body, s.body = some body → s.Emits body

theorem Sound.step (h : s.Sound hashes) (hstep : Step hashes s event t) :
    t.Sound hashes := by
  have hsynced := h.synced.step hstep
  have hmore := step_hearsMore h.synced hstep
  have hquiet : t.body = s.body → t.frames = s.frames → t.Sound hashes := by
    intro hbody hframes
    refine ⟨hsynced, fun hnone => hframes.trans (h.unread (hbody ▸ hnone)), fun body hsome => ?_⟩
    exact (h.emits body (hbody ▸ hsome)).hearsMore hmore hframes
  cases event with
  | operate event =>
    obtain ⟨-, next, -, rfl⟩ := step_operate.mp hstep
    exact hquiet rfl rfl
  | send =>
    obtain ⟨signal, rest, -, rfl⟩ := step_send.mp hstep
    exact hquiet rfl rfl
  | respond =>
    obtain ⟨hbody, rfl⟩ := step_respond.mp hstep
    refine ⟨hsynced, fun hnone => by simp at hnone, ?_⟩
    rintro _ ⟨rfl⟩
    exact emits_eventStream (h.unread hbody)
  | poll keepAliveDue =>
    obtain ⟨body, hbody, rfl⟩ := step_poll.mp hstep
    obtain ⟨body', hbody', hemits⟩ := (h.emits body hbody).polled h.synced.heard.heard hbody
      keepAliveDue
    refine ⟨hsynced, fun hnone => by simp [hnone] at hbody', fun other hother => ?_⟩
    cases hbody'.symm.trans hother
    exact hemits

theorem Reachable.sound (h : s.Reachable hashes) : s.Sound hashes := by
  refine Transition.Reachable.invariant ?_ (fun _ _ _ hbefore hstep => hbefore.step hstep) h
  intro start hinit
  obtain ⟨hbody, hframes⟩ := hinit.frames
  exact ⟨hinit.synced, fun _ => hframes, fun body hsome => by simp [hbody] at hsome⟩

/-! ### The stream over a whole run -/

def polls (events : List StreamEvent) : ℕ := events.countP StreamEvent.isPoll

/-- A step polls the body, or it produces no frame. -/
theorem step_cases (hstep : Step hashes s event t) :
    (∃ keepAliveDue body, event = .poll keepAliveDue ∧ s.body = some body ∧
      t = s.polled keepAliveDue body) ∨
    event.isPoll = false ∧ t.frames = s.frames ∧ (t.body = s.body ∨
      s.body = none ∧ t.body = some (eventStream s.told s.subscription)) := by
  cases event with
  | operate event =>
    obtain ⟨-, next, -, rfl⟩ := step_operate.mp hstep
    exact .inr ⟨rfl, rfl, .inl rfl⟩
  | send =>
    obtain ⟨signal, rest, -, rfl⟩ := step_send.mp hstep
    exact .inr ⟨rfl, rfl, .inl rfl⟩
  | respond =>
    obtain ⟨hbody, rfl⟩ := step_respond.mp hstep
    exact .inr ⟨rfl, rfl, .inr ⟨hbody, rfl⟩⟩
  | poll keepAliveDue =>
    obtain ⟨body, hbody, rfl⟩ := step_poll.mp hstep
    exact .inl ⟨keepAliveDue, body, rfl, hbody, rfl⟩

/-- How many polls until the body is over, once its Room or session is. -/
def remaining (s : Streaming) : ℕ :=
  match s.body with
  | none => 2
  | some body => body.first.toList.length + body.later.toList.length

theorem remaining_eq_zero (h : s.remaining = 0) : s.Ended := by
  rw [remaining] at h
  cases hbody : s.body with
  | none => simp [hbody] at h
  | some body =>
    simp only [hbody, Nat.add_eq_zero_iff, List.length_eq_zero_iff, Option.toList_eq_nil_iff] at h
    exact ⟨body, hbody, h⟩

theorem remaining_le (s : Streaming) : s.remaining ≤ 2 := by
  rw [remaining]
  cases s.body with
  | none => exact le_rfl
  | some body => cases hfirst : body.first <;> cases hlater : body.later <;> simp [hfirst, hlater]

theorem remaining_poll (hsound : s.Sound hashes) (hbody : s.body = some body)
    (hover : s.Closed ∨ s.Revoked) (keepAliveDue : Bool) :
    (s.polled keepAliveDue body).remaining ≤ s.remaining - 1 := by
  have hremaining : s.remaining = body.first.toList.length + body.later.toList.length := by
    simp [remaining, hbody]
  cases hfirst : body.first with
  | some first =>
    rw [polled_first hfirst, hremaining, hfirst]
    simp [remaining]
  | none =>
    cases hlater : body.later with
    | none =>
      rw [polled_ended ⟨hfirst, hlater⟩]
      simp [remaining, hfirst, hlater]
    | some stream =>
      have hgoing := (hsound.emits body hbody).going stream hlater
      by_cases hclosed : s.Closed
      · rw [polled_closed hfirst hlater hgoing hclosed]
        simp [remaining]
      · rw [polled_revoked hfirst hlater hgoing (hover.resolve_left hclosed) hclosed]
        simp [remaining]

/-- The Room or the session is over. -/
structure Concluding (hashes : Hashes) (s : Streaming) : Prop where
  sound : s.Sound hashes
  ended : s.Closed ∨ s.Revoked

theorem Concluding.step (h : s.Concluding hashes) (hstep : Step hashes s event t) :
    t.Concluding hashes ∧ t.remaining ≤ s.remaining - if event.isPoll then 1 else 0 := by
  have hmore := step_hearsMore h.sound.synced hstep
  refine ⟨⟨h.sound.step hstep, h.ended.imp hmore.closed hmore.revoked⟩, ?_⟩
  rcases step_cases hstep with ⟨keepAliveDue, body, rfl, hbody, rfl⟩ | ⟨hevent, -, hsame⟩
  · exact remaining_poll h.sound hbody h.ended keepAliveDue
  · rw [hevent]
    rcases hsame with hsame | ⟨hnone, -⟩
    · simp [remaining, hsame]
    · have hbound := t.remaining_le
      simpa [remaining, hnone] using hbound

theorem Concluding.run (h : s.Concluding hashes) (hrun : Transition.Run (Step hashes) s events t) :
    t.Concluding hashes ∧ t.remaining ≤ s.remaining - polls events :=
  hrun.countdown (fun _ => True) StreamEvent.isPoll (fun _ _ _ _ h hstep => h.step hstep)
    (fun _ _ => trivial) h

/-- Once the Room or the session is over, two polls read the body to its end. -/
theorem Concluding.ends (h : s.Concluding hashes) (hrun : Transition.Run (Step hashes) s events t)
    (hpolls : 2 ≤ polls events) : t.Ended := by
  obtain ⟨-, hremaining⟩ := h.run hrun
  have hbound := s.remaining_le
  exact remaining_eq_zero (by omega)

/-- A body that is over emits nothing more. -/
theorem Ended.run (h : s.Ended) (hrun : Transition.Run (Step hashes) s events t) :
    t.Ended ∧ t.frames = s.frames := by
  have hstep : ∀ (u : Streaming) (event : StreamEvent) (v : Streaming), True →
      (u.Ended ∧ u.frames = s.frames) → Step hashes u event v →
      (v.Ended ∧ v.frames = s.frames) := by
    rintro u event v - ⟨⟨body, hbody, hended⟩, hframes⟩ hstep
    rcases step_cases hstep with
      ⟨keepAliveDue, other, rfl, hother, rfl⟩ | ⟨-, hsame, hkept | ⟨hnone, -⟩⟩
    · cases hbody.symm.trans hother
      rw [polled_ended hended]
      exact ⟨⟨body, rfl, hended⟩, hframes⟩
    · exact ⟨⟨body, hkept.trans hbody, hended⟩, hsame.trans hframes⟩
    · simp [hbody] at hnone
  exact hrun.preserves (fun _ => True) hstep (fun _ _ => trivial) ⟨h, rfl⟩

/-- After the session was revoked no snapshot follows the initial frame. -/
theorem Sound.laterSnapshots_step (h : s.Sound hashes) (hrevoked : s.Revoked)
    (hstep : Step hashes s event t) :
    t.laterSnapshots = s.laterSnapshots := by
  rcases step_cases hstep with ⟨keepAliveDue, body, rfl, hbody, rfl⟩ | ⟨-, hsame, -⟩
  · cases hfirst : body.first with
    | some first =>
      rw [polled_first hfirst]
      simp [laterSnapshots, (h.emits body hbody).first (by simp [hfirst])]
    | none =>
      cases hlater : body.later with
      | none => rw [polled_ended ⟨hfirst, hlater⟩]; rfl
      | some stream =>
        have hgoing := (h.emits body hbody).going stream hlater
        by_cases hclosed : s.Closed
        · rw [polled_closed hfirst hlater hgoing hclosed]
          cases hframes : s.frames <;>
            simp [laterSnapshots, hframes, Frame.data, List.filterMap_cons]
        · rw [polled_revoked hfirst hlater hgoing hrevoked hclosed]
          rfl
  · rw [laterSnapshots, laterSnapshots, hsame]

theorem Sound.laterSnapshots_run (h : s.Sound hashes) (hrevoked : s.Revoked)
    (hrun : Transition.Run (Step hashes) s events t) :
    t.laterSnapshots = s.laterSnapshots := by
  induction hrun with
  | nil => rfl
  | cons hstep _ ih =>
    rw [ih (h.step hstep) ((step_hearsMore h.synced hstep).revoked hrevoked)]
    exact h.laterSnapshots_step hrevoked hstep

theorem Sound.cause (h : s.Sound hashes) (hrevoked : s.Revoked) : s.left = true ∨ s.Closed := by
  obtain ⟨key, hsession, hmem⟩ := hrevoked
  exact h.synced.heard.heard.revoked key hsession hmem

/-- A `room-closed` frame is the last, and its Room is closed. -/
theorem Sound.announced (h : s.Sound hashes) (hframe : .roomClosed ∈ s.frames) :
    s.frames.count .roomClosed = 1 ∧ s.Ended ∧ s.Closed := by
  cases hbody : s.body with
  | none => simp [h.unread hbody] at hframe
  | some body =>
    have hemits := h.emits body hbody
    have hfirst : body.first = none := by
      by_contra hsome
      have := hemits.first (Option.isSome_iff_ne_none.mpr hsome)
      simp [this] at hframe
    have hproduced : s.produced body = s.frames := by simp [produced, hfirst]
    cases hlater : body.later with
    | some stream => exact absurd hframe (hproduced ▸ (hemits.going stream hlater).unclosed)
    | none =>
      rcases (hemits.ended hlater).cause with ⟨hcount, hclosed⟩ | ⟨-, hunclosed, -⟩
      · exact ⟨hproduced ▸ hcount, ⟨body, hbody, hfirst, hlater⟩, hclosed⟩
      · exact absurd hframe (hproduced ▸ hunclosed)

/-- Why the body is over. -/
theorem Sound.endedCause (h : s.Sound hashes) (hended : s.Ended) :
    (s.frames.count .roomClosed = 1 ∧ s.Closed) ∨
      (.roomClosed ∉ s.frames ∧ s.Revoked ∧ s.left = true) := by
  obtain ⟨body, hbody, hfirst, hlater⟩ := hended
  have hproduced : s.produced body = s.frames := by simp [produced, hfirst]
  rw [← hproduced]
  exact ((h.emits body hbody).ended hlater).cause.imp_right And.right

/-! ### A Room that stays open -/

/-- How far the frames are behind the feed. -/
def lag (s : Streaming) : ℕ :=
  match s.body with
  | none => 2
  | some body => body.first.toList.length +
    match body.later with
    | none => 0
    | some stream => if stream.seen = s.told.feed.version then 0 else 1

theorem lag_le (s : Streaming) : s.lag ≤ 2 := by
  rw [lag]
  cases s.body with
  | none => exact le_rfl
  | some body =>
    have hfirst : body.first.toList.length ≤ 1 := by cases body.first <;> simp
    cases hlater : body.later with
    | none =>
      simp only [hlater]
      omega
    | some stream =>
      simp only [hlater]
      split_ifs <;> omega

/-- Everything is sent, and the newest entry is this state of an open Room whose
Guest, if the stream is a Guest's, is still there. -/
structure Quiet (hashes : Hashes) (state : RoomState) (s : Streaming) : Prop where
  sound : s.Sound hashes
  newest : s.told.feed.newest = .state state
  stays : ¬ s.Revoked

theorem Quiet.notClosed (h : s.Quiet hashes state) : ¬ s.Closed := by
  intro hclosed
  have hnewest : s.told.feed.newest = .closed := hclosed
  simp [h.newest] at hnewest

theorem Quiet.step (hquiet : event.isQuiet = true) (h : s.Quiet hashes state)
    (hstep : Step hashes s event t) :
    t.Quiet hashes state ∧ t.lag ≤ s.lag - if event.isPoll then 1 else 0 := by
  have hsound := h.sound.step hstep
  cases event with
  | operate event => simp [StreamEvent.isQuiet] at hquiet
  | send => simp [StreamEvent.isQuiet] at hquiet
  | respond =>
    obtain ⟨hbody, rfl⟩ := step_respond.mp hstep
    refine ⟨⟨hsound, h.newest, h.stays⟩, ?_⟩
    simp [lag, hbody, eventStream, frame, h.newest, StreamEvent.isPoll]
  | poll keepAliveDue =>
    obtain ⟨body, hbody, rfl⟩ := step_poll.mp hstep
    have hlag : s.lag = body.first.toList.length +
        match body.later with
        | none => 0
        | some stream => if stream.seen = s.told.feed.version then 0 else 1 := by
      simp [lag, hbody]
    have hkept : (s.polled keepAliveDue body).told = s.told ∧
        (s.polled keepAliveDue body).subscription = s.subscription := by
      rw [polled]
      split <;> exact ⟨rfl, rfl⟩
    refine ⟨⟨hsound, hkept.1 ▸ h.newest, ?_⟩, ?_⟩
    · simpa [Revoked, session, hkept] using h.stays
    · cases hfirst : body.first with
      | some first =>
        rw [polled_first hfirst, hlag, hfirst]
        simp [lag, StreamEvent.isPoll]
      | none =>
        cases hlater : body.later with
        | none => simp [polled_ended ⟨hfirst, hlater⟩, lag, hfirst, hlater]
        | some stream =>
          have hgoing := (h.sound.emits body hbody).going stream hlater
          by_cases hseen : stream.seen = s.told.feed.version
          · rw [polled_seen h.sound.synced.heard.heard hfirst hlater hgoing h.stays
              h.notClosed hseen]
            simp [lag, hseen]
          · rw [polled_newer hfirst hlater hgoing h.stays hseen h.newest]
            simp [lag]

/-- When the frames are not behind, the last snapshot emitted is the newest one. -/
theorem Quiet.caughtUp (h : s.Quiet hashes state) (hlag : s.lag = 0) :
    (s.frames.filterMap Frame.data).head? = some (frameData state s.subscription.inviteUrl) := by
  rw [lag] at hlag
  cases hbody : s.body with
  | none => simp [hbody] at hlag
  | some body =>
    simp only [hbody, Nat.add_eq_zero_iff, List.length_eq_zero_iff, Option.toList_eq_nil_iff]
      at hlag
    obtain ⟨hfirst, hseen⟩ := hlag
    have hproduced : s.produced body = s.frames := by simp [produced, hfirst]
    cases hlater : body.later with
    | none =>
      rcases ((h.sound.emits body hbody).ended hlater).cause with
        ⟨-, hclosed⟩ | ⟨-, -, hrevoked, -⟩
      · exact absurd hclosed h.notClosed
      · exact absurd hrevoked h.stays
    | some stream =>
      simp only [hlater] at hseen
      have hsame : stream.seen = s.told.feed.version := by
        by_contra hne
        simp [hne] at hseen
      obtain ⟨last, hvalue, -, hdata⟩ := ((h.sound.emits body hbody).going stream hlater).last
      rw [hsame, Watch.Channel.valueAt_version, h.newest] at hvalue
      obtain rfl := Feed.state.inj (Option.some.inj hvalue)
      rwa [hproduced] at hdata

/-! ### The result -/

/-- What the stream of one subscriber has done and will do. -/
structure Behaves (hashes : Hashes) (s : Streaming) : Prop where
  /-- Newest first, each snapshot has a greater revision than all before it. -/
  revisions : s.revisions.Pairwise (· > ·)
  /-- Once the session was revoked, only the initial frame may still be a snapshot. -/
  revoked : s.Revoked → ∀ events t, Transition.Run (Step hashes) s events t →
    t.laterSnapshots = s.laterSnapshots
  /-- The Room's end is announced at most once, as the last frame, and only then. -/
  announced : .roomClosed ∈ s.frames →
    s.frames.count .roomClosed = 1 ∧ s.Ended ∧ s.Closed
  /-- A closed Room ends the stream with its announcement, unless the stream had ended
  before with a session that left. -/
  closes : s.Closed → ∀ events t, Transition.Run (Step hashes) s events t →
    2 ≤ polls events → t.Ended ∧
      (t.frames.count .roomClosed = 1 ∨ s.Ended ∧ s.left = true ∧ .roomClosed ∉ t.frames)
  /-- A session that ended ends the stream, without an announcement while the Room
  stays open. -/
  leaves : s.Revoked → ∀ events t, Transition.Run (Step hashes) s events t →
    2 ≤ polls events → ¬ t.Closed → t.Ended ∧ .roomClosed ∉ t.frames
  /-- A session that ended while the Room was open is revoked once that is sent, and
  every other revocation follows the Room's end. -/
  left : (s.sending = [] → s.left = true → s.Revoked) ∧
    (s.Revoked → s.left = true ∨ s.Closed)
  /-- Nothing follows the end. -/
  ended : s.Ended → ∀ events t, Transition.Run (Step hashes) s events t →
    t.Ended ∧ t.frames = s.frames
  /-- Polled with nothing else happening, the stream emits the state of a Room that
  stays open. -/
  newest : s.sending = [] → s.left = false → ∀ room, s.room = some room →
    ∀ events t, Transition.Run (Step hashes) s events t →
      (∀ event ∈ events, event.isQuiet = true) → 2 ≤ polls events →
      (t.frames.filterMap Frame.data).head? =
        some (frameData room.state s.subscription.inviteUrl)

theorem Sound.revisions (h : s.Sound hashes) : s.revisions.Pairwise (· > ·) := by
  cases hbody : s.body with
  | none =>
    rw [Streaming.revisions, h.unread hbody]
    exact List.Pairwise.nil
  | some body =>
    have hrevisions := (h.emits body hbody).revisions
    rw [produced, List.filterMap_append] at hrevisions
    exact (List.pairwise_append.mp hrevisions).2.1

/-- A body that ends after the Room has closed ends with the announcement. -/
theorem Sound.announces_step (h : s.Sound hashes) (hclosed : s.Closed)
    (hended : s.Ended → .roomClosed ∈ s.frames) (hstep : Step hashes s event t) :
    t.Ended → .roomClosed ∈ t.frames := by
  rintro ⟨after, hafter, hdone⟩
  rcases step_cases hstep with
    ⟨keepAliveDue, body, rfl, hbody, rfl⟩ | ⟨-, hframes, hsame | ⟨-, hresponse⟩⟩
  · cases hlater : body.later with
    | some stream =>
      cases hfirst : body.first with
      | some first =>
        rw [polled_first hfirst] at hafter
        cases hafter
        simp [Body.Ended, hlater] at hdone
      | none =>
        rw [polled_closed hfirst hlater ((h.emits body hbody).going stream hlater) hclosed]
        exact List.mem_cons_self
    | none =>
      cases hfirst : body.first with
      | some first =>
        rw [polled_first hfirst]
        rcases ((h.emits body hbody).ended hlater).cause with ⟨hcount, -⟩ | ⟨hnone, -⟩
        · have hmem := List.one_le_count_iff.mp hcount.ge
          simpa [produced, hfirst] using hmem
        · simp [hfirst] at hnone
      | none =>
        rw [polled_ended ⟨hfirst, hlater⟩]
        exact hended ⟨body, hbody, hfirst, hlater⟩
  · rw [hframes]
    exact hended ⟨after, hsame ▸ hafter, hdone⟩
  · cases hresponse.symm.trans hafter
    exact absurd hdone.1 (by simp [eventStream])

theorem Sound.closes (h : s.Sound hashes) (hclosed : s.Closed)
    (hrun : Transition.Run (Step hashes) s events t) (hpolls : 2 ≤ polls events) :
    t.Ended ∧
      (t.frames.count .roomClosed = 1 ∨ s.Ended ∧ s.left = true ∧ .roomClosed ∉ t.frames) := by
  have hconcluding : s.Concluding hashes := ⟨h, .inl hclosed⟩
  have hended := hconcluding.ends hrun hpolls
  refine ⟨hended, ?_⟩
  by_cases hbefore : s.Ended
  · obtain ⟨-, hframes⟩ := hbefore.run hrun
    rw [hframes]
    rcases h.endedCause hbefore with ⟨hcount, -⟩ | ⟨hnone, -, hleft⟩
    · exact .inl hcount
    · exact .inr ⟨hbefore, hleft, hnone⟩
  · -- The body ends during the run.
    have hstep : ∀ (u : Streaming) (event : StreamEvent) (v : Streaming), True →
        (u.Sound hashes ∧ u.Closed ∧ (u.Ended → .roomClosed ∈ u.frames)) → Step hashes u event v →
        v.Sound hashes ∧ v.Closed ∧ (v.Ended → .roomClosed ∈ v.frames) := by
      rintro u event v - ⟨hsound, hclosed, hannounced⟩ hstep
      exact ⟨hsound.step hstep, (step_hearsMore hsound.synced hstep).closed hclosed,
        hsound.announces_step hclosed hannounced hstep⟩
    obtain ⟨hsound, -, hannounced⟩ := hrun.preserves (fun _ => True) hstep (fun _ _ => trivial)
      ⟨h, hclosed, fun hended => absurd hended hbefore⟩
    exact .inl (hsound.announced (hannounced hended)).1

/-- Whatever operations run on the service, whatever they send between two polls, and
whenever the subscriber polls: the stream is ordered, ends as its Room or its session
does, and catches up. -/
theorem reachable_behaves (h : s.Reachable hashes) : s.Behaves hashes := by
  have hsound := h.sound
  refine ⟨hsound.revisions, fun hrevoked _ _ hrun => hsound.laterSnapshots_run hrevoked hrun,
    hsound.announced, fun hclosed _ _ hrun hpolls => hsound.closes hclosed hrun hpolls, ?_,
    ⟨?_, hsound.cause⟩, fun hended _ _ hrun => hended.run hrun, ?_⟩
  · intro hrevoked events t hrun hpolls hopen
    have hconcluding : s.Concluding hashes := ⟨hsound, .inr hrevoked⟩
    refine ⟨hconcluding.ends hrun hpolls, fun hframe => hopen ?_⟩
    exact ((hconcluding.run hrun).1.sound.announced hframe).2.2
  · intro hsending hleft
    exact (hsound.synced.settledNow hsending).left hleft
  · intro hsending hleft room hroom events t hrun hquiet hpolls
    have hsettled := hsound.synced.settledNow hsending
    have hconsistent := hsound.synced.service.consistent.room room (roomOf_eq_some.mp hroom).1
    obtain ⟨older, holder⟩ := hconsistent.newest
    have hnewest : s.told.feed.newest = .state room.state := by
      have hvalues := (hsettled.shown room hroom).1
      rw [holder] at hvalues
      exact (List.cons.inj hvalues).1
    have hstart : s.Quiet hashes room.state := by
      refine ⟨hsound, hnewest, fun hrevoked => ?_⟩
      rcases hsound.cause hrevoked with hgone | hclosed
      · simp [hleft] at hgone
      · have hnow : s.told.feed.newest = .closed := hclosed
        simp [hnewest] at hnow
    have hstep : ∀ (u : Streaming) (event : StreamEvent) (v : Streaming), event.isQuiet = true →
        (u.Quiet hashes room.state ∧ u.subscription = s.subscription) → Step hashes u event v →
        (v.Quiet hashes room.state ∧ v.subscription = s.subscription) ∧
          v.lag ≤ u.lag - if event.isPoll then 1 else 0 := by
      rintro u event v hevent ⟨hu, hsame⟩ hstep
      obtain ⟨hv, hlag⟩ := hu.step hevent hstep
      exact ⟨⟨hv, (step_hearsMore hu.sound.synced hstep).subscription.trans hsame⟩, hlag⟩
    obtain ⟨⟨hend, hsame⟩, hlag⟩ := hrun.countdown (fun event => event.isQuiet = true)
      StreamEvent.isPoll hstep hquiet ⟨hstart, rfl⟩
    rw [← hsame]
    refine hend.caughtUp ?_
    have hbound := s.lag_le
    simp only [polls] at hpolls
    omega

/-- A Guest has subscribed to the Room of `joinedService`. -/
def subscribedStreaming : Streaming where
  service := (joinedService.subscribe (clockAt 3) (.guest ⟨"session"⟩)).2
  subscription := ⟨1, none, some ⟨1, "session"⟩⟩
  told := ⟨⟨.state (RoomState.new 8 "2026-10-31T00:00:00Z" 1 |>.setGuestCount 1),
    [.state (RoomState.new 8 "2026-10-31T00:00:00Z" 1)], true⟩, []⟩
  sending := []
  left := false
  body := none
  frames := []

theorem subscribedStreaming_init : Init plainHashes subscribedStreaming :=
  ⟨joinedService, clockAt 3, .guest ⟨"session"⟩, _, joinedService_reachable, rfl, rfl, rfl, rfl,
    rfl, rfl, rfl, rfl, rfl⟩

/-- The Room is closed, and the Guest polls between the end of the feed and the end of
their session. -/
theorem closing_behaves : ∃ s : Streaming, s.Reachable plainHashes ∧ ¬ s.Revoked ∧
    .roomClosed ∈ s.frames ∧ s.frames.count .roomClosed = 1 ∧ s.Ended := by
  obtain ⟨s, hrun, hframe, hrevoked⟩ :
    ∃ s : Streaming, Transition.Run (Step plainHashes) subscribedStreaming
      [.respond, .poll false, .operate (.close (clockAt 4)), .send, .poll false] s ∧
      .roomClosed ∈ s.frames ∧ s.told.revoked = [] :=
    ⟨_, .cons rfl (.cons rfl (.cons rfl (.cons rfl (.cons rfl (.nil _))))), List.mem_cons_self, rfl⟩
  have hreachable : s.Reachable plainHashes :=
    (Transition.Reachable.start subscribedStreaming_init).run hrun
  obtain ⟨hcount, hended, -⟩ := (reachable_behaves hreachable).announced hframe
  refine ⟨s, hreachable, ?_, hframe, hcount, hended⟩
  rintro ⟨key, -, hmem⟩
  simp [hrevoked] at hmem

end Streaming

end Harmony.ListenTogether
