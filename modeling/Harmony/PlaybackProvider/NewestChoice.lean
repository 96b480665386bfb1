/-
# The newest choice wins

Every choice raises the counter, but only an External Track compares it after its
resolve. A Track that waits for a write of the Queue or for the engine's context goes on
whatever was chosen meanwhile. As long as no older call is let go on to its Track once
the newest choice has reached the engine, nor to a new intent while the newest choice
resolves an External Track, the engine ends with what the newest choice selected.
-/

import Harmony.PlaybackProvider.Provider
import Harmony.Library.Transition
import Mathlib.Data.List.Nodup
import Mathlib.Data.List.Perm.Basic

namespace Harmony.PlaybackProvider

open Transition

/-- The answer lets the call go on to `playQueueItemInternal`. -/
def Stage.plays : Stage → QueueAnswer → Bool
  | .writing _ _ .reread _, _ => false
  | .writing trackId (.replace _) _ _, .queue items => items.any (·.track.id = trackId)
  | .writing trackId .append _ _, .queue items =>
    items.any fun entry => entry.track.id = trackId ∨ entry.trackId = trackId
  | _, _ => false

/-- Whatever the stage still tells the engine is what was wanted. -/
def Stage.LeadsTo (host : Host) (wanted : Option Wanted) : Stage → Prop
  | .writing trackId _ _ _ => wanted = some (.track trackId)
  | .syncing item => ∃ w, wanted = some w ∧ w.isMet host (.play (host.trackSource item))
  | .resolving track _ => wanted = some (.external track)

namespace Provider

variable {host : Host} {p p' : Provider} {activeQueue : List QueueItem} {items : List QueueItem}
  {trackId : String} {call : Call} {order : ℕ} {choice : ℕ} {started : Provider} {item : QueueItem}

/-- The newest choice has reached the engine. -/
def reached (p : Provider) : Bool :=
  p.told.any (·.choice = p.choices)

/-- The newest choice is an External Track that is being resolved. -/
def resolving (p : Provider) : Bool :=
  p.calls.any fun call => call.choice = p.choices && call.stage matches .resolving ..

/-- No call of an older choice is let go on to a command once the newest choice has
reached the engine, nor to a new intent while the newest choice is being resolved. -/
def Undisturbed (host : Host) (p : Provider) : Event → Prop
  | .answered index answer => ∀ call, p.calls[index]? = some call → call.choice ≠ p.choices →
    call.stage.plays answer = true →
      p.resolving = false ∧ (p.reached = true → host.syncsQueueContext = true)
  | .synced index true => ∀ call, p.calls[index]? = some call → call.choice ≠ p.choices →
    p.reached = false
  | _ => True

def UndisturbedStep (host : Host) (p : Provider) (event : Event) (p' : Provider) : Prop :=
  Step host p event p' ∧ p.Undisturbed host event

/-- The engine was last given what the newest choice selected. -/
def Fulfilled (host : Host) (p : Provider) : Prop :=
  ∃ given wanted, p.told.head? = some given ∧ given.choice = p.choices ∧
    p.wanted = some wanted ∧ wanted.isMet host given.command

/-- What a step should do: it gives the engine at most one command, and one for an older
choice only before the newest has reached it; once nothing is in flight, the engine has
what the newest choice selected. -/
structure Obeys (host : Host) (p p' : Provider) : Prop where
  tells : p'.told = p.told ∨ ∃ given, p'.told = given :: p.told ∧
    (given.choice = p'.choices ∨ ∀ earlier ∈ p.told, earlier.choice ≠ p'.choices)
  settles : p'.calls = [] → p'.choices ≠ 0 → p'.failed = false → p'.Fulfilled host

/-! ### The invariant -/

/-- Where the newest choice stands, while the function of `running` runs. -/
structure Following (host : Host) (running : Option ℕ) (p : Provider) : Prop where
  calls : ∀ call ∈ p.calls, call.choice ≤ p.choices ∧ running ≠ some call.choice
  nodup : (p.calls.map (·.choice)).Nodup
  told : ∀ given ∈ p.told, given.choice ≤ p.choices
  /-- The newest choice has not reached the engine while it waits. -/
  waits : ∀ call ∈ p.calls, call.choice = p.choices →
    p.reached = false ∧ call.stage.LeadsTo host p.wanted
  runs : running = some p.choices → p.reached = false
  /-- Only the newest choice resolves under the current intent. -/
  resolves : ∀ call ∈ p.calls, ∀ track intent, call.stage = .resolving track intent →
    intent ≤ p.playbackIntent ∧ (call.choice = p.choices ↔ intent = p.playbackIntent)
  reaches : p.reached = true → p.Fulfilled host
  /-- The newest choice runs, waits, has failed or has reached the engine. -/
  stands : running = some p.choices ∨ (∃ call ∈ p.calls, call.choice = p.choices) ∨
    p.failed = true ∨ p.reached = true ∨ p.choices = 0

theorem Following.new : Following host none new where
  calls := by simp [Provider.new]
  nodup := List.nodup_nil
  told := by simp [Provider.new]
  waits := by simp [Provider.new]
  runs := by simp
  resolves := by simp [Provider.new]
  reaches := by simp [Provider.new, reached]
  stands := by simp [Provider.new]

/-! ### What the provider's functions keep -/

section Functions

variable {running : Option ℕ} {choice : ℕ}

/-- What no part of the invariant reads may change. -/
theorem Following.frame (h : p.Following host running) (hcalls : p'.calls = p.calls)
    (htold : p'.told = p.told) (hchoices : p'.choices = p.choices)
    (hwanted : p'.wanted = p.wanted) (hfailed : p'.failed = p.failed)
    (hintent : p'.playbackIntent = p.playbackIntent) : p'.Following host running := by
  have hreached : p'.reached = p.reached := by
    rw [reached, reached, htold, hchoices]
  have hfulfilled : p'.Fulfilled host ↔ p.Fulfilled host := by
    rw [Fulfilled, Fulfilled, htold, hchoices, hwanted]
  constructor
  · rw [hcalls, hchoices]
    exact h.calls
  · rw [hcalls]
    exact h.nodup
  · rw [htold, hchoices]
    exact h.told
  · rw [hcalls, hchoices, hreached, hwanted]
    exact h.waits
  · rw [hchoices, hreached]
    exact h.runs
  · rw [hcalls, hchoices, hintent]
    exact h.resolves
  · rw [hreached, hfulfilled]
    exact h.reaches
  · rw [hchoices, hcalls, hfailed, hreached]
    exact h.stands

@[simp]
theorem applyQueue_choices :
    (p.applyQueue items order).choices = p.choices := by
  rw [Provider.applyQueue]
  split <;> rfl

@[simp]
theorem applyQueue_wanted :
    (p.applyQueue items order).wanted = p.wanted := by
  rw [Provider.applyQueue]
  split <;> rfl

theorem Following.applyQueue (h : p.Following host running) :
    (p.applyQueue items order).Following host running := by
  rw [Provider.applyQueue]
  split
  · exact h
  · exact h.frame rfl rfl rfl rfl rfl rfl

/-- Another choice is made while nothing runs: its function runs, under a new intent. -/
theorem Following.chosen {wanted : Wanted} (h : p.Following host none) :
    (p.chosen wanted).beginPlaybackIntent.Following host (some (p.choices + 1)) := by
  have hreached : (p.chosen wanted).beginPlaybackIntent.reached = false := by
    rw [reached, List.any_eq_false]
    intro given hgiven
    have hle : given.choice ≤ p.choices := h.told given hgiven
    simp only [decide_eq_true_eq]
    change given.choice ≠ p.choices + 1
    omega
  constructor
  · intro call hcall
    have hle := (h.calls call hcall).1
    refine ⟨?_, ?_⟩
    · change call.choice ≤ p.choices + 1
      omega
    · rw [ne_eq, Option.some.injEq]
      omega
  · exact h.nodup
  · intro given hgiven
    have hle := h.told given hgiven
    change given.choice ≤ p.choices + 1
    omega
  · intro call hcall hnewest
    have hle := (h.calls call hcall).1
    change call.choice = p.choices + 1 at hnewest
    omega
  · intro _
    exact hreached
  · intro call hcall track intent hstage
    have hle := (h.calls call hcall).1
    have hintent := (h.resolves call hcall track intent hstage).1
    change intent ≤ p.playbackIntent + 1 ∧
      (call.choice = p.choices + 1 ↔ intent = p.playbackIntent + 1)
    omega
  · intro htrue
    rw [hreached] at htrue
    cases htrue
  · exact .inl rfl

/-- A new intent is taken where the newest choice is not being resolved. -/
theorem Following.beginPlaybackIntent (h : p.Following host running)
    (hresolving : p.resolving = false) : p.beginPlaybackIntent.Following host running := by
  constructor
  · exact h.calls
  · exact h.nodup
  · exact h.told
  · exact h.waits
  · exact h.runs
  · intro call hcall track intent hstage
    obtain ⟨hle, hiff⟩ := h.resolves call hcall track intent hstage
    have hne : call.choice ≠ p.choices := by
      intro hnewest
      rw [Provider.resolving, List.any_eq_false] at hresolving
      exact hresolving call hcall (by simp [hnewest, hstage])
    change intent ≤ p.playbackIntent + 1 ∧
      (call.choice = p.choices ↔ intent = p.playbackIntent + 1)
    omega
  · exact h.reaches
  · exact h.stands

/-- The call that runs reaches its next `await`. -/
theorem Following.await {stage : Stage} (h : p.Following host (some choice))
    (hchoice : choice ≤ p.choices)
    (hleads : choice = p.choices → stage.LeadsTo host p.wanted)
    (hintent : ∀ track intent, stage = .resolving track intent →
      intent ≤ p.playbackIntent ∧ (choice = p.choices ↔ intent = p.playbackIntent)) :
    (p.await choice stage).Following host none := by
  have hmem : ∀ call ∈ (p.await choice stage).calls,
      call ∈ p.calls ∨ call = ⟨choice, stage⟩ := by
    intro call hcall
    rw [Provider.await, List.mem_append, List.mem_singleton] at hcall
    exact hcall
  constructor
  · intro call hcall
    refine ⟨?_, Option.some_ne_none _ |>.symm⟩
    rcases hmem call hcall with hcall | rfl
    · exact (h.calls call hcall).1
    · exact hchoice
  · rw [Provider.await, List.map_append, List.nodup_append]
    refine ⟨h.nodup, List.nodup_singleton _, ?_⟩
    intro other hother _ hsingle
    obtain ⟨call, hcall, rfl⟩ := List.mem_map.mp hother
    obtain rfl := List.mem_singleton.mp hsingle
    have hne := (h.calls call hcall).2
    rw [ne_eq, Option.some.injEq] at hne
    exact fun heq => hne heq.symm
  · exact h.told
  · intro call hcall hnewest
    rcases hmem call hcall with hcall | rfl
    · exact h.waits call hcall hnewest
    · exact ⟨h.runs (congrArg some hnewest), hleads hnewest⟩
  · intro hrunning
    cases hrunning
  · intro call hcall track intent hstage
    rcases hmem call hcall with hcall | rfl
    · exact h.resolves call hcall track intent hstage
    · exact hintent track intent hstage
  · exact h.reaches
  · refine .inr ?_
    rcases h.stands with hrunning | ⟨call, hcall, hnewest⟩ | hrest
    · refine .inl ⟨⟨choice, stage⟩, ?_, Option.some.inj hrunning⟩
      exact List.mem_append_right _ (List.mem_singleton.mpr rfl)
    · exact .inl ⟨call, List.mem_append_left _ hcall, hnewest⟩
    · exact .inr hrest

/-- The call that runs gives the engine its command and ends. -/
theorem Following.tell {command : EngineCommand} (h : p.Following host (some choice))
    (hchoice : choice ≤ p.choices) (holder : choice ≠ p.choices → p.reached = false)
    (hmet : choice = p.choices → ∃ wanted, p.wanted = some wanted ∧ wanted.isMet host command) :
    (p.tell choice command).Following host none := by
  have hreached : (p.tell choice command).reached = (decide (choice = p.choices) || p.reached) := by
    rw [reached, reached, Provider.tell, List.any_cons]
  have hnot : p.reached = false := by
    by_cases hnewest : choice = p.choices
    · exact h.runs (congrArg some hnewest)
    · exact holder hnewest
  constructor
  · intro call hcall
    exact ⟨(h.calls call hcall).1, Option.some_ne_none _ |>.symm⟩
  · exact h.nodup
  · intro given hgiven
    rcases List.mem_cons.mp hgiven with rfl | hgiven
    · exact hchoice
    · exact h.told given hgiven
  · intro call hcall hnewest
    obtain ⟨-, hleads⟩ := h.waits call hcall hnewest
    have hne : choice ≠ p.choices := by
      intro heq
      refine (h.calls call hcall).2 ?_
      rw [heq, ← show call.choice = p.choices from hnewest]
    rw [hreached, hnot, decide_eq_false hne]
    exact ⟨rfl, hleads⟩
  · intro hrunning
    cases hrunning
  · exact h.resolves
  · intro htrue
    rw [hreached, hnot, Bool.or_false, decide_eq_true_eq] at htrue
    obtain ⟨wanted, hwanted, hisMet⟩ := hmet htrue
    exact ⟨⟨choice, command⟩, wanted, rfl, htrue, hwanted, hisMet⟩
  · refine .inr ?_
    rcases h.stands with hrunning | hwaits | hfailed | htrue | hzero
    · refine .inr (.inr (.inl ?_))
      rw [hreached, decide_eq_true (Option.some.inj hrunning), Bool.true_or]
    · exact .inl hwaits
    · exact .inr (.inl hfailed)
    · rw [hnot] at htrue
      cases htrue
    · exact .inr (.inr (.inr hzero))

/-- The call that runs ends without a command; the newest choice has failed then. -/
theorem Following.giveUp (h : p.Following host (some choice)) :
    (p.giveUp choice).Following host none := by
  constructor
  · intro call hcall
    exact ⟨(h.calls call hcall).1, Option.some_ne_none _ |>.symm⟩
  · exact h.nodup
  · exact h.told
  · exact h.waits
  · intro hrunning
    cases hrunning
  · exact h.resolves
  · exact h.reaches
  · refine .inr ?_
    rcases h.stands with hrunning | hwaits | hfailed | hrest
    · refine .inr (.inl ?_)
      change (p.failed || choice == p.choices) = true
      rw [Option.some.inj hrunning, beq_self_eq_true, Bool.or_true]
    · exact .inl hwaits
    · refine .inr (.inl ?_)
      change (p.failed || choice == p.choices) = true
      rw [hfailed, Bool.true_or]
    · exact .inr (.inr hrest)

/-- The call of an older choice ends with nothing told. -/
theorem Following.drop (h : p.Following host (some choice)) (hne : choice ≠ p.choices) :
    p.Following host none := by
  have hrunning : some choice ≠ some p.choices := fun heq => hne (Option.some.inj heq)
  constructor
  · intro call hcall
    exact ⟨(h.calls call hcall).1, Option.some_ne_none _ |>.symm⟩
  · exact h.nodup
  · exact h.told
  · exact h.waits
  · intro hnone
    cases hnone
  · exact h.resolves
  · exact h.reaches
  · exact .inr (h.stands.resolve_left hrunning)

/-- An older call may go on to its Track. -/
def Clear (host : Host) (p : Provider) (choice : ℕ) : Prop :=
  choice ≠ p.choices →
    p.resolving = false ∧ (p.reached = true → host.syncsQueueContext = true)

theorem Clear.applyQueue (h : p.Clear host choice) :
    (p.applyQueue items order).Clear host choice := by
  rw [Provider.applyQueue]
  split
  · exact h
  · exact h

/-- While the newest choice runs, it is not being resolved. -/
theorem Following.not_resolving (h : p.Following host (some p.choices)) :
    p.resolving = false := by
  rw [Provider.resolving, List.any_eq_false]
  intro call hcall
  have hne : call.choice ≠ p.choices := fun heq => (h.calls call hcall).2 (congrArg some heq.symm)
  simp [hne]

theorem Following.request {write : QueueWrite} {attempt : Attempt}
    (h : p.Following host (some choice)) (hchoice : choice ≤ p.choices)
    (hwanted : choice = p.choices → p.wanted = some (.track trackId)) :
    (p.request choice trackId write attempt).Following host none := by
  have hframe : Following host (some choice)
      { p with nextQueueRequest := p.nextQueueRequest + 1 } :=
    h.frame rfl rfl rfl rfl rfl rfl
  exact hframe.await hchoice hwanted (fun _ _ hstage => nomatch hstage)

/-- From the new intent on, `playQueueItemInternal` goes to the engine. -/
theorem Following.enterItem
    (hbegun : p.beginPlaybackIntent.Following host (some choice)) (hchoice : choice ≤ p.choices)
    (hfound : activeQueue.any (·.id = item.id) = true)
    (hengine : choice ≠ p.choices → p.reached = true → host.syncsQueueContext = true)
    (hmet : choice = p.choices →
      ∃ wanted, p.wanted = some wanted ∧ wanted.isMet host (.play (host.trackSource item))) :
    (p.playQueueItemInternal host choice item activeQueue).Following host none := by
  have hitem : Following host (some choice)
      { p.beginPlaybackIntent with currentQueueItemId := some item.id } :=
    hbegun.frame rfl rfl rfl rfl rfl rfl
  rw [Provider.playQueueItemInternal, if_pos hfound]
  simp only
  split
  · exact hitem.await hchoice hmet (fun _ _ hstage => nomatch hstage)
  next hsyncs =>
    refine hitem.tell hchoice ?_ hmet
    intro hne
    exact Bool.eq_false_iff.mpr fun hreached => hsyncs (hengine hne hreached)

theorem Following.playQueueItemInternal
    (h : p.Following host (some choice)) (hchoice : choice ≤ p.choices)
    (hclear : p.Clear host choice)
    (hmet : choice = p.choices →
      ∃ wanted, p.wanted = some wanted ∧ wanted.isMet host (.play (host.trackSource item))) :
    (p.playQueueItemInternal host choice item activeQueue).Following host none := by
  have hresolving : p.resolving = false := by
    by_cases hnewest : choice = p.choices
    · rw [hnewest] at h
      exact h.not_resolving
    · exact (hclear hnewest).1
  by_cases hfound : activeQueue.any (·.id = item.id) = true
  · exact (h.beginPlaybackIntent hresolving).enterItem hchoice hfound
      (fun hne => (hclear hne).2) hmet
  · rw [Provider.playQueueItemInternal, if_neg hfound]
    exact h.giveUp

theorem Following.playTrackInternal
    (h : p.Following host (some choice)) (hchoice : choice ≤ p.choices)
    (hclear : (activeQueue.any fun entry => entry.track.id = trackId ∨ entry.trackId = trackId) =
      true → p.Clear host choice)
    (hwanted : choice = p.choices → p.wanted = some (.track trackId)) :
    (p.playTrackInternal host choice trackId activeQueue).Following host none := by
  rw [Provider.playTrackInternal]
  split
  next item hfind =>
    have hmatches := List.find?_some hfind
    refine h.playQueueItemInternal hchoice (hclear ?_) ?_
    · exact List.any_eq_true.mpr ⟨item, List.mem_of_find?_eq_some hfind, hmatches⟩
    · intro hnewest
      exact ⟨_, hwanted hnewest, item, of_decide_eq_true hmatches, rfl⟩
  next => exact h.giveUp

theorem Following.playTrackIn {nextQueue : List QueueItem} (h : p.Following host (some choice))
    (hchoice : choice ≤ p.choices)
    (hclear : nextQueue.any (·.track.id = trackId) = true → p.Clear host choice)
    (hwanted : choice = p.choices → p.wanted = some (.track trackId)) :
    (p.playTrackIn host choice trackId nextQueue).Following host none := by
  rw [Provider.playTrackIn]
  split
  next hany => exact h.playTrackInternal hchoice (fun _ => hclear hany) hwanted
  next => exact h.request hchoice hwanted

theorem Following.navigate {direction : Direction} (h : p.Following host none) :
    (p.navigate host direction).Following host none := by
  rw [Provider.navigate]
  split
  · exact h.chosen.tell le_rfl (fun hne => absurd rfl hne) (fun _ => ⟨_, rfl, rfl⟩)
  · split
    · exact h.chosen.playQueueItemInternal le_rfl (fun hne => absurd rfl hne)
        (fun _ => ⟨_, rfl, rfl⟩)
    · exact h.chosen.giveUp

end Functions

/-! ### One step -/

theorem Following.choose {choice : Choice} (h : p.Following host none) :
    (p.choose host choice).Following host none := by
  cases choice with
  | playTrack trackId queueTrackIds =>
    cases queueTrackIds with
    | some trackIds => exact h.chosen.request le_rfl (fun _ => rfl)
    | none => exact h.chosen.playTrackIn le_rfl (fun _ hne => absurd rfl hne) (fun _ => rfl)
  | playQueueIndex index =>
    rw [Provider.choose]
    split
    next item hitem =>
      have hfound : p.queue.any (·.id = item.id) = true :=
        List.any_eq_true.mpr ⟨item, List.mem_of_getElem? hitem, decide_eq_true rfl⟩
      -- The counter is raised by `playQueueItemInternal` alone.
      exact h.chosen.enterItem le_rfl hfound (fun hne => absurd rfl hne) (fun _ => ⟨_, rfl, rfl⟩)
    next => exact h
  | playRadioStation station =>
    exact h.chosen.tell le_rfl (fun hne => absurd rfl hne) (fun _ => ⟨_, rfl, rfl⟩)
  | playRadioCatalogPreview result =>
    exact h.chosen.tell le_rfl (fun hne => absurd rfl hne) (fun _ => ⟨_, rfl, rfl⟩)
  | playExternalTrack track =>
    refine h.chosen.await le_rfl (fun _ => rfl) ?_
    rintro _ intent ⟨⟩
    exact ⟨le_rfl, iff_of_true rfl rfl⟩
  | navigatePrevious currentTime =>
    rw [Provider.choose]
    split
    · exact h
    · exact h.navigate
  | navigateNext => exact h.navigate
  | stopPlayback =>
    exact h.chosen.tell le_rfl (fun hne => absurd rfl hne) (fun _ => ⟨_, rfl, rfl⟩)

/-- The function of a call that was answered runs. -/
theorem Following.take {index : ℕ} (h : p.Following host none) (hcall : p.calls[index]? = some call)
    :
    Following host (some call.choice) { p with calls := p.calls.eraseIdx index } := by
  obtain ⟨hindex, hget⟩ := List.getElem?_eq_some_iff.mp hcall
  have hmem : call ∈ p.calls := List.mem_of_getElem? hcall
  have hperm : (call :: p.calls.eraseIdx index).Perm p.calls := by
    have hcons := List.getElem_cons_eraseIdx_perm hindex
    rwa [hget] at hcons
  have hnodup : (call.choice :: (p.calls.eraseIdx index).map (·.choice)).Nodup :=
    (hperm.map fun other : Call => other.choice).nodup_iff.mpr h.nodup
  obtain ⟨hfresh, hrest⟩ := List.nodup_cons.mp hnodup
  have hsub : ∀ other ∈ p.calls.eraseIdx index, other ∈ p.calls :=
    fun other hother => List.mem_of_mem_eraseIdx hother
  constructor
  · intro other hother
    refine ⟨(h.calls other (hsub other hother)).1, ?_⟩
    rw [ne_eq, Option.some.injEq]
    intro heq
    exact hfresh (heq ▸ List.mem_map_of_mem hother)
  · exact hrest
  · exact h.told
  · exact fun other hother => h.waits other (hsub other hother)
  · intro hrunning
    exact (h.waits call hmem (Option.some.inj hrunning)).1
  · exact fun other hother => h.resolves other (hsub other hother)
  · exact h.reaches
  · rcases h.stands with hnone | ⟨other, hother, hnewest⟩ | hstands
    · cases hnone
    · rcases List.mem_cons.mp (hperm.mem_iff.mpr hother) with rfl | hother
      · exact .inl (congrArg some hnewest)
      · exact .inr (.inl ⟨other, hother, hnewest⟩)
    · exact .inr (.inr hstands)

theorem Following.written {write : QueueWrite}
    {data : List QueueItem} {attempt : Attempt}
    (h : p.Following host (some choice)) (hchoice : choice ≤ p.choices)
    (hattempt : attempt ≠ .reread)
    (hclear : (Stage.writing trackId write attempt order).plays (.queue data) = true →
      p.Clear host choice)
    (hwanted : choice = p.choices → p.wanted = some (.track trackId)) :
    (p.written host choice trackId write data).Following host none := by
  cases write with
  | replace trackIds =>
    refine h.playTrackIn hchoice ?_ hwanted
    intro hany
    refine hclear ?_
    cases attempt with
    | reread => exact absurd rfl hattempt
    | first => exact hany
    | retry => exact hany
  | append =>
    refine h.playTrackInternal hchoice ?_ hwanted
    intro hany
    refine hclear ?_
    cases attempt with
    | reread => exact absurd rfl hattempt
    | first => exact hany
    | retry => exact hany

theorem Following.continueWrite {answer : QueueAnswer} (h : p.Following host (some call.choice))
    (hchoice : call.choice ≤ p.choices)
    (hleads : call.choice = p.choices → call.stage.LeadsTo host p.wanted)
    (hclear : call.stage.plays answer = true → p.Clear host call.choice)
    (hstep : p.continueWrite host call answer = some p') : p'.Following host none := by
  obtain ⟨choice, stage⟩ := call
  cases stage with
  | syncing item => cases hstep
  | resolving track intent => cases hstep
  | writing trackId write attempt order =>
    cases answer with
    | queue items =>
      have happlied : (p.applyQueue items order).Following host (some choice) := h.applyQueue
      have hle : choice ≤ (p.applyQueue items order).choices := by
        rw [applyQueue_choices]
        exact hchoice
      have hwanted : choice = (p.applyQueue items order).choices →
          (p.applyQueue items order).wanted = some (.track trackId) := by
        rw [applyQueue_choices, applyQueue_wanted]
        exact hleads
      by_cases hreread : attempt = .reread
      · subst hreread
        cases hstep
        exact happlied.request hle hwanted
      · have hwritten :
            (p.applyQueue items order).written host choice trackId write items = p' := by
          cases attempt with
          | reread => exact absurd rfl hreread
          | first => exact Option.some.inj hstep
          | retry => exact Option.some.inj hstep
        rw [← hwritten]
        exact happlied.written hle hreread (fun hplays => (hclear hplays).applyQueue) hwanted
    | conflict =>
      cases attempt with
      | first =>
        cases hstep
        exact h.request hchoice hleads
      | reread =>
        cases hstep
        exact h.giveUp
      | retry =>
        cases hstep
        exact h.giveUp
    | failed =>
      have hgiven : some (p.giveUp choice) = some p' := by
        cases attempt <;> exact hstep
      cases hgiven
      exact h.giveUp

theorem Following.continueSync {succeeds : Bool} (h : p.Following host (some call.choice))
    (hchoice : call.choice ≤ p.choices)
    (hleads : call.choice = p.choices → call.stage.LeadsTo host p.wanted)
    (hclear : succeeds = true → call.choice ≠ p.choices → p.reached = false)
    (hstep : p.continueSync host call succeeds = some p') : p'.Following host none := by
  obtain ⟨choice, stage⟩ := call
  cases stage with
  | writing trackId write attempt order => cases hstep
  | resolving track intent => cases hstep
  | syncing item =>
    cases succeeds with
    | true =>
      cases hstep
      exact h.tell hchoice (hclear rfl) hleads
    | false =>
      cases hstep
      exact h.giveUp

/-- The comparison lets through exactly the newest choice. -/
theorem Following.continueResolve {streamPath : Option String}
    (h : p.Following host (some call.choice)) (hchoice : call.choice ≤ p.choices)
    (hleads : call.choice = p.choices → call.stage.LeadsTo host p.wanted)
    (hresolves : ∀ track intent, call.stage = .resolving track intent →
      (call.choice = p.choices ↔ intent = p.playbackIntent))
    (hstep : p.continueResolve host call streamPath = some p') : p'.Following host none := by
  obtain ⟨choice, stage⟩ := call
  cases stage with
  | writing trackId write attempt order => cases hstep
  | syncing item => cases hstep
  | resolving track intent =>
    have hnewest : choice = p.choices ↔ intent = p.playbackIntent := hresolves track intent rfl
    cases streamPath with
    | none =>
      cases hstep
      exact h.giveUp
    | some streamPath =>
      rw [Provider.continueResolve] at hstep
      simp only at hstep
      split at hstep
      next hintent =>
        cases hstep
        have heq := hnewest.mpr hintent.symm
        exact h.tell hchoice (fun hne => absurd heq hne)
          (fun _ => ⟨_, hleads heq, streamPath, rfl⟩)
      next hintent =>
        cases hstep
        exact h.drop fun heq => hintent (hnewest.mp heq).symm

theorem Following.perform {event : Event} (h : p.Following host none)
    (hstep : p.UndisturbedStep host event p') : p'.Following host none := by
  obtain ⟨hperform, hundisturbed⟩ := hstep
  cases event with
  | choose choice =>
    cases hperform
    exact h.choose
  | answered index answer =>
    obtain ⟨call, hcall, hrest⟩ := Option.bind_eq_some_iff.mp hperform
    have hmem := List.mem_of_getElem? hcall
    refine (h.take hcall).continueWrite (h.calls call hmem).1 ?_ ?_ hrest
    · exact fun hnewest => (h.waits call hmem hnewest).2
    · intro hplays hne
      obtain ⟨hresolving, hengine⟩ := hundisturbed call hcall hne hplays
      refine ⟨?_, hengine⟩
      rw [Provider.resolving, List.any_eq_false] at hresolving ⊢
      exact fun other hother => hresolving other (List.mem_of_mem_eraseIdx hother)
  | synced index succeeds =>
    obtain ⟨call, hcall, hrest⟩ := Option.bind_eq_some_iff.mp hperform
    have hmem := List.mem_of_getElem? hcall
    refine (h.take hcall).continueSync (h.calls call hmem).1 ?_ ?_ hrest
    · exact fun hnewest => (h.waits call hmem hnewest).2
    · rintro rfl hne
      exact hundisturbed call hcall hne
  | resolved index streamPath =>
    obtain ⟨call, hcall, hrest⟩ := Option.bind_eq_some_iff.mp hperform
    have hmem := List.mem_of_getElem? hcall
    refine (h.take hcall).continueResolve (h.calls call hmem).1 ?_ ?_ hrest
    · exact fun hnewest => (h.waits call hmem hnewest).2
    · exact fun track intent hstage => (h.resolves call hmem track intent hstage).2
  | queueRequested =>
    cases hperform
    exact h.frame rfl rfl rfl rfl rfl rfl
  | queueAnswered order items =>
    rw [Step, Provider.perform] at hperform
    split at hperform
    · have hanswered : Following host none { p with requests := p.requests.erase order } :=
        h.frame rfl rfl rfl rfl rfl rfl
      cases items with
      | none =>
        cases hperform
        exact hanswered
      | some items =>
        cases hperform
        exact hanswered.applyQueue
    · cases hperform
  | session queueItemId =>
    cases hperform
    exact h.frame rfl rfl rfl rfl rfl rfl

/-! ### One command a step -/

/-- The engine is given one command at most. -/
def Tells (p p' : Provider) : Prop :=
  p'.told = p.told ∨ ∃ given, p'.told = given :: p.told

theorem Tells.tell {command : EngineCommand} (h : p'.told = p.told) :
    Tells p (p'.tell choice command) :=
  .inr ⟨⟨choice, command⟩, congrArg (List.cons _) h⟩

theorem Tells.playQueueItemInternal (h : p'.told = p.told) :
    Tells p (p'.playQueueItemInternal host choice item activeQueue) := by
  rw [Provider.playQueueItemInternal]
  split
  · simp only
    split
    · exact .inl h
    · exact .tell h
  · exact .inl h

theorem Tells.playTrackInternal (h : p'.told = p.told) :
    Tells p (p'.playTrackInternal host choice trackId activeQueue) := by
  rw [Provider.playTrackInternal]
  split
  · exact .playQueueItemInternal h
  · exact .inl h

theorem Tells.playTrackIn {nextQueue : List QueueItem} (h : p'.told = p.told) :
    Tells p (p'.playTrackIn host choice trackId nextQueue) := by
  rw [Provider.playTrackIn]
  split
  · exact .playTrackInternal h
  · exact .inl h

theorem Tells.navigate {direction : Direction} : Tells p (p.navigate host direction) := by
  rw [Provider.navigate]
  split
  · exact .tell rfl
  · split
    · exact .playQueueItemInternal rfl
    · exact .inl rfl

theorem Tells.choose {choice : Choice} : Tells p (p.choose host choice) := by
  cases choice with
  | playTrack trackId queueTrackIds =>
    cases queueTrackIds with
    | some trackIds => exact .inl rfl
    | none => exact .playTrackIn rfl
  | playQueueIndex index =>
    rw [Provider.choose]
    split
    · exact .playQueueItemInternal rfl
    · exact .inl rfl
  | playRadioStation station => exact .tell rfl
  | playRadioCatalogPreview result => exact .tell rfl
  | playExternalTrack track => exact .inl rfl
  | navigatePrevious currentTime =>
    rw [Provider.choose]
    split
    · exact .inl rfl
    · exact .navigate
  | navigateNext => exact .navigate
  | stopPlayback => exact .tell rfl

@[simp]
theorem applyQueue_told :
    (p.applyQueue items order).told = p.told := by
  rw [Provider.applyQueue]
  split <;> rfl

theorem Tells.continueWrite {answer : QueueAnswer}
    (hstep : started.continueWrite host call answer = some p') (h : started.told = p.told) :
    Tells p p' := by
  rw [Provider.continueWrite] at hstep
  split at hstep
  next trackId write attempt order _ =>
    split at hstep
    · cases hstep
      exact .inl (applyQueue_told.trans h)
    next items _ =>
      cases hstep
      have happlied : (started.applyQueue items order).told = p.told := applyQueue_told.trans h
      cases write with
      | replace trackIds => exact .playTrackIn happlied
      | append => exact .playTrackInternal happlied
    · cases hstep
      exact .inl h
    · cases hstep
      exact .inl h
  · cases hstep

theorem Tells.continueSync {succeeds : Bool}
    (hstep : started.continueSync host call succeeds = some p') (h : started.told = p.told) :
    Tells p p' := by
  rw [Provider.continueSync] at hstep
  split at hstep
  · split at hstep
    · cases hstep
      exact .tell h
    · cases hstep
      exact .inl h
  · cases hstep

theorem Tells.continueResolve {streamPath : Option String}
    (hstep : started.continueResolve host call streamPath = some p') (h : started.told = p.told) :
    Tells p p' := by
  rw [Provider.continueResolve] at hstep
  split at hstep
  · split at hstep
    · split at hstep
      · cases hstep
        exact .tell h
      · cases hstep
        exact .inl h
    · cases hstep
      exact .inl h
  · cases hstep

theorem Tells.perform {event : Event} (hstep : Step host p event p') : Tells p p' := by
  cases event with
  | choose choice =>
    cases hstep
    exact .choose
  | answered index answer =>
    obtain ⟨call, -, hrest⟩ := Option.bind_eq_some_iff.mp hstep
    exact .continueWrite hrest rfl
  | synced index succeeds =>
    obtain ⟨call, -, hrest⟩ := Option.bind_eq_some_iff.mp hstep
    exact .continueSync hrest rfl
  | resolved index streamPath =>
    obtain ⟨call, -, hrest⟩ := Option.bind_eq_some_iff.mp hstep
    exact .continueResolve hrest rfl
  | queueRequested =>
    cases hstep
    exact .inl rfl
  | queueAnswered order items =>
    rw [Step, Provider.perform] at hstep
    split at hstep
    · cases items with
      | none =>
        cases hstep
        exact .inl rfl
      | some items =>
        cases hstep
        exact .inl applyQueue_told
    · cases hstep
  | session queueItemId =>
    cases hstep
    exact .inl rfl

/-! ### Every undisturbed run -/

theorem Following.run {events : List Event} (h : p.Following host none)
    (hrun : Run (UndisturbedStep host) p events p') : p'.Following host none :=
  hrun.preserves (fun _ => True) (fun _ _ _ _ hfollowing hstep => hfollowing.perform hstep)
    (fun _ _ => trivial) h

/-- Where the newest choice has reached the engine, no older one comes after it. -/
theorem Following.obeys (h : p'.Following host none) (htells : Tells p p') :
    Obeys host p p' := by
  constructor
  · rcases htells with hsame | ⟨given, hgiven⟩
    · exact .inl hsame
    · refine .inr ⟨given, hgiven, ?_⟩
      by_cases hnewest : given.choice = p'.choices
      · exact .inl hnewest
      · refine .inr fun earlier hearlier heq => hnewest ?_
        have hreached : p'.reached = true := by
          rw [reached, hgiven]
          exact List.any_eq_true.mpr
            ⟨earlier, List.mem_cons_of_mem _ hearlier, decide_eq_true heq⟩
        obtain ⟨last, wanted, hlast, hchoice, -⟩ := h.reaches hreached
        rw [hgiven] at hlast
        cases hlast
        exact hchoice
  · intro hcalls hchoices hfailed
    rcases h.stands with hrunning | ⟨call, hcall, -⟩ | htrue | hreached | hzero
    · cases hrunning
    · rw [hcalls] at hcall
      cases hcall
    · rw [hfailed] at htrue
      cases htrue
    · exact h.reaches hreached
    · exact absurd hzero hchoices

/-- From the provider as it is built, every step of every undisturbed run leaves the
engine to the newest choice. -/
theorem newest_choice_wins {events : List Event} {event : Event}
    (hrun : Run (UndisturbedStep host) new events p) (hstep : p.UndisturbedStep host event p') :
    Obeys host p p' :=
  ((Following.new.run hrun).perform hstep).obeys (.perform hstep.1)

end Provider

/-! ### An album and then a station -/

namespace Sample

def api : PlaybackApi where
  getStreamUrl trackId := "/api/v1/tracks/" ++ trackId ++ "/stream"
  getAlbumCoverUrl albumId size := "/api/v1/albums/" ++ albumId ++ "/cover?size=" ++ toString size
  getRadioStationStreamUrl stationId := "/api/v1/radio/stations/" ++ stationId ++ "/stream"
  getRadioCatalogPreviewStreamUrl uuid := "/api/v1/radio/catalog/" ++ uuid ++ "/stream"
  getExternalStreamUrl streamPath := streamPath
  getExternalTrackArtworkUrl trackId := "/api/v1/external/tracks/" ++ trackId ++ "/artwork"

def browser : Host := ⟨api, false⟩

def song : QueueItem := ⟨"q1", "awake", ⟨"awake", "dive"⟩⟩

def station : RadioStation := ⟨"one", "https://radio.example/one"⟩

/-- The Queue is replaced for a Track. -/
def opening : List Event := [.choose (.playTrack "awake" (some ["awake"]))]

/-- Before the server has answered, a station is chosen. -/
def hurried : List Event := opening ++ [.choose (.playRadioStation station)]

def otherSong : QueueItem := ⟨"q2", "dive", ⟨"dive", "dive"⟩⟩

/-- Two Tracks are chosen before the server answers for the first of them. -/
def reopening : List Event :=
  opening ++ [.choose (.playTrack "dive" (some ["dive"])), .answered 0 (.queue [song])]

/-- The older choice is let go on before the newest one is, which then follows it. -/
theorem opening_obeys : ∃ p p', Provider.Obeys browser p p' ∧
    p'.told = [⟨2, .play (browser.trackSource otherSong)⟩, ⟨1, .play (browser.trackSource song)⟩] ∧
    p'.calls = [] := by
  let opened := (Provider.new.choose browser (.playTrack "awake" (some ["awake"]))).choose browser
    (.playTrack "dive" (some ["dive"]))
  have hanswered : ∃ p p', opened.UndisturbedStep browser (.answered 0 (.queue [song])) p ∧
      p.UndisturbedStep browser (.answered 0 (.queue [otherSong])) p' ∧
      p'.told = [⟨2, .play (browser.trackSource otherSong)⟩,
        ⟨1, .play (browser.trackSource song)⟩] ∧ p'.calls = [] := by
    refine ⟨_, _, ⟨rfl, fun _ _ _ _ => ⟨by decide, by decide⟩⟩, ⟨rfl, ?_⟩, rfl, rfl⟩
    intro call hcall hne
    cases hcall
    exact absurd rfl hne
  obtain ⟨p, p', hfirst, hsecond, htold, hcalls⟩ := hanswered
  have hrun : Run (Provider.UndisturbedStep browser) Provider.new reopening p :=
    .cons ⟨rfl, trivial⟩ (.cons ⟨rfl, trivial⟩ (.cons hfirst (.nil p)))
  exact ⟨p, p', Provider.newest_choice_wins hrun hsecond, htold, hcalls⟩

/-- The server's answer starts the Track over the station. -/
theorem hurried_choice_is_overtaken : ¬ ∀ host events event p p',
    Run (Provider.Step host) Provider.new events p → p.Step host event p' →
      Provider.Obeys host p p' := by
  intro h
  have hrun : Run (Provider.Step browser) Provider.new hurried _ :=
    .cons rfl (.cons rfl (.nil _))
  have hobeys := h browser hurried (.answered 0 (.queue [song])) _ _ hrun rfl
  obtain ⟨given, wanted, hgiven, hchoice, -⟩ := hobeys.settles rfl (by decide) rfl
  cases hgiven
  exact absurd hchoice (by decide)

end Sample

end Harmony.PlaybackProvider
