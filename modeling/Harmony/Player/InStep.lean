/-
# The session in step with mpv

Where the session's status is Playing, mpv has the file of the session's source and is not
paused. Playing a source, pausing, stopping and changing the Queue keep this; playing on
keeps it where mpv still has the file.
-/

import Harmony.Player.Agreement
import Harmony.Player.Navigation

namespace Harmony.Player

open Thread Crash

/-! ### The sources of the Queue -/

variable {source : Source} {p q : PlaybackController} {site : Site} {state : PlaybackSessionState}
  {p : PlaybackController} {sources : List Source}

namespace PlaybackQueueContext

/-- Every source of the Queue parses. -/
def AllParsed (queue : PlaybackQueueContext) : Prop :=
  ∀ source ∈ queue.sources, ∃ parsed, source.parsed = .ok parsed

theorem alignToSource_sources {queue aligned : PlaybackQueueContext}
    (h : queue.alignToSource source = .ok aligned) : aligned.sources = queue.sources := by
  rw [alignToSource] at h
  cases hparsed : source.parsed with
  | error e =>
    rw [hparsed] at h
    cases h
  | ok parsed =>
    rw [hparsed] at h
    dsimp only at h
    cases hindex : indexOf parsed.identity queue.sources 0 with
    | error e =>
      rw [hindex] at h
      cases h
    | ok index =>
      rw [hindex] at h
      exact (Except.ok.inj h) ▸ rfl

/-- Where every source parses, a source that parses is looked up. -/
theorem AllParsed.align {queue : PlaybackQueueContext} (h : queue.AllParsed) {parsed : ParsedSource}
    (hparsed : source.parsed = .ok parsed) :
    ∃ aligned, queue.alignToSource source = .ok aligned := by
  have hfound : ∀ (sources : List Source) (index : ℕ),
      (∀ source ∈ sources, ∃ parsed, source.parsed = .ok parsed) →
      ∃ found, indexOf parsed.identity sources index = .ok found := by
    intro sources index hsources
    induction sources generalizing index with
    | nil => exact ⟨none, rfl⟩
    | cons candidate rest ih =>
      obtain ⟨first, hfirst⟩ := hsources candidate List.mem_cons_self
      rw [indexOf, hfirst]
      dsimp only
      split_ifs
      · exact ⟨some index, rfl⟩
      · exact ih (index + 1) fun other hother => hsources other (List.mem_cons_of_mem _ hother)
  obtain ⟨index, hindex⟩ := hfound queue.sources 0 h
  rw [alignToSource, hparsed]
  dsimp only
  rw [hindex]
  exact ⟨{ queue with currentIndex := index }, rfl⟩

theorem shuffle_sources (queue : PlaybackQueueContext) (random : ℕ → Option ℕ) :
    (queue.shuffle random).1.sources = queue.sources := by
  rw [shuffle]
  cases hdrawn : shuffleFrom random queue.resetOrder.order
      ((List.range queue.resetOrder.order.length).reverse.filter (1 ≤ ·)) with
  | error order => rfl
  | ok order => exact (avoidSequentialSuccessor_frame { queue.resetOrder with order }).1

theorem AllParsed.of_parseAll (h : parseAll sources = .ok ()) :
    ∀ source ∈ sources, ∃ parsed, source.parsed = .ok parsed := by
  induction sources with
  | nil => exact fun source hsource => nomatch hsource
  | cons first rest ih =>
    rw [parseAll, List.forM_eq_forM, List.forM_cons] at h
    cases hfirst : first.parsed with
    | error e =>
      rw [hfirst] at h
      cases h
    | ok parsed =>
      rw [hfirst] at h
      intro source hsource
      rcases List.mem_cons.mp hsource with rfl | hrest
      · exact ⟨parsed, hfirst⟩
      · exact ih h source hrest

theorem AllParsed.sync {queue synced : PlaybackQueueContext} {currentIndex : Option ℕ}
    (h : queue.sync sources currentIndex = .ok synced) :
    synced.AllParsed := by
  rw [PlaybackQueueContext.sync] at h
  split_ifs at h
  cases hparsed : parseAll sources with
  | error e =>
    rw [hparsed] at h
    cases h
  | ok _ =>
    rw [hparsed] at h
    cases h
    exact of_parseAll hparsed

/-- A sync of the Queue that fails early leaves its sources. -/
theorem AllParsed.syncQueue {queue : PlaybackQueueContext} (h : queue.AllParsed)
    (random : ℕ → Option ℕ) (current : PlaybackSessionState) (sources : List Source)
    (currentIndex : Option ℕ) :
    (Harmony.Player.syncQueue random current sources currentIndex queue).2.AllParsed := by
  rw [Harmony.Player.syncQueue]
  cases hsync : queue.sync sources currentIndex with
  | error error => exact h
  | ok synced =>
    have hsynced : synced.AllParsed := AllParsed.sync hsync
    dsimp only
    split
    · exact hsynced
    · rename_i aligned haligned
      have hsources : aligned.sources = synced.sources := by
        cases hsource : current.source.filter (·.isTrack) with
        | none =>
          rw [hsource] at haligned
          exact (Except.ok.inj haligned) ▸ rfl
        | some source =>
          rw [hsource] at haligned
          exact alignToSource_sources haligned
      have hparsed : aligned.AllParsed := by
        rw [AllParsed, hsources]
        exact hsynced
      have hshuffled : (aligned.shuffle random).1.AllParsed := by
        rw [AllParsed, shuffle_sources]
        exact hparsed
      split_ifs
      · split
        · exact hshuffled
        · exact hshuffled
      · exact hparsed

end PlaybackQueueContext

theorem Source.isFile_of_toOption {url : String} (h : source.playbackUrl.toOption = some url) :
    source.IsFile url := by
  rw [Source.IsFile]
  cases hurl : source.playbackUrl with
  | error e =>
    rw [hurl] at h
    cases h
  | ok found =>
    rw [hurl] at h
    exact congrArg Except.ok (Option.some.inj h)

/-! ### What is shown -/

/-- The file of the source is the one that mpv has. -/
def MpvProcess.Has (process : MpvProcess) (source : Source) : Prop :=
  ∃ url, source.IsFile url ∧ process.current = some url

/-- mpv has the source's file, and is not paused. -/
def MpvProcess.Plays (process : MpvProcess) (source : Source) : Prop :=
  process.isPaused = false ∧ process.Has source

/-- What is shown as playing plays. -/
def ShowsPlaying (p : PlaybackController) : Prop :=
  p.state.status = .playing → ∃ source, p.state.source = some source ∧ p.process.Plays source

/-- What plays is shown as playing. -/
def NothingUnseen (p : PlaybackController) : Prop :=
  p.process.current ≠ none → p.process.isPaused = false →
    p.state.status = .playing ∧ ∃ source, p.state.source = some source ∧ p.process.Plays source

/-- mpv runs, and the Queue can be searched. -/
structure Sound (p : PlaybackController) : Prop where
  isRunning : p.process.isRunning = true
  parsed : p.queue.AllParsed

/-- What the session shows as playing plays. -/
structure InStep (p : PlaybackController) : Prop extends Sound p where
  shown : ShowsPlaying p

/-- The session shows what plays, and nothing else plays. -/
structure Settled (p : PlaybackController) : Prop extends InStep p where
  unseen : NothingUnseen p

/-- The file that mpv plays is what it was. -/
structure SameFile (p q : MpvProcess) : Prop where
  isRunning : q.isRunning = p.isRunning
  current : q.current = p.current
  isPaused : q.isPaused = p.isPaused

instance : IsPreorder MpvProcess SameFile where
  refl _ := ⟨rfl, rfl, rfl⟩
  trans _ _ _ h h' := ⟨h'.isRunning.trans h.isRunning, h'.current.trans h.current,
    h'.isPaused.trans h.isPaused⟩

/-- What plays and what is shown of it is what it was. -/
structure Undisturbed (p q : PlaybackController) : Prop where
  source : q.state.source = p.state.source
  status : q.state.status = p.state.status
  process : SameFile p.process q.process
  sources : q.queue.sources = p.queue.sources

instance : IsPreorder PlaybackController Undisturbed where
  refl p := ⟨rfl, rfl, refl p.process, rfl⟩
  trans _ _ _ h h' := ⟨h'.source.trans h.source, h'.status.trans h.status,
    trans_of SameFile h.process h'.process, h'.sources.trans h.sources⟩

theorem MpvProcess.Has.kept {p q : MpvProcess} (h : p.Has source) (hkept : SameFile p q) :
    q.Has source := by
  obtain ⟨url, hfile, hcurrent⟩ := h
  exact ⟨url, hfile, hkept.current.trans hcurrent⟩

theorem MpvProcess.Plays.kept {p q : MpvProcess} (h : p.Plays source) (hkept : SameFile p q) :
    q.Plays source :=
  ⟨hkept.isPaused.trans h.1, h.2.kept hkept⟩

theorem Sound.kept (h : Sound p) (hkept : Undisturbed p q) :
    Sound q where
  isRunning := hkept.process.isRunning.trans h.isRunning
  parsed := by
    rw [PlaybackQueueContext.AllParsed, hkept.sources]
    exact h.parsed

theorem ShowsPlaying.kept (h : ShowsPlaying p) (hkept : Undisturbed p q) : ShowsPlaying q := by
  intro hplaying
  obtain ⟨source, hsource, hplays⟩ := h (hkept.status ▸ hplaying)
  exact ⟨source, hkept.source.trans hsource, hplays.kept hkept.process⟩

theorem NothingUnseen.kept (h : NothingUnseen p) (hkept : Undisturbed p q) : NothingUnseen q := by
  intro hcurrent hpaused
  rw [hkept.process.current] at hcurrent
  rw [hkept.process.isPaused] at hpaused
  obtain ⟨hstatus, source, hsource, hplays⟩ := h hcurrent hpaused
  exact ⟨hkept.status.trans hstatus, source, hkept.source.trans hsource,
    hplays.kept hkept.process⟩

theorem InStep.kept (h : InStep p) (hkept : Undisturbed p q) :
    InStep q where
  toSound := h.toSound.kept hkept
  shown := h.shown.kept hkept

theorem Settled.kept (h : Settled p) (hkept : Undisturbed p q) :
    Settled q where
  toInStep := h.toInStep.kept hkept
  unseen := h.unseen.kept hkept

/-- Where nothing is shown as playing, there is nothing more to show. -/
theorem Sound.inStep (h : Sound p) (hstatus : state.status ≠ .playing) :
    InStep { p with state } where
  isRunning := h.isRunning
  parsed := h.parsed
  shown hplaying := absurd hplaying hstatus

/-- A player without a file shows what it does in any quiet state. -/
theorem Sound.settled (h : Sound p) (hcurrent : p.process.current = none)
    (hstatus : state.status ≠ .playing) :
    Settled { p with state } where
  toInStep := h.inStep hstatus
  unseen hplaying := absurd hcurrent hplaying

/-- A source that mpv plays is shown as playing. -/
theorem Sound.shows (h : Sound p) (hplays : p.process.Plays source)
    (hsource : state.source = some source) (hstatus : state.status = .playing) :
    Settled { p with state } where
  isRunning := h.isRunning
  parsed := h.parsed
  shown _ := ⟨source, hsource, hplays⟩
  unseen _ _ := ⟨hstatus, source, hsource, hplays⟩

/-! ### What can fail -/

/-- Only loading a file and setting the rate fail. -/
def OnlyLoadsFail (fates : Fates) : Prop :=
  ∀ site call, call ≠ .load → call ≠ .append → call ≠ .setForcedRate → fates site call = .done

/-- The other calls are done. -/
theorem OnlyLoadsFail.done {fates : Fates} (h : OnlyLoadsFail fates) {call : Call}
    (hcall : call ≠ .load ∧ call ≠ .append ∧ call ≠ .setForcedRate) : fates site call = .done :=
  h site call hcall.1 hcall.2.1 hcall.2.2

/-! ### What disturbs nothing -/

section Undisturbed

variable {allowed : Fates → Prop} {α : Type} {p : PlaybackController}

theorem undisturbed_update {change : PlaybackSessionState → PlaybackSessionState}
    (hsource : ∀ state, (change state).source = state.source)
    (hstatus : ∀ state, (change state).status = state.status) :
    Stays allowed Undisturbed (update change) :=
  .step fun p => ⟨hsource p.state, hstatus p.state, refl p.process, rfl⟩

theorem undisturbed_volume {volume : ℚ} :
    Stays allowed Undisturbed (withProcess site (.setVolume volume)) := by
  have hvolume : (ProcessCall.setVolume volume).Keeps SameFile :=
    .command fun _ => ⟨rfl, rfl, rfl⟩
  exact Moves.stays (moves_withProcess fun p fates _ =>
    ⟨rfl, rfl, hvolume (fates site) p.process, rfl⟩)

theorem RateOnly.undisturbed (h : RateOnly p q) : Undisturbed p q := by
  rw [h]
  exact ⟨rfl, rfl, refl p.process, rfl⟩

theorem undisturbed_applySourceSampleRate {rateHz : Option ℕ} :
    Stays allowed Undisturbed (AdaptiveSystemRate.applySourceSampleRate site rateHz) :=
  AdaptiveSystemRate.moves_applySourceSampleRate.stays.mono fun _ _ h => h.undisturbed

theorem undisturbed_resetForRecovery :
    Stays allowed Undisturbed (AdaptiveSystemRate.resetForRecovery site) :=
  AdaptiveSystemRate.moves_resetForRecovery.stays.mono fun _ _ h => h.undisturbed

theorem undisturbed_applyAdaptiveSourceRate :
    Stays allowed Undisturbed (applyAdaptiveSourceRate source) :=
  .bind stays_state fun _ => .ite .pure undisturbed_applySourceSampleRate

theorem undisturbed_resetAdaptiveAfterEventFailure :
    Stays allowed Undisturbed (resetAdaptiveAfterEventFailure site) :=
  .bind stays_state fun _ => .ite .pure undisturbed_resetForRecovery

theorem undisturbed_updateLive {f : ℕ → LiveReconnectState → LiveReconnectState} :
    Stays allowed Undisturbed (updateLive f) :=
  .step fun p => ⟨rfl, rfl, refl p.process, rfl⟩

theorem undisturbed_advanceCommandRevision :
    Stays allowed Undisturbed advanceCommandRevision :=
  .step fun p => ⟨rfl, rfl, refl p.process, rfl⟩

theorem undisturbed_markPlayerStable : Stays allowed Undisturbed markPlayerStable :=
  .step fun p => ⟨rfl, rfl, refl p.process, rfl⟩

/-- A change of the queue that keeps its sources. -/
theorem undisturbed_withQueue
    {change : PlaybackQueueContext → Except String α × PlaybackQueueContext}
    (h : ∀ queue, (change queue).2.sources = queue.sources) :
    Stays allowed Undisturbed (withQueue change) :=
  .bind (.step fun p => ⟨rfl, rfl, refl p.process, h p.queue⟩) fun _ => .ofExcept

theorem undisturbed_changeQueue
    {change : PlaybackQueueContext → Except String PlaybackQueueContext}
    (h : ∀ queue queue', change queue = .ok queue' → queue'.sources = queue.sources) :
    Stays allowed Undisturbed (changeQueue change) := by
  rw [changeQueue]
  refine undisturbed_withQueue fun queue => ?_
  cases hchange : change queue with
  | error e => rfl
  | ok queue' => exact h queue queue' hchange

theorem undisturbed_alignQueueToSource :
    Stays allowed Undisturbed (alignQueueToSource source) :=
  undisturbed_changeQueue fun _ _ => PlaybackQueueContext.alignToSource_sources

theorem undisturbed_toggleShuffle {random : ℕ → Option ℕ} :
    Stays allowed Undisturbed (toggleShuffle random) := by
  refine .bind (undisturbed_update (fun _ => rfl) fun _ => rfl) fun toggled => .ite ?_ ?_
  · refine .bind ?_ fun _ => .pure
    rw [shuffleQueue]
    refine undisturbed_withQueue fun queue => ?_
    split
    · exact PlaybackQueueContext.shuffle_sources queue random
    · exact PlaybackQueueContext.shuffle_sources queue random
  · refine .bind (undisturbed_changeQueue fun queue queue' h => ?_) fun _ => .pure
    exact (Except.ok.inj h) ▸ rfl

end Undisturbed


/-! ### Loads -/

/-- mpv has this file. -/
structure HasLoaded (url : String) (process : MpvProcess) : Prop where
  isRunning : process.isRunning = true
  current : process.current = some url

/-- What a start of a file ends with. A load that fails may have taken effect. -/
def Starts (fates : Call → Fate) (url : String) (p : MpvProcess) :
    Except String Unit → MpvProcess → Prop
  | .ok _, q => HasLoaded url q ∧ q.isPaused = false
  | .error _, q => fates .load = .fails true ∧ HasLoaded url q ∨
      fates .load = .fails false ∧ q = { p with appended := none }

theorem Starts.isRunning {fates : Call → Fate} {url : String} {p q : MpvProcess}
    {result : Except String Unit} (h : Starts fates url p result q)
    (hrunning : p.isRunning = true) : q.isRunning = true := by
  cases result with
  | ok _ => exact h.1.isRunning
  | error e =>
    rcases h with ⟨-, hloaded⟩ | ⟨-, rfl⟩
    · exact hloaded.isRunning
    · exact hrunning

namespace ProcessCall

variable {fates : Call → Fate} {p : MpvProcess} {url : String}

theorem leaves_loadAt {seconds : ℚ} {Q : Except String Unit → MpvProcess → Prop}
    (hrunning : p.isRunning = true) (hok : ∀ q, HasLoaded url q → Q (.ok ()) q)
    (herror : ∀ e q, Starts fates url p (.error e) q → Q (.error e) q) :
    (loadAt url seconds).Leaves Q fates p := by
  refine .bind ?_
  change Leaves Q (command .load fun p =>
    { p with current := some url, playlist := [], startSeconds := seconds }) fates
    { p with appended := none }
  have hloaded : HasLoaded url { p with
      appended := none, current := some url, playlist := [], startSeconds := seconds } :=
    ⟨hrunning, rfl⟩
  rw [Leaves, command, if_neg (by simp [hrunning])]
  cases hfate : fates .load with
  | done => exact hok _ hloaded
  | fails isDone =>
    cases isDone with
    | true => exact herror _ _ (.inl ⟨hfate, hloaded⟩)
    | false => exact herror _ _ (.inr ⟨hfate, rfl⟩)

/-- A load that is done is followed by the end of the pause. -/
theorem leaves_setPaused_loaded {q : MpvProcess}
    (hdone : fates (.setPaused false) = .done) (h : HasLoaded url q) :
    (setPaused false).Leaves (Starts fates url p) fates q :=
  .command_of_done h.isRunning hdone ⟨⟨h.isRunning, h.current⟩, rfl⟩

theorem leaves_start (hrunning : p.isRunning = true)
    (hdone : fates (.setPaused false) = .done) :
    (do load url; setPaused false : ProcessCall Unit).Leaves (Starts fates url p) fates p :=
  .bind (leaves_loadAt hrunning (fun _ hq => leaves_setPaused_loaded hdone hq) fun _ _ hq => hq)

theorem leaves_startWithEventBoundary {loadRevision : ℕ} (hrunning : p.isRunning = true)
    (hdone : fates (.setPaused false) = .done) :
    (do loadWithEventBoundary url loadRevision; setPaused false : ProcessCall Unit).Leaves
      (Starts fates url p) fates p := by
  refine .bind (.bind (leaves_loadAt hrunning (fun _ hq => ?_) fun _ _ hq => hq))
  exact .remember (leaves_setPaused_loaded hdone ⟨hq.isRunning, hq.current⟩)

end ProcessCall

/-! ### Playing -/

section Playing

variable {allowed : Fates → Prop} {p : PlaybackController} {α β : Type}

/-- A program ends where the session shows what mpv does. -/
abbrev EndsInStep {α : Type} : Exit String α → PlaybackController → Prop :=
  EndsIn InStep fun _ => True

theorem endsInStep_of_undisturbed {x : Act α} (h : InStep p)
    (hx : Stays allowed Undisturbed x) : Ends allowed EndsInStep x p :=
  endsIn_of_stays (fun _ _ hp => hp.kept) (fun _ _ => trivial) hx h

/-- What comes after a part that disturbs nothing. -/
theorem inStep_bind {x : Act α} {f : α → Act β} (h : InStep p)
    (hx : Stays allowed Undisturbed x)
    (hf : ∀ a q, InStep q → Undisturbed p q → Ends allowed EndsInStep (f a) q) :
    Ends allowed EndsInStep (x >>= f) p :=
  (hx p).seq (fun a q hq => hf a q (h.kept hq) hq) (fun _ _ hq => h.kept hq) fun _ _ => trivial

theorem inStep_attempt {x : Act α} {f : Except String α → Act β} (h : InStep p)
    (hx : Stays allowed Undisturbed x)
    (hf : ∀ result q, InStep q → Undisturbed p q → Ends allowed EndsInStep (f result) q) :
    Ends allowed EndsInStep (x.attempt >>= f) p :=
  inStep_bind h hx.attempt hf

/-- A failure is shown, whatever mpv has. -/
theorem endsInStep_fail {message : String} (h : Sound p) :
    Ends allowed EndsInStep (fail message : Act α) p :=
  ends_step trivial (h.inStep fun hstatus => nomatch hstatus)

/-- What comes after a reset whose failure is not heard of. -/
theorem ends_resetAdaptiveAfterFailure {f : Unit → Act α}
    {Q : Exit String α → PlaybackController → Prop} (hcut : ∀ q, Q .died q)
    (hf : ∀ q, Undisturbed p q → Ends allowed Q (f ()) q) :
    Ends allowed Q (resetAdaptiveAfterFailure >>= f) p :=
  .bind (.handle (undisturbed_resetForRecovery p) (fun _ q hq => hf q hq) (fun _ q hq => hf q hq)
    fun q _ => hcut q)

theorem endsInStep_publishPlaying {isNewSource shouldFadeIn : Bool} {loadRevision : Option ℕ}
    (h : Sound p) (hplays : p.process.Plays source) :
    Ends allowed EndsInStep (publishPlaying source isNewSource shouldFadeIn loadRevision) p := by
  have hshown : InStep { p with state := p.state.updatePlayingState source isNewSource } := by
    refine (h.shows hplays ?_ ?_).toInStep
    · rw [PlaybackSessionState.updatePlayingState]
      split_ifs <;> rfl
    · rw [PlaybackSessionState.updatePlayingState]
      split_ifs <;> rfl
  refine ends_step trivial (endsInStep_of_undisturbed hshown (.bind ?_ fun _ => ?_))
  · cases loadRevision with
    | none => exact .pure
    | some loadRevision => exact .step fun p => ⟨rfl, rfl, refl p.process, rfl⟩
  · refine .bind undisturbed_alignQueueToSource fun _ => .bind undisturbed_markPlayerStable
      fun _ => .ite (.bind (stays_fadeIn undisturbed_volume) fun _ => .pure) .pure

/-- What the start of playback leaves of a sound player. -/
def StartsPlaying (source : Source) :
    Exit String (Option ℕ) → PlaybackController → Prop
  | .returned _, q => Sound q ∧ q.process.Plays source
  | .failed _, q => Sound q
  | .died, _ => True

theorem ends_startPlayback {shouldLoad : Bool} (h : Sound p)
    (hallowed : ∀ fates, allowed fates → OnlyLoadsFail fates)
    (hresume : shouldLoad = false → p.process.Has source) :
    Ends allowed (StartsPlaying source) (startPlayback source shouldLoad) p := by
  have hdone : ∀ fates, allowed fates → fates .play (.setPaused false) = .done :=
    fun fates hfates => (hallowed fates hfates).done (by simp)
  refine .ite (fun hload => ?_) fun hload => ?_
  · refine .bind (ends_withProcess trivial fun fates hfates => ?_)
    exact .command_of_done h.isRunning (hdone fates hfates)
      ⟨⟨h.isRunning, h.parsed⟩, rfl, hresume hload⟩
  · refine .bind (ends_ofExcept ?_)
    cases hurl : source.playbackUrl with
    | error e => exact h
    | ok url =>
      refine ends_step trivial (.bind (ends_withProcess trivial fun fates hfates => ?_))
      refine (ProcessCall.leaves_startWithEventBoundary h.isRunning (hdone fates hfates)).mono ?_
      intro result q hstarts
      have hsound : Sound { p with loadRevision := p.loadRevision + 1, process := q } :=
        ⟨hstarts.isRunning h.isRunning, h.parsed⟩
      cases result with
      | ok _ => exact ⟨hsound, hstarts.2, url, hurl, hstarts.1.current⟩
      | error e => exact hsound

theorem endsInStep_playSource {isNewSource shouldFadeIn : Bool} (h : Sound p)
    (hallowed : ∀ fates, allowed fates → OnlyLoadsFail fates)
    (hresume : isNewSource = false → p.process.Has source) :
    Ends allowed EndsInStep (playSource source isNewSource shouldFadeIn) p := by
  refine .handle (ends_startPlayback h hallowed hresume) (fun loadRevision q hq => ?_)
    (fun _ q hq => ?_) fun _ _ => trivial
  · exact endsInStep_publishPlaying hq.1 hq.2
  · exact ends_resetAdaptiveAfterFailure (fun _ => trivial) fun _ hr => endsInStep_fail (hq.kept hr)

/-- Playing on needs the file, unless the last one ended. -/
theorem endsInStep_play {source : Option Source} (h : InStep p)
    (hallowed : ∀ fates, allowed fates → OnlyLoadsFail fates)
    (hresume : source = none → p.state.status ≠ .ended → ∀ shown, p.state.source = some shown →
      p.process.Has shown) : Ends allowed EndsInStep (play source) p := by
  refine inStep_bind h undisturbed_advanceCommandRevision fun _ q hq hpq => ?_
  refine ends_state trivial ?_
  cases hnext : source.or q.state.source with
  | none => exact hq
  | some nextSource =>
    refine ends_reading trivial ?_
    refine inStep_bind hq (stays_prepareFadeIn undisturbed_volume) fun _ r hr hqr => ?_
    refine .ite (fun hnew => ?_) fun hold => ?_
    · refine inStep_attempt hr undisturbed_applyAdaptiveSourceRate fun prepared t ht _ => ?_
      cases prepared with
      | error e =>
        exact ends_resetAdaptiveAfterFailure (fun _ => trivial) fun u hu =>
          endsInStep_fail (ht.toSound.kept hu)
      | ok _ =>
        refine endsInStep_playSource ht.toSound hallowed fun hfalse => ?_
        rw [hnew] at hfalse
        cases hfalse
    · -- the file that the session shows is the one to go on with
      rw [Bool.not_eq_true, Bool.or_eq_false_iff, Option.isSome_eq_false_iff,
        Option.isNone_iff_eq_none, decide_eq_false_iff_not] at hold
      obtain ⟨rfl, hnotEnded⟩ := hold
      have hsource : q.state.source = some nextSource := hnext
      have hhas : p.process.Has nextSource :=
        hresume rfl (hpq.status ▸ hnotEnded) nextSource (hpq.source ▸ hsource)
      refine endsInStep_playSource hr.toSound hallowed fun _ => hhas.kept ?_
      exact trans_of SameFile hpq.process hqr.process

/-- The volume is restored, or not, without a failure. -/
theorem succeeds_restoreVolume :
    Ends allowed (Succeeds fun _ q => Undisturbed p q) restoreVolume p := by
  refine ends_reading trivial (.ite (fun _ => refl p) fun _ => ends_state trivial ?_)
  exact .handle (undisturbed_volume p) (fun _ _ hq => hq) (fun _ _ hq => hq) fun _ _ => trivial

/-- A call of mpv that ends what is played, and what is published of it. -/
theorem endsInStep_quiet {action : ProcessCall Unit} (h : Sound p)
    (hkeeps : action.Keeps SameOutput) {change : PlaybackSessionState → PlaybackSessionState}
    (hquiet : ∀ state, (change state).status ≠ .playing)
    {publish : Except String Unit → Act PlaybackSessionState}
    (herror : ∀ e, publish (.error e) = failNative) (hok : publish (.ok ()) = update change) :
    Ends allowed EndsInStep ((withProcess site action).attempt >>= fun result =>
      restoreVolume >>= fun _ => publish result) p := by
  have hcalled : Ends allowed (EndsIn Sound fun _ => True) (withProcess site action) p := by
    refine ends_withProcess trivial fun fates _ => ?_
    have hsound : Sound { p with process := (action (fates site) p.process).2 } :=
      ⟨(hkeeps (fates site) p.process).isRunning.trans h.isRunning, h.parsed⟩
    change EndsIn Sound _ (exitOf (action (fates site) p.process).1) _
    cases (action (fates site) p.process).1 with
    | ok _ => exact hsound
    | error e => exact hsound
  have hpublished : ∀ result q, Sound q →
      Ends allowed EndsInStep (restoreVolume >>= fun _ => publish result) q := by
    intro result q hq
    refine succeeds_bind (fun _ => trivial) succeeds_restoreVolume fun _ r hr => ?_
    cases result with
    | error e =>
      rw [herror]
      exact endsInStep_fail (hq.kept hr)
    | ok _ =>
      rw [hok]
      exact .step trivial ((hq.kept hr).inStep (hquiet r.state))
  exact .handle hcalled (fun a => hpublished (.ok a)) (fun e => hpublished (.error e))
    fun _ _ => trivial

theorem endsInStep_pause (h : InStep p) : Ends allowed EndsInStep pause p := by
  refine inStep_bind h undisturbed_advanceCommandRevision fun _ q hq _ => ?_
  refine ends_state trivial (.ite (fun _ => endsInStep_of_undisturbed hq stays_state) fun _ => ?_)
  refine inStep_bind hq (stays_fadeOut undisturbed_volume) fun _ r hr _ => ?_
  refine endsInStep_quiet hr.toSound ProcessCall.keeps_setPaused (fun _ => ?_) (fun _ => rfl) rfl
  exact fun hstatus => nomatch hstatus

theorem endsInStep_stop (h : InStep p) : Ends allowed EndsInStep stop p := by
  refine inStep_bind h undisturbed_advanceCommandRevision fun _ q hq _ => ?_
  refine inStep_bind hq (stays_fadeOut undisturbed_volume) fun _ r hr _ => ?_
  refine endsInStep_quiet hr.toSound ProcessCall.keeps_stop (fun _ => ?_) (fun _ => rfl) rfl
  exact fun hstatus => nomatch hstatus

theorem endsInStep_navigate {direction : QueueDirection} (h : InStep p)
    (hallowed : ∀ fates, allowed fates → OnlyLoadsFail fates) :
    Ends allowed EndsInStep (navigate direction) p := by
  refine ends_state trivial (ends_reading trivial ?_)
  cases p.queue.adjacentSource direction (p.state.repeatMode = .loop) with
  | none => exact endsInStep_of_undisturbed h stays_state
  | some source =>
    refine inStep_bind h (stays_fadeOut undisturbed_volume) fun _ q hq _ => ?_
    have hplayed : Ends allowed EndsInStep (play (some source)) q :=
      endsInStep_play hq hallowed fun hnone => nomatch hnone
    refine endsIn_attempt hplayed fun result r hr => ?_
    cases result with
    | ok played =>
      exact endsInStep_of_undisturbed hr (.bind (stays_fadeIn undisturbed_volume) fun _ => .pure)
    | error e =>
      exact endsInStep_of_undisturbed hr
        (.bind (stays_restoreVolume undisturbed_volume) fun _ => .fail)

theorem endsInStep_syncQueueContext {random : ℕ → Option ℕ} {currentIndex : Option ℕ} (h : InStep p)
    :
    Ends allowed EndsInStep (syncQueueContext random sources currentIndex) p := by
  refine ends_state trivial (endsIn_bind ?_ fun _ q hq => endsInStep_of_undisturbed hq stays_state)
  refine .bind (.step trivial (ends_ofExcept ?_))
  have hsynced := h.parsed.syncQueue random p.state sources currentIndex
  have hkept : InStep { p with queue :=
      (syncQueue random p.state sources currentIndex p.queue).2 } :=
    ⟨⟨h.isRunning, hsynced⟩, h.shown⟩
  cases (syncQueue random p.state sources currentIndex p.queue).1 with
  | ok _ => exact hkept
  | error e => exact hkept

end Playing

end Harmony.Player
