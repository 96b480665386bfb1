/-
# The client over its starts and its ends

The client starts with a recovery of the rate, handles its inputs one after the other, and
ends normally or is killed, at the latest between two steps of an input. What is outside
outlives it: the rate that the system is forced to, the cleanup marker and the devices.
-/

import Harmony.Player.ForcedRate

namespace Harmony.Player

open Thread Crash

/-- What the client is doing. -/
inductive Phase
  | stopped
  | idle
  /-- In the middle of the input's program. -/
  | within (input : Input)

structure Desktop where
  player : PlaybackController
  phase : Phase

/-- What happens to the client. -/
inductive Occurrence
  | start (fates : List Fates)
  | handle (event : Event)
  /-- An input comes as far as the fates go. -/
  | cut (input : Input) (fates : List Fates)
  | quit (fates : List Fates)
  | exit (fates : List Fates)
  | kill

namespace Desktop

/-- A start that fails leaves the client stopped. -/
def afterStart : Exit String Unit × PlaybackController → Desktop
  | (.returned _, q) => ⟨.started q.forcedRate q.isMarked q.plugged, .idle⟩
  | (_, q) => ⟨q, .stopped⟩

def afterCut (input : Input) : Exit String Unit × PlaybackController → Option Desktop
  | (.died, q) => some ⟨q, .within input⟩
  | _ => none

def occurs (d : Desktop) (occurrence : Occurrence) : Option Desktop :=
  match d.phase, occurrence with
  | .stopped, .start fates =>
    (runAlone (AdaptiveSystemRate.recoverStartupIfMarked .startup) fates d.player).map afterStart
  | .idle, .handle event => (perform d.player event).map (⟨·, .idle⟩)
  | .idle, .cut input fates => (runAlone input.program fates d.player).bind (afterCut input)
  -- a quit goes on to an exit only once the player is shut down
  | .idle, .quit fates => (d.player.handled shutdown fates).map (⟨·, .idle⟩)
  | .idle, .exit fates => (runAlone drop fates d.player).map fun result => ⟨result.2, .stopped⟩
  | _, .kill => some { d with phase := .stopped }
  | _, _ => none

/-- The session is there, and it is not about to publish that its mode was turned on. -/
def InSession (d : Desktop) : Prop :=
  match d.phase with
  | .stopped => False
  | .idle => True
  | .within input => input.enablesAdaptive = false

instance : DecidablePred InSession := fun d =>
  match d with
  | ⟨_, .stopped⟩ => .isFalse id
  | ⟨_, .idle⟩ => .isTrue trivial
  | ⟨_, .within input⟩ => inferInstanceAs (Decidable (input.enablesAdaptive = false))

/-- The rate is forced in Adaptive System Rate only, and with the marker on disk. -/
structure Safe (d : Desktop) : Prop where
  marked : Marked d.player
  shown : d.InSession → Shown d.player

/-- Nobody but the client forces the rate. -/
def IsInitial (d : Desktop) : Prop := d.phase = .stopped ∧ Marked d.player

/-- The inputs that are handled, or begun, are calm. -/
def IsCalm (d : Desktop) : Occurrence → Prop
  | .handle (.input input fates) => input.IsCalm d.player fates
  | .cut input fates => input.IsCalm d.player fates
  | _ => True

def Reachable : Desktop → Prop :=
  Transition.Reachable IsInitial fun d occurrence d' => d.occurs occurrence = some d'

def ReachableCalm : Desktop → Prop :=
  Transition.Reachable IsInitial fun d occurrence d' =>
    d.occurs occurrence = some d' ∧ d.IsCalm occurrence

/-- What holds in each phase. -/
structure Inv (d : Desktop) : Prop extends Safe d where
  idle : d.phase = .idle → RateSafe d.player

variable {p : PlaybackController}

theorem Inv.of_idle (h : RateSafe p) : Inv ⟨p, .idle⟩ where
  marked := h.marked
  shown _ := h.shown
  idle _ := h

theorem Inv.of_stopped (h : Marked p) : Inv ⟨p, .stopped⟩ where
  marked := h
  shown hsession := hsession.elim
  idle hphase := nomatch hphase

theorem rateSafe_started {forcedRate : Option ℕ} {isMarked : Bool} {plugged : List OutputDevice}
    (h : forcedRate = none) : RateSafe (.started forcedRate isMarked plugged) :=
  RateHeld.safe ⟨fun hne => absurd h hne, fun henabled => nomatch henabled⟩ h

theorem rateSafe_moved (h : RateSafe p) (move : Elsewhere) :
    RateSafe (p.moved move) := by
  refine h.kept ?_
  cases move with
  | mpvExits => exact ⟨rfl, rfl, rfl, .inl⟩
  | mpvAdvances => exact ⟨rfl, rfl, rfl, .inl⟩
  | plugs devices => exact ⟨rfl, rfl, rfl, .inl⟩
  | timePasses milliseconds => exact ⟨rfl, rfl, rfl, .inl⟩

theorem rateSafe_perform {p q : PlaybackController} {event : Event} (h : RateSafe p)
    (hperform : perform p event = some q) (hcalm : IsCalm ⟨p, .idle⟩ (.handle event)) :
    RateSafe q := by
  cases event with
  | input input fates =>
    exact handled_of_ends hperform (fun f hf => hf) (endsInput h hcalm) (fun _ hr => hr)
      fun _ _ hr => hr
  | elsewhere move =>
    cases hperform
    exact rateSafe_moved h move

theorem Inv.step {d d' : Desktop} {occurrence : Occurrence} (h : Inv d)
    (hoccurs : d.occurs occurrence = some d') (hcalm : d.IsCalm occurrence) : Inv d' := by
  obtain ⟨p, phase⟩ := d
  cases occurrence with
  | start fates =>
    cases phase with
    | stopped =>
      obtain ⟨⟨exit, q⟩, hrun, rfl⟩ := Option.map_eq_some_iff.mp hoccurs
      have hends : Ends (fun _ => True) Recovers
          (AdaptiveSystemRate.recoverStartupIfMarked .startup) p :=
        ends_recoverStartupIfMarked h.marked
      have hrecovers := hends.of_runAlone (fun _ _ => trivial) hrun
      cases exit with
      | returned _ => exact .of_idle (rateSafe_started hrecovers)
      | failed e => exact .of_stopped hrecovers
      | died => exact .of_stopped hrecovers
    | idle => cases hoccurs
    | within input => cases hoccurs
  | handle event =>
    cases phase with
    | stopped => cases hoccurs
    | idle =>
      obtain ⟨q, hperform, rfl⟩ := Option.map_eq_some_iff.mp hoccurs
      exact .of_idle (rateSafe_perform (h.idle rfl) hperform hcalm)
    | within input => cases hoccurs
  | cut input fates =>
    cases phase with
    | stopped => cases hoccurs
    | idle =>
      obtain ⟨⟨exit, q⟩, hrun, hcut⟩ := Option.bind_eq_some_iff.mp hoccurs
      have hends := (endsInput (h.idle rfl) hcalm).of_runAlone (fun _ hf => hf) hrun
      cases exit with
      | returned _ => cases hcut
      | failed e => cases hcut
      | died =>
        cases hcut
        exact ⟨⟨hends.1, hends.2⟩, fun hphase => nomatch hphase⟩
    | within input => cases hoccurs
  | quit fates =>
    cases phase with
    | stopped => cases hoccurs
    | idle =>
      obtain ⟨q, hhandled, rfl⟩ := Option.map_eq_some_iff.mp hoccurs
      have hends : Ends (fun _ => True) EndsSafe shutdown p := ends_shutdown (h.idle rfl)
      exact .of_idle (handled_of_ends hhandled (fun _ _ => trivial) hends (fun _ hr => hr)
        fun _ _ hr => hr)
    | within input => cases hoccurs
  | exit fates =>
    cases phase with
    | stopped => cases hoccurs
    | idle =>
      obtain ⟨⟨exit, q⟩, hrun, rfl⟩ := Option.map_eq_some_iff.mp hoccurs
      have hends : Ends (fun _ => True) (fun _ q => Marked q) drop p := ends_drop (h.idle rfl)
      exact .of_stopped (hends.of_runAlone (fun _ _ => trivial) hrun)
    | within input => cases hoccurs
  | kill =>
    have hkilled : d' = ⟨p, .stopped⟩ := by
      cases phase <;> exact (Option.some.inj hoccurs).symm
    rw [hkilled]
    exact .of_stopped h.marked

/-- The rate is safe after every run of calm inputs, over starts, exits and kills. -/
theorem forced_rate_guarded {d : Desktop} (h : d.ReachableCalm) : d.Safe := by
  have hinv : Inv d := by
    refine h.invariant ?_ fun d occurrence d' hd hstep => hd.step hstep.1 hstep.2
    rintro ⟨p, phase⟩ ⟨hstopped, hmarked⟩
    obtain rfl : phase = .stopped := hstopped
    exact .of_stopped hmarked
  exact hinv.toSafe

/-! ### A rate that is forced again -/

/-- A client that has never run. -/
def fresh : Desktop := ⟨.started none false [], .stopped⟩

/-- Adaptive System Rate is turned on while a Track plays. -/
def followTrack : List Occurrence :=
  [.start allDone, .handle (.input (.play (some gainTrack)) allDone),
    .handle (.input .enableAdaptiveSystemRate allDone)]

/-- The rate of the decoder cannot be followed. -/
def unfollowed : Fates := fun site call =>
  if site = .decoderRate ∧ call = .setForcedRate then .fails false else .done

/-- The mode is given up, and mpv exits. -/
def loseDecoder : List Occurrence :=
  [.handle (.input (.event (.decoder (some 96000))) (List.replicate 30 unfollowed)),
    .handle (.elsewhere .mpvExits),
    .handle (.input (.event (.exitedUnexpectedly "mpv exited.")) allDone)]

def run (occurrences : List Occurrence) : Option Desktop := occurrences.foldlM occurs fresh

theorem fresh_isInitial : fresh.IsInitial := ⟨rfl, fun hne => absurd rfl hne⟩

/-- The rate is forced while the session shows the system's output. -/
theorem rate_forced_again : ¬∀ d : Desktop, d.Reachable → d.Safe := by
  intro h
  have hforced : (run (followTrack ++ loseDecoder)).map
      (fun d => (decide d.InSession, d.player.forcedRate, d.player.state.outputMode)) =
        some (true, some 44100, .system) := by
    decide +kernel
  obtain ⟨d, hd, hrate⟩ := Option.map_eq_some_iff.mp hforced
  obtain ⟨hsession, hrate⟩ := Prod.mk.inj hrate
  obtain ⟨hrate, hmode⟩ := Prod.mk.inj hrate
  have hsafe : d.Safe := h d ⟨fresh, _, fresh_isInitial, .of_option hd⟩
  have hshown := hsafe.shown (of_decide_eq_true hsession)
  rw [Shown, hrate, hmode] at hshown
  exact OutputMode.noConfusion (hshown (Option.some_ne_none _))

/-- Nothing fails on the way to Adaptive System Rate. -/
theorem followTrack_calm : ∀ occurrence ∈ followTrack, ∀ d : Desktop, d.IsCalm occurrence := by
  have hkeeps : ¬LosesRate (· ∈ allDone) := by
    rintro ⟨⟨fates, hfates, hfails⟩, -⟩
    rw [List.eq_of_mem_replicate hfates] at hfails
    cases hfails
  intro occurrence hoccurrence d
  simp only [followTrack, List.mem_cons, List.not_mem_nil, or_false] at hoccurrence
  rcases hoccurrence with rfl | rfl | rfl
  · trivial
  · trivial
  · exact fun _ => hkeeps

/-- The rate of the Track is forced, and it is safe. -/
theorem forced_rate_guarded_track :
    ∃ d : Desktop, d.player.forcedRate = some 44100 ∧ d.Safe := by
  have hforced : (run followTrack).map (fun d => d.player.forcedRate) = some (some 44100) := by
    decide +kernel
  obtain ⟨d, hd, hrate⟩ := Option.map_eq_some_iff.mp hforced
  have hrun := (Transition.Run.of_option hd).withCondition followTrack_calm
  exact ⟨d, hrate, forced_rate_guarded ⟨fresh, followTrack, fresh_isInitial, hrun⟩⟩

end Desktop

end Harmony.Player
