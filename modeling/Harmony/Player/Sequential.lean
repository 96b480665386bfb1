/-
# Inputs handled one after the other

What the player is asked by the listener, by mpv's reports and by its own polls. Here each
input is handled to its end before the next comes, with mpv and the devices moving
in between.
-/

import Harmony.Player.Events

namespace Harmony.Player

open Thread Crash

inductive Input
  | restorePaused (snapshot : PlaybackSessionSnapshot)
  | play (source : Option Source)
  | pause
  | stop
  | togglePlay
  | seek (seconds : ℚ)
  | applyProcessing (configuration : ProcessCall.ProcessingConfiguration)
  | enableAdaptiveSystemRate
  | refreshOutputDevices
  | selectDirectAlsaOutput (deviceId : String)
  | fallbackToSystemOutput
  | toggleShuffle (random : ℕ → Option ℕ)
  | syncQueueContext (random : ℕ → Option ℕ) (sources : List Source) (currentIndex : Option ℕ)
  | previous
  | next
  | cycleRepeatMode
  | setPlaybackRate (rate : ℚ)
  | setGapless (isEnabled : Bool)
  | setStopAfterCurrent (isEnabled : Bool)
  | setTransitionFadeMs (milliseconds : ℕ)
  | event (event : MpvEvent)
  | pollLiveReconnect
  | refreshDirectOutputDevice

/-- A command for what it does. -/
def done (x : Act PlaybackSessionState) : Act Unit := do
  let _ ← x
  pure ()

def Input.program : Input → Act Unit
  | restorePaused snapshot => done (Player.restorePaused snapshot)
  | play source => done (Player.play source)
  | pause => done Player.pause
  | stop => done Player.stop
  | togglePlay => done Player.togglePlay
  | seek seconds => done (Player.seek seconds)
  | applyProcessing configuration => done (Player.applyProcessing configuration)
  | enableAdaptiveSystemRate => done Player.enableAdaptiveSystemRate
  | refreshOutputDevices => done Player.refreshOutputDevices
  | selectDirectAlsaOutput deviceId => done (Player.selectDirectAlsaOutput deviceId)
  | fallbackToSystemOutput => done Player.fallbackToSystemOutput
  | toggleShuffle random => done (Player.toggleShuffle random)
  | syncQueueContext random sources currentIndex =>
    done (Player.syncQueueContext random sources currentIndex)
  | previous => done Player.previous
  | next => done Player.next
  | cycleRepeatMode => done Player.cycleRepeatMode
  | setPlaybackRate rate => done (Player.setPlaybackRate rate)
  | setGapless isEnabled => done (Player.setGapless isEnabled)
  | setStopAfterCurrent isEnabled => done (Player.setStopAfterCurrent isEnabled)
  | setTransitionFadeMs milliseconds => done (Player.setTransitionFadeMs milliseconds)
  | event report => dispatchPlaybackEvent report
  | pollLiveReconnect => Player.pollLiveReconnect
  | refreshDirectOutputDevice => Player.refreshDirectOutputDevice

/-- What moves without the player. -/
inductive Elsewhere
  | mpvExits
  /-- The file ends or fails, and mpv goes on to the next entry. -/
  | mpvAdvances
  | plugs (devices : List OutputDevice)
  | timePasses (milliseconds : ℕ)

def MpvProcess.advanced (process : MpvProcess) : MpvProcess :=
  { process with
    current := process.playlist.head?, playlist := process.playlist.tail, startSeconds := 0 }

def PlaybackController.moved (p : PlaybackController) : Elsewhere → PlaybackController
  | .mpvExits => { p with process := { p.process with isRunning := false, current := none } }
  | .mpvAdvances => { p with process := p.process.advanced }
  | .plugs devices => { p with plugged := devices }
  | .timePasses milliseconds => { p with now := p.now + milliseconds }

/-- What the player is after an input that it handles to the end. -/
def PlaybackController.handled (p : PlaybackController) (program : Act Unit) (fates : List Fates) :
    Option PlaybackController :=
  match runAlone program fates p with
  | some (.returned (), q) => some q
  | some (.failed _, q) => some q
  | _ => none

inductive Event
  | input (input : Input) (fates : List Fates)
  | elsewhere (move : Elsewhere)

def perform (p : PlaybackController) : Event → Option PlaybackController
  | .input input fates => p.handled input.program fates
  | .elsewhere move => some (p.moved move)

/-- What an input that is handled to the end leaves. -/
theorem handled_of_ends {p q : PlaybackController} {program : Act Unit} {fates : List Fates}
    {allowed : Fates → Prop} {Q : Exit String Unit → PlaybackController → Prop}
    {P : PlaybackController → Prop} (hhandled : p.handled program fates = some q)
    (hfates : ∀ f ∈ fates, allowed f) (h : Ends allowed Q program p)
    (hreturned : ∀ r, Q (.returned ()) r → P r) (hfailed : ∀ e r, Q (.failed e) r → P r) : P q := by
  rw [PlaybackController.handled] at hhandled
  cases hrun : runAlone program fates p with
  | none => rw [hrun] at hhandled; cases hhandled
  | some result =>
    obtain ⟨exit, r⟩ := result
    have hpost := h.of_runAlone hfates hrun
    rw [hrun] at hhandled
    cases exit with
    | returned _ =>
      obtain rfl := Option.some.inj hhandled
      exact hreturned r hpost
    | failed e =>
      obtain rfl := Option.some.inj hhandled
      exact hfailed e r hpost
    | died => cases hhandled

end Harmony.Player
