/-
# Runs that are shared by their key

Whoever asks for a key joins the run that is listed for it, or starts and lists one. A
run ends with a result and then leaves the list as its last step. One that stops before
that stays listed: whoever asks for its key later still gets what it ended with.

In a history without such a stop the list has exactly the runs that are under way, one
for each key, and what a run ended with is what it was finished with.
-/

import Harmony.Library.Table
import Harmony.Library.Transition

namespace SingleFlight

variable {κ α : Type*}

/-- How far a run is. -/
inductive Stage (α : Type*)
  | running
  | finished (result : α)
  /-- Whoever waits for it goes on. -/
  | settled (result : α)

/-- What a run ended with. -/
def Stage.result : Stage α → Option α
  | .running => none
  | .finished result | .settled result => some result

def Stage.isSettled : Stage α → Bool
  | .settled _ => true
  | _ => false

structure Flight (κ α : Type*) where
  key : κ
  stage : Stage α

/-- The runs that are listed by their key, and all runs. -/
structure Flights (κ α : Type*) where
  listed : κ → Option ℕ
  flights : ℕ → Option (Flight κ α)

def Flights.empty : Flights κ α := ⟨fun _ => none, fun _ => none⟩

inductive Event (κ α : Type*)
  | start (key : κ) (n : ℕ)
  | finish (n : ℕ) (result : α)
  | settle (n : ℕ)
  /-- The run ends where it is. -/
  | stop (n : ℕ) (result : α)

/-- What a run was finished with. -/
def Event.finished : Event κ α → Option (ℕ × α)
  | .finish n result => some (n, result)
  | _ => none

def Event.isStop : Event κ α → Bool
  | .stop _ _ => true
  | _ => false

namespace Flights

def setStage (s : Flights κ α) (n : ℕ) (flight : Flight κ α) (stage : Stage α) : Flights κ α :=
  { s with flights := Function.update s.flights n (some { flight with stage }) }

@[simp] theorem flights_setStage_self (s : Flights κ α) (n : ℕ) (flight : Flight κ α)
    (stage : Stage α) : (s.setStage n flight stage).flights n = some { flight with stage } :=
  Function.update_self _ _ _

theorem flights_setStage_of_ne (s : Flights κ α) {n m : ℕ} (flight : Flight κ α)
    (stage : Stage α) (h : m ≠ n) : (s.setStage n flight stage).flights m = s.flights m :=
  Function.update_of_ne h _ _

theorem setStage_eq_self {s : Flights κ α} {n : ℕ} {flight : Flight κ α}
    (h : s.flights n = some flight) : s.setStage n flight flight.stage = s := by
  have hflights : Function.update s.flights n (some flight) = s.flights := by
    rw [← h, Function.update_eq_self]
  rw [setStage, hflights]

/-- What the run was finished with, time after time. -/
def finishes (events : List (ℕ × α)) (n : ℕ) : List α :=
  events.filterMap fun event => if event.1 = n then some event.2 else none

theorem finishes_append_self (events : List (ℕ × α)) (n : ℕ) (result : α) :
    finishes (events ++ [(n, result)]) n = finishes events n ++ [result] := by
  simp [finishes]

theorem finishes_append_other {n m : ℕ} (events : List (ℕ × α)) (result : α) (h : m ≠ n) :
    finishes (events ++ [(m, result)]) n = finishes events n := by
  simp [finishes, h]

/-- The list has exactly the runs under way, and each run ended with what it was finished
with. -/
structure Fair (events : List (ℕ × α)) (s : Flights κ α) : Prop where
  listed : ∀ key n, s.listed key = some n ↔
    ∃ stage, s.flights n = some ⟨key, stage⟩ ∧ stage.isSettled = false
  unknown : ∀ n, s.flights n = none → finishes events n = []
  results : ∀ n flight, s.flights n = some flight →
    finishes events n = flight.stage.result.toList

section Fair

variable {events : List (ℕ × α)} {s t : Flights κ α} {key : κ} {n : ℕ}

/-- One run for each key. -/
theorem Fair.alone {m : ℕ} {first second : Stage α} (h : Fair events s)
    (hfirst : s.flights n = some ⟨key, first⟩) (hrunning : first.isSettled = false)
    (hsecond : s.flights m = some ⟨key, second⟩) (hrunning' : second.isSettled = false) :
    n = m := by
  have hn : s.listed key = some n := (h.listed key n).mpr ⟨first, hfirst, hrunning⟩
  have hm : s.listed key = some m := (h.listed key m).mpr ⟨second, hsecond, hrunning'⟩
  exact Option.some.inj (hn.symm.trans hm)

theorem fair_empty : Fair [] (empty : Flights κ α) where
  listed key n := by simp [empty]
  unknown n _ := rfl
  results n flight h := by cases h

/-- A run goes on to a stage in which it is still listed. -/
theorem Fair.setStage {stage stage' : Stage α} {events' : List (ℕ × α)} (h : Fair events s)
    (hflight : s.flights n = some ⟨key, stage⟩) (hstage : stage.isSettled = false)
    (hstage' : stage'.isSettled = false) (hself : finishes events' n = stage'.result.toList)
    (hother : ∀ m, m ≠ n → finishes events' m = finishes events m) :
    Fair events' (s.setStage n ⟨key, stage⟩ stage') where
  listed key' m := by
    rw [Flights.setStage, h.listed]
    dsimp only
    by_cases hm : m = n
    · subst hm
      rw [hflight, Function.update_self]
      constructor
      · rintro ⟨other, hsame, -⟩
        obtain ⟨rfl, rfl⟩ := Flight.mk.inj (Option.some.inj hsame)
        exact ⟨stage', rfl, hstage'⟩
      · rintro ⟨other, hsame, -⟩
        obtain ⟨rfl, rfl⟩ := Flight.mk.inj (Option.some.inj hsame)
        exact ⟨stage, rfl, hstage⟩
    · rw [Function.update_of_ne hm]
  unknown m hm := by
    by_cases hsame : m = n
    · subst hsame
      simp at hm
    · rw [flights_setStage_of_ne s _ _ hsame] at hm
      rw [hother m hsame, h.unknown m hm]
  results m flight hm := by
    by_cases hsame : m = n
    · subst hsame
      rw [flights_setStage_self] at hm
      cases hm
      exact hself
    · rw [flights_setStage_of_ne s _ _ hsame] at hm
      rw [hother m hsame, h.results m flight hm]

end Fair

/-! ### Steps -/

variable [DecidableEq κ]

/-- One step. -/
inductive Step : Flights κ α → Event κ α → Flights κ α → Prop
  | start {s : Flights κ α} {key : κ} {n : ℕ} (hlisted : s.listed key = none)
      (hfresh : s.flights n = none) :
      Step s (.start key n)
        { listed := Function.update s.listed key (some n)
          flights := Function.update s.flights n (some ⟨key, .running⟩) }
  | finish {s : Flights κ α} {key : κ} {n : ℕ} {result : α}
      (hrunning : s.flights n = some ⟨key, .running⟩) :
      Step s (.finish n result) (s.setStage n ⟨key, .running⟩ (.finished result))
  | settle {s : Flights κ α} {key : κ} {n : ℕ} {result : α}
      (hfinished : s.flights n = some ⟨key, .finished result⟩) :
      Step s (.settle n)
        { s.setStage n ⟨key, .finished result⟩ (.settled result) with
          listed := Function.update s.listed key none }
  | stop {s : Flights κ α} {flight : Flight κ α} {n : ℕ} {result : α}
      (hflight : s.flights n = some flight) (hstage : flight.stage.isSettled = false) :
      Step s (.stop n result) (s.setStage n flight (.settled result))

section Steps

variable {events : List (ℕ × α)} {s t : Flights κ α} {key : κ} {n : ℕ}

theorem Fair.start (h : Fair events s) (hlisted : s.listed key = none)
    (hfresh : s.flights n = none) :
    Fair events
      { listed := Function.update s.listed key (some n)
        flights := Function.update s.flights n (some ⟨key, .running⟩) } where
  listed key' m := by
    dsimp only
    by_cases hm : m = n
    · subst hm
      rw [Function.update_self]
      by_cases hkey : key' = key
      · subst hkey
        rw [Function.update_self]
        exact ⟨fun _ => ⟨.running, rfl, rfl⟩, fun _ => rfl⟩
      · rw [Function.update_of_ne hkey, h.listed, hfresh]
        constructor
        · rintro ⟨stage, hsome, -⟩
          cases hsome
        · rintro ⟨stage, hsame, -⟩
          exact absurd (Flight.mk.inj (Option.some.inj hsame)).1.symm hkey
    · rw [Function.update_of_ne hm]
      by_cases hkey : key' = key
      · subst hkey
        have hnone : ¬∃ stage, s.flights m = some ⟨key', stage⟩ ∧ stage.isSettled = false := by
          rw [← h.listed, hlisted]
          simp
        rw [Function.update_self]
        constructor
        · intro hsame
          exact absurd (Option.some.inj hsame).symm hm
        · intro hflight
          exact absurd hflight hnone
      · rw [Function.update_of_ne hkey, h.listed]
  unknown m hm := by
    by_cases hsame : m = n
    · subst hsame
      simp at hm
    · dsimp only at hm
      rw [Function.update_of_ne hsame] at hm
      exact h.unknown m hm
  results m flight hm := by
    by_cases hsame : m = n
    · subst hsame
      dsimp only at hm
      rw [Function.update_self] at hm
      cases hm
      exact h.unknown m hfresh
    · dsimp only at hm
      rw [Function.update_of_ne hsame] at hm
      exact h.results m flight hm

theorem Fair.settle {result : α} (h : Fair events s)
    (hfinished : s.flights n = some ⟨key, .finished result⟩) :
    Fair events
      { s.setStage n ⟨key, .finished result⟩ (.settled result) with
        listed := Function.update s.listed key none } where
  listed key' m := by
    have hlisted : s.listed key = some n := (h.listed key n).mpr ⟨_, hfinished, rfl⟩
    rw [Flights.setStage]
    dsimp only
    by_cases hkey : key' = key
    · subst hkey
      rw [Function.update_self]
      constructor
      · intro hnone
        cases hnone
      · rintro ⟨stage, hflight, hstage⟩
        by_cases hm : m = n
        · subst hm
          rw [Function.update_self] at hflight
          obtain ⟨-, rfl⟩ := Flight.mk.inj (Option.some.inj hflight)
          cases hstage
        · rw [Function.update_of_ne hm] at hflight
          have hother : s.listed key' = some m := (h.listed key' m).mpr ⟨stage, hflight, hstage⟩
          exact absurd (Option.some.inj (hother.symm.trans hlisted)) hm
    · rw [Function.update_of_ne hkey, h.listed]
      by_cases hm : m = n
      · subst hm
        rw [Function.update_self, hfinished]
        constructor
        · rintro ⟨stage, hsame, -⟩
          exact absurd (Flight.mk.inj (Option.some.inj hsame)).1.symm hkey
        · rintro ⟨stage, hsame, -⟩
          exact absurd (Flight.mk.inj (Option.some.inj hsame)).1.symm hkey
      · rw [Function.update_of_ne hm]
  unknown m hm := by
    dsimp only at hm
    by_cases hsame : m = n
    · subst hsame
      simp at hm
    · rw [flights_setStage_of_ne s _ _ hsame] at hm
      exact h.unknown m hm
  results m flight hm := by
    dsimp only at hm
    by_cases hsame : m = n
    · subst hsame
      rw [flights_setStage_self] at hm
      cases hm
      have hfinishes := h.results m _ hfinished
      exact hfinishes
    · rw [flights_setStage_of_ne s _ _ hsame] at hm
      exact h.results m flight hm

/-- A step that does not stop a run where it is keeps the list fair. -/
theorem Fair.step {event : Event κ α} (h : Fair events s) (hstep : Step s event t)
    (hgoes : event.isStop = false) : Fair (events ++ event.finished.toList) t := by
  cases hstep with
  | start hlisted hfresh =>
    change Fair (events ++ []) _
    rw [List.append_nil]
    exact h.start hlisted hfresh
  | finish hrunning =>
    refine h.setStage hrunning rfl rfl ?_ ?_
    · change finishes (events ++ [(_, _)]) _ = _
      rw [finishes_append_self, h.results _ _ hrunning]
      rfl
    · intro m hm
      exact finishes_append_other events _ hm.symm
  | settle hfinished =>
    change Fair (events ++ []) _
    rw [List.append_nil]
    exact h.settle hfinished
  | stop => cases hgoes

/-- A step of a history in which no run stops where it is. -/
def Goes (s : Flights κ α) (event : Event κ α) (t : Flights κ α) : Prop :=
  Step s event t ∧ event.isStop = false

theorem Fair.run {history : List (Event κ α)} (h : Fair events s)
    (hrun : Transition.Run Goes s history t) :
    Fair (events ++ history.filterMap Event.finished) t := by
  induction hrun generalizing events with
  | nil =>
    rw [List.filterMap_nil, List.append_nil]
    exact h
  | @cons s t u event rest hstep _ ih =>
    have hfirst : Fair (events ++ event.finished.toList) t := h.step hstep.1 hstep.2
    have hrest := ih hfirst
    rw [List.append_assoc] at hrest
    rw [List.filterMap_cons]
    cases hfinished : event.finished with
    | none => simpa [hfinished] using hrest
    | some result => simpa [hfinished] using hrest

end Steps

/-! ### Runs in tables -/

section Tables

variable {ρ : Type*} (flight : ρ → Flight κ α)

/-- The list and the runs as a program keeps them. -/
def ofTables (listed : Table κ ℕ) (rows : Table ℕ ρ) : Flights κ α where
  listed key := listed.lookup key
  flights n := (rows.lookup n).map flight

variable {flight} {listed : Table κ ℕ} {rows : Table ℕ ρ} {n : ℕ} {row : ρ}

theorem flights_ofTables (h : rows.lookup n = some row) :
    (ofTables flight listed rows).flights n = some (flight row) := by
  rw [ofTables]
  exact congrArg (Option.map flight) h

theorem flights_ofTables_none (h : rows.lookup n = none) :
    (ofTables flight listed rows).flights n = none := by
  rw [ofTables]
  exact congrArg (Option.map flight) h

theorem ofTables_modify {f : ρ → ρ} {stage : Stage α} (h : rows.lookup n = some row)
    (hstage : flight (f row) = { flight row with stage }) :
    ofTables flight listed (rows.modify n f) =
      (ofTables flight listed rows).setStage n (flight row) stage := by
  refine congrArg₂ Flights.mk rfl ?_
  funext m
  rw [Table.lookup_modify, Function.update_apply]
  split_ifs with hm
  · rw [hm, h, Option.map_some, Option.map_some, hstage]
  · rfl

theorem ofTables_insert (listed : Table κ ℕ) (rows : Table ℕ ρ) (key : κ) (n : ℕ) (row : ρ) :
    ofTables flight (listed.insert key n) (rows.insert n row) =
      { listed := Function.update (ofTables flight listed rows).listed key (some n)
        flights := Function.update (ofTables flight listed rows).flights n
          (some (flight row)) } := by
  refine congrArg₂ Flights.mk ?_ ?_
  · funext other
    rw [Table.lookup_insert_eq, Function.update_apply]
    rfl
  · funext m
    rw [Table.lookup_insert_eq, Function.update_apply]
    split_ifs <;> rfl

theorem ofTables_erase (listed : Table κ ℕ) (rows : Table ℕ ρ) (key : κ) :
    ofTables flight (listed.erase key) rows =
      { ofTables flight listed rows with
        listed := Function.update (ofTables flight listed rows).listed key none } := by
  refine congrArg₂ Flights.mk ?_ rfl
  funext other
  rw [Table.lookup_erase_eq, Function.update_apply]
  rfl

end Tables

end Flights

end SingleFlight
