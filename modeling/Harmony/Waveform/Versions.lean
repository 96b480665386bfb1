/-
# Peaks of the file that was looked at

Generations are shared by their Track alone, and a file can be replaced between the look
at it and its decoding. Where a generation decodes the version that it was started for,
a request joins only a generation of the version it looked at, and no task ends where it
is, every answer and every stored record pairs peaks with the version they were made
from, and the list has exactly the generations under way.
-/

import Harmony.Waveform.Service

namespace Harmony.Waveform

/-! ### Generations as shared runs -/

def Stage.flight : Stage → SingleFlight.Stage (Except String Peaks)
  | .queued | .running | .decoded _ => .running
  | .finished result => .finished result
  | .settled result => .settled result

def Generation.flight (generation : Generation) :
    SingleFlight.Flight String (Except String Peaks) :=
  ⟨generation.track, generation.stage.flight⟩

def World.flights (w : World) : SingleFlight.Flights String (Except String Peaks) :=
  .ofTables Generation.flight w.inFlight w.generations

/-- The peaks that a generation has. -/
def Stage.peaks : Stage → Option Peaks
  | .decoded peaks | .finished (.ok peaks) | .settled (.ok peaks) => some peaks
  | _ => none

/-! ### What is kept -/

/-- A step at which no task ends where it is, a generation decodes the version it was
started for, and a request joins a generation of the version it looked at. -/
structure CalmStep (w : World) (e : Event) (w' : World) : Prop where
  perform : w.perform e = some w'
  goes : ∀ n error, e ≠ .stop n error
  unreplaced : ∀ n bytes generation, e = .decode n (.ok bytes) →
    w.generations.lookup n = some generation →
    w.files.lookup generation.path = some generation.version
  sameVersion : ∀ id track source version n generation, e = .join id →
    w.requests.lookup id = some ⟨track, .missed source version⟩ →
    w.inFlight.lookup track = some n → w.generations.lookup n = some generation →
    generation.version = version

/-- A waveform belongs to the file it is answered for. -/
structure Belongs (w : World) : Prop where
  answered : ∀ id track version peaks,
    w.requests.lookup id = some ⟨track, .answered version peaks⟩ → peaks.madeFrom = version
  stored : ∀ track record, w.records.lookup track = some record →
    record.peaks.madeFrom = record.version
  /-- A Track has one generation at a time. -/
  alone : ∀ n m first second, w.generations.lookup n = some first →
    w.generations.lookup m = some second → first.stage.flight.isSettled = false →
    second.stage.flight.isSettled = false → first.track = second.track → n = m
  /-- A listed generation is not over. -/
  listed : ∀ track n, w.inFlight.lookup track = some n →
    ∃ generation, w.generations.lookup n = some generation ∧ generation.track = track ∧
      generation.stage.flight.isSettled = false
  /-- A generation can always be brought to its end, and then its Track is free. -/
  frees : ∀ track n, w.inFlight.lookup track = some n →
    ∃ rest w', Transition.Run CalmStep w rest w' ∧ w'.inFlight.lookup track = none

/-! ### The invariant -/

/-- What a request has of the versions. -/
def Request.Sound (w : World) (request : Request) : Prop :=
  match request.phase with
  | .waiting version n =>
    ∃ generation, w.generations.lookup n = some generation ∧ generation.version = version
  | .answered version peaks => peaks.madeFrom = version
  | _ => True

structure Sound (w : World) : Prop where
  numbered : ∀ n, w.nextGeneration ≤ n → w.generations.lookup n = none
  fair : ∃ events, SingleFlight.Flights.Fair events w.flights
  made : ∀ n generation peaks, w.generations.lookup n = some generation →
    generation.stage.peaks = some peaks → peaks.madeFrom = generation.version
  stored : ∀ track record, w.records.lookup track = some record →
    record.peaks.madeFrom = record.version
  requests : ∀ id request, w.requests.lookup id = some request → request.Sound w

/-- Nothing is under way, and what is stored belongs to its version. -/
structure Init (w : World) : Prop where
  inFlight : w.inFlight = ∅
  generations : w.generations = ∅
  requests : w.requests = ∅
  stored : ∀ track record, w.records.lookup track = some record →
    record.peaks.madeFrom = record.version

theorem Init.sound {w : World} (h : Init w) : Sound w where
  numbered n _ := by
    rw [h.generations]
    rfl
  fair := by
    refine ⟨[], ?_⟩
    rw [World.flights, h.inFlight, h.generations]
    exact SingleFlight.Flights.fair_empty
  made n generation peaks hn := by
    rw [h.generations] at hn
    cases hn
  stored := h.stored
  requests id request hid := by
    rw [h.requests] at hid
    cases hid

section Steps

variable {w w' : World} {generation : Generation} {result : Except String Peaks} {n : ℕ}

theorem lookup_flights (h : w.generations.lookup n = some generation) :
    w.flights.flights n = some generation.flight :=
  SingleFlight.Flights.flights_ofTables h

/-- A request keeps what it has while the generations keep their versions. -/
theorem Request.Sound.later {request : Request} (h : request.Sound w)
    (hgenerations : ∀ n generation, w.generations.lookup n = some generation →
      ∃ generation', w'.generations.lookup n = some generation' ∧
        generation'.version = generation.version) : request.Sound w' := by
  obtain ⟨track, phase⟩ := request
  cases phase with
  | waiting version n =>
    obtain ⟨generation, hn, hversion⟩ := h
    obtain ⟨generation', hn', hsame⟩ := hgenerations n generation hn
    exact ⟨generation', hn', hsame.trans hversion⟩
  | answered version peaks => exact h
  | _ => trivial

/-- Only requests, files, sources and stored records change. -/
theorem Sound.outside (h : Sound w) (hnext : w'.nextGeneration = w.nextGeneration)
    (hlisted : w'.inFlight = w.inFlight) (hgenerations : w'.generations = w.generations)
    (hrecords : ∀ track record, w'.records.lookup track = some record →
      w.records.lookup track = some record)
    (hrequests : ∀ id request, w'.requests.lookup id = some request → request.Sound w) :
    Sound w' where
  numbered := by
    rw [hnext, hgenerations]
    exact h.numbered
  fair := by
    rw [World.flights, hlisted, hgenerations]
    exact h.fair
  made := by
    rw [hgenerations]
    exact h.made
  stored track record htrack := h.stored track record (hrecords track record htrack)
  requests id request hid := by
    refine (hrequests id request hid).later fun n generation hn => ⟨generation, ?_, rfl⟩
    rw [hgenerations]
    exact hn

/-- A request goes on. -/
theorem Sound.setPhase (h : Sound w) {id : ℕ} {phase : Phase}
    (hphase : ∀ track, Request.Sound w ⟨track, phase⟩) : Sound (w.setPhase id phase) := by
  refine h.outside rfl rfl rfl (fun _ _ hrecord => hrecord) fun other request hother => ?_
  rw [World.setPhase, Table.lookup_modify] at hother
  split_ifs at hother
  · obtain ⟨before, -, rfl⟩ := Option.map_eq_some_iff.mp hother
    exact hphase before.track
  · exact h.requests other request hother

theorem lookup_setStage (w : World) (n m : ℕ) (stage : Stage) :
    (w.setStage n stage).generations.lookup m =
      if m = n then (w.generations.lookup m).map fun generation => { generation with stage }
      else w.generations.lookup m := by
  rw [World.setStage, Table.lookup_modify]

theorem lookup_setStage_self (hn : w.generations.lookup n = some generation) (stage : Stage) :
    (w.setStage n stage).generations.lookup n = some { generation with stage } := by
  rw [lookup_setStage, if_pos rfl, hn, Option.map_some]

theorem flights_setStage {stage : Stage} (h : w.generations.lookup n = some generation) :
    (w.setStage n stage).flights = w.flights.setStage n generation.flight stage.flight :=
  SingleFlight.Flights.ofTables_modify h rfl

/-- A generation goes on with peaks of its version. -/
theorem Sound.setStage (h : Sound w) {stage : Stage} (hn : w.generations.lookup n = some generation)
    (hpeaks : ∀ peaks, stage.peaks = some peaks → peaks.madeFrom = generation.version)
    (hfair : ∃ events, SingleFlight.Flights.Fair events (w.setStage n stage).flights) :
    Sound (w.setStage n stage) where
  numbered m hm := by
    rw [lookup_setStage, h.numbered m hm]
    split_ifs <;> rfl
  fair := hfair
  made m other peaks hm hstage := by
    rw [lookup_setStage] at hm
    split_ifs at hm with hsame
    · subst hsame
      rw [hn] at hm
      cases hm
      exact hpeaks peaks hstage
    · exact h.made m other peaks hm hstage
  stored := h.stored
  requests id request hid := by
    refine (h.requests id request hid).later fun m other hm => ?_
    rw [lookup_setStage]
    split_ifs with hsame
    · rw [hm]
      exact ⟨_, rfl, rfl⟩
    · exact ⟨other, hm, rfl⟩

/-- A generation goes on without coming to its end. -/
theorem Sound.goOn (h : Sound w) {stage : Stage} (hn : w.generations.lookup n = some generation)
    (hstage : generation.stage.flight = .running) (hrunning : stage.flight = .running)
    (hpeaks : ∀ peaks, stage.peaks = some peaks → peaks.madeFrom = generation.version) :
    Sound (w.setStage n stage) := by
  refine h.setStage hn hpeaks ?_
  have hsame : (w.setStage n stage).flights = w.flights := by
    rw [flights_setStage hn, hrunning, ← hstage]
    exact SingleFlight.Flights.setStage_eq_self (lookup_flights hn)
  rw [hsame]
  exact h.fair

/-- A generation comes to its end. -/
theorem Sound.finish (h : Sound w) (hn : w.generations.lookup n = some generation)
    (hstage : generation.stage.flight = .running)
    (hpeaks : ∀ peaks, result = .ok peaks → peaks.madeFrom = generation.version) :
    Sound (w.setStage n (.finished result)) := by
  refine h.setStage hn ?_ ?_
  · intro peaks hsome
    cases result with
    | error error => cases hsome
    | ok made =>
      obtain rfl := Option.some.inj hsome
      exact hpeaks made rfl
  · obtain ⟨events, hfair⟩ := h.fair
    have hrunning : w.flights.flights n = some ⟨generation.track, .running⟩ := by
      rw [lookup_flights hn, Generation.flight, hstage]
    have hstep : SingleFlight.Flights.Step w.flights (.finish n result) _ := .finish hrunning
    refine ⟨events ++ [(n, result)], ?_⟩
    rw [flights_setStage hn, Generation.flight, hstage]
    exact hfair.step hstep rfl

/-- A generation leaves the list. -/
theorem Sound.leave (h : Sound w) (hn : w.generations.lookup n = some generation)
    (hstage : generation.stage = .finished result) :
    Sound { w.setStage n (.settled result) with
      inFlight := w.inFlight.erase generation.track } := by
  have hfinished : w.flights.flights n = some ⟨generation.track, .finished result⟩ := by
    rw [lookup_flights hn, Generation.flight, hstage]
    rfl
  obtain ⟨events, hfair⟩ := h.fair
  have hflights : World.flights
      { w.setStage n (.settled result) with inFlight := w.inFlight.erase generation.track } =
      { (w.setStage n (.settled result)).flights with
        listed := Function.update w.flights.listed generation.track none } :=
    SingleFlight.Flights.ofTables_erase w.inFlight _ generation.track
  have hsettled : SingleFlight.Flights.Fair events (World.flights
      { w.setStage n (.settled result) with inFlight := w.inFlight.erase generation.track }) := by
    rw [hflights, flights_setStage hn, Generation.flight, hstage]
    exact hfair.settle hfinished
  have hpeaks : ∀ peaks, (Stage.settled result).peaks = some peaks →
      peaks.madeFrom = generation.version := by
    intro peaks hsome
    refine h.made n generation peaks hn ?_
    rw [hstage]
    cases result with
    | error error => cases hsome
    | ok made => exact hsome
  exact
    { numbered := by
        intro m hm
        change (w.setStage n (.settled result)).generations.lookup m = none
        rw [lookup_setStage, h.numbered m hm]
        split_ifs <;> rfl
      fair := ⟨events, hsettled⟩
      made := by
        intro m other peaks hm hsome
        change (w.setStage n (.settled result)).generations.lookup m = some other at hm
        rw [lookup_setStage] at hm
        split_ifs at hm with hsame
        · subst hsame
          rw [hn] at hm
          cases hm
          exact hpeaks peaks hsome
        · exact h.made m other peaks hm hsome
      stored := h.stored
      requests := by
        intro id request hid
        refine (h.requests id request hid).later fun m other hm => ?_
        change ∃ _, (w.setStage n (.settled result)).generations.lookup m = _ ∧ _
        rw [lookup_setStage]
        split_ifs with hsame
        · rw [hm]
          exact ⟨_, rfl, rfl⟩
        · exact ⟨other, hm, rfl⟩ }

/-- A generation is started for the version that was looked at. -/
theorem Sound.start (h : Sound w) {track : String} (source : WaveformSource) (version : Version)
    (hfree : w.inFlight.lookup track = none) :
    Sound { w with
      inFlight := w.inFlight.insert track w.nextGeneration
      generations := w.generations.insert w.nextGeneration
        ⟨track, source.filePath, source.durationMs, version.size, version.modified, .queued⟩
      nextGeneration := w.nextGeneration + 1 } := by
  have hfresh : w.generations.lookup w.nextGeneration = none := h.numbered _ le_rfl
  obtain ⟨events, hfair⟩ := h.fair
  have hlisted : w.flights.listed track = none := hfree
  have hunknown : w.flights.flights w.nextGeneration = none :=
    SingleFlight.Flights.flights_ofTables_none hfresh
  have hstarted := hfair.start hlisted hunknown
  exact
    { numbered := by
        intro n hn
        dsimp only at hn ⊢
        rw [Table.lookup_insert_eq, if_neg (by omega)]
        exact h.numbered n (by omega)
      fair := by
        refine ⟨events, ?_⟩
        rw [World.flights, SingleFlight.Flights.ofTables_insert]
        exact hstarted
      made := by
        intro n generation peaks hn hsome
        dsimp only at hn
        rw [Table.lookup_insert_eq] at hn
        split_ifs at hn
        · cases hn
          cases hsome
        · exact h.made n generation peaks hn hsome
      stored := h.stored
      requests := by
        intro id request hid
        refine (h.requests id request hid).later fun n generation hn => ?_
        refine ⟨generation, ?_, rfl⟩
        dsimp only
        rw [Table.lookup_insert_eq, if_neg]
        · exact hn
        · rintro rfl
          rw [hfresh] at hn
          cases hn }

theorem Sound.join (h : Sound w) {id : ℕ} {track : String} {source : WaveformSource}
    {version : Version}
    (hsame : ∀ n generation, w.inFlight.lookup track = some n →
      w.generations.lookup n = some generation → generation.version = version) :
    Sound ((w.generation track source version).2.setPhase id
      (.waiting version (w.generation track source version).1)) := by
  rw [World.generation]
  cases hlisted : w.inFlight.lookup track with
  | some n =>
    refine h.setPhase fun _ => ?_
    obtain ⟨events, hfair⟩ := h.fair
    obtain ⟨stage, hflight, -⟩ := (hfair.listed track n).mp hlisted
    obtain ⟨generation, hn, -⟩ := Option.map_eq_some_iff.mp hflight
    exact ⟨generation, hn, hsame n generation hlisted hn⟩
  | none =>
    refine (h.start source version hlisted).setPhase fun _ => ?_
    exact ⟨_, AList.lookup_insert _, rfl⟩

theorem Sound.stored_step (h : Sound w) {peaks : Peaks}
    (hn : w.generations.lookup n = some generation) (hstage : generation.stage = .decoded peaks)
    (failure : Option String) : Sound (w.stored n generation peaks failure) := by
  have hmade : peaks.madeFrom = generation.version := by
    refine h.made n generation peaks hn ?_
    rw [hstage]
    rfl
  have hrunning : generation.stage.flight = .running := by
    rw [hstage]
    rfl
  cases failure with
  | some error => exact h.finish hn hrunning fun _ hok => by cases hok
  | none =>
    have hfinished : Sound (w.setStage n (.finished (.ok peaks))) :=
      h.finish hn hrunning fun made hok => by
        cases hok
        exact hmade
    exact
      { numbered := hfinished.numbered
        fair := hfinished.fair
        made := hfinished.made
        stored := by
          intro track record htrack
          change (w.records.insert generation.track _).lookup track = some record at htrack
          rw [Table.lookup_insert_eq] at htrack
          split_ifs at htrack
          · cases htrack
            exact hmade
          · exact h.stored track record htrack
        requests := fun id request hid =>
          (hfinished.requests id request hid).later fun m other hm => ⟨other, hm, rfl⟩ }

theorem Sound.receive (h : Sound w) {id n : ℕ} {track : String} {version : Version}
    (hid : w.requests.lookup id = some ⟨track, .waiting version n⟩)
    (hn : w.generations.lookup n = some generation) (hstage : generation.stage = .settled result) :
    Sound (w.setPhase id (World.received version result)) := by
  obtain ⟨other, hn', hversion⟩ := h.requests id _ hid
  rw [hn] at hn'
  cases hn'
  refine h.setPhase fun _ => ?_
  cases result with
  | error error => trivial
  | ok peaks =>
    have hmade : peaks.madeFrom = generation.version := by
      refine h.made n generation peaks hn ?_
      rw [hstage]
      rfl
    exact hmade.trans hversion

theorem Sound.step {e : Event} (h : Sound w) (hstep : CalmStep w e w') : Sound w' := by
  have hperform := hstep.perform
  cases e with
  | begin id track =>
    simp only [World.perform] at hperform
    split_ifs at hperform
    cases hperform
    refine h.outside rfl rfl rfl (fun _ _ hrecord => hrecord) fun other request hother => ?_
    dsimp only at hother
    rw [Table.lookup_insert_eq] at hother
    split_ifs at hother
    · cases hother
      trivial
    · exact h.requests other request hother
  | readSource id =>
    simp only [World.perform] at hperform
    split at hperform
    · cases hperform
      refine h.setPhase fun _ => ?_
      rw [World.sourceRead]
      split_ifs
      · split <;> trivial
      · trivial
    · cases hperform
  | stat id =>
    simp only [World.perform] at hperform
    split at hperform
    · cases hperform
      refine h.setPhase fun _ => ?_
      rw [World.fileRead]
      split <;> trivial
    · cases hperform
  | readCache id =>
    simp only [World.perform] at hperform
    split at hperform
    · rename_i track source version hid
      cases hperform
      refine h.setPhase fun _ => ?_
      rw [World.cacheRead]
      split
      · trivial
      · rename_i cached hcached
        split_ifs with hmatch
        · have hmade := h.stored track cached hcached
          rw [WaveformRecord.version, hmatch.1, hmatch.2] at hmade
          exact hmade
        · trivial
    · cases hperform
  | join id =>
    simp only [World.perform] at hperform
    split at hperform
    · rename_i track source version hid
      cases hperform
      exact h.join fun n generation hlisted hn =>
        hstep.sameVersion id track source version n generation rfl hid hlisted hn
    · cases hperform
  | receive id =>
    simp only [World.perform] at hperform
    split at hperform
    · rename_i track version n hid
      split at hperform
      · rename_i hn
        cases hperform
        exact h.receive hid hn rfl
      · cases hperform
    · cases hperform
  | giveUp id =>
    simp only [World.perform] at hperform
    split at hperform
    · cases hperform
      exact h.setPhase fun _ => trivial
    · cases hperform
  | «break» id error =>
    simp only [World.perform] at hperform
    split at hperform
    · cases hperform
      exact h.setPhase fun _ => trivial
    · cases hperform
      exact h.setPhase fun _ => trivial
    · cases hperform
      exact h.setPhase fun _ => trivial
    · cases hperform
  | cancel id =>
    cases hperform
    refine h.outside rfl rfl rfl (fun _ _ hrecord => hrecord) fun other request hother => ?_
    dsimp only at hother
    rw [Table.lookup_erase_eq] at hother
    split_ifs at hother
    exact h.requests other request hother
  | permit n =>
    simp only [World.perform] at hperform
    split at hperform
    · rename_i hn
      cases hperform
      exact h.goOn hn rfl rfl fun _ hsome => by cases hsome
    · cases hperform
  | decode n outcome =>
    simp only [World.perform] at hperform
    split at hperform
    · rename_i track path durationMs size modified hn
      obtain ⟨stage, hdecoded, rfl⟩ := Option.map_eq_some_iff.mp hperform
      cases outcome with
      | error error =>
        cases hdecoded
        exact h.finish hn rfl fun _ hok => by cases hok
      | ok bytes =>
        have hfile := hstep.unreplaced n bytes _ rfl hn
        simp only [World.decoded, hfile, Option.map_some] at hdecoded
        cases hdecoded
        refine h.goOn hn rfl rfl fun peaks hsome => ?_
        cases hsome
        rfl
    · cases hperform
  | store n failure =>
    simp only [World.perform] at hperform
    split at hperform
    · rename_i hn
      cases hperform
      exact h.stored_step hn rfl failure
    · cases hperform
  | leave n =>
    simp only [World.perform] at hperform
    split at hperform
    · rename_i hn
      cases hperform
      exact h.leave hn rfl
    · cases hperform
  | stop n error => exact absurd rfl (hstep.goes n error)
  | writeFile path version =>
    cases hperform
    exact h.outside rfl rfl rfl (fun _ _ hrecord => hrecord) h.requests
  | removeFile path =>
    cases hperform
    exact h.outside rfl rfl rfl (fun _ _ hrecord => hrecord) h.requests
  | changeSource track source =>
    cases hperform
    exact h.outside rfl rfl rfl (fun _ _ hrecord => hrecord) h.requests
  | deleteTrack track =>
    cases hperform
    refine h.outside rfl rfl rfl (fun other record hrecord => ?_) h.requests
    dsimp only at hrecord
    rw [Table.lookup_erase_eq] at hrecord
    split_ifs at hrecord
    exact hrecord

/-! ### The end of a generation -/

/-- A step at which nothing is decoded and nobody joins. -/
theorem CalmStep.of_perform {e : Event} (h : w.perform e = some w')
    (hgoes : ∀ n error, e ≠ .stop n error) (hdecode : ∀ n bytes, e ≠ .decode n (.ok bytes))
    (hjoin : ∀ id, e ≠ .join id) : CalmStep w e w' where
  perform := h
  goes := hgoes
  unreplaced n bytes _ he := absurd he (hdecode n bytes)
  sameVersion id _ _ _ _ _ he := absurd he (hjoin id)

theorem leave_frees (hn : w.generations.lookup n = some generation)
    (hstage : generation.stage = .finished result) :
    ∃ rest w', Transition.Run CalmStep w rest w' ∧
      w'.inFlight.lookup generation.track = none := by
  obtain ⟨track, path, durationMs, size, modified, stage⟩ := generation
  obtain rfl : stage = .finished result := hstage
  have hperform : w.perform (.leave n) = some { w.setStage n (.settled result) with
      inFlight := w.inFlight.erase track } := by
    simp only [World.perform, hn]
  exact ⟨[.leave n], _, .cons (.of_perform hperform nofun nofun nofun) (.nil _),
    AList.lookup_erase track _⟩

/-- A generation that decodes can fail. -/
theorem decode_frees (hn : w.generations.lookup n = some generation)
    (hstage : generation.stage = .running) :
    ∃ rest w', Transition.Run CalmStep w rest w' ∧
      w'.inFlight.lookup generation.track = none := by
  obtain ⟨track, path, durationMs, size, modified, stage⟩ := generation
  obtain rfl : stage = .running := hstage
  have hperform : w.perform (.decode n (.error "decode waveform: ffmpeg failed")) =
      some (w.setStage n (.finished (.error "decode waveform: ffmpeg failed"))) := by
    simp only [World.perform, hn, World.decoded, Option.map_some]
  obtain ⟨rest, last, hrest, hfree⟩ := leave_frees (lookup_setStage_self hn (.finished _)) rfl
  exact ⟨_, last, .cons (.of_perform hperform nofun nofun nofun) hrest, hfree⟩

theorem generation_frees (hn : w.generations.lookup n = some generation)
    (hstage : generation.stage.flight.isSettled = false) :
    ∃ rest w', Transition.Run CalmStep w rest w' ∧
      w'.inFlight.lookup generation.track = none := by
  obtain ⟨track, path, durationMs, size, modified, stage⟩ := generation
  cases stage with
  | queued =>
    have hperform : w.perform (.permit n) = some (w.setStage n .running) := by
      simp only [World.perform, hn]
    obtain ⟨rest, last, hrest, hfree⟩ := decode_frees (lookup_setStage_self hn .running) rfl
    exact ⟨_, last, .cons (.of_perform hperform nofun nofun nofun) hrest, hfree⟩
  | running => exact decode_frees hn rfl
  | decoded peaks =>
    have hperform : w.perform (.store n (some "database is locked")) =
        some (w.setStage n (.finished (.error "database is locked"))) := by
      simp only [World.perform, hn, World.stored]
    obtain ⟨rest, last, hrest, hfree⟩ := leave_frees (lookup_setStage_self hn (.finished _)) rfl
    exact ⟨_, last, .cons (.of_perform hperform nofun nofun nofun) hrest, hfree⟩
  | finished result => exact leave_frees hn rfl
  | settled result => cases hstage

theorem Sound.belongs (h : Sound w) : Belongs w := by
  obtain ⟨events, hfair⟩ := h.fair
  have hlisted : ∀ track n, w.inFlight.lookup track = some n →
      ∃ generation, w.generations.lookup n = some generation ∧ generation.track = track ∧
        generation.stage.flight.isSettled = false := by
    intro track n hn
    obtain ⟨stage, hflight, hstage⟩ := (hfair.listed track n).mp hn
    obtain ⟨generation, hgeneration, hsame⟩ := Option.map_eq_some_iff.mp hflight
    obtain ⟨htrack, rfl⟩ := SingleFlight.Flight.mk.inj hsame
    exact ⟨generation, hgeneration, htrack, hstage⟩
  exact
    { answered := fun id track version peaks hid => h.requests id _ hid
      stored := h.stored
      alone := by
        intro n m first second hfirst hsecond hstage hstage' htrack
        have hn := lookup_flights hfirst
        have hm := lookup_flights hsecond
        rw [Generation.flight, htrack] at hn
        exact hfair.alone hn hstage hm hstage'
      listed := hlisted
      frees := by
        intro track n hn
        obtain ⟨generation, hgeneration, rfl, hstage⟩ := hlisted track n hn
        exact generation_frees hgeneration hstage }

end Steps

/-! ### Runs -/

/-- Some run of calm steps leads here. -/
def ReachableCalmly (w : World) : Prop := Transition.Reachable Init CalmStep w

/-- Where generations decode the version they were started for and are joined for it, and no
task ends where it is, every waveform belongs to the file it is answered for. -/
theorem waveforms_belong {w : World} (h : ReachableCalmly w) : Belongs w := by
  have hsound : Sound w := by
    refine Transition.Reachable.invariant ?_ ?_ h
    · intro start hinit
      exact Init.sound hinit
    · intro s e t hs hstep
      exact hs.step hstep
  exact hsound.belongs

section Sample

def isCalm (w : World) : Event → Bool
  | .stop _ _ => false
  | .decode n (.ok _) =>
    (w.generations.lookup n).all fun generation =>
      w.files.lookup generation.path = some generation.version
  | .join id =>
    match w.requests.lookup id with
    | some ⟨track, .missed _ version⟩ =>
      ((w.inFlight.lookup track).bind w.generations.lookup).all fun generation =>
        generation.version = version
    | _ => true
  | _ => true

theorem CalmStep.of_isCalm {w w' : World} {e : Event} (h : w.perform e = some w')
    (hcalm : isCalm w e = true) : CalmStep w e w' where
  perform := h
  goes n error he := by
    subst he
    cases hcalm
  unreplaced n bytes generation he hn := by
    subst he
    rw [isCalm, hn, Option.all_some] at hcalm
    exact of_decide_eq_true hcalm
  sameVersion id track source version n generation he hid hlisted hn := by
    subst he
    simp only [isCalm, hid, hlisted, Option.bind_some, hn, Option.all_some] at hcalm
    exact of_decide_eq_true hcalm

def performCalmly (w : World) (e : Event) : Option World :=
  if isCalm w e then w.perform e else none

theorem run_of_performCalmly {w w' : World} {events : List Event}
    (h : events.foldlM performCalmly w = some w') : Transition.Run CalmStep w events w' :=
  (Transition.Run.of_guarded h).mono fun _ _ _ hstep => .of_isCalm hstep.2 hstep.1

def path : String := "/music/awake.flac"

/-- One Track whose waveform nobody has asked for. -/
def start : World where
  available := true
  sources := AList.insert "awake" ⟨path, 200000⟩ ∅
  files := AList.insert path ⟨1000, 10⟩ ∅
  records := ∅
  inFlight := ∅
  nextGeneration := 0
  generations := ∅
  requests := ∅

theorem start_init : Init start where
  inFlight := rfl
  generations := rfl
  requests := rfl
  stored track record h := by cases h

def arrive (id : ℕ) : List Event :=
  [.begin id "awake", .readSource id, .stat id, .readCache id, .join id]

def generate (n : ℕ) : List Event :=
  [.permit n, .decode n (.ok [1, 2, 3]), .store n none, .leave n]

def shared : List Event := arrive 0 ++ arrive 1 ++ generate 0 ++ [.receive 0, .receive 1]

theorem shared_evaluates : (shared.foldlM performCalmly start).any (fun w =>
      (w.requests.lookup 1).map (·.phase) =
        some (.answered ⟨1000, 10⟩ ⟨[1, 2, 3], ⟨1000, 10⟩⟩)) = true := by
  decide +kernel

/-- Two requests share a generation. -/
theorem shared_generation_belongs : ∃ w, Belongs w ∧ (w.requests.lookup 1).map (·.phase) =
    some (.answered ⟨1000, 10⟩ ⟨[1, 2, 3], ⟨1000, 10⟩⟩) := by
  obtain ⟨w, hw, hanswered⟩ := Option.any_eq_true _ _ |>.mp shared_evaluates
  exact ⟨w, waveforms_belong ⟨start, _, start_init, run_of_performCalmly hw⟩,
    of_decide_eq_true hanswered⟩

/-- The file is replaced before a generation of it decodes. -/
def replaced : List Event :=
  arrive 0 ++ [.writeFile path ⟨2000, 20⟩] ++ generate 0 ++ [.receive 0]

theorem replaced_evaluates : (replaced.foldlM World.perform start).any (fun w =>
    w.records.lookup "awake" = some ⟨⟨[1, 2, 3], ⟨2000, 20⟩⟩, 1000, 10⟩) = true := by
  decide +kernel

/-- Peaks of the new file are stored for the old one. -/
theorem replaced_file_misleads : ¬∀ w,
    Transition.Reachable Init (fun w e w' => w.perform e = some w') w → Belongs w := by
  intro h
  obtain ⟨w, hw, hrecord⟩ := Option.any_eq_true _ _ |>.mp replaced_evaluates
  have hbelongs := h w ⟨start, _, start_init, Transition.Run.of_option hw⟩
  have hmade := hbelongs.stored "awake" _ (of_decide_eq_true hrecord)
  exact absurd hmade (by decide)

end Sample

end Harmony.Waveform
