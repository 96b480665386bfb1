/-
# Waveforms

A request looks at its Track's file, answers with the stored peaks when they are of that
file, and else joins the generation that runs for the Track or starts one. A generation
reads the file on its own, stores what it made and leaves the list.

A file's version is its size and the time of its last change. Peaks carry the version
they were made from, which no step reads.
-/

import Harmony.Library.SingleFlight

namespace Harmony.Waveform

/-- A file as the file system shows it. -/
structure Version where
  size : ℤ
  modified : ℤ
  deriving DecidableEq

structure Peaks where
  bytes : List UInt8
  madeFrom : Version
  deriving DecidableEq

/-- A row of `track_waveforms`. -/
structure WaveformRecord where
  peaks : Peaks
  sourceSizeBytes : ℤ
  sourceModifiedAt : ℤ
  deriving DecidableEq

def WaveformRecord.version (record : WaveformRecord) : Version :=
  ⟨record.sourceSizeBytes, record.sourceModifiedAt⟩

/-- What the library knows of a Track. -/
structure WaveformSource where
  filePath : String
  durationMs : ℤ
  deriving DecidableEq

inductive WaveformError
  | unavailable
  | pending
  | notFound
  | library (message : String)
  | generation (message : String)
  deriving DecidableEq

/-- Where a request is. -/
inductive Phase
  | begun
  | sourced (source : WaveformSource)
  | statted (source : WaveformSource) (version : Version)
  /-- The stored peaks are of another version. -/
  | missed (source : WaveformSource) (version : Version)
  | waiting (version : Version) (n : ℕ)
  | answered (version : Version) (peaks : Peaks)
  | failed (error : WaveformError)
  deriving DecidableEq

structure Request where
  track : String
  phase : Phase

/-- How far a generation is. -/
inductive Stage
  /-- It waits for a permit. -/
  | queued
  | running
  | decoded (peaks : Peaks)
  | finished (result : Except String Peaks)
  /-- Whoever waits for it goes on. -/
  | settled (result : Except String Peaks)

structure Generation where
  track : String
  path : String
  durationMs : ℤ
  size : ℤ
  modified : ℤ
  stage : Stage

def Generation.version (generation : Generation) : Version := ⟨generation.size, generation.modified⟩

structure World where
  /-- Whether ffmpeg is there. -/
  available : Bool
  sources : Table String WaveformSource
  files : Table String Version
  records : Table String WaveformRecord
  inFlight : Table String ℕ
  nextGeneration : ℕ
  generations : Table ℕ Generation
  requests : Table ℕ Request

inductive Event
  | begin (id : ℕ) (track : String)
  | readSource (id : ℕ)
  | stat (id : ℕ)
  | readCache (id : ℕ)
  | join (id : ℕ)
  | receive (id : ℕ)
  /-- The generation outlasts the request. -/
  | giveUp (id : ℕ)
  /-- The database or the file system fails the request. -/
  | break (id : ℕ) (error : WaveformError)
  /-- The client goes away. -/
  | cancel (id : ℕ)
  | permit (n : ℕ)
  | decode (n : ℕ) (outcome : Except String (List UInt8))
  | store (n : ℕ) (failure : Option String)
  | leave (n : ℕ)
  /-- The task ends where it is. -/
  | stop (n : ℕ) (error : String)
  | writeFile (path : String) (version : Version)
  | removeFile (path : String)
  | changeSource (track : String) (source : WaveformSource)
  /-- Its record goes with it. -/
  | deleteTrack (track : String)

namespace World

def setPhase (w : World) (id : ℕ) (phase : Phase) : World :=
  { w with requests := w.requests.modify id fun request => { request with phase } }

def setStage (w : World) (n : ℕ) (stage : Stage) : World :=
  { w with generations := w.generations.modify n fun generation => { generation with stage } }

def sourceRead (w : World) (track : String) : Phase :=
  if w.available then
    match w.sources.lookup track with
    | none => .failed .notFound
    | some source => .sourced source
  else .failed .unavailable

def fileRead (w : World) (source : WaveformSource) : Phase :=
  match w.files.lookup source.filePath with
  | none => .failed .notFound
  | some version => .statted source version

def cacheRead (w : World) (track : String) (source : WaveformSource) (version : Version) : Phase :=
  match w.records.lookup track with
  | none => .missed source version
  | some cached =>
    if cached.sourceSizeBytes = version.size ∧ cached.sourceModifiedAt = version.modified then
      .answered version cached.peaks
    else .missed source version

/-- The generation running for the Track, starting one if none is. -/
def generation (w : World) (track : String) (source : WaveformSource) (version : Version) :
    ℕ × World :=
  match w.inFlight.lookup track with
  | some existing => (existing, w)
  | none => (w.nextGeneration,
      { w with
        inFlight := w.inFlight.insert track w.nextGeneration
        generations := w.generations.insert w.nextGeneration
          ⟨track, source.filePath, source.durationMs, version.size, version.modified, .queued⟩
        nextGeneration := w.nextGeneration + 1 })

def received (version : Version) : Except String Peaks → Phase
  | .ok peaks => .answered version peaks
  | .error error => .failed (.generation error)

/-- What ffmpeg made of the file that is there when it reads it. -/
def decoded (w : World) (path : String) : Except String (List UInt8) → Option Stage
  | .ok bytes => (w.files.lookup path).map fun version => .decoded ⟨bytes, version⟩
  | .error error => some (.finished (.error error))

def stored (w : World) (n : ℕ) (generation : Generation) (peaks : Peaks) :
    Option String → World
  | none =>
    { w.setStage n (.finished (.ok peaks)) with
      records := w.records.insert generation.track
        ⟨peaks, generation.size, generation.modified⟩ }
  | some error => w.setStage n (.finished (.error error))

/-- The step from a state in which it can be made. -/
def perform (w : World) : Event → Option World
  | .begin id track =>
    if id ∈ w.requests then none
    else some { w with requests := w.requests.insert id ⟨track, .begun⟩ }
  | .readSource id =>
    match w.requests.lookup id with
    | some ⟨track, .begun⟩ => some (w.setPhase id (w.sourceRead track))
    | _ => none
  | .stat id =>
    match w.requests.lookup id with
    | some ⟨_, .sourced source⟩ => some (w.setPhase id (w.fileRead source))
    | _ => none
  | .readCache id =>
    match w.requests.lookup id with
    | some ⟨track, .statted source version⟩ =>
      some (w.setPhase id (w.cacheRead track source version))
    | _ => none
  | .join id =>
    match w.requests.lookup id with
    | some ⟨track, .missed source version⟩ =>
      let (n, w') := w.generation track source version
      some (w'.setPhase id (.waiting version n))
    | _ => none
  | .receive id =>
    match w.requests.lookup id with
    | some ⟨_, .waiting version n⟩ =>
      match w.generations.lookup n with
      | some ⟨_, _, _, _, _, .settled result⟩ => some (w.setPhase id (received version result))
      | _ => none
    | _ => none
  | .giveUp id =>
    match w.requests.lookup id with
    | some ⟨_, .waiting _ _⟩ => some (w.setPhase id (.failed .pending))
    | _ => none
  | .break id error =>
    match w.requests.lookup id with
    | some ⟨_, .begun⟩ | some ⟨_, .sourced _⟩ | some ⟨_, .statted _ _⟩ =>
      some (w.setPhase id (.failed error))
    | _ => none
  | .cancel id => some { w with requests := w.requests.erase id }
  | .permit n =>
    match w.generations.lookup n with
    | some ⟨_, _, _, _, _, .queued⟩ => some (w.setStage n .running)
    | _ => none
  | .decode n outcome =>
    match w.generations.lookup n with
    | some ⟨_, path, _, _, _, .running⟩ => (w.decoded path outcome).map (w.setStage n ·)
    | _ => none
  | .store n failure =>
    match w.generations.lookup n with
    | some ⟨track, path, durationMs, size, modified, .decoded peaks⟩ =>
      some (w.stored n ⟨track, path, durationMs, size, modified, .decoded peaks⟩ peaks failure)
    | _ => none
  | .leave n =>
    match w.generations.lookup n with
    | some ⟨track, _, _, _, _, .finished result⟩ =>
      some { w.setStage n (.settled result) with inFlight := w.inFlight.erase track }
    | _ => none
  | .stop n error =>
    match w.generations.lookup n with
    | some ⟨_, _, _, _, _, .settled _⟩ | none => none
    | some _ => some (w.setStage n (.settled (.error s!"waveform generation stopped: {error}")))
  | .writeFile path version => some { w with files := w.files.insert path version }
  | .removeFile path => some { w with files := w.files.erase path }
  | .changeSource track source => some { w with sources := w.sources.insert track source }
  | .deleteTrack track =>
    some { w with sources := w.sources.erase track, records := w.records.erase track }

end World

end Harmony.Waveform
