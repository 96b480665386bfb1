/-
# Lyrics

A Track's lyrics are the file's own, else what a lookup stored, else what a lookup finds
now. A request reads the stored row before it waits for its turn to ask, and records the
result after its turn is over. Each step of a request is one read or write of the
database, one taking of the turn or one answer.

What was answered is kept in a log that no step reads.
-/

import Harmony.Library.Chars
import Harmony.Library.Table
import Harmony.Library.Transition

namespace Harmony.Lyrics

/-! ### What is stored -/

/-- How the last lookup ended. -/
inductive Outcome
  | found
  | missing
  | failed

def Outcome.asStr : Outcome → String
  | .found => "found"
  | .missing => "missing"
  | .failed => "failed"

def Outcome.parse (text : String) : Outcome :=
  if text = "found" then .found else if text = "missing" then .missing else .failed

/-- A row of `track_online_lyrics`. -/
structure Row where
  outcome : String
  lyrics : Option String
  /-- Unix seconds. -/
  checkedAt : ℤ
  deriving DecidableEq

structure Stored where
  outcome : Outcome
  lyrics : String
  ageSeconds : ℤ

def Row.read (now : ℤ) (row : Row) : Stored where
  outcome := .parse row.outcome
  lyrics := row.lyrics.getD ""
  ageSeconds := now - row.checkedAt

/-- The stored text, which is empty when there is none. -/
def textOf (row : Option Row) : String := (row.bind Row.lyrics).getD ""

/-! ### When to ask again -/

def missingRetrySeconds : ℤ := 3 * 24 * 60 * 60
def failedRetrySeconds : ℤ := 5 * 60
/-- Milliseconds between the starts of two lookups. -/
def requestGap : ℕ := 300

def isDue (outcome : Outcome) (ageSeconds : ℤ) (plain : Bool) : Bool :=
  match outcome with
  | .found => if plain then missingRetrySeconds ≤ ageSeconds else false
  | .missing => missingRetrySeconds ≤ ageSeconds
  | .failed => failedRetrySeconds ≤ ageSeconds

/-- Whether a line begins with a timestamp. -/
def isSynced (text : String) : Bool :=
  (text.toList.splitOnP (· = '\n')).any fun line =>
    match line.dropWhile Chars.isWhitespace with
    | '[' :: first :: _ => first.isDigit
    | _ => false

def isBlank (text : String) : Bool := text.toList.all Chars.isWhitespace

/-- Lyrics without timestamps. -/
def isPlain (text : String) : Bool := !isBlank text && !isSynced text

def Stored.isDue (stored : Stored) : Bool :=
  Lyrics.isDue stored.outcome stored.ageSeconds (isPlain stored.lyrics)

/-! ### The state -/

/-- What the library knows of a Track. -/
structure Track where
  /-- The file's own. -/
  lyrics : String
  title : String
  /-- The names of the credited Artists. -/
  artists : List String
  artistName : String
  albumTitle : String
  durationMs : ℤ
  /-- Whether the library's view lists it. -/
  visible : Bool

structure Query where
  title : String
  artist : String
  album : String
  durationSeconds : ℤ

/-- The first credited Artist: one name is matched, not several. -/
def Query.ofTrack (track : Track) : Query where
  title := track.title
  artist := track.artists.head?.getD track.artistName
  album := track.albumTitle
  durationSeconds := (track.durationMs + 500).tdiv 1000

inductive Found
  | lyrics (text : String)
  | instrumental

inductive LyricsError
  | notFound
  | repository (message : String)
  | library (message : String)

/-- Where a request is. -/
inductive Phase
  | begun
  /-- The file has no lyrics. -/
  | fileRead
  | due (stored : Option Stored)
  | waiting (stored : Option Stored) (query : Query)
  /-- It is this request's turn, once the gap is over. -/
  | locked (stored : Option Stored) (query : Query)
  | asking (stored : Option Stored) (query : Query)
  | answered (stored : Option Stored) (found : Except String (Option Found))
  | returned (text : String)
  | failed (error : LyricsError)

/-- Holds `last_request`. -/
def Phase.hasTurn : Phase → Bool
  | .locked _ _ | .asking _ _ => true
  | _ => false

/-- What the request read of the stored row, while it looks up. -/
def Phase.snapshot : Phase → Option (Option Stored)
  | .due stored | .waiting stored _ | .locked stored _ | .asking stored _ | .answered stored _ =>
    some stored
  | _ => none

structure Request where
  track : String
  phase : Phase
  /-- How many answers there were when it began to wait. -/
  since : ℕ

/-- What a lookup came to. -/
structure Answer where
  number : ℕ
  track : String
  outcome : Outcome
  lyrics : String
  answeredAt : ℤ

def Answer.isDue (answer : Answer) (now : ℤ) : Bool :=
  Lyrics.isDue answer.outcome (now - answer.answeredAt) (isPlain answer.lyrics)

structure World where
  now : ℤ
  /-- Milliseconds of a clock that only moves on. -/
  instant : ℕ
  enabled : Bool
  tracks : Table String Track
  rows : Table String Row
  lastRequest : Option ℕ
  requests : Table ℕ Request
  /-- The log. -/
  answers : List Answer

inductive Event
  | begin (id : ℕ) (track : String)
  | readFile (id : ℕ)
  | readRow (id : ℕ)
  | readTrack (id : ℕ)
  | lock (id : ℕ)
  | ask (id : ℕ)
  | answer (id : ℕ) (found : Except String (Option Found))
  | put (id : ℕ)
  /-- The database fails the request. -/
  | dbError (id : ℕ) (error : LyricsError)
  /-- The client goes away. -/
  | cancel (id : ℕ)
  /-- The clocks go on, and the wall clock may be set. -/
  | clock (now : ℤ) (passed : ℕ)
  | changeTrack (id : String) (track : Track)
  /-- Its row goes with it. -/
  | deleteTrack (id : String)

/-! ### The steps of a request -/

/-- What a lookup's answer is stored as. A failed one keeps what was read as stored. -/
def resultOf (stored : Option Stored) : Except String (Option Found) → Outcome × String
  | .ok (some (.lyrics text)) => (.found, text)
  | .ok (some .instrumental) => (.found, "")
  | .ok none => (.missing, "")
  | .error _ => (.failed, (stored.map (·.lyrics)).getD "")

namespace World

def setPhase (w : World) (id : ℕ) (phase : Phase) : World :=
  { w with requests := w.requests.modify id fun request => { request with phase } }

def hasTurn (w : World) : Bool := w.requests.any fun _ request => request.phase.hasTurn

def fileRead (w : World) (track : String) : Phase :=
  match w.tracks.lookup track with
  | none => .failed .notFound
  | some row => if isBlank row.lyrics then .fileRead else .returned row.lyrics

def rowRead (w : World) (track : String) : Phase :=
  let stored := (w.rows.lookup track).map (·.read w.now)
  let due := match stored with
    | none => true
    | some stored => stored.isDue
  if !w.enabled || !due then .returned ((stored.map (·.lyrics)).getD "") else .due stored

def trackRead (w : World) (stored : Option Stored) (track : String) : Phase :=
  match (w.tracks.lookup track).filter (·.visible) with
  | none => .failed .notFound
  | some row => .waiting stored (.ofTrack row)

/-- The row needs its Track. -/
def putRow (w : World) (id : ℕ) (track : String) (result : Outcome × String) : World :=
  if track ∈ w.tracks then
    { w.setPhase id (.returned result.2) with
      rows := w.rows.insert track ⟨result.1.asStr, some result.2, w.now⟩ }
  else w.setPhase id (.failed (.repository "FOREIGN KEY constraint failed"))

def logAnswer (w : World) (track : String) (result : Outcome × String) : World :=
  { w with answers := ⟨w.answers.length, track, result.1, result.2, w.now⟩ :: w.answers }

/-- The step from a state in which it can be made. -/
def perform (w : World) : Event → Option World
  | .begin id track =>
    if id ∈ w.requests then none
    else some { w with requests := w.requests.insert id ⟨track, .begun, 0⟩ }
  | .readFile id =>
    match w.requests.lookup id with
    | some ⟨track, .begun, _⟩ => some (w.setPhase id (w.fileRead track))
    | _ => none
  | .readRow id =>
    match w.requests.lookup id with
    | some ⟨track, .fileRead, _⟩ => some (w.setPhase id (w.rowRead track))
    | _ => none
  | .readTrack id =>
    match w.requests.lookup id with
    | some ⟨track, .due stored, _⟩ =>
      some { w with
        requests := w.requests.insert id ⟨track, w.trackRead stored track, w.answers.length⟩ }
    | _ => none
  | .lock id =>
    match w.requests.lookup id with
    | some ⟨_, .waiting stored query, _⟩ =>
      if w.hasTurn then none else some (w.setPhase id (.locked stored query))
    | _ => none
  | .ask id =>
    match w.requests.lookup id with
    | some ⟨_, .locked stored query, _⟩ =>
      if w.lastRequest.all (· + requestGap ≤ w.instant) then
        some { w.setPhase id (.asking stored query) with lastRequest := some w.instant }
      else none
    | _ => none
  | .answer id found =>
    match w.requests.lookup id with
    | some ⟨track, .asking stored _, _⟩ =>
      some ((w.logAnswer track (resultOf stored found)).setPhase id (.answered stored found))
    | _ => none
  | .put id =>
    match w.requests.lookup id with
    | some ⟨track, .answered stored found, _⟩ =>
      some (w.putRow id track (resultOf stored found))
    | _ => none
  | .dbError id error =>
    match w.requests.lookup id with
    | some ⟨_, .begun, _⟩ | some ⟨_, .fileRead, _⟩ | some ⟨_, .due _, _⟩
    | some ⟨_, .answered _ _, _⟩ => some (w.setPhase id (.failed error))
    | _ => none
  | .cancel id => some { w with requests := w.requests.erase id }
  | .clock now passed => some { w with now, instant := w.instant + passed }
  | .changeTrack id track => some { w with tracks := w.tracks.insert id track }
  | .deleteTrack id => some { w with tracks := w.tracks.erase id, rows := w.rows.erase id }

end World

end Harmony.Lyrics
