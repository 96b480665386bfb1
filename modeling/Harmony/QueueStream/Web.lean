/-
# The web client's reader of the queue stream

The reader turns the line ends of each chunk into line feeds before it adds the chunk to
what it has. A carriage return at the end of one chunk and the line feed at the beginning
of the next are never seen together: the return stays, and the line is not what it was.
Cut anywhere else, a stream is read as in one piece.
-/

import Harmony.Library.Blocks
import Harmony.Library.Json

namespace Harmony.QueueStream.Web

open Blocks

/-! ### The text of a stream -/

/-- A decoder of bytes that is fed as they come in: what it emits and keeps depends on
the bytes so far. -/
structure TextDecoder where
  State : Type
  start : State
  step : State → UInt8 → State × List Char

def TextDecoder.decode (decoder : TextDecoder) :
    decoder.State → List UInt8 → decoder.State × List Char
  | state, [] => (state, [])
  | state, byte :: bytes =>
    let first := decoder.step state byte
    let rest := decoder.decode first.1 bytes
    (rest.1, first.2 ++ rest.2)

/-- The text that each chunk adds. -/
def TextDecoder.texts (decoder : TextDecoder) :
    decoder.State → List (List UInt8) → List (List Char)
  | _, [] => []
  | state, chunk :: chunks =>
    let decoded := decoder.decode state chunk
    decoded.2 :: decoder.texts decoded.1 chunks

/-- `replaceAll("\r\n", "\n")`. -/
def replaceLineEnds : List Char → List Char
  | '\r' :: '\n' :: rest => '\n' :: replaceLineEnds rest
  | c :: rest => c :: replaceLineEnds rest
  | [] => []

/-! ### Decoding a frame -/

structure Fields where
  id : List Char
  name : List Char
  data : List (List Char)

def Fields.addLine (fields : Fields) (line : List Char) : Fields :=
  if "id: ".toList.isPrefixOf line then { fields with id := line.drop 4 }
  else if "event: ".toList.isPrefixOf line then { fields with name := line.drop 7 }
  else if "data: ".toList.isPrefixOf line then { fields with data := fields.data ++ [line.drop 6] }
  else fields

def readFields (frame : List Char) : Fields :=
  (frame.splitOn '\n').foldl Fields.addLine ⟨[], [], []⟩

variable (lastEventId : Option String) {text : List Char}

section Reader

-- `JSON.parse`, with the message of what it throws.
variable {ν : Type} (parse : List Char → Except String (Json ν))

def isDigits (text : String) : Bool := !text.isEmpty && text.toList.all Char.isDigit

def isQueue : Json ν → Bool
  | .string value => value == "queue"
  | _ => false

def isQueueEvent (event : Json ν) : Bool :=
  match event with
  | .object members =>
    match Json.member "revision" members, Json.member "sequence" members,
        Json.member "invalidates" members with
    | some (.string _), some (.string sequence), some (.array invalidates) =>
      isDigits sequence && invalidates.all isQueue
    | _, _, _ => false
  | _ => false

def parseQueueEvent (data : List Char) : Except String (Json ν) :=
  match parse data with
  | .error error => .error error
  | .ok event =>
    if isQueueEvent event then .ok event else .error "Queue event has an invalid payload"

def decodeQueueEventFrame (frame : List Char) : Except String (Option (String × Json ν)) :=
  let fields := readFields frame
  if fields.id = [] ∨ fields.name ≠ "queue-invalidated".toList then .ok none
  else (parseQueueEvent parse (['\n'].intercalate fields.data)).map fun event =>
    some (String.ofList fields.id, event)

/-! ### Reading a stream -/

/-- What the reader has called `onEvent` with, and what it returns or throws. -/
structure Read (ν α : Type) where
  events : List (Json ν)
  result : Except String α

/-- The loop over the frames of the buffer. -/
def takeFrames (lastEventId : Option String) (buffer : List Char) :
    Read ν (Option String × List Char) :=
  match _hend : blockEnd '\n' buffer with
  | none => ⟨[], .ok (lastEventId, buffer)⟩
  | some frameEnd =>
    let rest := buffer.drop (frameEnd + 2)
    match decodeQueueEventFrame parse (buffer.take frameEnd) with
    | .error error => ⟨[], .error error⟩
    | .ok none => takeFrames lastEventId rest
    | .ok (some (id, event)) =>
      let taken := takeFrames (some id) rest
      ⟨event :: taken.events, taken.result⟩
termination_by buffer.length
decreasing_by
  all_goals
    have hle := blockEnd_lt ‹blockEnd '\n' buffer = some frameEnd›
    rw [List.length_drop]
    omega

/-- The loop over what arrives, up to the end of the stream. -/
def readTexts : Option String → List Char → List (List Char) → Read ν (Option String)
  | lastEventId, _, [] => ⟨[], .ok lastEventId⟩
  | lastEventId, buffer, text :: texts =>
    let taken := takeFrames parse lastEventId (buffer ++ replaceLineEnds text)
    match taken.result with
    | .error error => ⟨taken.events, .error error⟩
    | .ok (lastEventId', buffer') =>
      let read := readTexts lastEventId' buffer' texts
      ⟨taken.events ++ read.events, read.result⟩

structure Response where
  ok : Bool
  status : ℕ
  /-- The chunks as they arrive. -/
  body : Option (List (List UInt8))

def readQueueEventStream (decoder : TextDecoder) (response : Response)
    (lastEventId : Option String) : Read ν (Option String) :=
  match response.ok, response.body with
  | true, some chunks => readTexts parse lastEventId [] (decoder.texts decoder.start chunks)
  | _, _ =>
    let status := response.status
    ⟨[], .error s!"Queue event stream returned HTTP {status}"⟩

/-! ### What the frames of a stream say -/

/-- The frames in turn, up to the first one that throws. -/
def readFrames : Option String → List (List Char) → Read ν (Option String)
  | lastEventId, [] => ⟨[], .ok lastEventId⟩
  | lastEventId, frame :: frames =>
    match decodeQueueEventFrame parse frame with
    | .error error => ⟨[], .error error⟩
    | .ok none => readFrames lastEventId frames
    | .ok (some (id, event)) =>
      let read := readFrames (some id) frames
      ⟨event :: read.events, read.result⟩

variable {parse}

/-- What the loop reads are the blocks of the buffer, and it keeps the rest. -/
theorem takeFrames_eq (buffer : List Char) :
    takeFrames parse lastEventId buffer =
      ⟨(readFrames parse lastEventId (blocks '\n' buffer).1).events,
        (readFrames parse lastEventId (blocks '\n' buffer).1).result.map fun last =>
          (last, (blocks '\n' buffer).2)⟩ := by
  fun_induction takeFrames parse lastEventId buffer with
  | case1 lastEventId buffer hend =>
    rw [blocks_eq, hend]
    rfl
  | case2 lastEventId buffer frameEnd hend error hdecode =>
    rw [blocks_eq, hend]
    simp only [readFrames, hdecode]
    rfl
  | case3 lastEventId buffer frameEnd hend rest hdecode ih =>
    rw [blocks_eq, hend]
    simp only [readFrames, hdecode]
    exact ih
  | case4 lastEventId buffer frameEnd hend rest id event hdecode taken ih =>
    rw [blocks_eq, hend]
    simp only [readFrames, hdecode]
    rw [show taken = takeFrames parse (some id) rest from rfl, ih]

theorem readFrames_append (frames later : List (List Char)) :
    readFrames parse lastEventId (frames ++ later) =
      match (readFrames parse lastEventId frames).result with
      | .error error => ⟨(readFrames parse lastEventId frames).events, .error error⟩
      | .ok last =>
        ⟨(readFrames parse lastEventId frames).events ++ (readFrames parse last later).events,
          (readFrames parse last later).result⟩ := by
  induction frames generalizing lastEventId with
  | nil => rfl
  | cons frame frames ih =>
    rw [List.cons_append, readFrames, readFrames]
    cases hdecode : decodeQueueEventFrame parse frame with
    | error error => rfl
    | ok decoded =>
      cases decoded with
      | none => exact ih lastEventId
      | some decoded =>
        simp only [ih (some decoded.1)]
        cases (readFrames parse (some decoded.1) frames).result <;> rfl

/-- However the text comes in, the frames that are read are those of the texts with their
line ends replaced, one text at a time. -/
theorem readTexts_eq (buffer : List Char) (texts : List (List Char))
    (hbuffer : (blocks '\n' buffer).1 = []) :
    readTexts parse lastEventId buffer texts =
      readFrames parse lastEventId
        (blocks '\n' (buffer ++ texts.flatMap replaceLineEnds)).1 := by
  induction texts generalizing lastEventId buffer with
  | nil =>
    rw [List.flatMap_nil, List.append_nil, hbuffer]
    rfl
  | cons text texts ih =>
    rw [readTexts, List.flatMap_cons, ← List.append_assoc, blocks_append, readFrames_append,
      takeFrames_eq]
    cases (readFrames parse lastEventId
        (blocks '\n' (buffer ++ replaceLineEnds text)).1).result with
    | error error => rfl
    | ok last =>
      simp only [Except.map]
      rw [ih last _ blocks_left]

end Reader

/-! ### Line ends that come in whole -/

/-- No carriage return is parted from the line feed after it. -/
def KeepsLineEnds : List (List Char) → Prop
  | [] => True
  | text :: texts =>
    ¬(text.getLast? = some '\r' ∧ texts.flatten.head? = some '\n') ∧ KeepsLineEnds texts

theorem replaceLineEnds_cons {c : Char} {rest : List Char}
    (h : ¬(c = '\r' ∧ rest.head? = some '\n')) :
    replaceLineEnds (c :: rest) = c :: replaceLineEnds rest := by
  rw [replaceLineEnds.eq_def]
  split
  · rename_i heq
    obtain ⟨rfl, rfl⟩ := List.cons.inj heq
    exact absurd ⟨rfl, rfl⟩ h
  · rename_i heq
    obtain ⟨rfl, rfl⟩ := List.cons.inj heq
    rfl
  · rename_i heq
    cases heq

theorem replaceLineEnds_append {first second : List Char}
    (h : ¬(first.getLast? = some '\r' ∧ second.head? = some '\n')) :
    replaceLineEnds (first ++ second) = replaceLineEnds first ++ replaceLineEnds second := by
  fun_induction replaceLineEnds first with
  | case1 rest ih =>
    have hrest : ¬(rest.getLast? = some '\r' ∧ second.head? = some '\n') := by
      rintro ⟨hlast, hsecond⟩
      refine h ⟨?_, hsecond⟩
      rw [List.getLast?_cons_of_ne_nil (List.cons_ne_nil _ _), List.getLast?_cons, hlast]
      rfl
    rw [List.cons_append, List.cons_append, replaceLineEnds, ih hrest]
    rfl
  | case2 c rest hne ih =>
    have hrest : ¬(rest.getLast? = some '\r' ∧ second.head? = some '\n') := by
      rintro ⟨hlast, hsecond⟩
      refine h ⟨?_, hsecond⟩
      rw [List.getLast?_cons, hlast]
      rfl
    have hpair : ¬(c = '\r' ∧ (rest ++ second).head? = some '\n') := by
      rintro ⟨rfl, hhead⟩
      cases rest with
      | nil => exact h ⟨rfl, hhead⟩
      | cons d rest =>
        cases hhead
        exact hne rest rfl rfl
    rw [List.cons_append, replaceLineEnds_cons hpair, ih hrest]
    rfl
  | case3 => rfl

/-- A text that ends in a line feed still does. -/
theorem getLast_replaceLineEnds (h : text.getLast? = some '\n') :
    (replaceLineEnds text).getLast? = some '\n' := by
  fun_induction replaceLineEnds text with
  | case1 rest ih =>
    cases rest with
    | nil => rfl
    | cons c rest =>
      rw [List.getLast?_cons_cons, List.getLast?_cons_cons] at h
      rw [List.getLast?_cons, ih h]
      rfl
  | case2 c rest hne ih =>
    cases rest with
    | nil => exact h
    | cons d rest =>
      rw [List.getLast?_cons_cons] at h
      rw [List.getLast?_cons, ih h]
      rfl
  | case3 => cases h

/-- Replaced text by text, the line ends are those of the whole. -/
theorem flatMap_replaceLineEnds {texts : List (List Char)} (h : KeepsLineEnds texts) :
    texts.flatMap replaceLineEnds = replaceLineEnds texts.flatten := by
  induction texts with
  | nil => rfl
  | cons text texts ih =>
    obtain ⟨htext, htexts⟩ := h
    rw [List.flatMap_cons, ih htexts, List.flatten_cons, replaceLineEnds_append htext]

/-! ### The bytes of a stream -/

theorem TextDecoder.decode_append (decoder : TextDecoder) (state : decoder.State)
    (first second : List UInt8) :
    decoder.decode state (first ++ second) =
      ((decoder.decode (decoder.decode state first).1 second).1,
        (decoder.decode state first).2 ++
        (decoder.decode (decoder.decode state first).1 second).2) := by
  induction first generalizing state with
  | nil => rfl
  | cons byte first ih =>
    rw [List.cons_append, decode, decode, ih]
    simp only [List.append_assoc]

/-- The texts of the chunks are the text of all of them. -/
theorem TextDecoder.flatten_texts (decoder : TextDecoder) (state : decoder.State)
    (chunks : List (List UInt8)) :
    (decoder.texts state chunks).flatten = (decoder.decode state chunks.flatten).2 := by
  induction chunks generalizing state with
  | nil => rfl
  | cons chunk chunks ih =>
    rw [texts, List.flatten_cons, List.flatten_cons, ih, decode_append]

/-! ### However the stream is cut -/

section Cuts

variable {ν : Type} {parse : List Char → Except String (Json ν)}

theorem readTexts_of_keepsLineEnds {texts : List (List Char)} (h : KeepsLineEnds texts) :
    readTexts parse lastEventId [] texts = readTexts parse lastEventId [] [texts.flatten] := by
  have hwhole : [texts.flatten].flatMap replaceLineEnds = replaceLineEnds texts.flatten :=
    List.flatMap_singleton _ _
  rw [readTexts_eq lastEventId [] texts rfl, readTexts_eq lastEventId [] [texts.flatten] rfl,
    flatMap_replaceLineEnds h, hwhole]

/-- A blank line that comes in parts does not end its frame. -/
theorem blocks_parted (hlast : text.getLast? = some '\n') (hopen : (blocks '\n' text).1 = []) :
    (blocks '\n' (text ++ ['\r', '\n'])).1 = [] := by
  fun_induction blocks '\n' text with
  | case1 a b rest hmark cut ih => cases hopen
  | case2 a b rest hmark left hblocks ih =>
    rw [hblocks] at ih
    rw [List.getLast?_cons_cons] at hlast
    rw [List.cons_append, List.cons_append, blocks_cons hmark]
    have hrest := ih hlast rfl
    rw [List.cons_append] at hrest
    rw [show blocks '\n' (b :: (rest ++ ['\r', '\n'])) =
      ([], (blocks '\n' (b :: (rest ++ ['\r', '\n']))).2) from Prod.ext hrest rfl]
  | case3 a b rest hmark block others left hblocks ih => cases hopen
  | case4 text hshort =>
    rcases text with _ | ⟨a, _ | ⟨b, rest⟩⟩
    · cases hlast
    · have hreturn : ¬(a = '\n' ∧ '\r' = '\n') := fun h => absurd h.2 (by decide)
      rw [List.singleton_append, blocks_cons hreturn]
      rfl
    · exact absurd rfl (hshort a b rest)

theorem getLast_blocks_left (hlast : text.getLast? = some '\n') (hleft : (blocks '\n' text).2 ≠ [])
    :
    (blocks '\n' text).2.getLast? = some '\n' := by
  fun_induction blocks '\n' text with
  | case1 a b rest hmark cut ih =>
    cases rest with
    | nil => exact absurd rfl hleft
    | cons c rest =>
        exact ih (by rwa [List.getLast?_cons_cons, List.getLast?_cons_cons] at hlast) hleft
  | case2 a b rest hmark left hblocks ih =>
    have hnil : (blocks '\n' (b :: rest)).1 = [] := by rw [hblocks]
    have hall := blocks_snd_of_nil hnil
    rw [hblocks] at hall
    rw [show left = b :: rest from hall]
    exact hlast
  | case3 a b rest hmark block others left hblocks ih =>
    rw [hblocks] at ih
    rw [List.getLast?_cons_cons] at hlast
    exact ih hlast hleft
  | case4 text hshort => exact hlast

/-- The frame before a blank line that comes in parts is never read. -/
theorem readTexts_parted {front : List Char} (hfront : front.getLast? = some '\n') :
    readTexts parse lastEventId [] [front ++ ['\r'], ['\n']] =
      readTexts parse lastEventId [] [front] := by
  have hplain : ∀ {rest : List Char}, ¬(front.getLast? = some '\r' ∧ rest.head? = some '\n') := by
    rintro rest ⟨hreturn, -⟩
    rw [hfront] at hreturn
    exact absurd (Option.some.inj hreturn) (by decide)
  have htexts : [front ++ ['\r'], ['\n']].flatMap replaceLineEnds =
      replaceLineEnds front ++ ['\r', '\n'] := by
    rw [List.flatMap_cons, List.flatMap_singleton, replaceLineEnds_append hplain,
      List.append_assoc]
    rfl
  have hone : [front].flatMap replaceLineEnds = replaceLineEnds front :=
    List.flatMap_singleton _ _
  have hlast := getLast_replaceLineEnds hfront
  rw [readTexts_eq _ _ _ rfl, readTexts_eq _ _ _ rfl, htexts, hone, List.nil_append,
    List.nil_append, blocks_append]
  -- What is left of the front ends in a line feed, or nothing is left.
  have hparted :
      (blocks '\n' ((blocks '\n' (replaceLineEnds front)).2 ++ ['\r', '\n'])).1 = [] := by
    by_cases hleft : (blocks '\n' (replaceLineEnds front)).2 = []
    · rw [hleft]
      rfl
    · exact blocks_parted (getLast_blocks_left hlast hleft) blocks_left
  rw [hparted, List.append_nil]

/-- A stream is read as in one piece wherever it is cut, except between a carriage return
and its line feed; a blank line that is cut there does not end its frame. -/
theorem event_stream_read (parse : List Char → Except String (Json ν)) (decoder : TextDecoder)
    (status : ℕ) (lastEventId : Option String) :
    (∀ chunks : List (List UInt8), KeepsLineEnds (decoder.texts decoder.start chunks) →
      readQueueEventStream parse decoder ⟨true, status, some chunks⟩ lastEventId =
        readQueueEventStream parse decoder ⟨true, status, some [chunks.flatten]⟩ lastEventId) ∧
    ∀ (front : List Char) (first second : List UInt8), front.getLast? = some '\n' →
      decoder.texts decoder.start [first, second] = [front ++ ['\r'], ['\n']] →
      readQueueEventStream parse decoder ⟨true, status, some [first, second]⟩ lastEventId =
        readTexts parse lastEventId [] [front] := by
  refine ⟨fun chunks hchunks => ?_, fun front first second hfront htexts => ?_⟩
  · have hwhole : decoder.texts decoder.start [chunks.flatten] =
        [(decoder.texts decoder.start chunks).flatten] := by
      rw [decoder.flatten_texts]
      rfl
    simp only [readQueueEventStream]
    rw [readTexts_of_keepsLineEnds lastEventId hchunks, hwhole]
  · simp only [readQueueEventStream, htexts]
    exact readTexts_parted lastEventId hfront

end Cuts

/-! ### An event with its line ends -/

/-- Bytes that are characters of their own. -/
def ascii : TextDecoder := ⟨Unit, (), fun _ byte => ((), [Char.ofNat byte.toNat])⟩

def payloadText : String :=
  "\x7b\"invalidates\":[\"queue\"],\"revision\":\"7\",\"sequence\":\"3\"\x7d"

def payload : Json ℕ :=
  .object [("invalidates", .array [.string "queue"]), ("revision", .string "7"),
    ("sequence", .string "3")]

/-- `JSON.parse` of the one text. -/
def parsePayload (text : List Char) : Except String (Json ℕ) :=
  if text = payloadText.toList then .ok payload else .error "Unexpected token"

def eventText : String :=
  "id: 3\r\nevent: queue-invalidated\r\ndata: " ++ payloadText ++ "\r\n\r\n"

def eventBytes : List UInt8 := eventText.toList.map fun c => UInt8.ofNat c.toNat

/-- Cut in the middle of a line, the event is read as in one piece. -/
theorem event_stream_read_cut :
    readQueueEventStream parsePayload ascii
        ⟨true, 200, some [eventBytes.take 5, eventBytes.drop 5]⟩ none =
      readQueueEventStream parsePayload ascii ⟨true, 200, some [eventBytes]⟩ none := by
  have htexts : ascii.texts ascii.start [eventBytes.take 5, eventBytes.drop 5] =
      [eventText.toList.take 5, eventText.toList.drop 5] := by decide +kernel
  have hkeeps : KeepsLineEnds (ascii.texts ascii.start [eventBytes.take 5, eventBytes.drop 5]) := by
    rw [htexts]
    exact ⟨by decide +kernel, by decide +kernel, trivial⟩
  have hread := (event_stream_read parsePayload ascii 200 none).1 _ hkeeps
  rwa [List.flatten_cons, List.flatten_singleton, List.take_append_drop] at hread

/-- Cut between the return and the feed after the name of the event, it is lost. -/
theorem event_parted_lost : ¬∀ chunks : List (List UInt8),
    (readQueueEventStream parsePayload ascii ⟨true, 200, some chunks⟩ none).events =
      (readQueueEventStream parsePayload ascii ⟨true, 200, some [chunks.flatten]⟩ none).events := by
  intro h
  have hlost := h [eventBytes.take 32, eventBytes.drop 32]
  rw [List.flatten_cons, List.flatten_singleton, List.take_append_drop] at hlost
  simp only [readQueueEventStream] at hlost
  rw [readTexts_eq _ _ _ rfl, readTexts_eq _ _ _ rfl] at hlost
  have hlengths := congrArg List.length hlost
  revert hlengths
  decide +kernel

end Harmony.QueueStream.Web
