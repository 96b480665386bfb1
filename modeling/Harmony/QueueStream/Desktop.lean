/-
# The desktop's reader of the queue stream

The reader cuts what has arrived into frames and decodes each of them. It keeps the rest
for the next chunk, so that the frames are the same however the stream is cut. The events
of a chunk are handed on together, once all of its frames are decoded: a frame that cannot
be decoded takes with it those that ended in the same chunk before it.
-/

import Harmony.QueueStream.Frames
import Harmony.Library.Numerals

namespace Harmony.QueueStream

open Blocks

namespace Desktop

def maxEventBufferBytes : ℕ := 64 * 1024

def queueEventName : String := "queue-invalidated"

def lineFeed : UInt8 := 10

structure QueueEvent where
  revision : String
  sequence : String
  invalidates : List String
  lastEventId : String
  deriving DecidableEq

structure QueueEventDecoder where
  buffer : List UInt8

/-! ### Decoding a frame -/

/-- The fields of a frame; a later line replaces an earlier one, except for the data. -/
structure Fields where
  eventId : Option (List Char)
  eventName : Option (List Char)
  data : List (List Char)
  deriving DecidableEq

def stripPrefix (start line : List Char) : Option (List Char) :=
  if start.isPrefixOf line then some (line.drop start.length) else none

def Fields.addLine (fields : Fields) (line : List Char) : Fields :=
  match stripPrefix "id: ".toList line with
  | some value => { fields with eventId := some value }
  | none =>
    match stripPrefix "event: ".toList line with
    | some value => { fields with eventName := some value }
    | none =>
      match stripPrefix "data: ".toList line with
      | some value => { fields with data := fields.data ++ [value] }
      | none => fields

def readFields (text : List Char) : Fields :=
  (Chars.lines text).foldl Fields.addLine ⟨none, none, []⟩

variable {chunks : List (List UInt8)}

section Decoder

variable (serde : Serde)

def decodeQueueEvent (frame : List UInt8) : Except String (Option QueueEvent) :=
  match Utf8.decode frame with
  | none => .error "Music Server Queue event was not valid UTF-8."
  | some text =>
    let fields := readFields text
    if fields.eventName ≠ some queueEventName.toList then .ok none
    else
      match serde.fromStr (['\n'].intercalate fields.data) with
      | none => .error "Music Server Queue event payload was invalid."
      | some payload =>
        if payload.revision = "" ∨ Numerals.parseU64 payload.sequence.toList = none ∨
            payload.invalidates.all (· ≠ "queue") then
          .error "Music Server Queue event fields were invalid."
        else
          match fields.eventId with
          | none => .error "Music Server Queue event ID was missing."
          | some eventId =>
            .ok (some ⟨payload.revision, payload.sequence, payload.invalidates,
              String.ofList eventId⟩)

/-! ### Decoding a stream -/

/-- The loop over the frames of the buffer; it stops at the first that fails. -/
def takeFrames (buffer : List UInt8) : Except String (List QueueEvent) × QueueEventDecoder :=
  match _hend : blockEnd lineFeed buffer with
  | none => (.ok [], ⟨buffer⟩)
  | some frameEnd =>
    let rest := buffer.drop (frameEnd + 2)
    match decodeQueueEvent serde (buffer.take frameEnd) with
    | .error error => (.error error, ⟨rest⟩)
    | .ok event =>
      let taken := takeFrames rest
      (taken.1.map (event.toList ++ ·), taken.2)
termination_by buffer.length
decreasing_by
  have hle := blockEnd_lt ‹blockEnd lineFeed buffer = some frameEnd›
  rw [List.length_drop]
  omega

def QueueEventDecoder.push (decoder : QueueEventDecoder) (chunk : List UInt8) :
    Except String (List QueueEvent) × QueueEventDecoder :=
  if maxEventBufferBytes - decoder.buffer.length < chunk.length then
    (.error "Music Server Queue event exceeded the safety limit.", ⟨[]⟩)
  else takeFrames serde (decoder.buffer ++ chunk)

/-- What a stream has led to: the events that were handed on, the error that ended it and
the event a new stream resumes after. -/
structure Consumed where
  events : List QueueEvent
  error : Option String
  lastEventId : Option String

/-- The chunks of a stream up to its end; after an error no more of them are read. -/
def consumeQueueEventStream :
    QueueEventDecoder → Option String → List (List UInt8) → Consumed
  | _, lastEventId, [] => ⟨[], none, lastEventId⟩
  | decoder, lastEventId, chunk :: chunks =>
    match decoder.push serde chunk with
    | (.error error, _) => ⟨[], some error, lastEventId⟩
    | (.ok events, decoder') =>
      let lastEventId' := (events.getLast?.map QueueEvent.lastEventId).or lastEventId
      let consumed := consumeQueueEventStream decoder' lastEventId' chunks
      { consumed with events := events ++ consumed.events }

def consume (chunks : List (List UInt8)) : Consumed :=
  consumeQueueEventStream serde ⟨[]⟩ none chunks

/-! ### What the frames of a stream say -/

def framesOf (chunks : List (List UInt8)) : List (List UInt8) :=
  (blocks lineFeed chunks.flatten).1

def IsWellFormed (frame : List UInt8) : Prop := (decodeQueueEvent serde frame).isOk = true

def eventOf (frame : List UInt8) : Option QueueEvent :=
  match decodeQueueEvent serde frame with
  | .ok event => event
  | .error _ => none

/-- The frames of one chunk, decoded in turn. -/
def decodeAll : List (List UInt8) → Except String (List QueueEvent)
  | [] => .ok []
  | frame :: frames =>
    match decodeQueueEvent serde frame with
    | .error error => .error error
    | .ok event => (decodeAll frames).map (event.toList ++ ·)

/-- The events of the chunks up to the first one with a frame that fails. -/
def eventsOfPieces : List (List (List UInt8)) → List QueueEvent
  | [] => []
  | piece :: later =>
    match decodeAll serde piece with
    | .error _ => []
    | .ok events => events ++ eventsOfPieces later

variable {serde}

theorem eventOf_toList {frame : List UInt8} {event : Option QueueEvent}
    (h : decodeQueueEvent serde frame = .ok event) : eventOf serde frame = event := by
  rw [eventOf, h]

theorem decodeAll_of_wellFormed {frames : List (List UInt8)}
    (h : ∀ frame ∈ frames, IsWellFormed serde frame) :
    decodeAll serde frames = .ok (frames.filterMap (eventOf serde)) := by
  induction frames with
  | nil => rfl
  | cons frame frames ih =>
    have hrest := ih fun other hother => h other (List.mem_cons_of_mem _ hother)
    have hframe := h frame List.mem_cons_self
    rw [IsWellFormed] at hframe
    rw [decodeAll, hrest]
    cases hdecode : decodeQueueEvent serde frame with
    | error error =>
      rw [hdecode] at hframe
      cases hframe
    | ok event =>
      rw [List.filterMap_cons, eventOf_toList hdecode]
      cases event <;> rfl

theorem decodeAll_of_malformed {before after : List (List UInt8)} {frame : List UInt8}
    (h : ¬IsWellFormed serde frame) :
    ∃ error, decodeAll serde (before ++ frame :: after) = .error error := by
  induction before with
  | nil =>
    rw [IsWellFormed] at h
    rw [List.nil_append, decodeAll]
    cases hdecode : decodeQueueEvent serde frame with
    | error error => exact ⟨error, rfl⟩
    | ok event =>
      rw [hdecode] at h
      exact absurd rfl h
  | cons other before ih =>
    obtain ⟨error, herror⟩ := ih
    rw [List.cons_append, decodeAll, herror]
    cases decodeQueueEvent serde other with
    | error error' => exact ⟨error', rfl⟩
    | ok event => exact ⟨error, rfl⟩

/-- What the loop takes are the blocks of the buffer, and it keeps the rest. -/
theorem takeFrames_eq (buffer : List UInt8) :
    (takeFrames serde buffer).1 = decodeAll serde (blocks lineFeed buffer).1 ∧
      ∀ events, (takeFrames serde buffer).1 = .ok events →
        (takeFrames serde buffer).2 = ⟨(blocks lineFeed buffer).2⟩ := by
  fun_induction takeFrames serde buffer with
  | case1 buffer hend =>
    rw [blocks_eq, hend]
    exact ⟨rfl, fun _ _ => rfl⟩
  | case2 buffer frameEnd hend rest error hdecode =>
    rw [blocks_eq, hend]
    refine ⟨?_, fun _ h => ?_⟩
    · rw [decodeAll, hdecode]
    · cases h
  | case3 buffer frameEnd hend rest event hdecode taken ih =>
    rw [blocks_eq, hend]
    obtain ⟨hevents, hrest⟩ := ih
    refine ⟨?_, fun events h => ?_⟩
    · rw [decodeAll, hdecode]
      exact congrArg (Except.map (event.toList ++ ·)) hevents
    · cases htaken : (takeFrames serde rest).1 with
      | error error =>
        rw [show taken.1 = (takeFrames serde rest).1 from rfl, htaken] at h
        cases h
      | ok others => exact hrest others htaken

/-! ### However the stream is cut -/

/-- What is left of a stream within the limit leaves room for the rest of it. -/
theorem events_consumeQueueEventStream {left : List UInt8} (lastEventId : Option String)
    (hroom : left.length + chunks.flatten.length ≤ maxEventBufferBytes) :
    (consumeQueueEventStream serde ⟨left⟩ lastEventId chunks).events =
      eventsOfPieces serde (pieces lineFeed left chunks) := by
  induction chunks generalizing left lastEventId with
  | nil => rfl
  | cons chunk chunks ih =>
    rw [List.flatten_cons, List.length_append] at hroom
    have hfits : ¬maxEventBufferBytes - left.length < chunk.length := by omega
    obtain ⟨hevents, hrest⟩ := @takeFrames_eq serde (left ++ chunk)
    rw [consumeQueueEventStream, QueueEventDecoder.push, if_neg hfits, pieces, eventsOfPieces]
    cases htaken : takeFrames serde (left ++ chunk) with
    | mk result decoder =>
      rw [htaken] at hevents hrest
      rw [← hevents]
      cases result with
      | error error => rfl
      | ok events =>
        obtain rfl := hrest events rfl
        have hkept := @length_blocks_left _ _ lineFeed (left ++ chunk)
        rw [List.length_append] at hkept
        exact congrArg (events ++ ·) (ih _ (by omega))

/-- Frames that all decode give their events, whichever chunks they end in. -/
theorem eventsOfPieces_of_wellFormed {cut : List (List (List UInt8))}
    (h : ∀ frame ∈ cut.flatten, IsWellFormed serde frame) :
    eventsOfPieces serde cut = cut.flatten.filterMap (eventOf serde) := by
  induction cut with
  | nil => rfl
  | cons piece later ih =>
    rw [List.flatten_cons, List.forall_mem_append] at h
    rw [eventsOfPieces, decodeAll_of_wellFormed h.1, ih h.2, List.flatten_cons,
      List.filterMap_append]

/-- The first frame that fails takes the events of its chunk with it. -/
theorem eventsOfPieces_of_malformed {earlier later : List (List (List UInt8))}
    {before after : List (List UInt8)} {frame : List UInt8}
    (hearlier : ∀ other ∈ earlier.flatten, IsWellFormed serde other)
    (hframe : ¬IsWellFormed serde frame) :
    eventsOfPieces serde (earlier ++ (before ++ frame :: after) :: later) =
      earlier.flatten.filterMap (eventOf serde) := by
  induction earlier with
  | nil =>
    obtain ⟨error, herror⟩ := @decodeAll_of_malformed serde before after _ hframe
    rw [List.nil_append, eventsOfPieces, herror]
    rfl
  | cons piece earlier ih =>
    rw [List.flatten_cons, List.forall_mem_append] at hearlier
    rw [List.cons_append, eventsOfPieces, decodeAll_of_wellFormed hearlier.1, ih hearlier.2,
      List.flatten_cons, List.filterMap_append]

theorem events_consume (hlimit : chunks.flatten.length ≤ maxEventBufferBytes) :
    (consume serde chunks).events = eventsOfPieces serde (pieces lineFeed [] chunks) :=
  events_consumeQueueEventStream none (by rwa [List.length_nil, Nat.zero_add])

theorem flatten_pieces_nil (chunks : List (List UInt8)) :
    (pieces lineFeed [] chunks).flatten = framesOf chunks :=
  flatten_pieces [] chunks rfl

theorem events_of_wellFormed (hlimit : chunks.flatten.length ≤ maxEventBufferBytes)
    (h : ∀ frame ∈ framesOf chunks, IsWellFormed serde frame) :
    (consume serde chunks).events = (framesOf chunks).filterMap (eventOf serde) := by
  rw [events_consume hlimit, ← flatten_pieces_nil]
  rw [← flatten_pieces_nil] at h
  exact eventsOfPieces_of_wellFormed h

end Decoder

/-! ### What the server writes -/

section Server

variable {serde : Serde}

/-- What a frame of the server is to become: an event with what it carries, and nothing
for a comment. -/
def expected : ServerFrame → Option QueueEvent
  | .event revision sequence =>
    some ⟨revision, toString sequence, ["queue"], toString sequence⟩
  | .keepAlive => none

/-- Revisions are not empty, and sequences fit the type of the column. -/
def IsProper : ServerFrame → Prop
  | .event revision sequence => revision ≠ "" ∧ sequence < 2 ^ 63
  | .keepAlive => True

theorem isBlock_block (h : serde.Documented) (frame : ServerFrame) :
    IsBlock lineFeed (frame.block serde) := by
  have hprintable := frame.printable h
  rw [ServerFrame.block, Utf8.encode_intercalate (by decide)]
  refine isBlock_intercalate ?_ ?_
  · cases frame <;> exact List.cons_ne_nil _ _
  · intro bytes hbytes
    obtain ⟨line, hline, rfl⟩ := List.mem_map.mp hbytes
    obtain ⟨hne, hplain⟩ := hprintable line hline
    refine ⟨Utf8.encode_ne_nil hne, fun hmem => ?_⟩
    have hlow := hplain '\n' ((Utf8.mem_encode_iff (by decide) line).mp hmem)
    exact absurd hlow (by decide)

theorem lines_block (h : serde.Documented) (frame : ServerFrame) :
    Chars.lines (['\n'].intercalate (frame.lines serde)) = frame.lines serde := by
  have hprintable := frame.printable h
  have hplain : ∀ line ∈ frame.lines serde, '\n' ∉ line ∧ line.getLast? ≠ some '\r' := by
    intro line hline
    obtain ⟨-, hline⟩ := hprintable line hline
    refine ⟨fun hmem => absurd (hline _ hmem) (by decide), fun hlast => ?_⟩
    exact absurd (hline _ (List.mem_of_getLast? hlast)) (by decide)
  obtain ⟨front, last, hlines⟩ : ∃ front last, frame.lines serde = front ++ [last] := by
    cases frame with
    | keepAlive => exact ⟨[], _, rfl⟩
    | event revision sequence => exact ⟨[_, _], _, rfl⟩
  rw [hlines] at hprintable hplain ⊢
  have hlast := hprintable last (List.mem_append_right _ List.mem_cons_self)
  exact Chars.lines_intercalate hlast.1 (fun line hline => (hplain line hline).1)
    fun line hline => (hplain line (List.mem_append_left _ hline)).2

theorem stripPrefix_append (start value : List Char) :
    stripPrefix start (start ++ value) = some value := by
  have hstart : start.isPrefixOf (start ++ value) = true :=
    List.isPrefixOf_iff_prefix.mpr (List.prefix_append _ _)
  rw [stripPrefix, if_pos hstart, List.drop_left]

def fieldsOf (serde : Serde) : ServerFrame → Fields
  | .event revision sequence =>
    ⟨some (Nat.toDigits 10 sequence), some queueEventName.toList,
      [eventData serde revision (toString sequence)]⟩
  | .keepAlive => ⟨none, none, []⟩

theorem readFields_block (h : serde.Documented) (frame : ServerFrame) :
    readFields (['\n'].intercalate (frame.lines serde)) = fieldsOf serde frame := by
  rw [readFields, lines_block h]
  cases frame with
  | keepAlive =>
    have hcomment : (⟨none, none, []⟩ : Fields).addLine ": keep-alive".toList =
        ⟨none, none, []⟩ := by decide +kernel
    exact hcomment
  | event revision sequence =>
    have hname : ∀ fields : Fields, fields.addLine "event: queue-invalidated".toList =
        { fields with eventName := some queueEventName.toList } := fun _ => rfl
    have hid : ∀ (fields : Fields) value, fields.addLine ("id: ".toList ++ value) =
        { fields with eventId := some value } := by
      intro fields value
      rw [Fields.addLine, stripPrefix_append]
    have hdata : ∀ (fields : Fields) value, fields.addLine ("data: ".toList ++ value) =
        { fields with data := fields.data ++ [value] } := by
      intro fields value
      rw [Fields.addLine, stripPrefix_append]
      rfl
    simp only [ServerFrame.lines, List.foldl_cons, List.foldl_nil, hid, hname, hdata,
      List.nil_append, fieldsOf]

/-- Every frame of the server is decoded to what it carries. -/
theorem decodeQueueEvent_block (h : serde.Documented) {frame : ServerFrame}
    (hproper : IsProper frame) :
    decodeQueueEvent serde (frame.block serde) = .ok (expected frame) := by
  rw [decodeQueueEvent, ServerFrame.block, Utf8.decode_encode]
  simp only [readFields_block h]
  cases frame with
  | keepAlive => rfl
  | event revision sequence =>
    obtain ⟨hrevision, hsequence⟩ := hproper
    have hdigits : (toString sequence).toList = Nat.toDigits 10 sequence := Nat.toList_repr
    have hparse : Numerals.parseU64 (toString sequence).toList ≠ none := by
      rw [hdigits, Numerals.parseU64_toDigits (by omega)]
      exact Option.some_ne_none _
    have hfields : ¬(revision = "" ∨ Numerals.parseU64 (toString sequence).toList = none ∨
        ["queue"].all (· ≠ "queue") = true) := by
      rintro (hempty | hnone | hall)
      · exact hrevision hempty
      · exact hparse hnone
      · cases hall
    simp only [fieldsOf, ne_eq, not_true_eq_false, if_false, List.intercalate_singleton,
      fromStr_eventData h]
    rw [if_neg hfields]
    simp only [expected, ← hdigits, String.ofList_toList]

/-- The frames of a stream of the server. -/
theorem framesOf_server (h : serde.Documented) {stream : List ServerFrame}
    (hchunks : chunks.flatten = stream.flatMap (ServerFrame.bytes serde)) :
    framesOf chunks = stream.map (ServerFrame.block serde) := by
  have hended : stream.flatMap (ServerFrame.bytes serde) =
      ended lineFeed (stream.map (ServerFrame.block serde)) := by
    rw [ended, List.flatMap_map]
    exact congrArg (stream.flatMap ·) (funext fun frame => frame.bytes_eq serde)
  have hblocks : ∀ block ∈ stream.map (ServerFrame.block serde), IsBlock lineFeed block := by
    intro block hblock
    obtain ⟨frame, -, rfl⟩ := List.mem_map.mp hblock
    exact isBlock_block h frame
  rw [framesOf, hchunks, hended, blocks_ended hblocks]

end Server

/-! ### What is handed on -/

section HandedOn

variable (serde : Serde)

/-- The first frame that cannot be decoded loses no event before it. -/
def KeepsEarlier (chunks : List (List UInt8)) : Prop :=
  ∀ before frame after, framesOf chunks = before ++ frame :: after →
    (∀ other ∈ before, IsWellFormed serde other) → ¬IsWellFormed serde frame →
    (consume serde chunks).events = before.filterMap (eventOf serde)

/-- The events of a stream are those of its frames, whatever the chunks: as for the whole
stream at once, and up to the first frame that cannot be decoded. -/
structure KeepsEvents (chunks : List (List UInt8)) : Prop where
  same : (consume serde chunks).events = (consume serde [chunks.flatten]).events
  earlier : KeepsEarlier serde chunks

/-- No event comes before the first frame that cannot be decoded. -/
def FailsFirst (chunks : List (List UInt8)) : Prop :=
  ∀ before frame after, framesOf chunks = before ++ frame :: after →
    (∀ other ∈ before, IsWellFormed serde other) → ¬IsWellFormed serde frame →
    before.filterMap (eventOf serde) = []

/-- No event ends in the chunk of the first frame that cannot be decoded, before it. -/
def FailsAlone (chunks : List (List UInt8)) : Prop :=
  ∀ earlier before frame after later,
    pieces lineFeed [] chunks = earlier ++ (before ++ frame :: after) :: later →
    (∀ other ∈ earlier.flatten ++ before, IsWellFormed serde other) →
    ¬IsWellFormed serde frame → before.filterMap (eventOf serde) = []

variable {serde}

theorem framesOf_eq {earlier later : List (List (List UInt8))} {before after : List (List UInt8)}
    {frame : List UInt8}
    (h : pieces lineFeed [] chunks = earlier ++ (before ++ frame :: after) :: later) :
    framesOf chunks = (earlier.flatten ++ before) ++ frame :: (after ++ later.flatten) := by
  rw [← flatten_pieces_nil, h, List.flatten_append, List.flatten_cons]
  simp only [List.append_assoc, List.cons_append]

theorem keepsEarlier_iff (hlimit : chunks.flatten.length ≤ maxEventBufferBytes) :
    KeepsEarlier serde chunks ↔ FailsAlone serde chunks := by
  constructor
  · intro h earlier before frame after later hpieces hfront hframe
    have hevents := h _ _ _ (framesOf_eq hpieces) hfront hframe
    -- What the chunks before it gave is all there is.
    have hgiven : (consume serde chunks).events =
        earlier.flatten.filterMap (eventOf serde) := by
      rw [events_consume hlimit, hpieces]
      exact eventsOfPieces_of_malformed (List.forall_mem_append.mp hfront).1 hframe
    rw [hgiven, List.filterMap_append] at hevents
    exact List.self_eq_append_right.mp hevents
  · intro h before frame after hframes hbefore hframe
    rw [← flatten_pieces_nil] at hframes
    obtain ⟨earlier, front, back, later, hpieces, rfl⟩ := exists_piece hframes
    have hfront := h earlier front frame back later hpieces hbefore hframe
    rw [events_consume hlimit, hpieces,
      eventsOfPieces_of_malformed (List.forall_mem_append.mp hbefore).1 hframe,
      List.filterMap_append, hfront, List.append_nil]

theorem FailsFirst.failsAlone (h : FailsFirst serde chunks) :
    FailsAlone serde chunks := by
  intro earlier before frame after later hpieces hfront hframe
  have hnone := h _ _ _ (framesOf_eq hpieces) hfront hframe
  rw [List.filterMap_append] at hnone
  exact (List.append_eq_nil_iff.mp hnone).2

theorem exists_malformed {frames : List (List UInt8)}
    (h : ¬∀ frame ∈ frames, IsWellFormed serde frame) :
    ∃ before frame after, frames = before ++ frame :: after ∧
      (∀ other ∈ before, IsWellFormed serde other) ∧ ¬IsWellFormed serde frame := by
  induction frames with
  | nil => exact absurd (fun _ hframe => absurd hframe List.not_mem_nil) h
  | cons frame frames ih =>
    by_cases hframe : IsWellFormed serde frame
    · obtain ⟨before, other, after, rfl, hbefore, hother⟩ :=
        ih fun hall => h (List.forall_mem_cons.mpr ⟨hframe, hall⟩)
      exact ⟨frame :: before, other, after, rfl, List.forall_mem_cons.mpr ⟨hframe, hbefore⟩,
        hother⟩
    · exact ⟨[], frame, frames, rfl, nofun, hframe⟩

theorem keepsEvents_iff (hlimit : chunks.flatten.length ≤ maxEventBufferBytes) :
    KeepsEvents serde chunks ↔ FailsFirst serde chunks := by
  have hwhole : [chunks.flatten].flatten.length ≤ maxEventBufferBytes := by
    rwa [List.flatten_singleton]
  have hsame : framesOf [chunks.flatten] = framesOf chunks := by
    rw [framesOf, framesOf, List.flatten_singleton]
  constructor
  · intro h before frame after hframes hbefore hframe
    -- At once, everything before the frame ends in its chunk.
    have hat : pieces lineFeed [] [chunks.flatten] = [] ++ (before ++ frame :: after) :: [] := by
      rw [← hframes, framesOf, pieces, pieces, List.nil_append, List.nil_append]
    have hnone : ∀ other ∈ ([] : List (List (List UInt8))).flatten, IsWellFormed serde other :=
      fun _ hother => absurd hother List.not_mem_nil
    rw [← h.earlier before frame after hframes hbefore hframe, h.same, events_consume hwhole, hat,
      eventsOfPieces_of_malformed hnone hframe]
    rfl
  · intro h
    have hearlier := (keepsEarlier_iff hlimit).mpr h.failsAlone
    refine ⟨?_, hearlier⟩
    by_cases hall : ∀ frame ∈ framesOf chunks, IsWellFormed serde frame
    · rw [events_of_wellFormed hlimit hall, events_of_wellFormed hwhole (hsame ▸ hall), hsame]
    · obtain ⟨before, frame, after, hframes, hbefore, hframe⟩ := exists_malformed hall
      have hfirst : FailsFirst serde [chunks.flatten] := by
        rw [FailsFirst, hsame]
        exact h
      rw [hearlier before frame after hframes hbefore hframe,
        (keepsEarlier_iff hwhole).mpr hfirst.failsAlone before frame after (hsame.trans hframes)
          hbefore hframe]

/-- However a stream is cut, its events are handed on as at once, exactly where none comes
before a frame that cannot be decoded; such a frame loses no event before it exactly where
none ended in its chunk; and what the server writes is decoded to what it carries. -/
theorem queue_events_handed_on (serde : Serde) (hserde : serde.Documented) :
    (∀ chunks : List (List UInt8), chunks.flatten.length ≤ maxEventBufferBytes →
      (KeepsEvents serde chunks ↔ FailsFirst serde chunks) ∧
      (KeepsEarlier serde chunks ↔ FailsAlone serde chunks)) ∧
    (∀ frame, IsProper frame → frame.bytes serde = frame.block serde ++ [lineFeed, lineFeed] ∧
      decodeQueueEvent serde (frame.block serde) = .ok (expected frame)) ∧
    ∀ (stream : List ServerFrame) (chunks : List (List UInt8)),
      (∀ frame ∈ stream, IsProper frame) →
      chunks.flatten = stream.flatMap (ServerFrame.bytes serde) →
      chunks.flatten.length ≤ maxEventBufferBytes →
      (consume serde chunks).events = stream.filterMap expected := by
  refine ⟨fun chunks hlimit => ⟨keepsEvents_iff hlimit, keepsEarlier_iff hlimit⟩,
    fun frame hproper => ?_,
    fun stream chunks hproper hchunks hlimit => ?_⟩
  · exact ⟨frame.bytes_eq serde, decodeQueueEvent_block hserde hproper⟩
  · have hframes := framesOf_server hserde hchunks
    have hdecoded : ∀ frame ∈ stream, decodeQueueEvent serde (frame.block serde) =
        .ok (expected frame) := fun frame hframe =>
      decodeQueueEvent_block hserde (hproper frame hframe)
    have hall : ∀ block ∈ framesOf chunks, IsWellFormed serde block := by
      rw [hframes]
      intro block hblock
      obtain ⟨frame, hframe, rfl⟩ := List.mem_map.mp hblock
      rw [IsWellFormed, hdecoded frame hframe]
      rfl
    rw [events_of_wellFormed hlimit hall, hframes, List.filterMap_map]
    exact List.filterMap_congr fun frame hframe => eventOf_toList (hdecoded frame hframe)

/-- An event and a comment, cut in the middle of a line. -/
theorem queue_events_handed_on_cut :
    (consume plainSerde
      [((ServerFrame.event "7" 3).bytes plainSerde ++ keepAlive).take 11,
        ((ServerFrame.event "7" 3).bytes plainSerde ++ keepAlive).drop 11]).events =
      [⟨"7", "3", ["queue"], "3"⟩] := by
  have hlimit : (keepAlive.length + ((ServerFrame.event "7" 3).bytes plainSerde).length) ≤
      maxEventBufferBytes := by decide +kernel
  have hevents := (queue_events_handed_on plainSerde documented_plainSerde).2.2
    [.event "7" 3, .keepAlive]
    [((ServerFrame.event "7" 3).bytes plainSerde ++ keepAlive).take 11,
      ((ServerFrame.event "7" 3).bytes plainSerde ++ keepAlive).drop 11]
    (by simp [IsProper])
    (by simp [ServerFrame.bytes])
    (by
      rw [List.flatten_cons, List.flatten_singleton, List.take_append_drop, List.length_append,
        Nat.add_comm]
      exact hlimit)
  rw [hevents]
  decide +kernel

/-- A frame of an event without a payload. -/
def garbage : List UInt8 := Utf8.encode "event: queue-invalidated".toList

theorem not_isWellFormed_garbage : ¬IsWellFormed plainSerde garbage := by
  have hfields : readFields "event: queue-invalidated".toList =
      ⟨none, some queueEventName.toList, []⟩ := by decide +kernel
  have hpayload : plainSerde.fromStr (['\n'].intercalate []) = none := by decide +kernel
  rw [IsWellFormed, decodeQueueEvent, garbage, Utf8.decode_encode]
  simp only [hfields, ne_eq, not_true_eq_false, if_false, hpayload]
  exact fun h => nomatch h

/-- The event is lost: the chunk that it came in has a frame without a payload after it. -/
theorem event_before_garbage_lost : ¬∀ chunks : List (List UInt8),
    chunks.flatten.length ≤ maxEventBufferBytes → KeepsEvents plainSerde chunks := by
  intro h
  let chunk := (ServerFrame.event "7" 3).block plainSerde ++ lineFeed :: lineFeed ::
    (garbage ++ [lineFeed, lineFeed])
  have hlimit : [chunk].flatten.length ≤ maxEventBufferBytes := by decide +kernel
  have hpieces : pieces lineFeed [] [chunk] =
      [[(ServerFrame.event "7" 3).block plainSerde, garbage]] := by decide +kernel
  have hdecode := decodeQueueEvent_block documented_plainSerde
    (show IsProper (.event "7" 3) from ⟨by decide, by decide⟩)
  have hwellFormed : IsWellFormed plainSerde ((ServerFrame.event "7" 3).block plainSerde) := by
    rw [IsWellFormed, hdecode]
    rfl
  have hlost := (keepsEarlier_iff hlimit).mp (h [chunk] hlimit).earlier []
    [(ServerFrame.event "7" 3).block plainSerde] garbage [] [] hpieces
    (by simpa using hwellFormed) not_isWellFormed_garbage
  rw [List.filterMap_cons, eventOf_toList hdecode] at hlost
  cases hlost

end HandedOn

end Desktop

end Harmony.QueueStream
