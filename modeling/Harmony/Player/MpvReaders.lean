/-
# Reading mpv's messages

mpv ends each message with a newline. On Unix a buffered reader reads a socket whose reads
time out; on Windows a reader of our own polls a pipe. Both return a line when they have
one. What they have of a line when a poll times out stays with the Windows reader; the
Unix reader has put it into the caller's line, which the caller gives up. So the Unix
reader delivers mpv's messages exactly when no read times out within a message.
-/

import Harmony.Library.Framing

namespace Harmony.Player

open Framing

/-- What a read of the socket or a look into the pipe finds. -/
inductive Arrival
  | bytes (first : UInt8) (rest : List UInt8)
  | timeout

/-- The bytes that arrive. -/
def received (arrivals : List Arrival) : List UInt8 :=
  arrivals.flatMap fun arrival =>
    match arrival with
    | .bytes first rest => first :: rest
    | .timeout => []

inductive ErrorKind
  | timedOut
  | invalidData

def newline : UInt8 := 10

def isNewline (byte : UInt8) : Bool := byte = newline

def isUtf8 (bytes : List UInt8) : Bool := (ByteArray.mk bytes.toArray).validateUTF8

/-! ### Unix -/

/-- The buffered reader, and what the socket will bring; it is closed after that. -/
structure BufReader where
  buffer : List UInt8
  arrivals : List Arrival

/-- Reads into the line up to a newline, a failure or the end. What was read stays read. -/
def readUntil (line buffer : List UInt8) (arrivals : List Arrival) :
    Except ErrorKind Unit × List UInt8 × BufReader :=
  match takeMessage isNewline buffer with
  | some (found, rest) => (.ok (), line ++ found, ⟨rest, arrivals⟩)
  | none =>
    match arrivals with
    | [] => (.ok (), line ++ buffer, ⟨[], []⟩)
    | .timeout :: arrivals => (.error .timedOut, line ++ buffer, ⟨[], arrivals⟩)
    | .bytes first rest :: arrivals => readUntil (line ++ buffer) (first :: rest) arrivals

/-- What was read, appended to the caller's line if it is text, also before a failure. -/
def appendToString (line : List UInt8) :
    Except ErrorKind Unit × List UInt8 × BufReader →
      Except ErrorKind ℕ × List UInt8 × BufReader
  | (result, appended, reader) =>
    if isUtf8 appended then (result.map fun _ => appended.length, line ++ appended, reader)
    else
      match result with
      | .ok _ => (.error .invalidData, line, reader)
      | .error error => (.error error, line, reader)

/-- `BufRead::read_line`. -/
def BufReader.readLine (line : List UInt8) (reader : BufReader) :
    Except ErrorKind ℕ × List UInt8 × BufReader :=
  appendToString line (readUntil [] reader.buffer reader.arrivals)

/-! ### Windows -/

/-- The reader with the bytes it has not returned, and what the pipe will bring. -/
structure MpvPipeReader where
  pending : List UInt8
  arrivals : List Arrival

def MpvPipeReader.readFrom (line pending : List UInt8) (arrivals : List Arrival) :
    Except ErrorKind ℕ × List UInt8 × MpvPipeReader :=
  match takeMessage isNewline pending with
  | some (message, rest) =>
    if isUtf8 message then (.ok message.length, line ++ message, ⟨rest, arrivals⟩)
    else (.error .invalidData, line, ⟨rest, arrivals⟩)
  | none =>
    match arrivals with
    | [] => (.ok 0, line, ⟨pending, []⟩)
    | .timeout :: arrivals => (.error .timedOut, line, ⟨pending, arrivals⟩)
    | .bytes first rest :: arrivals => readFrom line (pending ++ first :: rest) arrivals

def MpvPipeReader.readLine (line : List UInt8) (reader : MpvPipeReader) :
    Except ErrorKind ℕ × List UInt8 × MpvPipeReader :=
  readFrom line reader.pending reader.arrivals

/-! ### The caller -/

/-- What a call comes to; the line of one that failed is given up. -/
def outcomeOf {R : Type} : Except ErrorKind ℕ × List UInt8 × R → Outcome UInt8 × R
  | (.ok 0, _, reader) => (.closed, reader)
  | (.ok (_ + 1), line, reader) => (.message line, reader)
  | (.error .timedOut, _, reader) => (.nothing, reader)
  | (.error .invalidData, _, reader) => (.failed, reader)

/-- One read from mpv's connection, into a line of its own. -/
def readMpvMessage {R : Type} (readLine : List UInt8 → R → Except ErrorKind ℕ × List UInt8 × R)
    (reader : R) : Outcome UInt8 × R :=
  outcomeOf (readLine [] reader)

/-! ### What both readers look for -/

/-- What is found of a stream of which this much was seen. -/
inductive Scan
  | found (message rest : List UInt8) (arrivals : List Arrival)
  | timeout (seen : List UInt8) (arrivals : List Arrival)
  | closed (seen : List UInt8)

def scan (seen : List UInt8) (arrivals : List Arrival) : Scan :=
  match takeMessage isNewline seen with
  | some (message, rest) => .found message rest arrivals
  | none =>
    match arrivals with
    | [] => .closed seen
    | .timeout :: arrivals => .timeout seen arrivals
    | .bytes first rest :: arrivals => scan (seen ++ first :: rest) arrivals

/-- No read times out within a message, this much having been seen. -/
def Calm : List UInt8 → List Arrival → Prop
  | _, [] => True
  | seen, .timeout :: arrivals => EndsMessage isNewline seen ∧ Calm seen arrivals
  | seen, .bytes first rest :: arrivals => Calm (seen ++ first :: rest) arrivals

section Scans

variable {seen message rest : List UInt8} {arrivals arrivals' : List Arrival}

theorem calm_message (h : IsMessage isNewline message) :
    Calm (message ++ rest) arrivals ↔ Calm rest arrivals := by
  induction arrivals generalizing rest with
  | nil => exact Iff.rfl
  | cons arrival arrivals ih =>
    cases arrival with
    | timeout =>
      rw [Calm, Calm, h.endsMessage_append, ih]
    | bytes first more =>
      rw [Calm, Calm, List.append_assoc, ih]

/-- The reads that time out are the splits of what arrives at a timeout. -/
theorem calm_iff : Calm seen arrivals ↔
    ∀ before after, arrivals = before ++ .timeout :: after →
      EndsMessage isNewline (seen ++ received before) := by
  induction arrivals generalizing seen with
  | nil =>
    refine ⟨fun _ before after hsplit => ?_, fun _ => trivial⟩
    have hlength := congrArg List.length hsplit
    rw [List.length_append, List.length_cons, List.length_nil] at hlength
    omega
  | cons arrival arrivals ih =>
    cases arrival with
    | timeout =>
      rw [Calm, ih]
      constructor
      · rintro ⟨hnow, hlater⟩ before after hsplit
        cases before with
        | nil =>
          rw [received, List.flatMap_nil, List.append_nil]
          exact hnow
        | cons first before =>
          obtain ⟨rfl, hrest⟩ := List.cons.inj hsplit
          exact hlater before after hrest
      · intro h
        have hnow := h [] arrivals rfl
        rw [received, List.flatMap_nil, List.append_nil] at hnow
        exact ⟨hnow, fun before after hsplit => h (.timeout :: before) after (hsplit ▸ rfl)⟩
    | bytes first more =>
      rw [Calm, ih]
      constructor
      · intro h before after hsplit
        cases before with
        | nil => cases (List.cons.inj hsplit).1
        | cons arrival before =>
          obtain ⟨rfl, hrest⟩ := List.cons.inj hsplit
          have hends := h before after hrest
          rw [List.append_assoc] at hends
          exact hends
      · intro h before after hsplit
        have hends := h (.bytes first more :: before) after (hsplit ▸ rfl)
        rw [List.append_assoc]
        exact hends

theorem scan_found (h : scan seen arrivals = .found message rest arrivals') :
    IsMessage isNewline message ∧
      seen ++ received arrivals = message ++ (rest ++ received arrivals') ∧
      arrivals'.length ≤ arrivals.length ∧ (Calm seen arrivals ↔ Calm rest arrivals') := by
  fun_induction scan seen arrivals with
  | case1 seen arrivals taken left htake =>
    obtain ⟨rfl, rfl, rfl⟩ := Scan.found.inj h
    obtain ⟨hmessage, hseen⟩ := takeMessage_eq_some htake
    refine ⟨hmessage, ?_, Nat.le_refl _, ?_⟩
    · rw [hseen, List.append_assoc]
    · rw [hseen, calm_message hmessage]
  | case2 | case3 => cases h
  | case4 seen htake first more arrivals ih =>
    obtain ⟨hmessage, hbytes, hlength, hcalm⟩ := ih h
    refine ⟨hmessage, ?_, Nat.le_succ_of_le hlength, hcalm⟩
    rw [← hbytes, List.append_assoc]
    rfl

theorem scan_timeout {partly : List UInt8} (h : scan seen arrivals = .timeout partly arrivals') :
    (∀ byte ∈ partly, isNewline byte = false) ∧
      seen ++ received arrivals = partly ++ received arrivals' ∧
      arrivals'.length < arrivals.length ∧
      (Calm seen arrivals ↔ partly = [] ∧ Calm [] arrivals') := by
  fun_induction scan seen arrivals with
  | case1 | case2 => cases h
  | case3 seen htake arrivals =>
    obtain ⟨rfl, rfl⟩ := Scan.timeout.inj h
    have hplain := takeMessage_eq_none htake
    refine ⟨hplain, rfl, Nat.lt_succ_self _, ?_⟩
    rw [Calm, endsMessage_of_plain hplain]
    constructor
    · rintro ⟨rfl, hrest⟩
      exact ⟨rfl, hrest⟩
    · rintro ⟨rfl, hrest⟩
      exact ⟨rfl, hrest⟩
  | case4 seen htake first more arrivals ih =>
    obtain ⟨hplain, hbytes, hlength, hcalm⟩ := ih h
    refine ⟨hplain, ?_, Nat.lt_succ_of_lt hlength, hcalm⟩
    rw [← hbytes, List.append_assoc]
    rfl

theorem scan_closed {partly : List UInt8} (h : scan seen arrivals = .closed partly) :
    (∀ byte ∈ partly, isNewline byte = false) ∧ seen ++ received arrivals = partly ∧
      Calm seen arrivals := by
  fun_induction scan seen arrivals with
  | case1 | case3 => cases h
  | case2 seen htake =>
    obtain rfl := Scan.closed.inj h
    exact ⟨takeMessage_eq_none htake, List.append_nil _, trivial⟩
  | case4 seen htake first more arrivals ih =>
    obtain ⟨hplain, hbytes, hcalm⟩ := ih h
    refine ⟨hplain, ?_, hcalm⟩
    rw [← hbytes, List.append_assoc]
    rfl

end Scans

/-! ### The two readers -/

/-- What the Windows reader has of a line stays with it. -/
theorem readFrom_eq (line pending : List UInt8) (arrivals : List Arrival) :
    MpvPipeReader.readFrom line pending arrivals =
      match scan pending arrivals with
      | .found message rest arrivals =>
        if isUtf8 message then (.ok message.length, line ++ message, ⟨rest, arrivals⟩)
        else (.error .invalidData, line, ⟨rest, arrivals⟩)
      | .timeout seen arrivals => (.error .timedOut, line, ⟨seen, arrivals⟩)
      | .closed seen => (.ok 0, line, ⟨seen, []⟩) := by
  fun_induction scan pending arrivals with
  | case1 pending arrivals message rest htake =>
    rw [MpvPipeReader.readFrom.eq_def, htake]
  | case2 pending htake => rw [MpvPipeReader.readFrom.eq_def, htake]
  | case3 pending htake arrivals => rw [MpvPipeReader.readFrom.eq_def, htake]
  | case4 pending htake first rest arrivals ih =>
    rw [MpvPipeReader.readFrom.eq_def, htake]
    exact ih

theorem takeMessage_append {seen : List UInt8} (hplain : ∀ byte ∈ seen, isNewline byte = false)
    (buffer : List UInt8) :
    takeMessage isNewline (seen ++ buffer) =
      (takeMessage isNewline buffer).map fun taken => (seen ++ taken.1, taken.2) := by
  have hnone : seen.findIdx? isNewline = none := List.findIdx?_eq_none_iff.mpr hplain
  rw [takeMessage, takeMessage, List.findIdx?_append, hnone, Option.none_or]
  cases buffer.findIdx? isNewline with
  | none => rfl
  | some place =>
    simp only [Option.map_some]
    have htake : place + seen.length + 1 = seen.length + (place + 1) := by omega
    rw [htake, List.take_length_add_append, List.drop_length_add_append]

/-- What the Unix reader has of a line is in the caller's line. -/
theorem readUntil_eq {seen : List UInt8} (hplain : ∀ byte ∈ seen, isNewline byte = false)
    (line buffer : List UInt8) (arrivals : List Arrival) :
    readUntil (line ++ seen) buffer arrivals =
      match scan (seen ++ buffer) arrivals with
      | .found message rest arrivals => (.ok (), line ++ message, ⟨rest, arrivals⟩)
      | .timeout seen arrivals => (.error .timedOut, line ++ seen, ⟨[], arrivals⟩)
      | .closed seen => (.ok (), line ++ seen, ⟨[], []⟩) := by
  induction arrivals generalizing seen buffer with
  | nil =>
    rw [readUntil.eq_def, scan.eq_def, takeMessage_append hplain]
    cases takeMessage isNewline buffer with
    | some taken => simp [List.append_assoc]
    | none => simp [List.append_assoc]
  | cons arrival arrivals ih =>
    rw [readUntil.eq_def, scan.eq_def, takeMessage_append hplain]
    cases htake : takeMessage isNewline buffer with
    | some taken => simp [List.append_assoc]
    | none =>
      cases arrival with
      | timeout => simp [List.append_assoc]
      | bytes first rest =>
        have hmore : ∀ byte ∈ seen ++ buffer, isNewline byte = false := by
          intro byte hbyte
          rcases List.mem_append.mp hbyte with hmem | hmem
          · exact hplain byte hmem
          · exact takeMessage_eq_none htake byte hmem
        rw [List.append_assoc]
        exact ih hmore (first :: rest)

/-- How a complete line is reported. -/
def report (message : List UInt8) : Outcome UInt8 :=
  if isUtf8 message then .message message else .failed

variable (message : List UInt8)

theorem report_delivers :
    report message ≠ .nothing ∧ report message ≠ .closed := by
  rw [report]
  split_ifs
  · exact ⟨nofun, nofun⟩
  · exact ⟨nofun, nofun⟩

def MpvPipeReader.stream (reader : MpvPipeReader) : List UInt8 :=
  reader.pending ++ received reader.arrivals

def BufReader.stream (reader : BufReader) : List UInt8 :=
  reader.buffer ++ received reader.arrivals

theorem windows_call (reader : MpvPipeReader) :
    readMpvMessage MpvPipeReader.readLine reader =
      match scan reader.pending reader.arrivals with
      | .found message rest arrivals => (report message, ⟨rest, arrivals⟩)
      | .timeout seen arrivals => (.nothing, ⟨seen, arrivals⟩)
      | .closed seen => (.closed, ⟨seen, []⟩) := by
  rw [readMpvMessage, MpvPipeReader.readLine, readFrom_eq]
  cases hscan : scan reader.pending reader.arrivals with
  | found message rest arrivals =>
    have hpos := (scan_found hscan).1.length_pos
    obtain ⟨n, hn⟩ : ∃ n, message.length = n + 1 := ⟨message.length - 1, by omega⟩
    dsimp only
    rw [report, hn]
    by_cases hutf8 : isUtf8 message = true
    · rw [if_pos hutf8, if_pos hutf8]
      rfl
    · rw [if_neg hutf8, if_neg hutf8]
      rfl
  | timeout seen arrivals => rfl
  | closed seen => rfl

/-- Something that was read to its end is reported; nothing is the end of the stream. -/
theorem outcomeOf_appendToString (reader : BufReader) :
    outcomeOf (appendToString [] (.ok (), message, reader)) =
      (if message = [] then .closed else report message, reader) := by
  rw [appendToString, List.nil_append, report]
  cases message with
  | nil =>
    have hempty : isUtf8 [] = true := by decide +kernel
    rw [if_pos hempty, if_pos rfl]
    rfl
  | cons first message =>
    rw [if_neg (List.cons_ne_nil first message)]
    by_cases hutf8 : isUtf8 (first :: message) = true
    · rw [if_pos hutf8, if_pos hutf8]
      rfl
    · rw [if_neg hutf8, if_neg hutf8]
      rfl

theorem unix_call (reader : BufReader) :
    readMpvMessage BufReader.readLine reader =
      match scan reader.buffer reader.arrivals with
      | .found message rest arrivals => (report message, ⟨rest, arrivals⟩)
      | .timeout _ arrivals => (.nothing, ⟨[], arrivals⟩)
      | .closed seen => (if seen = [] then .closed else report seen, ⟨[], []⟩) := by
  have hnone : ∀ byte ∈ ([] : List UInt8), isNewline byte = false := by
    rintro byte ⟨⟩
  have hread := readUntil_eq hnone [] reader.buffer reader.arrivals
  rw [List.nil_append, List.nil_append] at hread
  rw [readMpvMessage, BufReader.readLine, hread]
  cases hscan : scan reader.buffer reader.arrivals with
  | found message rest arrivals =>
    have hmessage : message ≠ [] := List.length_pos_iff.mp (scan_found hscan).1.length_pos
    dsimp only
    rw [List.nil_append, outcomeOf_appendToString, if_neg hmessage]
  | timeout seen arrivals =>
    dsimp only
    rw [appendToString]
    split_ifs
    · rfl
    · rfl
  | closed seen =>
    dsimp only
    rw [List.nil_append, outcomeOf_appendToString]

/-- The Windows reader gives up nothing, whenever it times out. -/
theorem windows_givesUpNothing (reader : MpvPipeReader) :
    GivesUpNothing MpvPipeReader.stream (·.arrivals.length) isNewline report reader
      (readMpvMessage MpvPipeReader.readLine reader) := by
  rw [windows_call]
  cases hscan : scan reader.pending reader.arrivals with
  | found message rest arrivals =>
    obtain ⟨hmessage, hbytes, hlength, -⟩ := scan_found hscan
    exact .message hmessage hbytes hlength
  | timeout seen arrivals =>
    obtain ⟨-, hbytes, hlength, -⟩ := scan_timeout hscan
    exact .nothing hbytes.symm hlength
  | closed seen =>
    obtain ⟨hplain, hbytes, -⟩ := scan_closed hscan
    apply GivesUpNothing.closed
    rw [MpvPipeReader.stream, hbytes]
    exact hplain

/-- Nor does the Unix reader, as long as it times out between lines only. -/
theorem unix_givesUpNothing {reader : BufReader} (hcalm : Calm reader.buffer reader.arrivals)
    (hends : EndsMessage isNewline reader.stream) :
    GivesUpNothing BufReader.stream (·.arrivals.length) isNewline report reader
        (readMpvMessage BufReader.readLine reader) ∧
      Calm (readMpvMessage BufReader.readLine reader).2.buffer
          (readMpvMessage BufReader.readLine reader).2.arrivals ∧
        EndsMessage isNewline (readMpvMessage BufReader.readLine reader).2.stream := by
  rw [unix_call]
  cases hscan : scan reader.buffer reader.arrivals with
  | found message rest arrivals =>
    obtain ⟨hmessage, hbytes, hlength, hrest⟩ := scan_found hscan
    rw [BufReader.stream, hbytes, hmessage.endsMessage_append] at hends
    exact ⟨.message hmessage hbytes hlength, hrest.mp hcalm, hends⟩
  | timeout seen arrivals =>
    obtain ⟨-, hbytes, hlength, hrest⟩ := scan_timeout hscan
    obtain ⟨rfl, hlater⟩ := hrest.mp hcalm
    rw [BufReader.stream, hbytes] at hends
    exact ⟨.nothing hbytes.symm hlength, hlater, hends⟩
  | closed seen =>
    obtain ⟨hplain, hbytes, -⟩ := scan_closed hscan
    have hseen : seen = [] := by
      rw [BufReader.stream, hbytes] at hends
      exact (endsMessage_of_plain hplain).mp hends
    rw [hseen] at hbytes
    dsimp only
    rw [if_pos hseen]
    refine ⟨?_, trivial, endsMessage_nil⟩
    apply GivesUpNothing.closed
    rw [BufReader.stream, hbytes]
    rintro byte ⟨⟩

theorem weight_report : weight [report message] ≤ message.length := by
  rw [report]
  split_ifs
  · simp [weight]
  · simp [weight]

/-- The Unix reader delivers no more than the stream, and less of it when a read times out
within a line, by induction on the calls. -/
theorem unix_weight (calls : ℕ) (reader : BufReader) :
    weight (delivered (readMpvMessage BufReader.readLine) calls reader) ≤ reader.stream.length ∧
      (¬ Calm reader.buffer reader.arrivals →
        weight (delivered (readMpvMessage BufReader.readLine) calls reader) <
          reader.stream.length) := by
  induction calls generalizing reader with
  | zero =>
    refine ⟨Nat.zero_le _, fun hbroken => ?_⟩
    rw [calm_iff] at hbroken
    by_contra hnone
    apply hbroken
    intro before after hsplit
    have hempty : reader.buffer ++ received before = [] := by
      have hstream : reader.stream = [] := List.eq_nil_of_length_eq_zero (by
        rw [delivered, weight, List.map_nil, List.sum_nil] at hnone
        omega)
      rw [BufReader.stream, hsplit, received, List.flatMap_append, ← List.append_assoc] at hstream
      exact (List.append_eq_nil_iff.mp hstream).1
    rw [hempty]
    exact endsMessage_nil
  | succ calls ih =>
    have hcall := unix_call reader
    cases hscan : scan reader.buffer reader.arrivals with
    | found message rest arrivals =>
      rw [hscan] at hcall
      obtain ⟨-, hbytes, -, hrest⟩ := scan_found hscan
      have hstream : reader.stream.length =
          message.length + (BufReader.stream ⟨rest, arrivals⟩).length := by
        rw [BufReader.stream, hbytes, List.length_append, BufReader.stream]
      have hweight := weight_report message
      obtain ⟨hmost, hless⟩ := ih ⟨rest, arrivals⟩
      rw [delivered_of_report hcall (report_delivers message), weight_cons, hstream, hrest]
      exact ⟨by omega, fun hbroken => by have hlost := hless hbroken; omega⟩
    | timeout seen arrivals =>
      rw [hscan] at hcall
      obtain ⟨-, hbytes, -, hrest⟩ := scan_timeout hscan
      have hstream : reader.stream.length =
          seen.length + (BufReader.stream ⟨[], arrivals⟩).length := by
        rw [BufReader.stream, hbytes, List.length_append, BufReader.stream, List.nil_append]
      obtain ⟨hmost, hless⟩ := ih ⟨[], arrivals⟩
      rw [delivered_of_nothing hcall, hstream, hrest]
      refine ⟨by omega, fun hbroken => ?_⟩
      by_cases hseen : seen = []
      · have hlost := hless fun hlater => hbroken ⟨hseen, hlater⟩
        omega
      · have hpos := List.length_pos_iff.mpr hseen
        omega
    | closed seen =>
      rw [hscan] at hcall
      obtain ⟨-, hbytes, hcalm⟩ := scan_closed hscan
      refine ⟨?_, fun hbroken => absurd hcalm hbroken⟩
      rw [BufReader.stream, hbytes]
      dsimp only at hcall
      by_cases hseen : seen = []
      · rw [if_pos hseen] at hcall
        rw [delivered_of_closed hcall]
        exact Nat.zero_le _
      · rw [if_neg hseen] at hcall
        have hweight := weight_report seen
        have hmost : weight (delivered (readMpvMessage BufReader.readLine) calls ⟨[], []⟩) ≤ 0 :=
          (ih ⟨[], []⟩).1
        rw [delivered_of_report hcall (report_delivers seen), weight_cons]
        omega

theorem endsMessage_flatten {messages : List (List UInt8)}
    (hmessages : ∀ message ∈ messages, IsMessage isNewline message) :
    EndsMessage isNewline messages.flatten := by
  induction messages with
  | nil => exact endsMessage_nil
  | cons message messages ih =>
    rw [List.flatten_cons, (hmessages message List.mem_cons_self).endsMessage_append]
    exact ih fun other hother => hmessages other (List.mem_cons_of_mem _ hother)

/-- However mpv's messages arrive, the Windows reader delivers them; the Unix reader
delivers the same exactly if no read times out within a line. -/
theorem readers_agree_iff (messages : List (List UInt8))
    (hmessages : ∀ message ∈ messages, IsMessage isNewline message ∧ isUtf8 message = true)
    (unix windows : List Arrival) (hunix : received unix = messages.flatten)
    (hwindows : received windows = messages.flatten) (calls : ℕ)
    (hcalls : messages.length + unix.length ≤ calls ∧ messages.length + windows.length ≤ calls) :
    delivered (readMpvMessage MpvPipeReader.readLine) calls ⟨[], windows⟩ = messages.map .message ∧
      (delivered (readMpvMessage BufReader.readLine) calls ⟨[], unix⟩ =
          delivered (readMpvMessage MpvPipeReader.readLine) calls ⟨[], windows⟩ ↔
        ∀ before after, unix = before ++ .timeout :: after →
          EndsMessage isNewline (received before)) := by
  have hlines : ∀ message ∈ messages, IsMessage isNewline message :=
    fun message hmessage => (hmessages message hmessage).1
  have hreports : messages.map report = messages.map .message := by
    apply List.map_congr_left
    intro message hmessage
    rw [report, if_pos (hmessages message hmessage).2]
  have hpipe : delivered (readMpvMessage MpvPipeReader.readLine) calls ⟨[], windows⟩ =
      messages.map .message := by
    have hstream : MpvPipeReader.stream ⟨[], windows⟩ = messages.flatten := hwindows
    rw [← hreports]
    exact delivered_of_givesUpNothing (fun _ => True) report_delivers
      (fun reader _ => ⟨windows_givesUpNothing reader, trivial⟩) hlines trivial hstream hcalls.2
  have hcalm : Calm [] unix ↔ ∀ before after, unix = before ++ .timeout :: after →
      EndsMessage isNewline (received before) := calm_iff
  refine ⟨hpipe, ?_⟩
  rw [hpipe, ← hcalm]
  constructor
  · intro hsame
    by_contra hbroken
    have hless := (unix_weight calls ⟨[], unix⟩).2 hbroken
    rw [hsame, weight_messages, BufReader.stream, List.nil_append, hunix] at hless
    exact Nat.lt_irrefl _ hless
  · intro hquiet
    have hstream : BufReader.stream ⟨[], unix⟩ = messages.flatten := hunix
    have hends : EndsMessage isNewline (BufReader.stream ⟨[], unix⟩) := by
      rw [hstream]
      exact endsMessage_flatten hlines
    rw [← hreports]
    exact delivered_of_givesUpNothing
      (fun reader : BufReader => Calm reader.buffer reader.arrivals ∧
        EndsMessage isNewline reader.stream)
      report_delivers (fun reader h => unix_givesUpNothing h.1 h.2) hlines ⟨hquiet, hends⟩ hstream
      hcalls.1

/-- A message in two pieces, with a timeout in between: `ab`. -/
def splitWrite : List Arrival := [.bytes 97 [], .timeout, .bytes 98 [newline]]

theorem splitWrite_message :
    IsMessage isNewline [97, 98, newline] ∧ isUtf8 [97, 98, newline] = true := by
  refine ⟨⟨[97, 98], newline, rfl, ?_, rfl⟩, by decide +kernel⟩
  intro byte hbyte
  simp only [List.mem_cons, List.not_mem_nil, or_false] at hbyte
  rcases hbyte with rfl | rfl
  · rfl
  · rfl

theorem readers_agree_unsplit :
    delivered (readMpvMessage BufReader.readLine) 3 ⟨[], [.timeout, .bytes 97 [98, newline]]⟩ =
      delivered (readMpvMessage MpvPipeReader.readLine) 3 ⟨[], [.bytes 97 [98, newline]]⟩ := by
  refine (readers_agree_iff [[97, 98, newline]] ?_ [.timeout, .bytes 97 [98, newline]]
    [.bytes 97 [98, newline]] rfl rfl 3 (by decide)).2.mpr ?_
  · intro message hmessage
    obtain rfl := List.mem_singleton.mp hmessage
    exact splitWrite_message
  · have hquiet : Calm [] [.timeout, .bytes 97 [98, newline]] := ⟨endsMessage_nil, trivial⟩
    exact calm_iff.mp hquiet

/-- Split by a timeout, the message comes without its beginning. -/
theorem split_message_loses_its_beginning :
    ¬ ∀ (messages : List (List UInt8)) (arrivals : List Arrival) (calls : ℕ),
      (∀ message ∈ messages, IsMessage isNewline message ∧ isUtf8 message = true) →
      received arrivals = messages.flatten → messages.length + arrivals.length ≤ calls →
      delivered (readMpvMessage BufReader.readLine) calls ⟨[], arrivals⟩ =
        delivered (readMpvMessage MpvPipeReader.readLine) calls ⟨[], arrivals⟩ := by
  intro h
  have hsame := h [[97, 98, newline]] splitWrite 4
    (fun message hmessage => (List.mem_singleton.mp hmessage) ▸ splitWrite_message) rfl (by decide)
  have hunix : delivered (readMpvMessage BufReader.readLine) 4 ⟨[], splitWrite⟩ =
      [.message [98, newline]] := by decide +kernel
  have hwindows : delivered (readMpvMessage MpvPipeReader.readLine) 4 ⟨[], splitWrite⟩ =
      [.message [97, 98, newline]] := by decide +kernel
  rw [hunix, hwindows] at hsame
  exact absurd hsame (by decide)

end Harmony.Player
