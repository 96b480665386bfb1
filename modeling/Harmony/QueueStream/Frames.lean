/-
# What the server writes to a queue stream

An event says which revision the queue has and which change that was, as a JSON object in
one line. The reader and the writer of JSON are the library's: what they are trusted with
is the grammar. Between two events the stream is kept alive by comments.
-/

import Harmony.Library.Blocks
import Harmony.Library.Utf8
import Harmony.Search.StoredText

namespace Harmony.QueueStream

open Search.Json (Literal Elements quoted)

/-- What an event tells. -/
structure Payload where
  revision : String
  sequence : String
  invalidates : List String

/-- The names of the members and the punctuation; a map writes them in this order. -/
def memberKeys : Fin 4 → List Char :=
  !["\x7b\"invalidates\":[".toList, "],\"revision\":".toList, ",\"sequence\":".toList,
    "\x7d".toList]

def object (invalidates revision sequence : List Char) : List Char :=
  memberKeys 0 ++ (invalidates ++ (memberKeys 1 ++ (quoted revision ++ (memberKeys 2 ++
    (quoted sequence ++ memberKeys 3)))))

/-- The JSON text stands for the payload. -/
def Denotes (json : List Char) (payload : Payload) : Prop :=
  ∃ invalidates revision sequence, json = object invalidates revision sequence ∧
    Elements invalidates payload.invalidates ∧ Literal revision payload.revision.toList ∧
    Literal sequence payload.sequence.toList

/-- The JSON library, for payloads. -/
structure Serde where
  toString : Payload → List Char
  fromStr : List Char → Option Payload

/-- It writes what stands for the payload, and reads whatever stands for one. -/
structure Serde.Documented (serde : Serde) : Prop where
  writes : ∀ payload, Denotes (serde.toString payload) payload
  reads : ∀ json payload, Denotes json payload → serde.fromStr json = some payload

section Server

variable (serde : Serde)

def eventData (revision sequence : String) : List Char :=
  Search.Json.escape (serde.toString ⟨revision, sequence, ["queue"]⟩)

def queueEvent (revision sequence : String) : List UInt8 :=
  Utf8.encode ("id: ".toList ++ sequence.toList ++ "\nevent: queue-invalidated\ndata: ".toList ++
    eventData serde revision sequence ++ "\n\n".toList)

def keepAlive : List UInt8 := Utf8.encode ": keep-alive\n\n".toList

/-- What the stream carries next; a sequence is a number in the database. -/
inductive ServerFrame
  | event (revision : String) (sequence : ℕ)
  | keepAlive

def ServerFrame.bytes : ServerFrame → List UInt8
  | .event revision sequence => queueEvent serde revision (toString sequence)
  | .keepAlive => QueueStream.keepAlive

/-- The lines of a frame. -/
def ServerFrame.lines : ServerFrame → List (List Char)
  | .event revision sequence =>
    ["id: ".toList ++ Nat.toDigits 10 sequence, "event: queue-invalidated".toList,
      "data: ".toList ++ eventData serde revision (toString sequence)]
  | .keepAlive => [": keep-alive".toList]

/-- The frame without the blank line that ends it. -/
def ServerFrame.block (frame : ServerFrame) : List UInt8 :=
  Utf8.encode (['\n'].intercalate (frame.lines serde))

end Server

/-! ### JSON without line ends -/

theorem printable_of_hexDigit {c : Char} {n : ℕ} (h : Search.Json.hexDigit c = some n) :
    0x20 ≤ c.toNat := by
  by_contra hlow
  have hnone : ∀ m < 0x20, Search.Json.hexDigit (Char.ofNat m) = none := by decide
  have hcase := hnone c.toNat (by omega)
  rw [Char.ofNat_toNat, h] at hcase
  cases hcase

theorem printable_of_hexValue {first second third fourth : Char} {n : ℕ}
    (h : Search.Json.hexValue first second third fourth = some n) :
    ∀ c ∈ [first, second, third, fourth], 0x20 ≤ c.toNat := by
  simp only [Search.Json.hexValue, Option.bind_eq_bind, Option.bind_eq_some_iff] at h
  obtain ⟨_, hfirst, _, hsecond, _, hthird, _, hfourth, -⟩ := h
  intro c hc
  simp only [List.mem_cons, List.not_mem_nil, or_false] at hc
  rcases hc with rfl | rfl | rfl | rfl
  · exact printable_of_hexDigit hfirst
  · exact printable_of_hexDigit hsecond
  · exact printable_of_hexDigit hthird
  · exact printable_of_hexDigit hfourth

/-- A line end inside a string is spelled with a backslash, by induction on the spelling. -/
theorem printable_of_literal {body value : List Char} (h : Literal body value) :
    ∀ c ∈ body, 0x20 ≤ c.toNat := by
  induction h with
  | nil => simp
  | plain c hquote hbackslash hcontrol _ ih => exact List.forall_mem_cons.mpr ⟨hcontrol, ih⟩
  | short escape c h _ ih =>
    have hprintable : ∀ pair ∈ Search.Json.shortEscapes, 0x20 ≤ pair.1.toNat := by decide
    exact List.forall_mem_cons.mpr ⟨by decide, List.forall_mem_cons.mpr ⟨hprintable _ h, ih⟩⟩
  | unicode first second third fourth c h _ ih =>
    have hdigits := printable_of_hexValue h
    intro d hd
    simp only [List.mem_cons] at hd hdigits
    rcases hd with rfl | rfl | rfl | rfl | rfl | rfl | hd
    · decide
    · decide
    · exact hdigits _ (.inl rfl)
    · exact hdigits _ (.inr (.inl rfl))
    · exact hdigits _ (.inr (.inr (.inl rfl)))
    · exact hdigits _ (.inr (.inr (.inr (.inl rfl))))
    · exact ih d hd

theorem printable_quoted {body value : List Char} (h : Literal body value) :
    ∀ c ∈ quoted body, 0x20 ≤ c.toNat := by
  intro c hc
  rw [quoted, List.mem_cons, List.mem_append, List.mem_singleton] at hc
  rcases hc with rfl | hc | rfl
  · decide
  · exact printable_of_literal h c hc
  · decide

theorem printable_of_elements {body : List Char} {values : List String}
    (h : Elements body values) : ∀ c ∈ body, 0x20 ≤ c.toNat := by
  induction h with
  | nil => simp
  | one h => exact printable_quoted h
  | cons h _ ih =>
    intro c hc
    rw [List.mem_append, List.mem_cons] at hc
    rcases hc with hc | rfl | hc
    · exact printable_quoted h c hc
    · decide
    · exact ih c hc

theorem Denotes.printable {json : List Char} {payload : Payload} (h : Denotes json payload) :
    ∀ c ∈ json, 0x20 ≤ c.toNat := by
  obtain ⟨invalidates, revision, sequence, rfl, hinvalidates, hrevision, hsequence⟩ := h
  have hall : ∀ i, ((memberKeys i).all fun c => decide (0x20 ≤ c.toNat)) = true := by
    decide +kernel
  have hkeys : ∀ i, ∀ c ∈ memberKeys i, 0x20 ≤ c.toNat := fun i c hc =>
    of_decide_eq_true (List.all_eq_true.mp (hall i) c hc)
  intro c hc
  simp only [object, List.mem_append] at hc
  rcases hc with hc | hc | hc | hc | hc | hc | hc
  · exact hkeys 0 c hc
  · exact printable_of_elements hinvalidates c hc
  · exact hkeys 1 c hc
  · exact printable_quoted hrevision c hc
  · exact hkeys 2 c hc
  · exact printable_quoted hsequence c hc
  · exact hkeys 3 c hc

/-- Escaped, a JSON text stands for the same payload. -/
theorem Denotes.escape {json : List Char} {payload : Payload} (h : Denotes json payload) :
    Denotes (Search.Json.escape json) payload := by
  obtain ⟨invalidates, revision, sequence, rfl, hinvalidates, hrevision, hsequence⟩ := h
  refine ⟨Search.Json.escape invalidates, Search.Json.escape revision, Search.Json.escape sequence,
    ?_, hinvalidates.escape, hrevision.escape, hsequence.escape⟩
  have hkeys : ∀ i, Search.Json.escape (memberKeys i) = memberKeys i := by decide +kernel
  simp only [object, Search.Json.escape_append, Search.Json.escape_quoted, hkeys]

theorem fromStr_eventData {serde : Serde} (h : serde.Documented) (revision sequence : String) :
    serde.fromStr (eventData serde revision sequence) = some ⟨revision, sequence, ["queue"]⟩ :=
  h.reads _ _ (h.writes _).escape

theorem printable_eventData {serde : Serde} (h : serde.Documented) (revision sequence : String) :
    ∀ c ∈ eventData serde revision sequence, 0x20 ≤ c.toNat :=
  (h.writes _).escape.printable

/-! ### Frames as lines -/

theorem ServerFrame.bytes_eq (serde : Serde) (frame : ServerFrame) :
    frame.bytes serde = frame.block serde ++ [10, 10] := by
  have hend : Utf8.encode "\n\n".toList = [10, 10] := by decide +kernel
  cases frame with
  | keepAlive =>
    have hkeepAlive : ": keep-alive\n\n".toList = ": keep-alive".toList ++ "\n\n".toList := by
      decide +kernel
    rw [bytes, QueueStream.keepAlive, hkeepAlive, Utf8.encode_append, hend, block, lines,
      List.intercalate_singleton]
  | event revision sequence =>
    have hdigits : (toString sequence).toList = Nat.toDigits 10 sequence := Nat.toList_repr
    have hmiddle : "\nevent: queue-invalidated\ndata: ".toList =
        ['\n'] ++ ("event: queue-invalidated".toList ++ (['\n'] ++ "data: ".toList)) := by
      decide +kernel
    rw [bytes, queueEvent, Utf8.encode_append, hend, block, lines, hdigits, hmiddle]
    simp only [List.intercalate_cons_cons, List.intercalate_singleton, List.append_assoc]

theorem printable_toDigits {n : ℕ} : ∀ c ∈ Nat.toDigits 10 n, 0x20 ≤ c.toNat := by
  intro c hc
  have hdigit := Nat.isDigit_of_mem_toDigits (by decide) (by decide) hc
  rw [Char.isDigit_iff_toNat] at hdigit
  exact le_trans (by decide) hdigit.1

/-- Every line has something in it, and no line end. -/
theorem ServerFrame.printable {serde : Serde} (h : serde.Documented) (frame : ServerFrame) :
    ∀ line ∈ frame.lines serde, line ≠ [] ∧ ∀ c ∈ line, 0x20 ≤ c.toNat := by
  have hnames : (["id: ", "event: queue-invalidated", "data: ", ": keep-alive"].all fun name =>
      name.toList.all fun c => decide (0x20 ≤ c.toNat)) = true := by decide +kernel
  simp only [List.all_cons, List.all_nil, Bool.and_true, Bool.and_eq_true, List.all_eq_true,
    decide_eq_true_eq] at hnames
  obtain ⟨hid, hevent, hdata, hkeepAlive⟩ := hnames
  cases frame with
  | keepAlive =>
    simp only [lines, List.forall_mem_cons]
    exact ⟨⟨by decide, hkeepAlive⟩, by simp⟩
  | event revision sequence =>
    simp only [lines, List.forall_mem_cons, List.forall_mem_append]
    exact ⟨⟨by simp, hid, printable_toDigits⟩, ⟨by decide, hevent⟩,
      ⟨by simp, hdata, printable_eventData h _ _⟩, by simp⟩

/-! ### A library that does what is documented -/

def writePayload (payload : Payload) : List Char :=
  object (Search.Json.writeStrings payload.invalidates)
    (Search.Json.writeString payload.revision) (Search.Json.writeString payload.sequence)

def readPayload (input : List Char) : Option Payload := do
  let rest ← Search.Json.expect (memberKeys 0) input
  let (invalidates, rest) ← Search.Json.readElements rest.length rest
  let rest ← Search.Json.expect (memberKeys 1).tail rest
  let (revision, rest) ← Search.Json.readQuoted rest
  let rest ← Search.Json.expect (memberKeys 2) rest
  let (sequence, _) ← Search.Json.readQuoted rest
  return ⟨String.ofList revision, String.ofList sequence, invalidates⟩

def plainSerde : Serde := ⟨writePayload, readPayload⟩

theorem documented_plainSerde : plainSerde.Documented where
  writes payload := ⟨_, _, _, rfl, Search.Json.elements_writeStrings _,
    Search.Json.literal_writeString _, Search.Json.literal_writeString _⟩
  reads := by
    rintro json payload ⟨invalidates, revision, sequence, rfl, hinvalidates, hrevision, hsequence⟩
    have hclose : memberKeys 1 = ']' :: (memberKeys 1).tail := by decide +kernel
    have hfuel : ∀ rest : List Char, invalidates.length < (invalidates ++ ']' :: rest).length := by
      intro rest
      rw [List.length_append, List.length_cons]
      omega
    simp only [plainSerde, readPayload, object, Search.Json.expect_append]
    rw [hclose]
    simp only [List.cons_append, Option.bind_eq_bind, Option.bind_some,
      Search.Json.readElements_elements hinvalidates _ (hfuel _), List.tail_cons,
      Search.Json.expect_append, Search.Json.readQuoted_literal hrevision,
      Search.Json.readQuoted_literal hsequence, String.ofList_toList]
    rfl

end Harmony.QueueStream
