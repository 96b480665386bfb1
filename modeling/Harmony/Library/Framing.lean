/-
# Messages with an end mark

A stream is cut into messages by marks at their ends. A reader of a stream is called again
and again; each call takes a message, or finds nothing yet, or finds the stream closed. A
reader that gives up nothing of the stream delivers its messages, each once and whole,
whatever it had to wait for.
-/

import Mathlib.Data.List.Basic
import Mathlib.Algebra.GroupWithZero.Nat

namespace Framing

variable {α : Type*}

/-- One message: one mark, at its end. -/
def IsMessage (ends : α → Bool) (message : List α) : Prop :=
  ∃ body last, message = body ++ [last] ∧ (∀ a ∈ body, ends a = false) ∧ ends last = true

/-- The stream is between two messages. -/
def EndsMessage (ends : α → Bool) (stream : List α) : Prop :=
  ∀ last, stream.getLast? = some last → ends last = true

/-- The first message and what follows it. -/
def takeMessage (ends : α → Bool) (stream : List α) : Option (List α × List α) :=
  (stream.findIdx? ends).map fun place => (stream.take (place + 1), stream.drop (place + 1))

section Messages

variable {ends : α → Bool} {message stream rest : List α}

theorem IsMessage.length_pos (h : IsMessage ends message) : 0 < message.length := by
  obtain ⟨body, last, rfl, -, -⟩ := h
  rw [List.length_append, List.length_singleton]
  exact Nat.succ_pos _

theorem takeMessage_eq_some (h : takeMessage ends stream = some (message, rest)) :
    IsMessage ends message ∧ stream = message ++ rest := by
  obtain ⟨place, hplace, hcut⟩ := Option.map_eq_some_iff.mp h
  cases hcut
  obtain ⟨hlt, hmark, hbefore⟩ := List.findIdx?_eq_some_iff_getElem.mp hplace
  refine ⟨⟨stream.take place, stream[place], List.take_succ_eq_append_getElem hlt, ?_, hmark⟩,
    (List.take_append_drop _ _).symm⟩
  intro a ha
  obtain ⟨i, hi, rfl⟩ := List.mem_take_iff_getElem.mp ha
  have hnone := hbefore i (by omega)
  rwa [Bool.not_eq_true] at hnone

theorem takeMessage_eq_none (h : takeMessage ends stream = none) :
    ∀ a ∈ stream, ends a = false := by
  rw [takeMessage, Option.map_eq_none_iff] at h
  exact List.findIdx?_eq_none_iff.mp h

/-- A stream begins with one message at most. -/
theorem IsMessage.unique {other stream' : List α} (h : IsMessage ends message)
    (hother : IsMessage ends other) (heq : message ++ stream = other ++ stream') :
    message = other ∧ stream = stream' := by
  obtain ⟨body, last, rfl, hbody, hlast⟩ := h
  obtain ⟨body', last', rfl, hbody', hlast'⟩ := hother
  induction body generalizing body' with
  | nil =>
    cases body' with
    | nil =>
      obtain ⟨rfl, rfl⟩ := List.cons.inj heq
      exact ⟨rfl, rfl⟩
    | cons a body' =>
      obtain ⟨rfl, -⟩ := List.cons.inj heq
      have hplain := hbody' last List.mem_cons_self
      rw [hlast] at hplain
      cases hplain
  | cons a body ih =>
    cases body' with
    | nil =>
      obtain ⟨rfl, -⟩ := List.cons.inj heq
      have hplain := hbody a List.mem_cons_self
      rw [hlast'] at hplain
      cases hplain
    | cons a' body' =>
      obtain ⟨rfl, hrest⟩ := List.cons.inj heq
      obtain ⟨hmessage, hstream⟩ := ih (fun b hb => hbody b (List.mem_cons_of_mem _ hb)) body' hrest
        fun b hb => hbody' b (List.mem_cons_of_mem _ hb)
      exact ⟨congrArg (a :: ·) hmessage, hstream⟩

theorem endsMessage_nil : EndsMessage ends [] := by
  rintro last ⟨⟩

/-- A message more does not matter. -/
theorem IsMessage.endsMessage_append (h : IsMessage ends message) :
    EndsMessage ends (message ++ stream) ↔ EndsMessage ends stream := by
  obtain ⟨body, last, rfl, -, hlast⟩ := h
  cases stream with
  | nil =>
    refine ⟨fun _ => endsMessage_nil, fun _ other hother => ?_⟩
    rw [List.append_nil, List.getLast?_concat] at hother
    cases hother
    exact hlast
  | cons a stream =>
    rw [EndsMessage, EndsMessage, List.getLast?_append_of_ne_nil _ (List.cons_ne_nil _ _)]

/-- Without a mark, only nothing at all is between messages. -/
theorem endsMessage_of_plain (hplain : ∀ a ∈ stream, ends a = false) :
    EndsMessage ends stream ↔ stream = [] := by
  constructor
  · intro h
    cases hlast : stream.getLast? with
    | none => exact List.getLast?_eq_none_iff.mp hlast
    | some last =>
      have hmark := h last hlast
      rw [hplain last (List.mem_of_getLast? hlast)] at hmark
      cases hmark
  · rintro rfl
    exact endsMessage_nil

end Messages

/-! ### Readers -/

/-- How a call of a reader ends. -/
inductive Outcome (α : Type*)
  | message (message : List α)
  | failed
  | nothing
  | closed
  deriving DecidableEq

/-- What so many calls deliver, as long as the stream is not closed. -/
def delivered {R : Type*} (read : R → Outcome α × R) : ℕ → R → List (Outcome α)
  | 0, _ => []
  | calls + 1, reader =>
    match read reader with
    | (.closed, _) => []
    | (.nothing, reader') => delivered read calls reader'
    | (outcome, reader') => outcome :: delivered read calls reader'

/-- The elements of the messages that are delivered. -/
def weight (outcomes : List (Outcome α)) : ℕ :=
  (outcomes.map fun outcome =>
    match outcome with
    | .message message => message.length
    | _ => 0).sum

section Readers

variable {R : Type*} {read : R → Outcome α × R} {stream : R → List α} {waits : R → ℕ}
  {ends : α → Bool} {report : List α → Outcome α} {reader : R}

theorem delivered_of_nothing {reader' : R} (h : read reader = (.nothing, reader')) (calls : ℕ) :
    delivered read (calls + 1) reader = delivered read calls reader' := by
  rw [delivered, h]

theorem delivered_of_closed {reader' : R} (h : read reader = (.closed, reader')) (calls : ℕ) :
    delivered read (calls + 1) reader = [] := by
  rw [delivered, h]

theorem delivered_of_report {outcome : Outcome α} {reader' : R}
    (h : read reader = (outcome, reader'))
    (hreport : outcome ≠ .nothing ∧ outcome ≠ .closed) (calls : ℕ) :
    delivered read (calls + 1) reader = outcome :: delivered read calls reader' := by
  rw [delivered, h]
  cases outcome with
  | nothing => exact absurd rfl hreport.1
  | closed => exact absurd rfl hreport.2
  | message message => rfl
  | failed => rfl

/-- What a call does that gives up nothing of the stream: it waits, or takes the first
message, or there is none any more. -/
inductive GivesUpNothing (stream : R → List α) (waits : R → ℕ) (ends : α → Bool)
    (report : List α → Outcome α) (reader : R) : Outcome α × R → Prop
  | nothing {reader' : R} (hstream : stream reader' = stream reader)
      (hwaits : waits reader' < waits reader) :
      GivesUpNothing stream waits ends report reader (.nothing, reader')
  | message {message : List α} {reader' : R} (hmessage : IsMessage ends message)
      (hstream : stream reader = message ++ stream reader')
      (hwaits : waits reader' ≤ waits reader) :
      GivesUpNothing stream waits ends report reader (report message, reader')
  | closed {reader' : R} (hplain : ∀ a ∈ stream reader, ends a = false) :
      GivesUpNothing stream waits ends report reader (.closed, reader')

/-- The messages of the stream are delivered, by induction on the calls. -/
theorem delivered_of_givesUpNothing (P : R → Prop)
    (hreport : ∀ message, report message ≠ .nothing ∧ report message ≠ .closed)
    (hstep : ∀ reader, P reader →
      GivesUpNothing stream waits ends report reader (read reader) ∧ P (read reader).2)
    {messages : List (List α)} (hmessages : ∀ message ∈ messages, IsMessage ends message)
    (hreader : P reader) (hstream : stream reader = messages.flatten) {calls : ℕ}
    (hcalls : messages.length + waits reader ≤ calls) :
    delivered read calls reader = messages.map report := by
  induction calls generalizing reader messages with
  | zero =>
    have hnone : messages = [] := List.eq_nil_of_length_eq_zero (by omega)
    rw [hnone]
    rfl
  | succ calls ih =>
    obtain ⟨hcall, hafter⟩ := hstep reader hreader
    rcases hread : read reader with ⟨outcome, reader'⟩
    rw [hread] at hcall hafter
    have hafter : P reader' := hafter
    cases hcall with
    | nothing hsame hwaits =>
      rw [delivered_of_nothing hread]
      exact ih hmessages hafter (hsame.trans hstream) (by omega)
    | @message message _ hmessage hcut hwaits =>
      rw [delivered_of_report hread (hreport message)]
      cases messages with
      | nil =>
        have hempty := hcut.symm.trans hstream
        have hlength := congrArg List.length hempty
        rw [List.length_append, List.flatten_nil, List.length_nil] at hlength
        have hpos := hmessage.length_pos
        omega
      | cons first messages =>
        rw [List.flatten_cons] at hstream
        obtain ⟨rfl, hrest⟩ := hmessage.unique (hmessages first List.mem_cons_self)
          (hcut.symm.trans hstream)
        have hcount : messages.length + waits reader' ≤ calls := by
          rw [List.length_cons] at hcalls
          omega
        have hothers := ih (fun other hother => hmessages other (List.mem_cons_of_mem _ hother))
          hafter hrest hcount
        rw [List.map_cons]
        exact congrArg (report message :: ·) hothers
    | closed hplain =>
      rw [delivered_of_closed hread]
      cases messages with
      | nil => rfl
      | cons first messages =>
        obtain ⟨body, last, rfl, -, hlast⟩ := hmessages first List.mem_cons_self
        have hmem : last ∈ stream reader := by
          rw [hstream, List.flatten_cons]
          simp
        rw [hplain last hmem] at hlast
        cases hlast

theorem weight_cons (outcome : Outcome α) (outcomes : List (Outcome α)) :
    weight (outcome :: outcomes) = weight [outcome] + weight outcomes := by
  simp [weight]

theorem weight_messages (messages : List (List α)) :
    weight (messages.map .message) = messages.flatten.length := by
  rw [weight, List.map_map, List.length_flatten]
  rfl

end Readers

end Framing
