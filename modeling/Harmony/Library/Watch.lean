/-
# Channels that keep only their newest value

A sender replaces one value; a receiver remembers which version it saw last and is
woken when there is a newer one, or when the sender is gone. It may skip values,
but it never goes back: between two of its reads the versions only grow, so what
orders the values sent orders the values read.
-/

import Mathlib.Data.List.Basic

namespace Watch

variable {α : Type*}

/-- The value a receiver reads, those it replaced, newest first, and whether there
still is a sender. -/
structure Channel (α : Type*) where
  newest : α
  older : List α
  alive : Bool

/-- What a receiver finds when it asks for something newer than what it saw. -/
inductive Changed
  | changed
  | closed
  | pending

namespace Channel

/-- All values, newest first. -/
def values (channel : Channel α) : List α := channel.newest :: channel.older

/-- Counts the values that were replaced. -/
def version (channel : Channel α) : ℕ := channel.older.length

def send (channel : Channel α) (value : α) : Channel α :=
  { channel with newest := value, older := channel.values }

def dropSender (channel : Channel α) : Channel α := { channel with alive := false }

/-- A newer value comes before the news that the sender is gone. -/
def changed (channel : Channel α) (seen : ℕ) : Changed :=
  if seen ≠ channel.version then .changed else if channel.alive then .pending else .closed

/-- The value that made this version. -/
def valueAt (channel : Channel α) (version : ℕ) : Option α :=
  channel.values[channel.version - version]?

variable {channel : Channel α} {seen : ℕ}

@[simp] theorem values_send (channel : Channel α) (value : α) :
    (channel.send value).values = value :: channel.values := rfl

@[simp] theorem version_send (channel : Channel α) (value : α) :
    (channel.send value).version = channel.version + 1 := rfl

@[simp] theorem valueAt_version (channel : Channel α) :
    channel.valueAt channel.version = some channel.newest := by
  simp [valueAt, values]

/-- What a receiver saw is not changed by what is sent later. -/
theorem valueAt_send (value : α) (hseen : seen ≤ channel.version) :
    (channel.send value).valueAt seen = channel.valueAt seen := by
  have hindex : channel.version + 1 - seen = channel.version - seen + 1 := by omega
  rw [valueAt, version_send, values_send, hindex, List.getElem?_cons_succ, valueAt]

/-- An order in which each value follows all before it is one of the versions. -/
theorem newest_follows {R : α → α → Prop} {value : α} (hordered : channel.values.Pairwise R)
    (hseen : seen < channel.version) (hvalue : channel.valueAt seen = some value) :
    R channel.newest value := by
  obtain ⟨hnewest, -⟩ := List.pairwise_cons.mp hordered
  refine hnewest value ?_
  have hindex : channel.version - seen = channel.version - seen - 1 + 1 := by omega
  rw [valueAt, hindex, values, List.getElem?_cons_succ] at hvalue
  exact List.mem_of_getElem? hvalue

end Channel

end Watch
