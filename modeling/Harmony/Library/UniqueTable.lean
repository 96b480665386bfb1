/-
# Tables with a unique slot

A table under distinct keys whose rows also occupy distinct slots: a relational
table with a second unique key. The two rules are part of the type, so a table
that breaks one cannot be built; a statement that would break one reports which.
-/

import Harmony.Library.Table

/-- The rule a statement would break. -/
inductive UniqueViolation
  | key
  | slot
  deriving DecidableEq

/-- Rows under distinct keys in distinct slots. -/
structure UniqueTable (κ : Type*) [DecidableEq κ] {ρ γ : Type*} (slot : ρ → γ) where
  rows : Table κ ρ
  slot_injective : ∀ {k k' : κ} {r r' : ρ}, r ∈ rows.lookup k → r' ∈ rows.lookup k' →
    slot r = slot r' → k = k'

namespace UniqueTable

variable {κ ρ γ : Type*} [DecidableEq κ] [DecidableEq γ] {slot : ρ → γ}

instance : EmptyCollection (UniqueTable κ slot) := ⟨⟨∅, by simp⟩⟩

/-- Whether a row under another key is in the slot. -/
def occupied (t : UniqueTable κ slot) (k : κ) (place : γ) : Bool :=
  t.rows.any fun k' r => decide (k' ≠ k) && decide (slot r = place)

/-- Adds a row under a new key. -/
def insert (t : UniqueTable κ slot) (k : κ) (r : ρ) : Except UniqueViolation (UniqueTable κ slot) :=
  if k ∈ t.rows then .error .key
  else if hfree : t.occupied k (slot r) = true then .error .slot
  else .ok ⟨AList.insert k r t.rows, by
    rw [occupied, Bool.not_eq_true, Table.any_eq_false] at hfree
    intro k₁ k₂ r₁ r₂ h₁ h₂ heq
    rw [Option.mem_def, Table.lookup_insert_eq] at h₁ h₂
    split_ifs at h₁ h₂ with hk₁ hk₂ hk₂
    · rw [hk₁, hk₂]
    · cases h₁
      simpa [hk₂, heq] using hfree k₂ r₂ h₂
    · cases h₂
      simpa [hk₁, heq] using hfree k₁ r₁ h₁
    · exact t.slot_injective h₁ h₂ heq⟩

/-- Rewrites the row under a key. -/
def put (t : UniqueTable κ slot) (k : κ) (r : ρ) : Except UniqueViolation (UniqueTable κ slot) :=
  if hfree : t.occupied k (slot r) = true then .error .slot
  else .ok ⟨t.rows.modify k fun _ => r, by
    rw [occupied, Bool.not_eq_true, Table.any_eq_false] at hfree
    intro k₁ k₂ r₁ r₂ h₁ h₂ heq
    rw [Option.mem_def, Table.lookup_modify] at h₁ h₂
    split_ifs at h₁ h₂ with hk₁ hk₂ hk₂
    · rw [hk₁, hk₂]
    · obtain ⟨-, -, rfl⟩ := Option.map_eq_some_iff.mp h₁
      simpa [hk₂, heq] using hfree k₂ r₂ h₂
    · obtain ⟨-, -, rfl⟩ := Option.map_eq_some_iff.mp h₂
      simpa [hk₁, heq] using hfree k₁ r₁ h₁
    · exact t.slot_injective h₁ h₂ heq⟩

/-- Removes the rows of a kind. -/
def deleteWhere (p : κ → ρ → Bool) (t : UniqueTable κ slot) : UniqueTable κ slot where
  rows := t.rows.filter fun k r => !p k r
  slot_injective := by
    intro k₁ k₂ r₁ r₂ h₁ h₂ heq
    rw [Option.mem_def, Table.lookup_filter, Option.filter_eq_some_iff] at h₁ h₂
    exact t.slot_injective h₁.1 h₂.1 heq

section Lookup

variable {t t' : UniqueTable κ slot} {k : κ} {r : ρ}

theorem occupied_eq_false {place : γ} :
    t.occupied k place = false ↔ ∀ k' r, t.rows.lookup k' = some r → slot r = place → k' = k := by
  rw [occupied, Table.any_eq_false]
  constructor
  · intro h k' r hrow hplace
    simpa [hplace] using h k' r hrow
  · intro h k' r hrow
    by_cases hplace : slot r = place
    · simp [h k' r hrow hplace]
    · simp [hplace]

/-- An insertion succeeds exactly under a new key in a free slot. -/
theorem insert_eq_ok :
    t.insert k r = .ok t' ↔
      k ∉ t.rows ∧ t.occupied k (slot r) = false ∧ t'.rows = AList.insert k r t.rows := by
  rw [insert]
  split_ifs with hkey hslot
  · simp [hkey]
  · simp [hslot]
  · cases t'
    simp [hkey, hslot, eq_comm]

/-- A row is rewritten exactly when no other row is in its new slot. -/
theorem put_eq_ok :
    t.put k r = .ok t' ↔
      t.occupied k (slot r) = false ∧ t'.rows = t.rows.modify k fun _ => r := by
  rw [put]
  split_ifs with hslot
  · simp [hslot]
  · cases t'
    simp [hslot, eq_comm]

theorem insert_slot_free (h : t.occupied k (slot r) = false) : t.insert k r ≠ .error .slot := by
  rw [insert]
  split_ifs with hkey hslot
  · simp
  · simp [h] at hslot
  · simp

omit [DecidableEq γ] in
@[simp] theorem rows_deleteWhere (p : κ → ρ → Bool) :
    (t.deleteWhere p).rows = t.rows.filter fun k r => !p k r := rfl

omit [DecidableEq γ] in
theorem lookup_deleteWhere {p : κ → ρ → Bool} :
    (t.deleteWhere p).rows.lookup k = some r ↔ t.rows.lookup k = some r ∧ p k r = false := by
  rw [rows_deleteWhere, Table.lookup_filter, Option.filter_eq_some_iff, Bool.not_eq_true']

end Lookup

end UniqueTable
