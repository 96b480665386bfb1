/-
# Finite tables

A table files rows under distinct keys. It is Mathlib's association list, with
the two ways in which a program changes many rows at once: rewriting every row,
which may also drop it, and asking for the rows of a kind. A row is always
reached through `lookup`, so the order of the rows does not matter to a proof.
-/

import Mathlib.Data.List.AList

/-- Rows filed under distinct keys. -/
abbrev Table (κ ρ : Type*) := AList fun _ : κ => ρ

namespace Table

variable {κ ρ : Type*}

/-- The entry of a rewritten row. -/
def rewriteEntry (f : κ → ρ → Option ρ) (e : (_ : κ) × ρ) : Option ((_ : κ) × ρ) :=
  (f e.1 e.2).map fun r => ⟨e.1, r⟩

/-- Rewrites every row, dropping those that `f` maps to `none`. -/
def rewrite (f : κ → ρ → Option ρ) (t : Table κ ρ) : Table κ ρ where
  entries := t.entries.filterMap (rewriteEntry f)
  nodupKeys := by
    have hsublist : List.Sublist (t.entries.filterMap (rewriteEntry f)).keys t.entries.keys := by
      induction t.entries with
      | nil => exact List.Sublist.slnil
      | cons e es ih =>
        cases h : f e.1 e.2 with
        | none => simpa [List.filterMap_cons, rewriteEntry, h] using ih.cons e.1
        | some r => simpa [List.filterMap_cons, rewriteEntry, h] using ih.cons_cons e.1
    exact hsublist.nodup t.keys_nodup

/-- Every row that is neither dropped nor changed. -/
def filter (p : κ → ρ → Bool) : Table κ ρ → Table κ ρ :=
  rewrite fun k r => if p k r then some r else none

/-- Changes the rows of a kind and keeps the others. -/
def updateWhere (p : κ → ρ → Bool) (f : ρ → ρ) : Table κ ρ → Table κ ρ :=
  rewrite fun k r => some (if p k r then f r else r)

def any (p : κ → ρ → Bool) (t : Table κ ρ) : Bool := t.entries.any fun e => p e.1 e.2

/-- The number of rows. -/
def size (t : Table κ ρ) : ℕ := t.entries.length

variable [DecidableEq κ]

/-- Changes the row under one key, when there is one. -/
def modify (k : κ) (f : ρ → ρ) : Table κ ρ → Table κ ρ :=
  updateWhere (fun k' _ => k' = k) f

section Lookup

variable (t : Table κ ρ) (k : κ)

@[simp] theorem lookup_rewrite (f : κ → ρ → Option ρ) :
    (t.rewrite f).lookup k = (t.lookup k).bind (f k) := by
  ext r
  rw [← Option.mem_def, AList.mem_lookup_iff, Option.bind_eq_some_iff]
  constructor
  · intro hrow
    obtain ⟨⟨key, row⟩, hentry, heq⟩ := List.mem_filterMap.mp hrow
    obtain ⟨kept, hkept, heq⟩ := Option.map_eq_some_iff.mp heq
    obtain ⟨rfl, rfl⟩ : key = k ∧ kept = r := by simpa using heq
    exact ⟨row, AList.mem_lookup_iff.mpr hentry, hkept⟩
  · rintro ⟨row, hrow, hkept⟩
    exact List.mem_filterMap.mpr ⟨⟨k, row⟩, AList.mem_lookup_iff.mp hrow,
      by simp [rewriteEntry, hkept]⟩

@[simp] theorem lookup_filter (p : κ → ρ → Bool) :
    (t.filter p).lookup k = (t.lookup k).filter (p k) := by
  rw [filter, lookup_rewrite]
  cases t.lookup k <;> simp [Option.filter]

@[simp] theorem lookup_updateWhere (p : κ → ρ → Bool) (f : ρ → ρ) :
    (t.updateWhere p f).lookup k = (t.lookup k).map fun r => if p k r then f r else r := by
  rw [updateWhere, lookup_rewrite]
  cases t.lookup k <;> simp

@[simp] theorem lookup_modify (k' : κ) (f : ρ → ρ) :
    (t.modify k' f).lookup k = if k = k' then (t.lookup k).map f else t.lookup k := by
  rw [modify, lookup_updateWhere]
  by_cases h : k = k'
  · simp [h]
  · simp [h]

theorem mem_of_mem_rewrite {f : κ → ρ → Option ρ} (h : k ∈ t.rewrite f) : k ∈ t := by
  rw [← AList.lookup_isSome, lookup_rewrite] at h
  rw [← AList.lookup_isSome]
  cases hrow : t.lookup k with
  | none => simp [hrow] at h
  | some r => rfl

theorem any_eq_true {p : κ → ρ → Bool} :
    t.any p = true ↔ ∃ k r, t.lookup k = some r ∧ p k r = true := by
  simp only [any, List.any_eq_true]
  constructor
  · rintro ⟨⟨k, r⟩, hrow, hp⟩
    exact ⟨k, r, AList.mem_lookup_iff.mpr hrow, hp⟩
  · rintro ⟨k, r, hrow, hp⟩
    exact ⟨⟨k, r⟩, AList.mem_lookup_iff.mp hrow, hp⟩

theorem any_eq_false {p : κ → ρ → Bool} :
    t.any p = false ↔ ∀ k r, t.lookup k = some r → p k r = false := by
  rw [← Bool.not_eq_true, any_eq_true]
  simp

/-- A lookup reads the same after an insertion under another key, and the new
row under its own. -/
theorem lookup_insert_eq (k' : κ) (r : ρ) :
    AList.lookup k (AList.insert k' r t) = if k = k' then some r else t.lookup k := by
  split_ifs with h
  · rw [h, AList.lookup_insert]
  · exact AList.lookup_insert_ne h

theorem lookup_erase_eq (k' : κ) :
    AList.lookup k (AList.erase k' t) = if k = k' then none else t.lookup k := by
  split_ifs with h
  · rw [h, AList.lookup_erase]
  · exact AList.lookup_erase_ne h

end Lookup

section Size

variable {t : Table κ ρ} {k : κ}

theorem size_insert_le (k : κ) (r : ρ) (t : Table κ ρ) :
    size (AList.insert k r t) ≤ t.size + 1 := by
  rw [size, AList.entries_insert, List.length_cons]
  exact Nat.succ_le_succ (List.kerase_sublist k t.entries).length_le

omit [DecidableEq κ] in
theorem size_rewrite_le (f : κ → ρ → Option ρ) : (t.rewrite f).size ≤ t.size :=
  List.length_filterMap_le _ _

theorem size_erase_le (k : κ) : size (AList.erase k t) ≤ t.size :=
  (List.kerase_sublist k t.entries).length_le

theorem size_erase_of_mem (h : k ∈ t) : size (AList.erase k t) + 1 = t.size := by
  have hmem : k ∈ t.entries.keys := h
  have hlength : (List.kerase k t.entries).keys.length + 1 = t.entries.keys.length := by
    rw [List.keys_kerase, List.length_erase_add_one hmem]
  simp only [List.keys, List.length_map] at hlength
  exact hlength

theorem size_modify (f : ρ → ρ) : (t.modify k f).size = t.size := by
  simp [size, modify, updateWhere, rewrite, rewriteEntry]

end Size

end Table
