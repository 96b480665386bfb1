/-
# What the rows of a table add up to

A quota is kept on a sum over rows, and one statement changes one row. So the sum
is split into the row under a key and all others: a change under that key leaves
the others' part alone.
-/

import Harmony.Library.Table
import Mathlib.Algebra.Ring.Int.Defs

namespace Table

variable {κ ρ : Type*}

/-- The sum of `f` over the rows. -/
def sum (f : κ → ρ → ℤ) (t : Table κ ρ) : ℤ := (t.entries.map fun e => f e.1 e.2).sum

variable [DecidableEq κ]

/-- The sum over the rows under other keys. -/
def sumExcept (k : κ) (f : κ → ρ → ℤ) : Table κ ρ → ℤ :=
  sum fun k' r => if k' = k then 0 else f k' r

variable {t : Table κ ρ} {k : κ} {f g : κ → ρ → ℤ}

theorem sum_congr (h : ∀ k r, t.lookup k = some r → f k r = g k r) : t.sum f = t.sum g := by
  rw [sum, sum]
  congr 1
  refine List.map_congr_left fun e he => ?_
  exact h e.1 e.2 (AList.mem_lookup_iff.mpr he)

/-- A key that does not occur may be left out. -/
theorem sum_map_of_notMem (f : κ → ρ → ℤ) {l : List ((_ : κ) × ρ)} (h : k ∉ l.keys) :
    (l.map fun e => if e.1 = k then 0 else f e.1 e.2).sum = (l.map fun e => f e.1 e.2).sum := by
  congr 1
  refine List.map_congr_left fun e he => if_neg ?_
  rintro rfl
  exact h (List.mem_keys_of_mem he)

theorem sum_eq_sumExcept_add {r : ρ} (f : κ → ρ → ℤ) (h : t.lookup k = some r) :
    t.sum f = t.sumExcept k f + f k r := by
  have hlist : ∀ l : List ((_ : κ) × ρ), l.NodupKeys → ⟨k, r⟩ ∈ l →
      (l.map fun e => f e.1 e.2).sum =
        (l.map fun e => if e.1 = k then 0 else f e.1 e.2).sum + f k r := by
    intro l
    induction l with
    | nil => intro _ hmem; simp at hmem
    | cons e l ih =>
      intro hnodup hmem
      obtain ⟨hnew, hrest⟩ := List.nodupKeys_cons.mp hnodup
      simp only [List.map_cons, List.sum_cons]
      rcases List.mem_cons.mp hmem with rfl | hmem
      · rw [sum_map_of_notMem f hnew]
        simp only [if_true]
        omega
      · have hne : e.1 ≠ k := by
          rintro rfl
          exact hnew (List.mem_keys.mpr ⟨r, hmem⟩)
        rw [ih hrest hmem, if_neg hne]
        omega
  exact hlist t.entries t.nodupKeys (AList.mem_lookup_iff.mp h)

/-- A change of the row under one key leaves the others' part alone. -/
theorem sumExcept_modify (f : κ → ρ → ℤ) (change : ρ → ρ) :
    (t.modify k change).sumExcept k f = t.sumExcept k f := by
  have hentries : (t.modify k change).entries =
      t.entries.map fun e => ⟨e.1, if e.1 = k then change e.2 else e.2⟩ := by
    simp only [modify, updateWhere, rewrite, decide_eq_true_eq]
    exact congrFun (List.filterMap_eq_map (f := fun e : (_ : κ) × ρ =>
      (⟨e.1, if e.1 = k then change e.2 else e.2⟩ : (_ : κ) × ρ))) t.entries
  rw [sumExcept, sum, sum, hentries, List.map_map]
  congr 1
  refine List.map_congr_left fun e _ => ?_
  by_cases h : e.1 = k <;> simp [h]

/-- The change of one row is the change of the sum. -/
theorem sum_modify {r : ρ} (f : κ → ρ → ℤ) (change : ρ → ρ) (h : t.lookup k = some r) :
    (t.modify k change).sum f = t.sum f - f k r + f k (change r) := by
  have hafter : (t.modify k change).lookup k = some (change r) := by simp [h]
  rw [sum_eq_sumExcept_add f hafter, sumExcept_modify, sum_eq_sumExcept_add f h]
  omega

/-- A new row is added to the sum. -/
theorem sum_insert {r : ρ} (f : κ → ρ → ℤ) (h : k ∉ t) :
    sum f (AList.insert k r t) = t.sum f + f k r := by
  rw [sum, AList.entries_insert_of_notMem h, List.map_cons, List.sum_cons, sum]
  exact Int.add_comm _ _

end Table
