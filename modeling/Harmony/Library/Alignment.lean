/-
# Optimal string alignment

One list becomes another by keeping, replacing, dropping and adding elements and by
swapping two neighbours; each element takes part in one edit. The distance is the fewest
edits that do it. It is defined by its recursion, and what is not plain from the
recursion, that it does not matter in which direction either list is read or which of
them is changed, is shown for the edits.
-/

import Mathlib.Data.List.Basic
import Mathlib.Tactic.Linarith

namespace Alignment

variable {α : Type*}

/-- The second list comes from the first by so many edits. -/
inductive Script : List α → List α → ℕ → Prop
  | nil : Script [] [] 0
  | keep (x : α) {a b : List α} {n : ℕ} : Script a b n → Script (x :: a) (x :: b) n
  | substitute (x y : α) {a b : List α} {n : ℕ} : Script a b n → Script (x :: a) (y :: b) (n + 1)
  | delete (x : α) {a b : List α} {n : ℕ} : Script a b n → Script (x :: a) b (n + 1)
  | insert (y : α) {a b : List α} {n : ℕ} : Script a b n → Script a (y :: b) (n + 1)
  | swap (x y : α) {a b : List α} {n : ℕ} :
      Script a b n → Script (x :: y :: a) (y :: x :: b) (n + 1)

namespace Script

variable {a b c d : List α} {m n : ℕ}

theorem refl (a : List α) : Script a a 0 := by
  induction a with
  | nil => exact .nil
  | cons x a ih => exact .keep x ih

theorem deleteAll (a : List α) : Script a [] a.length := by
  induction a with
  | nil => exact .nil
  | cons x a ih => exact .delete x ih

theorem insertAll (b : List α) : Script [] b b.length := by
  induction b with
  | nil => exact .nil
  | cons y b ih => exact .insert y ih

/-- Undone, a script has as many edits. -/
theorem symm (h : Script a b n) : Script b a n := by
  induction h with
  | nil => exact .nil
  | keep x _ ih => exact .keep x ih
  | substitute x y _ ih => exact .substitute y x ih
  | delete x _ ih => exact .insert x ih
  | insert y _ ih => exact .delete y ih
  | swap x y _ ih => exact .swap y x ih

theorem append (h : Script a b m) (h' : Script c d n) : Script (a ++ c) (b ++ d) (m + n) := by
  induction h with
  | nil => rw [List.nil_append, List.nil_append, Nat.zero_add]; exact h'
  | keep x _ ih => exact .keep x ih
  | substitute x y _ ih => rw [Nat.succ_add]; exact .substitute x y ih
  | delete x _ ih => rw [Nat.succ_add]; exact .delete x ih
  | insert y _ ih => rw [Nat.succ_add]; exact .insert y ih
  | swap x y _ ih => rw [Nat.succ_add]; exact .swap x y ih

/-- Read from the other end, a script has as many edits. -/
theorem reverse (h : Script a b n) : Script a.reverse b.reverse n := by
  induction h with
  | nil => exact .nil
  | keep x _ ih =>
    rw [List.reverse_cons, List.reverse_cons]
    exact ih.append (.keep x .nil)
  | substitute x y _ ih =>
    rw [List.reverse_cons, List.reverse_cons]
    exact ih.append (.substitute x y .nil)
  | delete x _ ih =>
    rw [List.reverse_cons, ← List.append_nil (List.reverse _)]
    have hlast := ih.append (.delete x .nil)
    rwa [List.append_nil] at hlast ⊢
  | insert y _ ih =>
    rw [List.reverse_cons]
    have hlast := ih.append (.insert y .nil)
    rwa [List.append_nil] at hlast
  | swap x y _ ih =>
    simp only [List.reverse_cons, List.append_assoc, List.singleton_append]
    exact ih.append (.swap y x .nil)

/-- A script adds at least what one list is longer by. -/
theorem length_le (h : Script a b n) : b.length ≤ a.length + n := by
  induction h with
  | nil => exact le_rfl
  | keep x _ ih => simp only [List.length_cons]; omega
  | substitute x y _ ih => simp only [List.length_cons]; omega
  | delete x _ ih => simp only [List.length_cons]; omega
  | insert y _ ih => simp only [List.length_cons]; omega
  | swap x y _ ih => simp only [List.length_cons]; omega

theorem eq_of_zero (h : Script a b 0) : a = b := by
  generalize hzero : 0 = n at h
  induction h with
  | nil => rfl
  | keep x _ ih => rw [ih hzero]
  | substitute => omega
  | delete => omega
  | insert => omega
  | swap => omega

end Script

/-! ### The distance -/

variable [DecidableEq α]

/-- The fewest edits, by what happens to the heads. -/
def distance : List α → List α → ℕ
  | [], b => b.length
  | x :: a, [] => (x :: a).length
  | x :: a, y :: b =>
    let plain := min (min (distance a (y :: b) + 1) (distance (x :: a) b + 1))
      (distance a b + if x = y then 0 else 1)
    match a, b with
    | x' :: a', y' :: b' => if x = y' ∧ x' = y then min plain (distance a' b' + 1) else plain
    | _, _ => plain
  termination_by a b => a.length + b.length

variable (x y x' y' : α) (a b : List α)

@[simp]
theorem distance_nil_left : distance [] b = b.length := by
  rw [distance]

@[simp]
theorem distance_nil_right : distance a [] = a.length := by
  cases a <;> rw [distance]

/-- The plain edits of the heads. -/
theorem distance_cons_le : distance (x :: a) (y :: b) ≤
    min (min (distance a (y :: b) + 1) (distance (x :: a) b + 1))
      (distance a b + if x = y then 0 else 1) := by
  rw [distance.eq_def (x :: a) (y :: b)]
  cases a with
  | nil => exact le_rfl
  | cons x' a =>
    cases b with
    | nil => exact le_rfl
    | cons y' b =>
      dsimp only
      split_ifs
      · exact min_le_left _ _
      · exact min_le_left _ _
      · exact le_rfl
      · exact le_rfl

theorem distance_delete_le : distance (x :: a) b ≤ distance a b + 1 := by
  cases b with
  | nil => rw [distance_nil_right, distance_nil_right, List.length_cons]
  | cons y b => exact (distance_cons_le x y a b).trans ((min_le_left _ _).trans (min_le_left _ _))

theorem distance_insert_le : distance a (y :: b) ≤ distance a b + 1 := by
  cases a with
  | nil => rw [distance_nil_left, distance_nil_left, List.length_cons]
  | cons x a => exact (distance_cons_le x y a b).trans ((min_le_left _ _).trans (min_le_right _ _))

theorem distance_heads_le :
    distance (x :: a) (y :: b) ≤ distance a b + if x = y then 0 else 1 :=
  (distance_cons_le x y a b).trans (min_le_right _ _)

/-- Two neighbours on both sides: the plain edits of the heads, or a swap. -/
theorem distance_cons_cons : distance (x :: x' :: a) (y :: y' :: b) =
    if x = y' ∧ x' = y then
      min (min (min (distance (x' :: a) (y :: y' :: b) + 1) (distance (x :: x' :: a) (y' :: b) + 1))
        (distance (x' :: a) (y' :: b) + if x = y then 0 else 1)) (distance a b + 1)
    else
      min (min (distance (x' :: a) (y :: y' :: b) + 1) (distance (x :: x' :: a) (y' :: b) + 1))
        (distance (x' :: a) (y' :: b) + if x = y then 0 else 1) := by
  rw [distance.eq_def (x :: x' :: a) (y :: y' :: b)]

/-- One element on one side leaves nothing to swap. -/
theorem distance_cons_of_single (hsingle : a = [] ∨ b = []) : distance (x :: a) (y :: b) =
    min (min (distance a (y :: b) + 1) (distance (x :: a) b + 1))
      (distance a b + if x = y then 0 else 1) := by
  rw [distance.eq_def (x :: a) (y :: b)]
  rcases hsingle with rfl | rfl
  · rfl
  · cases a <;> rfl

theorem distance_swap_le : distance (x :: y :: a) (y :: x :: b) ≤ distance a b + 1 := by
  rw [distance_cons_cons, if_pos ⟨rfl, rfl⟩]
  exact min_le_right _ _

variable {a b}

/-- No script has fewer edits. -/
theorem distance_le {n : ℕ} (h : Script a b n) : distance a b ≤ n := by
  induction h with
  | nil => rw [distance_nil_left, List.length_nil]
  | @keep x a b _ _ ih =>
    have hheads := distance_heads_le x x a b
    rw [if_pos rfl] at hheads
    exact hheads.trans ih
  | @substitute x y a b _ _ ih =>
    have hheads := distance_heads_le x y a b
    split_ifs at hheads <;> omega
  | delete x _ ih => exact (distance_delete_le x _ _).trans (Nat.succ_le_succ ih)
  | insert y _ ih => exact (distance_insert_le y _ _).trans (Nat.succ_le_succ ih)
  | swap x y _ ih => exact (distance_swap_le x y _ _).trans (Nat.succ_le_succ ih)

/-- One of the edits of the heads is the best. -/
theorem distance_cons_cases (x y : α) (a b : List α) :
    distance (x :: a) (y :: b) = distance a (y :: b) + 1 ∨
      distance (x :: a) (y :: b) = distance (x :: a) b + 1 ∨
      distance (x :: a) (y :: b) = distance a b + (if x = y then 0 else 1) ∨
      ∃ a' b', a = y :: a' ∧ b = x :: b' ∧ distance (x :: a) (y :: b) = distance a' b' + 1 := by
  have hplain : ∀ first second third : ℕ, min (min first second) third = first ∨
      min (min first second) third = second ∨ min (min first second) third = third := by
    intro first second third
    omega
  by_cases hsingle : a = [] ∨ b = []
  · rw [distance_cons_of_single x y a b hsingle]
    rcases hplain (distance a (y :: b) + 1) (distance (x :: a) b + 1)
      (distance a b + if x = y then 0 else 1) with h | h | h
    · exact .inl h
    · exact .inr (.inl h)
    · exact .inr (.inr (.inl h))
  · obtain ⟨hleft, hright⟩ := not_or.mp hsingle
    obtain ⟨x', a, rfl⟩ := List.exists_cons_of_ne_nil hleft
    obtain ⟨y', b, rfl⟩ := List.exists_cons_of_ne_nil hright
    rw [distance_cons_cons]
    rcases hplain (distance (x' :: a) (y :: y' :: b) + 1) (distance (x :: x' :: a) (y' :: b) + 1)
      (distance (x' :: a) (y' :: b) + if x = y then 0 else 1) with h | h | h
    all_goals
      rw [h]
      by_cases hswap : x = y' ∧ x' = y
      · rw [if_pos hswap]
        rcases min_choice (_ : ℕ) (distance a b + 1) with hkept | hbetter
        · rw [hkept]
          simp
        · rw [hbetter]
          exact .inr (.inr (.inr ⟨a, b, by rw [hswap.2], by rw [hswap.1], rfl⟩))
      · rw [if_neg hswap]
        simp

/-- Some script has as many edits as the distance says. -/
theorem script_distance : (a b : List α) → Script a b (distance a b)
  | [], b => by
    rw [distance_nil_left]
    exact .insertAll b
  | x :: a, [] => by
    rw [distance_nil_right]
    exact .deleteAll (x :: a)
  | x :: a, y :: b => by
    rcases distance_cons_cases x y a b with h | h | h | ⟨a', b', rfl, rfl, h⟩
    · rw [h]
      exact .delete x (script_distance a (y :: b))
    · rw [h]
      exact .insert y (script_distance (x :: a) b)
    · rw [h]
      by_cases hsame : x = y
      · rw [if_pos hsame, hsame]
        exact .keep y (script_distance a b)
      · rw [if_neg hsame]
        exact .substitute x y (script_distance a b)
    · rw [h]
      exact .swap x y (script_distance a' b')
  termination_by a b => a.length + b.length

theorem distance_comm (a b : List α) : distance a b = distance b a :=
  le_antisymm (distance_le (script_distance b a).symm) (distance_le (script_distance a b).symm)

theorem distance_reverse (a b : List α) : distance a.reverse b.reverse = distance a b := by
  apply le_antisymm
  · exact distance_le (script_distance a b).reverse
  · have hback := (script_distance a.reverse b.reverse).reverse
    rw [List.reverse_reverse, List.reverse_reverse] at hback
    exact distance_le hback

theorem distance_eq_zero : distance a b = 0 ↔ a = b := by
  constructor
  · intro hzero
    have hscript := script_distance a b
    rw [hzero] at hscript
    exact hscript.eq_of_zero
  · rintro rfl
    exact Nat.le_zero.mp (distance_le (.refl a))

theorem length_sub_le_distance (a b : List α) : b.length - a.length ≤ distance a b := by
  have hlength := (script_distance a b).length_le
  omega

end Alignment
