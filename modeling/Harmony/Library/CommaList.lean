/-
# Items between commas

A list is written as its items with commas between them, and read up to a closing
character with a reader for one item, which says what follows the item.
-/

import Mathlib.Data.List.Basic

namespace CommaList

def commas (parts : List (List Char)) : List Char := [','].intercalate parts

variable {α : Type} (one : List Char → Option (α × List Char)) (close : Char)

/-- Items with commas between them up to the closing character, and what follows it. -/
def takeMany : ℕ → List Char → Option (List α × List Char)
  | 0, _ => none
  | n + 1, input => (one input).bind fun item =>
    match item.2 with
    | [] => none
    | c :: rest =>
      if c = close then some ([item.1], rest)
      else if c = ',' then
        (takeMany n rest).map fun others => (item.1 :: others.1, others.2)
      else none

def takeList : List Char → Option (List α × List Char)
  | [] => none
  | c :: rest =>
    if c = close then some ([], rest) else takeMany one close (rest.length + 1) (c :: rest)

variable {one close} {items : List α} {text : α → List Char}

theorem takeMany_commas (hclose : ',' ≠ close) (hne : items ≠ [])
    (hone : ∀ item ∈ items, ∀ rest, one (text item ++ rest) = some (item, rest)) {n : ℕ}
    (hn : items.length ≤ n) (rest : List Char) :
    takeMany one close n (commas (items.map text) ++ close :: rest) = some (items, rest) := by
  induction items generalizing n with
  | nil => exact absurd rfl hne
  | cons item items ih =>
    rw [List.forall_mem_cons] at hone
    obtain ⟨n, rfl⟩ := Nat.exists_eq_succ_of_ne_zero (Nat.ne_zero_of_lt hn)
    cases items with
    | nil =>
      have htext : commas ([item].map text) = text item := by simp [commas]
      rw [htext, takeMany, hone.1]
      simp
    | cons next items =>
      have htext : commas ((item :: next :: items).map text) ++ close :: rest =
          text item ++ (',' :: (commas ((next :: items).map text) ++ close :: rest)) := by
        simp [commas]
      rw [htext, takeMany, hone.1, Option.bind_some]
      simp only [if_neg hclose, if_true]
      rw [ih (List.cons_ne_nil _ _) hone.2 (Nat.le_of_succ_le_succ hn)]
      rfl

theorem length_le_commas (hstart : ∀ item ∈ items, ∃ c rest, text item = c :: rest ∧ c ≠ close) :
    items.length ≤ (commas (items.map text)).length := by
  induction items with
  | nil => exact Nat.zero_le _
  | cons item items ih =>
    rw [List.forall_mem_cons] at hstart
    obtain ⟨⟨c, rest, hitem, -⟩, hstart⟩ := hstart
    have hrest := ih hstart
    cases items with
    | nil => simp [commas, hitem]
    | cons next items =>
      simp only [commas, List.map_cons, List.intercalate_cons_cons, List.length_append, hitem,
        List.length_cons] at hrest ⊢
      omega

/-- A list is read as its items, where none of them begins as the list ends. -/
theorem takeList_commas (hclose : ',' ≠ close)
    (hstart : ∀ item ∈ items, ∃ c rest, text item = c :: rest ∧ c ≠ close)
    (hone : ∀ item ∈ items, ∀ rest, one (text item ++ rest) = some (item, rest))
    (rest : List Char) :
    takeList one close (commas (items.map text) ++ close :: rest) = some (items, rest) := by
  cases items with
  | nil => simp [commas, takeList]
  | cons item items =>
    have hlength := length_le_commas hstart
    obtain ⟨c, tail, hitem, hc⟩ := hstart item List.mem_cons_self
    obtain ⟨more, hmore⟩ : ∃ more, commas ((item :: items).map text) = c :: more := by
      cases items with
      | nil => exact ⟨tail, by simp [commas, hitem]⟩
      | cons next items => exact ⟨_, by simp only [commas, List.map_cons,
          List.intercalate_cons_cons, hitem, List.cons_append]; rfl⟩
    have hmany := fun n hn =>
      @takeMany_commas _ _ _ _ text hclose (List.cons_ne_nil item items) hone n hn rest
    rw [hmore] at hlength hmany ⊢
    rw [List.cons_append] at hmany ⊢
    rw [takeList, if_neg hc]
    refine hmany _ (Nat.le_trans hlength ?_)
    rw [List.length_cons, List.length_append]
    omega

/-- The result of a reader that has read everything. -/
def whole {α : Type} (read : Option (α × List Char)) : Option α :=
  read.bind fun parts => if parts.2 = [] then some parts.1 else none

end CommaList
