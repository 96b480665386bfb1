/-
# The typo distance of two words

The distance is computed row by row over the prefixes of both words. Three rows are kept:
the one being filled, the one before it and the one before that, which a transposition
reads. They are swapped after each round, so the row being filled holds old values, and
in the first round the row before last holds none.
-/

import Harmony.Library.Alignment

namespace Harmony.Search

/-- The three rows, reused from round to round. -/
structure Rows where
  older : List ℕ
  previous : List ℕ
  current : List ℕ

section EditDistance

variable (left right : List Char)

/-- The value at row `i` and column `j`, both from 1, from the rows so far. -/
def cell (rows : Rows) (i j : ℕ) : ℕ :=
  let cost := if left[i - 1]? ≠ right[j - 1]? then 1 else 0
  let value := min (min (rows.previous.getD j 0 + 1) (rows.current.getD (j - 1) 0 + 1))
    (rows.previous.getD (j - 1) 0 + cost)
  if i > 1 ∧ j > 1 ∧ left[i - 1]? = right[j - 2]? ∧ left[i - 2]? = right[j - 1]? then
    min value (rows.older.getD (j - 2) 0 + 1)
  else value

/-- The inner loop, at one column. -/
def fillCell (i : ℕ) (rows : Rows) (j : ℕ) : Rows :=
  { rows with current := rows.current.set j (cell left right rows i j) }

/-- Row `i` up to column `n`. -/
def fillRow (i : ℕ) (rows : Rows) (n : ℕ) : Rows :=
  (List.range' 1 n).foldl (fillCell left right i) { rows with current := rows.current.set 0 i }

/-- The two swaps. -/
def Rows.swap (rows : Rows) : Rows := ⟨rows.previous, rows.current, rows.older⟩

def nextRow (rows : Rows) (i : ℕ) : Rows := (fillRow left right i rows right.length).swap

/-- The rows before the first round. -/
def firstRows : Rows :=
  let width := right.length + 1
  ⟨List.replicate width 0, List.range width, List.replicate width 0⟩

/-- The rows after the first `n` rounds. -/
def rowsAfter (n : ℕ) : Rows := (List.range' 1 n).foldl (nextRow left right) (firstRows right)

end EditDistance

/-- Optimal string alignment distance over characters; more than `limit` once exceeded. -/
def editDistance (a b : String) (limit : ℕ) : ℕ :=
  if a = b then 0
  else if limit = 0 then 1
  else
    let left := a.toList
    let right := b.toList
    if max (left.length - right.length) (right.length - left.length) > limit then limit + 1
    else (rowsAfter left right left.length).previous.getD right.length 0

/-! ### The rows hold distances -/

section Rows

variable {left right : List Char} {rows : Rows} {i j n : ℕ}

/-- The distance of two prefixes, read from their ends. -/
def prefixDistance (left right : List Char) (i j : ℕ) : ℕ :=
  Alignment.distance (left.take i).reverse (right.take j).reverse

theorem prefixDistance_zero_left (hj : j ≤ right.length) : prefixDistance left right 0 j = j := by
  rw [prefixDistance, List.take_zero, List.reverse_nil, Alignment.distance_nil_left,
    List.length_reverse, List.length_take_of_le hj]

theorem prefixDistance_zero_right (hi : i ≤ left.length) : prefixDistance left right i 0 = i := by
  rw [prefixDistance, List.take_zero, List.reverse_nil, Alignment.distance_nil_right,
    List.length_reverse, List.length_take_of_le hi]

/-- A row with the distances of one prefix on the left. -/
structure IsRow (left right : List Char) (i n : ℕ) (row : List ℕ) : Prop where
  length : row.length = right.length + 1
  value : ∀ j ≤ n, row.getD j 0 = prefixDistance left right i j

theorem reverse_take_succ {l : List Char} (h : i < l.length) :
    (l.take (i + 1)).reverse = l[i] :: (l.take i).reverse := by
  rw [List.take_succ_eq_append_getElem h, List.reverse_append, List.reverse_singleton,
    List.singleton_append]

/-- The value of a cell is the recursion of the distance, at the ends of both prefixes. -/
theorem cell_eq (hi : i < left.length) (hj : j < right.length)
    (hprevious : IsRow left right i right.length rows.previous)
    (holder : 0 < i → IsRow left right (i - 1) right.length rows.older)
    (hcurrent : rows.current.getD j 0 = prefixDistance left right (i + 1) j) :
    cell left right rows (i + 1) (j + 1) = prefixDistance left right (i + 1) (j + 1) := by
  have hcost : (if left[i]? ≠ right[j]? then 1 else 0) = if left[i] = right[j] then 0 else 1 := by
    rw [List.getElem?_eq_getElem hi, List.getElem?_eq_getElem hj]
    by_cases hsame : left[i] = right[j]
    · rw [hsame]
      simp
    · rw [if_pos (fun h => hsame (Option.some.inj h)), if_neg hsame]
  rw [cell]
  simp only [Nat.add_sub_cancel]
  rw [hcost, hcurrent, hprevious.value (j + 1) hj, hprevious.value j hj.le]
  rw [prefixDistance, prefixDistance, prefixDistance, prefixDistance, reverse_take_succ hi,
    reverse_take_succ hj]
  by_cases hboth : 0 < i ∧ 0 < j
  · -- Both prefixes have a character before their last, so there may be a swap.
    obtain ⟨i, rfl⟩ := Nat.exists_eq_succ_of_ne_zero hboth.1.ne'
    obtain ⟨j, rfl⟩ := Nat.exists_eq_succ_of_ne_zero hboth.2.ne'
    have hi' : i < left.length := by omega
    have hj' : j < right.length := by omega
    have hback := (holder hboth.1).value j hj'.le
    rw [Nat.succ_sub_one, prefixDistance] at hback
    simp only [Nat.succ_eq_add_one] at *
    rw [reverse_take_succ hi', reverse_take_succ hj', Alignment.distance_cons_cons]
    have hchars : (i + 1 + 1 > 1 ∧ j + 1 + 1 > 1 ∧ left[i + 1]? = right[j + 1 + 1 - 2]? ∧
        left[i + 1 + 1 - 2]? = right[j + 1]?) ↔
        (left[i + 1] = right[j] ∧ left[i] = right[j + 1]) := by
      rw [show j + 1 + 1 - 2 = j by omega, show i + 1 + 1 - 2 = i by omega,
        List.getElem?_eq_getElem hi, List.getElem?_eq_getElem hj, List.getElem?_eq_getElem hi',
        List.getElem?_eq_getElem hj', Option.some.injEq, Option.some.injEq]
      constructor
      · rintro ⟨-, -, hswap⟩
        exact hswap
      · intro hswap
        exact ⟨by omega, by omega, hswap⟩
    by_cases hswap : left[i + 1] = right[j] ∧ left[i] = right[j + 1]
    · rw [if_pos hswap, if_pos (hchars.mpr hswap), show j + 1 + 1 - 2 = j by omega, hback]
    · rw [if_neg hswap, if_neg fun h => hswap (hchars.mp h)]
  · have hsingle : (left.take i).reverse = [] ∨ (right.take j).reverse = [] := by
      rcases Nat.eq_zero_or_pos i with rfl | hpos
      · exact .inl rfl
      · rcases Nat.eq_zero_or_pos j with rfl | hpos'
        · exact .inr rfl
        · exact absurd ⟨hpos, hpos'⟩ hboth
    rw [Alignment.distance_cons_of_single _ _ _ _ hsingle, if_neg ?_]
    rintro ⟨hi1, hj1, -⟩
    exact hboth ⟨by omega, by omega⟩

theorem getD_set {row : List ℕ} {j k value : ℕ} (hj : j < row.length) :
    (row.set j value).getD k 0 = if k = j then value else row.getD k 0 := by
  rw [List.getD_eq_getElem?_getD, List.getElem?_set, List.getD_eq_getElem?_getD]
  by_cases hkj : k = j
  · rw [if_pos hkj.symm, if_pos hkj, if_pos hj, Option.getD_some]
  · rw [if_neg (Ne.symm hkj), if_neg hkj]

theorem fillRow_succ (i n : ℕ) (rows : Rows) :
    fillRow left right i rows (n + 1) =
      fillCell left right i (fillRow left right i rows n) (n + 1) := by
  rw [fillRow, List.range'_1_concat, List.foldl_append, List.foldl_cons, List.foldl_nil,
    Nat.add_comm 1 n, fillRow]

/-- Filling a row leaves the two rows before it. -/
theorem fillRow_keeps (left right : List Char) (i n : ℕ) (rows : Rows) :
    (fillRow left right i rows n).previous = rows.previous ∧
      (fillRow left right i rows n).older = rows.older := by
  induction n with
  | zero => exact ⟨rfl, rfl⟩
  | succ n ih =>
    rw [fillRow_succ]
    exact ih

/-- By induction on the columns filled: each reads only what is already there. -/
theorem fillRow_isRow (hi : i < left.length)
    (hprevious : IsRow left right i right.length rows.previous)
    (holder : 0 < i → IsRow left right (i - 1) right.length rows.older)
    (hlength : rows.current.length = right.length + 1) (hn : n ≤ right.length) :
    IsRow left right (i + 1) n (fillRow left right (i + 1) rows n).current := by
  induction n with
  | zero =>
    have hfirst : (fillRow left right (i + 1) rows 0).current = rows.current.set 0 (i + 1) := rfl
    constructor
    · rw [hfirst, List.length_set, hlength]
    · intro j hj
      obtain rfl := Nat.le_zero.mp hj
      rw [hfirst, getD_set (by omega), if_pos rfl, prefixDistance_zero_right hi]
  | succ n ih =>
    have hrow := ih (by omega)
    have hkept := fillRow_keeps left right (i + 1) n rows
    have hcell : cell left right (fillRow left right (i + 1) rows n) (i + 1) (n + 1) =
        prefixDistance left right (i + 1) (n + 1) := by
      apply cell_eq hi (by omega)
      · rw [hkept.1]
        exact hprevious
      · rw [hkept.2]
        exact holder
      · exact hrow.value n le_rfl
    have hnext : (fillRow left right (i + 1) rows (n + 1)).current =
        (fillRow left right (i + 1) rows n).current.set (n + 1)
          (prefixDistance left right (i + 1) (n + 1)) := by
      rw [fillRow_succ, fillCell, hcell]
    constructor
    · rw [hnext, List.length_set]
      exact hrow.length
    · intro j hj
      rw [hnext, getD_set (by rw [hrow.length]; omega)]
      by_cases hlast : j = n + 1
      · rw [if_pos hlast, hlast]
      · rw [if_neg hlast]
        exact hrow.value j (by omega)

/-- Between two rounds: the last row, the row before it once there is one, and a row of
the right length to fill. -/
structure Rows.After (left right : List Char) (n : ℕ) (rows : Rows) : Prop where
  previous : IsRow left right n right.length rows.previous
  older : 0 < n → IsRow left right (n - 1) right.length rows.older
  olderLength : rows.older.length = right.length + 1
  currentLength : rows.current.length = right.length + 1

theorem firstRows_after : (firstRows right).After left right 0 where
  previous := by
    constructor
    · exact List.length_range
    · intro j hj
      have hlt : j < right.length + 1 := Nat.lt_succ_of_le hj
      rw [prefixDistance_zero_left hj, List.getD_eq_getElem?_getD]
      change ((List.range (right.length + 1))[j]?).getD 0 = j
      rw [List.getElem?_range hlt, Option.getD_some]
  older h := absurd h (lt_irrefl 0)
  olderLength := List.length_replicate
  currentLength := List.length_replicate

theorem Rows.After.next (h : rows.After left right n) (hn : n < left.length) :
    (nextRow left right rows (n + 1)).After left right (n + 1) := by
  have hkept := fillRow_keeps left right (n + 1) right.length rows
  constructor
  · exact fillRow_isRow hn h.previous h.older h.currentLength le_rfl
  · intro _
    rw [nextRow, Rows.swap, hkept.1]
    exact h.previous
  · rw [nextRow, Rows.swap, hkept.1]
    exact h.previous.length
  · rw [nextRow, Rows.swap, hkept.2]
    exact h.olderLength

/-- By induction on the rounds. -/
theorem rowsAfter_after (hn : n ≤ left.length) :
    (rowsAfter left right n).After left right n := by
  induction n with
  | zero => exact firstRows_after
  | succ n ih =>
    have hnext := (ih (by omega)).next hn
    rw [rowsAfter, List.range'_1_concat, List.foldl_append, List.foldl_cons, List.foldl_nil,
      Nat.add_comm 1 n]
    exact hnext

end Rows

/-! ### The computed distance -/

/-- The distance of two words, by its recursion. -/
def wordDistance (a b : String) : ℕ := Alignment.distance a.toList b.toList

theorem wordDistance_eq_zero {a b : String} : wordDistance a b = 0 ↔ a = b := by
  rw [wordDistance, Alignment.distance_eq_zero, String.toList_inj]

theorem wordDistance_comm (a b : String) : wordDistance a b = wordDistance b a :=
  Alignment.distance_comm _ _

/-- The last value of the last row. -/
theorem rowsAfter_distance (left right : List Char) :
    (rowsAfter left right left.length).previous.getD right.length 0 =
      Alignment.distance left right := by
  rw [(rowsAfter_after le_rfl).previous.value right.length le_rfl, prefixDistance, List.take_length,
    List.take_length, Alignment.distance_reverse]

/-- Within the limit the distance is computed; beyond it, only that it is beyond. -/
theorem editDistance_cases (a b : String) (limit : ℕ) :
    editDistance a b limit = wordDistance a b ∨
      (limit < wordDistance a b ∧ limit < editDistance a b limit) := by
  rw [editDistance]
  by_cases hsame : a = b
  · rw [if_pos hsame, wordDistance_eq_zero.mpr hsame]
    exact .inl rfl
  have hpos : 0 < wordDistance a b := Nat.pos_of_ne_zero fun h => hsame (wordDistance_eq_zero.mp h)
  by_cases hlimit : limit = 0
  · rw [if_neg hsame, if_pos hlimit, hlimit]
    exact .inr ⟨hpos, Nat.one_pos⟩
  rw [if_neg hsame, if_neg hlimit]
  dsimp only
  by_cases hlengths : max (a.toList.length - b.toList.length) (b.toList.length - a.toList.length) >
      limit
  · rw [if_pos hlengths]
    -- Each edit makes up for one character of the difference, in either direction.
    have hforth := Alignment.length_sub_le_distance a.toList b.toList
    have hback := Alignment.length_sub_le_distance b.toList a.toList
    rw [Alignment.distance_comm] at hback
    rw [wordDistance]
    exact .inr ⟨by omega, Nat.lt_succ_self limit⟩
  · rw [if_neg hlengths, rowsAfter_distance]
    exact .inl rfl

theorem editDistance_le_iff {a b : String} {limit : ℕ} :
    editDistance a b limit ≤ limit ↔ wordDistance a b ≤ limit := by
  rcases editDistance_cases a b limit with hequal | ⟨hdistance, hcomputed⟩
  · rw [hequal]
  · constructor
    · intro h
      exact absurd h (not_le.mpr hcomputed)
    · intro h
      exact absurd h (not_le.mpr hdistance)

theorem editDistance_eq {a b : String} {limit : ℕ} (h : wordDistance a b ≤ limit) :
    editDistance a b limit = wordDistance a b := by
  rcases editDistance_cases a b limit with hequal | ⟨hdistance, -⟩
  · exact hequal
  · exact absurd h (not_le.mpr hdistance)

/-- For all words and limits: the distance of the recursion as long as it is within the
limit, more than the limit otherwise; so up to the limit it does not matter which word
comes first, and only equal words have none. -/
theorem editDistance_is_osa (a b : String) (limit : ℕ) :
    (wordDistance a b ≤ limit → editDistance a b limit = wordDistance a b) ∧
      (limit < wordDistance a b → limit < editDistance a b limit) ∧
      min (editDistance a b limit) (limit + 1) = min (editDistance b a limit) (limit + 1) ∧
      (editDistance a b limit = 0 ↔ a = b) := by
  refine ⟨editDistance_eq, ?_, ?_, ?_⟩
  · intro hfar
    exact not_le.mp fun h => absurd (editDistance_le_iff.mp h) (not_le.mpr hfar)
  · have hcomm := wordDistance_comm a b
    rcases editDistance_cases a b limit with hleft | hleft
    · rcases editDistance_cases b a limit with hright | hright
      · rw [hleft, hright, hcomm]
      · omega
    · rcases editDistance_cases b a limit with hright | hright
      · omega
      · omega
  · constructor
    · intro hzero
      have hnear : wordDistance a b ≤ limit :=
        editDistance_le_iff.mp (hzero ▸ Nat.zero_le limit)
      rw [editDistance_eq hnear] at hzero
      exact wordDistance_eq_zero.mp hzero
    · intro hsame
      rw [editDistance, if_pos hsame]

/-- Two neighbours exchanged are one edit. -/
theorem editDistance_is_osa_swapped : editDistance "abcd" "abdc" 1 = wordDistance "abcd" "abdc" :=
  (editDistance_is_osa "abcd" "abdc" 1).1
    (Alignment.distance_le (.keep 'a' (.keep 'b' (.swap 'c' 'd' .nil))))

example : editDistance "beyonce" "beyocne" 2 = 1 := by decide

end Harmony.Search
