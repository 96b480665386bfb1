/-
# Parts of a list

The part of a list between two places. Parts that meet are one part, and a part of a part is a
part of the whole.
-/

import Mathlib.Data.List.TakeDrop

namespace Spans

variable {α : Type*} {data : List α} {start middle stop : ℕ}

/-- What stands between two places. -/
def cut (data : List α) (start stop : ℕ) : List α := (data.drop start).take (stop - start)

theorem length_cut (h : stop ≤ data.length) : (cut data start stop).length = stop - start := by
  rw [cut, List.length_take, List.length_drop]
  omega

@[simp] theorem cut_self (data : List α) (start : ℕ) : cut data start start = [] := by
  rw [cut, Nat.sub_self, List.take_zero]

theorem cut_length (data : List α) (start : ℕ) : cut data start data.length = data.drop start :=
  List.take_of_length_le (Nat.le_of_eq List.length_drop)

/-- Parts that meet are one part. -/
theorem cut_append (h : start ≤ middle) (h' : middle ≤ stop) :
    cut data start middle ++ cut data middle stop = cut data start stop := by
  have hmiddle : data.drop middle = (data.drop start).drop (middle - start) := by
    rw [List.drop_drop, Nat.add_sub_cancel' h]
  rw [cut, cut, cut, hmiddle, show stop - start = (middle - start) + (stop - middle) by omega,
    List.take_add]

/-- A part of a part. -/
theorem cut_cut {low high : ℕ} (h : start + high ≤ stop) :
    cut (cut data start stop) low high = cut data (start + low) (start + high) := by
  rw [cut, cut, cut, List.drop_take, List.drop_drop, List.take_take]
  congr 1
  omega

theorem drop_cut {low : ℕ} : (cut data start stop).drop low = cut data (start + low) stop := by
  rw [cut, cut, List.drop_take, List.drop_drop, Nat.sub_sub]

theorem take_cut {high : ℕ} (h : start + high ≤ stop) :
    (cut data start stop).take high = cut data start (start + high) := by
  rw [cut, cut, List.take_take, Nat.add_sub_cancel_left]
  congr 1
  omega

/-- What begins with a part is that part and the rest. -/
theorem cut_of_drop {front rest : List α} (h : data.drop start = front ++ rest)
    (hstop : start + front.length ≤ stop) :
    cut data start stop = front ++ rest.take (stop - (start + front.length)) := by
  rw [cut, h, List.take_append, List.take_of_length_le (by omega), Nat.sub_sub]

theorem split_at (data : List α) (h : start ≤ stop) :
    data = data.take start ++ cut data start stop ++ data.drop stop := by
  have hdrop : cut data start stop ++ data.drop stop = data.drop start := by
    have hstop : data.drop stop = (data.drop start).drop (stop - start) := by
      rw [List.drop_drop, Nat.add_sub_cancel' h]
    rw [cut, hstop, List.take_append_drop]
  rw [List.append_assoc, hdrop, List.take_append_drop]

end Spans
