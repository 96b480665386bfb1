/-
# Numbers as bytes

A number in a fixed count of bytes, with the low byte first or last. What is written is read
back as far as it fits, and any bytes are those that their number is written in.
-/

import Mathlib.Tactic.Ring

namespace ByteOrder

/-- The number whose bytes these are, the low one first. -/
def ofLe : List UInt8 → ℕ
  | [] => 0
  | byte :: rest => byte.toNat + 256 * ofLe rest

/-- The number whose bytes these are, the low one last. -/
def ofBe (bytes : List UInt8) : ℕ := bytes.foldl (fun value byte => value * 256 + byte.toNat) 0

/-- The number in so many bytes, the low one first. -/
def toLe : ℕ → ℕ → List UInt8
  | 0, _ => []
  | count + 1, n => UInt8.ofNat n :: toLe count (n / 256)

/-- The number in so many bytes, the low one last. -/
def toBe (count n : ℕ) : List UInt8 := (toLe count n).reverse

@[simp] theorem length_toLe (count n : ℕ) : (toLe count n).length = count := by
  induction count generalizing n with
  | zero => rfl
  | succ count ih => rw [toLe, List.length_cons, ih]

@[simp] theorem length_toBe (count n : ℕ) : (toBe count n).length = count := by
  rw [toBe, List.length_reverse, length_toLe]

variable (bytes : List UInt8)

theorem ofLe_lt : ofLe bytes < 256 ^ bytes.length := by
  induction bytes with
  | nil => exact Nat.one_pos
  | cons byte rest ih =>
    have hbyte := byte.toNat_lt
    rw [ofLe, List.length_cons, Nat.pow_succ]
    omega

theorem ofLe_toLe {count n : ℕ} (h : n < 256 ^ count) : ofLe (toLe count n) = n := by
  induction count generalizing n with
  | zero => exact (Nat.lt_one_iff.mp h).symm
  | succ count ih =>
    have hrest : n / 256 < 256 ^ count := by
      rw [Nat.div_lt_iff_lt_mul (by decide)]
      exact h
    rw [toLe, ofLe, ih hrest, UInt8.toNat_ofNat']
    omega

theorem toLe_ofLe : toLe bytes.length (ofLe bytes) = bytes := by
  induction bytes with
  | nil => rfl
  | cons byte rest ih =>
    have hbyte := byte.toNat_lt
    have hrest : ofLe (byte :: rest) / 256 = ofLe rest := by
      rw [ofLe]
      omega
    have hfirst : UInt8.ofNat (ofLe (byte :: rest)) = byte := by
      apply UInt8.toNat_inj.mp
      rw [UInt8.toNat_ofNat', ofLe]
      omega
    rw [List.length_cons, toLe, hrest, ih, hfirst]

theorem ofBe_reverse : ofBe bytes.reverse = ofLe bytes := by
  induction bytes with
  | nil => rfl
  | cons byte rest ih =>
    rw [ofBe] at ih
    rw [ofBe, List.reverse_cons, List.foldl_append, ih, List.foldl_cons, List.foldl_nil, ofLe]
    ring

theorem ofBe_eq : ofBe bytes = ofLe bytes.reverse := by
  rw [← ofBe_reverse, List.reverse_reverse]

theorem ofBe_lt : ofBe bytes < 256 ^ bytes.length := by
  rw [ofBe_eq, ← List.length_reverse]
  exact ofLe_lt _

theorem ofBe_toBe {count n : ℕ} (h : n < 256 ^ count) : ofBe (toBe count n) = n := by
  rw [toBe, ofBe_reverse, ofLe_toLe h]

theorem toBe_ofBe : toBe bytes.length (ofBe bytes) = bytes := by
  rw [toBe, ofBe_eq, ← List.length_reverse, toLe_ofLe, List.reverse_reverse]

end ByteOrder
