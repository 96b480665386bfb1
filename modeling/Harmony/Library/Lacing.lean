/-
# Packets in segments

A packet is laced into segments of 255 bytes and one of fewer, which ends it. Put together from
their segments again, packets are what they were, wherever the segments are cut apart.
-/

import Mathlib.Algebra.BigOperators.Group.List.Basic
import Mathlib.Algebra.GroupWithZero.Nat

namespace Lacing

/-- How many bytes segments have. -/
def total (segments : List UInt8) : ℕ := (segments.map UInt8.toNat).sum

/-- The packets that segments of some bytes end, and what they leave of the next one, behind what
was there of the first. -/
def assemble : List UInt8 → List UInt8 → List UInt8 → List (List UInt8) × List UInt8
  | [], _, begun => ([], begun)
  | segment :: rest, bytes, begun =>
    if segment < 255 then
      let next := assemble rest (bytes.drop segment.toNat) []
      ((begun ++ bytes.take segment.toNat) :: next.1, next.2)
    else assemble rest (bytes.drop segment.toNat) (begun ++ bytes.take segment.toNat)

/-- The segments of a packet of a length. -/
def lacing (length : ℕ) : List UInt8 :=
  List.replicate (length / 255) 255 ++ [UInt8.ofNat (length % 255)]

/-- Segments and bytes that packets are laid out in. -/
def LaysOut (packets : List (List UInt8)) (segments bytes : List UInt8) : Prop :=
  segments = packets.flatMap (fun packet => lacing packet.length) ∧ bytes = packets.flatten

variable {segments bytes begun : List UInt8}

@[simp] theorem total_cons (segment : UInt8) (rest : List UInt8) :
    total (segment :: rest) = segment.toNat + total rest := rfl

theorem total_append (front rest : List UInt8) :
    total (front ++ rest) = total front + total rest := by
  rw [total, total, total, List.map_append, List.sum_append]

/-- Segments may be read in two parts. -/
theorem assemble_append {more : List UInt8} (rest : List UInt8)
    (h : total segments = bytes.length) :
    assemble (segments ++ rest) (bytes ++ more) begun =
      ((assemble segments bytes begun).1 ++
        (assemble rest more (assemble segments bytes begun).2).1,
        (assemble rest more (assemble segments bytes begun).2).2) := by
  induction segments generalizing bytes begun with
  | nil =>
    rw [List.eq_nil_of_length_eq_zero h.symm]
    rfl
  | cons segment segments ih =>
    rw [total_cons] at h
    have hle : segment.toNat ≤ bytes.length := by omega
    have hrest : total segments = (bytes.drop segment.toNat).length := by
      rw [List.length_drop]
      omega
    rw [List.cons_append, assemble, assemble, List.take_append_of_le_length hle,
      List.drop_append_of_le_length hle]
    split_ifs with hshort
    · rw [ih hrest]
      rfl
    · rw [ih hrest]

/-- No byte is lost or moved. -/
theorem flatten_assemble (h : total segments = bytes.length) :
    (assemble segments bytes begun).1.flatten ++ (assemble segments bytes begun).2 =
      begun ++ bytes := by
  induction segments generalizing bytes begun with
  | nil =>
    rw [List.eq_nil_of_length_eq_zero h.symm]
    exact (List.append_nil begun).symm
  | cons segment segments ih =>
    rw [total_cons] at h
    have hrest : total segments = (bytes.drop segment.toNat).length := by
      rw [List.length_drop]
      omega
    rw [assemble]
    split_ifs with hshort
    · rw [List.flatten_cons, List.append_assoc, ih hrest, List.nil_append, List.append_assoc,
        List.take_append_drop]
    · rw [ih hrest, List.append_assoc, List.take_append_drop]

theorem lacing_of_lt {length : ℕ} (h : length < 255) : lacing length = [UInt8.ofNat length] := by
  rw [lacing, Nat.div_eq_of_lt h, Nat.mod_eq_of_lt h]
  rfl

theorem lacing_add (length : ℕ) : lacing (length + 255) = 255 :: lacing length := by
  rw [lacing, lacing, Nat.add_div_right length (by decide), Nat.add_mod_right, List.replicate_succ]
  rfl

/-- The first packet is read from its segments. -/
theorem assemble_lacing {packet : List UInt8} (rest more : List UInt8) :
    assemble (lacing packet.length ++ rest) (packet ++ more) begun =
      ((begun ++ packet) :: (assemble rest more []).1, (assemble rest more []).2) := by
  induction hlength : packet.length using Nat.strongRecOn generalizing packet begun with
  | ind length ih =>
    by_cases hshort : length < 255
    · have hsize : (UInt8.ofNat length).toNat = packet.length := by
        rw [UInt8.toNat_ofNat']
        omega
      have hlt : UInt8.ofNat length < 255 := by
        rw [UInt8.lt_iff_toNat_lt, hsize, hlength]
        exact hshort
      rw [lacing_of_lt hshort, List.singleton_append, assemble, if_pos hlt, hsize, List.take_left,
        List.drop_left]
    · -- A whole segment comes first, and then the rest of the packet.
      have hrest : (packet.drop 255).length = length - 255 := by
        rw [List.length_drop, hlength]
      have hwhole : 255 ≤ packet.length := by omega
      have hlaced : lacing length = 255 :: lacing (length - 255) := by
        rw [← lacing_add, Nat.sub_add_cancel (by omega)]
      rw [hlaced, List.cons_append, assemble, if_neg (by decide)]
      change assemble _ ((packet ++ more).drop 255) (begun ++ (packet ++ more).take 255) = _
      rw [List.take_append_of_le_length hwhole, List.drop_append_of_le_length hwhole,
        ih (length - 255) (by omega) hrest, List.append_assoc, List.take_append_drop]

/-- Packets are put together from their segments. -/
theorem assemble_lacings (packets : List (List UInt8)) :
    assemble (packets.flatMap fun packet => lacing packet.length) packets.flatten [] =
      (packets, []) := by
  induction packets with
  | nil => rfl
  | cons packet rest ih =>
    rw [List.flatMap_cons, List.flatten_cons, assemble_lacing, ih]
    rfl

/-- The segments are those of the packets that they end and the whole ones of the next. -/
theorem laces_assemble (h : total segments = bytes.length) (hbegun : begun.length % 255 = 0) :
    List.replicate (begun.length / 255) 255 ++ segments =
        (assemble segments bytes begun).1.flatMap (fun packet => lacing packet.length) ++
          List.replicate ((assemble segments bytes begun).2.length / 255) 255 ∧
      (assemble segments bytes begun).2.length % 255 = 0 := by
  induction segments generalizing bytes begun with
  | nil => exact ⟨List.append_nil _, hbegun⟩
  | cons segment segments ih =>
    have hsegment := segment.toNat_lt
    rw [total_cons] at h
    have hrest : total segments = (bytes.drop segment.toNat).length := by
      rw [List.length_drop]
      omega
    have hlength : (begun ++ bytes.take segment.toNat).length = begun.length + segment.toNat := by
      rw [List.length_append, List.length_take]
      omega
    rw [assemble]
    split_ifs with hshort
    · obtain ⟨hsegments, hleft⟩ := @ih _ [] hrest rfl
      rw [UInt8.lt_iff_toNat_lt] at hshort
      have hlt : segment.toNat < 255 := hshort
      refine ⟨?_, hleft⟩
      have hown : lacing (begun ++ bytes.take segment.toNat).length =
          List.replicate (begun.length / 255) 255 ++ [segment] := by
        rw [lacing, hlength,
          show (begun.length + segment.toNat) / 255 = begun.length / 255 by omega,
          show (begun.length + segment.toNat) % 255 = segment.toNat by omega, UInt8.ofNat_toNat]
      rw [List.flatMap_cons, hown, List.append_assoc, List.append_assoc, ← hsegments]
      rfl
    · rw [UInt8.lt_iff_toNat_lt] at hshort
      have hnot : ¬segment.toNat < 255 := hshort
      have hwhole : segment.toNat = 255 := by omega
      have hsame : segment = 255 := UInt8.toNat_inj.mp hwhole
      obtain ⟨hsegments, hleft⟩ := ih hrest (by rw [hlength]; omega)
      refine ⟨?_, hleft⟩
      rw [← hsegments, hlength, hwhole, Nat.add_div_right _ (by decide), List.replicate_succ',
        List.append_assoc, hsame]
      rfl

/-- Packets are laid out in segments where these end exactly them. -/
theorem laysOut_iff {packets : List (List UInt8)} (h : total segments = bytes.length) :
    LaysOut packets segments bytes ↔ assemble segments bytes [] = (packets, []) := by
  constructor
  · rintro ⟨rfl, rfl⟩
    exact assemble_lacings packets
  · intro hpackets
    have hsegments := (@laces_assemble segments bytes [] h rfl).1
    have hbytes := @flatten_assemble segments bytes [] h
    rw [hpackets] at hsegments hbytes
    simp only [List.length_nil, Nat.zero_div, List.replicate_zero, List.nil_append,
      List.append_nil] at hsegments hbytes
    exact ⟨hsegments, hbytes.symm⟩

end Lacing
