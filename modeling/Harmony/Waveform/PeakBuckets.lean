/-
# The peaks of a waveform

Samples are folded into a fixed number of bins as they are read, each bin keeping the loudest
of its samples. However the bytes are cut into reads, and whether the number of samples is known
before or not, the result is that of the whole.
-/

import Harmony.Library.Checked
import Harmony.Library.Traversal
import Mathlib.Order.Lattice.Nat

namespace Harmony.Waveform

open Checked (fitI64 index)

structure PeakBucketer where
  count : ℕ
  totalSamples : ℤ
  seen : ℕ
  peaks : List ℕ
  /-- The samples of a stream of unknown length. -/
  buffered : List Int16

def PEAK_COUNT : ℕ := 400

def magnitude (sample : Int16) : ℕ := sample.toInt.natAbs

/-- The most negative sample has its magnitude too. -/
theorem magnitude_le (sample : Int16) : magnitude sample ≤ 2 ^ 15 := by
  have hlow := sample.le_toInt
  have hhigh := sample.toInt_lt
  rw [magnitude]
  omega

namespace PeakBucketer

def new (count : ℕ) (totalSamples : ℤ) : PeakBucketer :=
  ⟨count, totalSamples, 0, List.replicate count 0, []⟩

/-- One turn of the loop in `add`. -/
def addSample (bucketer : PeakBucketer) (sample : Int16) : Checked Empty PeakBucketer := do
  let product ← fitI64 ((bucketer.seen : ℤ) * bucketer.count)
  let bin := min (product.toNat / bucketer.totalSamples.toNat) (bucketer.count - 1)
  let peak ← index bucketer.peaks bin
  let seen ← fitI64 ((bucketer.seen : ℤ) + 1)
  .ok { bucketer with
    peaks := if peak < magnitude sample then bucketer.peaks.set bin (magnitude sample)
      else bucketer.peaks
    seen := seen.toNat }

def add (bucketer : PeakBucketer) (samples : List Int16) : Checked Empty PeakBucketer :=
  if bucketer.totalSamples ≤ 0 then
    .ok { bucketer with buffered := bucketer.buffered ++ samples }
  else samples.foldlM addSample bucketer

def scale (loudest peak : ℕ) : Checked Empty UInt8 := do
  let product ← fitI64 ((peak : ℤ) * 255)
  .ok (UInt8.ofNat (product.toNat / loudest))

/-- The peaks in 0..255 against the loudest bin. -/
def normalize (bucketer : PeakBucketer) : Checked Empty (List UInt8) :=
  let loudest := bucketer.peaks.foldr max 0
  if loudest = 0 then .ok (List.replicate bucketer.count 0)
  else bucketer.peaks.mapM (scale loudest)

def finish (bucketer : PeakBucketer) : Checked Empty (List UInt8) :=
  if bucketer.totalSamples ≤ 0 ∧ bucketer.buffered ≠ [] then do
    let whole ← add { bucketer with totalSamples := bucketer.buffered.length, buffered := [] }
      bucketer.buffered
    whole.normalize
  else bucketer.normalize

end PeakBucketer

/-- Two bytes a sample, the low one first; a byte that is left over is no sample. -/
def decodePcm16 : List UInt8 → List Int16
  | low :: high :: pcm =>
    Int16.ofInt (low.toNat + 256 * high.toNat : ℕ) :: decodePcm16 pcm
  | _ => []

/-- The loop of `read_pcm_stream` over what the reader gives. -/
def readPcmStream (bucketer : PeakBucketer) (carry : Option UInt8) :
    List (List UInt8) → Checked Empty PeakBucketer
  | [] => .ok bucketer
  | chunk :: reads =>
    if chunk = [] then .ok bucketer
    else
      let data := carry.toList ++ chunk
      if data.length % 2 = 1 then do
        let bucketer ← bucketer.add (decodePcm16 data.dropLast)
        readPcmStream bucketer data.getLast? reads
      else do
        let bucketer ← bucketer.add (decodePcm16 data)
        readPcmStream bucketer none reads

/-! ### What the peaks are of -/

/-- The bin of the sample at a place, of `total` samples in all. -/
def binOf (count total k : ℕ) : ℕ := min (k * count / total) (count - 1)

/-- The largest magnitude among the samples of a bin. -/
def loudestIn (bin : ℕ → ℕ) (samples : List Int16) (b : ℕ) : ℕ :=
  ((Finset.range samples.length).filter fun k => bin k = b).sup
    fun k => magnitude (samples[k]?.getD 0)

/-- The peaks of the whole: each bin over the loudest one, rounded down. -/
def referencePeaks (count : ℕ) (bin : ℕ → ℕ) (samples : List Int16) : List ℕ :=
  let loudest := (Finset.range count).sup (loudestIn bin samples)
  (List.range count).map fun b =>
    if loudest = 0 then 0 else loudestIn bin samples b * 255 / loudest

section Bins

variable {bin : ℕ → ℕ} {samples : List Int16} {sample : Int16} {b count : ℕ}

theorem loudestIn_append : loudestIn bin (samples ++ [sample]) b =
    if bin samples.length = b then max (loudestIn bin samples b) (magnitude sample)
    else loudestIn bin samples b := by
  have hold : (((Finset.range samples.length).filter fun k => bin k = b).sup
      fun k => magnitude ((samples ++ [sample])[k]?.getD 0)) = loudestIn bin samples b := by
    apply Finset.sup_congr rfl
    intro k hk
    rw [List.getElem?_append_left (Finset.mem_range.mp (Finset.mem_filter.mp hk).1)]
  rw [loudestIn, List.length_append, List.length_singleton, Finset.range_add_one,
    Finset.filter_insert]
  split_ifs with hbin
  · rw [Finset.sup_insert, hold, List.getElem?_concat_length, max_comm]
    rfl
  · exact hold

/-- Raising one bin to a magnitude. -/
theorem set_map_range {f g : ℕ → ℕ} {m v : ℕ} (h : ∀ b, g b = if m = b then max (f b) v else f b) :
    (if f m < v then ((List.range count).map f).set m v else (List.range count).map f) =
      (List.range count).map g := by
  split_ifs with hlouder
  · apply List.ext_getElem
    · rw [List.length_set, List.length_map, List.length_map]
    · intro i hi hi'
      rw [List.getElem_set, List.getElem_map, List.getElem_map, List.getElem_range, h]
      split_ifs with hm
      · rw [← hm, max_eq_right (Nat.le_of_lt hlouder)]
      · rfl
  · apply List.map_congr_left
    intro b _
    rw [h]
    split_ifs with hm
    · rw [← hm, max_eq_left (Nat.le_of_not_lt hlouder)]
    · rfl

theorem loudestIn_le : loudestIn bin samples b ≤ 2 ^ 15 :=
  Finset.sup_le fun _ _ => magnitude_le _

/-- All is silent, or the loudest bin has the largest peak. -/
theorem referencePeaks_silent_or (hbin : ∀ k < samples.length, bin k < count) :
    (∀ sample ∈ samples, magnitude sample = 0) ∧
        (∀ peak ∈ referencePeaks count bin samples, peak = 0) ∨
      255 ∈ referencePeaks count bin samples := by
  rw [referencePeaks]
  by_cases hsilent : (Finset.range count).sup (loudestIn bin samples) = 0
  · left
    constructor
    · intro sample hsample
      obtain ⟨k, hk, rfl⟩ := List.getElem_of_mem hsample
      have hle : magnitude (samples[k]?.getD 0) ≤ loudestIn bin samples (bin k) :=
        Finset.le_sup (f := fun k => magnitude (samples[k]?.getD 0))
          (Finset.mem_filter.mpr ⟨Finset.mem_range.mpr hk, rfl⟩)
      have hbound : loudestIn bin samples (bin k) ≤ 0 :=
        hsilent ▸ Finset.le_sup (Finset.mem_range.mpr (hbin k hk))
      rw [List.getElem?_eq_getElem hk, Option.getD_some] at hle
      exact Nat.le_zero.mp (hle.trans hbound)
    · intro peak hpeak
      obtain ⟨b, -, rfl⟩ := List.mem_map.mp hpeak
      exact if_pos hsilent
  · right
    have hsome : (Finset.range count).Nonempty := by
      rw [Finset.nonempty_iff_ne_empty]
      intro hnone
      rw [hnone] at hsilent
      exact hsilent rfl
    obtain ⟨b, hb, hloudest⟩ := Finset.exists_mem_eq_sup _ hsome (loudestIn bin samples)
    apply List.mem_map.mpr
    refine ⟨b, List.mem_range.mpr (Finset.mem_range.mp hb), (if_neg hsilent).trans ?_⟩
    rw [← hloudest, Nat.mul_div_cancel_left _ (Nat.pos_of_ne_zero hsilent)]

theorem loudest_eq : ((List.range count).map (loudestIn bin samples)).foldr max 0 =
    (Finset.range count).sup (loudestIn bin samples) := by
  rw [Finset.sup_def, Finset.range_val, Multiset.range, Multiset.map_coe, Multiset.sup_coe]
  rfl

end Bins

/-! ### The bins as the samples come -/

namespace PeakBucketer

/-- The bins after these samples of a stream of known length. -/
def after (count : ℕ) (total : ℤ) (samples : List Int16) : PeakBucketer :=
  ⟨count, total, samples.length,
    (List.range count).map (loudestIn (binOf count total.toNat) samples), []⟩

variable {count : ℕ} {total : ℤ} {samples more : List Int16} {sample : Int16}

/-- Before the first sample every bin is silent. -/
theorem peaks_new (bin : ℕ → ℕ) :
    (new count total).peaks = (List.range count).map (loudestIn bin []) := by
  symm
  apply List.eq_replicate_iff.mpr
  constructor
  · rw [List.length_map, List.length_range]
  · intro peak hpeak
    obtain ⟨b, -, rfl⟩ := List.mem_map.mp hpeak
    rfl

/-- One sample more raises its own bin. -/
theorem addSample_after (hcount : 0 < count) (hfits : (samples.length + 1) * count < 2 ^ 63) :
    (after count total samples).addSample sample =
      .ok (after count total (samples ++ [sample])) := by
  have hpos : samples.length + 1 ≤ (samples.length + 1) * count := Nat.le_mul_of_pos_right _ hcount
  have hless : samples.length * count ≤ (samples.length + 1) * count :=
    Nat.mul_le_mul_right _ (Nat.le_succ _)
  have hbin : binOf count total.toNat samples.length < count := by
    rw [binOf]
    omega
  have hpeak : ((List.range count).map (loudestIn (binOf count total.toNat) samples))[
      binOf count total.toNat samples.length]? =
      some (loudestIn (binOf count total.toNat) samples
        (binOf count total.toNat samples.length)) := by
    rw [List.getElem?_map, List.getElem?_range hbin]
    rfl
  have hproduct : ((samples.length : ℤ) * count) = ((samples.length * count : ℕ) : ℤ) := by
    rw [Int.natCast_mul]
  simp only [addSample, after]
  rw [hproduct, Checked.fitI64_of_range (by omega) (by omega), Checked.ok_bind, Int.toNat_natCast]
  change (index _ (binOf count total.toNat samples.length) >>= _) = _
  rw [Checked.index_of_getElem? hpeak, Checked.ok_bind,
    Checked.fitI64_of_range (by omega) (by omega), Checked.ok_bind]
  refine congrArg Except.ok ?_
  rw [mk.injEq]
  refine ⟨rfl, rfl, ?_, ?_, rfl⟩
  · rw [List.length_append]
    rfl
  · exact set_map_range fun b => loudestIn_append

theorem foldlM_after (hcount : 0 < count)
    (hfits : (samples.length + more.length) * count < 2 ^ 63) :
    more.foldlM addSample (after count total samples) =
      .ok (after count total (samples ++ more)) := by
  induction more generalizing samples with
  | nil =>
    rw [List.append_nil]
    rfl
  | cons sample more ih =>
    rw [List.length_cons, ← Nat.add_assoc] at hfits
    have hone : (samples.length + 1) * count < 2 ^ 63 :=
      (Nat.mul_le_mul_right count (by omega)).trans_lt hfits
    rw [List.foldlM_cons, addSample_after hcount hone, Checked.ok_bind, ih, List.append_assoc]
    · rfl
    · rw [List.length_append, List.length_singleton]
      exact (Nat.mul_le_mul_right count (by omega)).trans_lt hfits

/-- The bucketer that has read these samples: of unknown length they are kept. -/
def having (count : ℕ) (total : ℤ) (samples : List Int16) : PeakBucketer :=
  if total ≤ 0 then { new count total with buffered := samples } else after count total samples

theorem having_nil : having count total [] = new count total := by
  rw [having]
  split_ifs
  · rfl
  · rw [after, ← @peaks_new count total]
    rfl

theorem add_having (hcount : 0 < count) (hfits : (samples.length + more.length) * count < 2 ^ 63) :
    (having count total samples).add more = .ok (having count total (samples ++ more)) := by
  rw [having, having]
  split_ifs with hunknown
  · exact if_pos hunknown
  · exact (if_neg hunknown).trans (foldlM_after hcount hfits)

theorem scale_ok {loudest peak : ℕ} (h : peak ≤ 2 ^ 15) :
    scale loudest peak = .ok (UInt8.ofNat (peak * 255 / loudest)) := by
  rw [scale, Checked.fitI64_of_range (by omega) (by omega), Checked.ok_bind]
  rfl

/-- Every bin is scaled without a loss. -/
theorem normalize_ok {bucketer : PeakBucketer} {bin : ℕ → ℕ} (hcount : bucketer.count = count)
    (hpeaks : bucketer.peaks = (List.range count).map (loudestIn bin samples)) :
    ∃ peaks, bucketer.normalize = .ok peaks ∧
      peaks.map UInt8.toNat = referencePeaks count bin samples := by
  rw [normalize, hcount, hpeaks, loudest_eq, referencePeaks]
  by_cases hsilent : (Finset.range count).sup (loudestIn bin samples) = 0
  · simp only [hsilent, if_true]
    refine ⟨_, rfl, ?_⟩
    rw [List.map_replicate, List.map_const', List.length_range]
    rfl
  · simp only [hsilent, if_false]
    refine ⟨(List.range count).map fun b => UInt8.ofNat (loudestIn bin samples b * 255 /
      (Finset.range count).sup (loudestIn bin samples)), ?_, ?_⟩
    · apply Traversal.mapM_of_forall₂
      rw [List.forall₂_map_left_iff, List.forall₂_map_right_iff, List.forall₂_same]
      intro b _
      exact scale_ok loudestIn_le
    · rw [List.map_map]
      apply List.map_congr_left
      intro b hb
      have hle : loudestIn bin samples b ≤ (Finset.range count).sup (loudestIn bin samples) :=
        Finset.le_sup (Finset.mem_range.mpr (List.mem_range.mp hb))
      have hsmall : loudestIn bin samples b * 255 /
          (Finset.range count).sup (loudestIn bin samples) ≤ 255 :=
        Nat.div_le_of_le_mul (Nat.mul_le_mul_right 255 hle)
      rw [Function.comp_apply, UInt8.toNat_ofNat']
      exact Nat.mod_eq_of_lt (Nat.lt_succ_of_le hsmall)

/-- A stream of unknown length is bucketed once its length is known. -/
theorem finish_having (hcount : 0 < count) (hfits : samples.length * count < 2 ^ 63) :
    ∃ peaks, (having count total samples).finish = .ok peaks ∧ peaks.map UInt8.toNat =
      referencePeaks count
        (binOf count (if 0 < total then total.toNat else samples.length)) samples := by
  rw [having]
  by_cases hknown : 0 < total
  · rw [if_neg (by omega), if_pos hknown, finish, if_neg fun h => h.2 rfl]
    exact normalize_ok rfl rfl
  · rw [if_pos (by omega), if_neg hknown, finish]
    by_cases hnone : samples = []
    · rw [if_neg fun h => h.2 hnone, hnone]
      exact normalize_ok rfl (peaks_new _)
    · have hpos : 0 < samples.length := List.length_pos_of_ne_nil hnone
      rw [if_pos ⟨by change total ≤ 0; omega, hnone⟩]
      have hwhole := @add_having count samples.length [] samples hcount
        (by rw [List.length_nil, Nat.zero_add]; exact hfits)
      rw [having_nil, List.nil_append, having, if_neg (by omega)] at hwhole
      change ∃ peaks, ((new count samples.length).add samples >>= _) = _ ∧ _
      rw [hwhole, Checked.ok_bind]
      exact normalize_ok rfl rfl

end PeakBucketer

/-! ### Reads that cut samples -/

section Reads

variable {count : ℕ} {total : ℤ} {samples : List Int16} {reads : List (List UInt8)}

theorem decodePcm16_append {a b : List UInt8} (h : a.length % 2 = 0) :
    decodePcm16 (a ++ b) = decodePcm16 a ++ decodePcm16 b := by
  fun_induction decodePcm16 a with
  | case1 low high pcm ih =>
    rw [List.length_cons, List.length_cons] at h
    rw [List.cons_append, List.cons_append, decodePcm16, ih (by omega), List.cons_append]
  | case2 a hshort =>
    cases a with
    | nil => rfl
    | cons low rest =>
      cases rest with
      | nil => exact absurd h (Nat.succ_ne_zero 0)
      | cons high pcm => exact absurd rfl (hshort low high pcm)

theorem decodePcm16_carry (carry : Option UInt8) : decodePcm16 carry.toList = [] := by
  cases carry with
  | none => rfl
  | some low => rfl

/-- A byte that is carried over is read with the next ones. -/
theorem readPcmStream_having (hcount : 0 < count) {carry : Option UInt8}
    (hreads : ∀ read ∈ reads, read ≠ [])
    (hfits : (samples.length + (decodePcm16 (carry.toList ++ reads.flatten)).length) * count <
      2 ^ 63) :
    readPcmStream (.having count total samples) carry reads =
      .ok (.having count total (samples ++ decodePcm16 (carry.toList ++ reads.flatten))) := by
  induction reads generalizing samples carry with
  | nil =>
    rw [List.flatten_nil, List.append_nil, decodePcm16_carry, List.append_nil]
    rfl
  | cons read reads ih =>
    rw [List.flatten_cons, ← List.append_assoc] at hfits ⊢
    rw [readPcmStream, if_neg (hreads read List.mem_cons_self)]
    -- the whole samples of the data are added, and what is left is carried over
    have hstep : ∀ (whole : List UInt8) (left : Option UInt8),
        carry.toList ++ read = whole ++ left.toList → whole.length % 2 = 0 →
        ((PeakBucketer.having count total samples).add (decodePcm16 whole) >>= fun bucketer =>
          readPcmStream bucketer left reads) =
          .ok (.having count total
            (samples ++ decodePcm16 (carry.toList ++ read ++ reads.flatten))) := by
      intro whole left hdata heven
      rw [hdata, List.append_assoc, decodePcm16_append heven, List.length_append,
        ← Nat.add_assoc] at hfits
      have hless : (samples.length + (decodePcm16 whole).length) * count < 2 ^ 63 :=
        (Nat.mul_le_mul_right count (Nat.le_add_right _ _)).trans_lt hfits
      rw [PeakBucketer.add_having hcount hless, Checked.ok_bind,
        ih (fun read hread => hreads read (List.mem_cons_of_mem _ hread))
          (by rw [List.length_append]; exact hfits),
        hdata, List.append_assoc whole, decodePcm16_append heven, List.append_assoc samples]
    by_cases hodd : (carry.toList ++ read).length % 2 = 1
    · have hne : carry.toList ++ read ≠ [] := by
        intro hnil
        rw [hnil] at hodd
        exact absurd hodd (by decide)
      simp only [hodd, if_true]
      apply hstep
      · rw [List.getLast?_eq_some_getLast hne]
        exact (List.dropLast_append_getLast hne).symm
      · rw [List.length_dropLast]
        omega
    · simp only [hodd, if_false]
      exact hstep _ none (List.append_nil _).symm (by omega)

end Reads

/-- The peaks of a stream are those of the whole, however it is cut into reads. `PEAK_COUNT` is
one of the counts. -/
theorem finish_readPcmStream {count : ℕ} (hcount : 0 < count) (hbins : count ≤ 512) (total : ℤ)
    {reads : List (List UInt8)} (hreads : ∀ read ∈ reads, read ≠ [])
    (hshort : (decodePcm16 reads.flatten).length < 2 ^ 54) :
    ∃ peaks, (readPcmStream (.new count total) none reads >>= PeakBucketer.finish) = .ok peaks ∧
      peaks.map UInt8.toNat = referencePeaks count
        (binOf count (if 0 < total then total.toNat else (decodePcm16 reads.flatten).length))
        (decodePcm16 reads.flatten) ∧
      ((∀ sample ∈ decodePcm16 reads.flatten, magnitude sample = 0) ∧
          (∀ peak ∈ peaks.map UInt8.toNat, peak = 0) ∨
        255 ∈ peaks.map UInt8.toNat) := by
  have hfits : (decodePcm16 reads.flatten).length * count < 2 ^ 63 :=
    calc (decodePcm16 reads.flatten).length * count
        ≤ (decodePcm16 reads.flatten).length * 512 := Nat.mul_le_mul_left _ hbins
      _ < 2 ^ 63 := by omega
  have hread := @readPcmStream_having count total [] reads hcount none hreads
    (by rw [List.length_nil, Nat.zero_add]; exact hfits)
  rw [PeakBucketer.having_nil] at hread
  obtain ⟨peaks, hfinish, hpeaks⟩ := @PeakBucketer.finish_having count total _ hcount hfits
  refine ⟨peaks, ?_, hpeaks, ?_⟩
  · rw [hread, Checked.ok_bind]
    exact hfinish
  · rw [hpeaks]
    apply referencePeaks_silent_or
    intro k _
    rw [binOf]
    omega

theorem finish_readPcmStream_odd :
    ∃ peaks, (readPcmStream (.new PEAK_COUNT 3) none [[3], [0], [250, 255, 9], [0]] >>=
      PeakBucketer.finish) = .ok peaks ∧
      peaks.map UInt8.toNat = referencePeaks PEAK_COUNT (binOf PEAK_COUNT 3) [3, -6, 9] := by
  have h := @finish_readPcmStream PEAK_COUNT (by decide) (by decide) 3
    [[3], [0], [250, 255, 9], [0]] (by decide) (by decide)
  obtain ⟨peaks, hrun, hpeaks, -⟩ := h
  exact ⟨peaks, hrun, hpeaks⟩

end Harmony.Waveform
