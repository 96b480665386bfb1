/-
# Counting the samples of a Vorbis stream

The samples that the decoder gives for each packet are counted. The start is trimmed to the
granule of the first page that has samples and the end to the final granule, in numbers of 64
bits with a sign.
-/

import Harmony.Inspect.OggPackets
import Harmony.Inspect.WavSamples

namespace Harmony.Inspect.Vorbis

open Checked (fail fitI64 ofExcept)
open Ogg (OggPacket)
open Wav (Context)

/-- The signed number with the same 64 bits. -/
def asI64 (n : ℕ) : ℤ := if n % 2 ^ 64 < 2 ^ 63 then (n % 2 ^ 64 : ℕ) else (n % 2 ^ 64 : ℕ) - 2 ^ 64

def granuleOf (packet : OggPacket) : ℤ := asI64 packet.granule

structure Counted where
  position : ℤ
  decodedSamples : ℤ
  started : Bool

def Counted.start : Counted := ⟨0, 0, false⟩

/-! ### The loop -/

/-- The last packet ends at its granule. Gives the frames left of it, and the position. -/
def trimEnd (packet : OggPacket) (frames position : ℤ) : Checked Failure (ℤ × ℤ) :=
  if packet.isLast then do
    let discard ← fitI64 (position - granuleOf packet)
    let frames ← if 0 < discard then fitI64 (frames - discard) else .ok frames
    .ok (frames, granuleOf packet)
  else .ok (frames, position)

/-- The first packet with samples ends at its granule where it ends its page. -/
def trimStart (packet : OggPacket) (started : Bool) (frames position : ℤ) :
    Checked Failure (ℤ × ℤ) :=
  if started = false ∧ packet.lastOnPage then do
    let offset ← fitI64 (granuleOf packet - position)
    let frames ← if offset < 0 then fitI64 (frames + offset) else .ok frames
    .ok (frames, granuleOf packet)
  else .ok (frames, position)

/-- Counts what is left of the frames of a packet. -/
def addFrames (frames position : ℤ) (counted : Counted) : Checked Failure Counted :=
  if frames < 0 then fail (audioError "vorbis packet trims more samples than it decoded")
  else do
    let decodedSamples ← fitI64 (counted.decodedSamples + frames)
    .ok ⟨position, decodedSamples, true⟩

/-- Nothing is trimmed before there are samples. -/
def countPacket (packet : OggPacket) (frames : ℤ) (counted : Counted) :
    Checked Failure Counted := do
  let position ← fitI64 (counted.position + frames)
  if counted.started = false ∧ frames = 0 then .ok { counted with position }
  else do
    let ended ← trimEnd packet frames position
    let trimmed ← trimStart packet counted.started ended.1 ended.2
    addFrames trimmed.1 trimmed.2 counted

section Decode

variable (ctx : Context) (sizeBytes : ℕ) (length : ℤ)

/-- Progress is reported once samples are counted. -/
def reportCounted (index : ℕ) (counted : Counted) : Checked Failure Unit :=
  if counted.started then
    ctx.report index counted.decodedSamples.toNat length.toNat (0 : ℕ) sizeBytes false
  else .ok ()

/-- The first audio packet only primes the overlap. -/
def framesOf (index decoded : ℕ) : ℤ := if index = 3 then 0 else asI64 decoded

/-- The packets from an index on, with what the decoder gives for each. -/
def countFrom : ℕ → List (OggPacket × Except String ℕ) → Counted → Checked Failure Counted
  | _, [], counted => .ok counted
  | index, (packet, decoded) :: rest, counted => do
    ctx.check index
    let decoded ← ofExcept (decoded.mapError audioError)
    let counted ← countPacket packet (framesOf index decoded) counted
    reportCounted ctx sizeBytes length index counted
    countFrom (index + 1) rest counted

/-- The audio packets are those behind the three headers. -/
def countSamples (finalGranule : ℕ) (audio : List (OggPacket × Except String ℕ)) :
    Checked Failure ℤ := do
  let length := asI64 finalGranule
  let counted ← countFrom ctx sizeBytes length 3 audio .start
  if length ≤ 0 ∨ counted.decodedSamples ≠ length then
    fail (audioError "decoded sample count does not match OGG granule position")
  else .ok counted.decodedSamples

end Decode

/-! ### Streams -/

/-- The audio packets of a stream with the lengths that the decoder reports. The end is marked on
the last packet at most. -/
structure VorbisStream where
  primer : OggPacket × ℕ
  rest : List (OggPacket × ℕ)
  finalGranule : ℕ
  lengths : ∀ packet ∈ rest, packet.2 < 2 ^ 64
  lastOnly : ∀ front packet behind, primer :: rest = front ++ packet :: behind →
    packet.1.isLast = true → behind = []

namespace VorbisStream

def audio (stream : VorbisStream) : List (OggPacket × Except String ℕ) :=
  (stream.primer :: stream.rest).map fun packet => (packet.1, .ok packet.2)

/-- The packets with the samples that are output for them. -/
def outputs (stream : VorbisStream) : List (OggPacket × ℕ) := (stream.primer.1, 0) :: stream.rest

def samples (packets : List (OggPacket × ℕ)) : ℕ := (packets.map Prod.snd).sum

/-- The granule of each page is the number of samples up to the last packet it ends, and the final
one may leave out samples of the last packet. -/
structure WellGranuled (stream : VorbisStream) : Prop where
  pages : ∀ front packet behind, stream.outputs = front ++ packet :: behind →
    packet.1.lastOnPage = true → packet.1.isLast = false →
      packet.1.granule = samples (front ++ [packet])
  final : ∀ front packet, stream.outputs = front ++ [packet] →
    samples front ≤ stream.finalGranule ∧ stream.finalGranule ≤ samples (front ++ [packet]) ∧
      (packet.1.isLast = true → packet.1.granule = stream.finalGranule)

end VorbisStream

/-! ### When the arithmetic fits -/

def Fits (n : ℤ) : Prop := -2 ^ 63 ≤ n ∧ n < 2 ^ 63

/-- The packets with the lengths as signed numbers. -/
def signed (packets : List (OggPacket × ℕ)) : List (OggPacket × ℤ) :=
  packets.map fun packet => (packet.1, asI64 packet.2)

def total (packets : List (OggPacket × ℤ)) : ℤ := (packets.map Prod.snd).sum

/-- The position behind a packet fits, and for the last packet what its granule trims. -/
def PacketFits (position : ℤ) (packet : OggPacket × ℤ) : Prop :=
  Fits (position + packet.2) ∧
    (packet.1.isLast = true →
      Fits (position + packet.2 - granuleOf packet.1) ∧
        (granuleOf packet.1 < position + packet.2 → Fits (granuleOf packet.1 - position)))

/-- Every packet fits, as long as no length before it is negative. -/
def LaterFit (lead : ℤ) (later : List (OggPacket × ℤ)) : Prop :=
  ∀ front packet behind, later = front ++ packet :: behind → (∀ other ∈ front, 0 ≤ other.2) →
    PacketFits (lead + total front) packet

/-- The first packet with samples may be trimmed at both ends, and leads the others. -/
def FirstFits (packet : OggPacket) (frames : ℤ) (later : List (OggPacket × ℤ)) : Prop :=
  let lead := if packet.lastOnPage then granuleOf packet else frames
  (packet.isLast = true → Fits (frames - granuleOf packet)) ∧
    (packet.isLast = false → packet.lastOnPage = true → Fits (granuleOf packet - frames)) ∧
    (0 ≤ frames → 0 ≤ lead → LaterFit lead later)

/-- The arithmetic on a stream fits. -/
def VorbisStream.AllFit (stream : VorbisStream) : Prop :=
  match (signed stream.rest).dropWhile (fun packet => packet.2 = 0) with
  | [] => True
  | (packet, frames) :: later => FirstFits packet frames later

/-! ### What a packet does -/

/-- The loop without the calls between the packets. -/
def countAll : List (OggPacket × ℤ) → Counted → Checked Failure Counted
  | [], counted => .ok counted
  | packet :: rest, counted => countPacket packet.1 packet.2 counted >>= countAll rest

section Packets

variable {packet : OggPacket} {frames position decoded : ℤ}

theorem fits_asI64 (n : ℕ) : Fits (asI64 n) := by
  rw [asI64, Fits]
  split_ifs <;> omega

theorem fits_granuleOf (packet : OggPacket) : Fits (granuleOf packet) := fits_asI64 _

theorem asI64_of_lt {n : ℕ} (h : n < 2 ^ 63) : asI64 n = n := by
  rw [asI64]
  split_ifs <;> omega

theorem asI64_neg {n : ℕ} (hlow : 2 ^ 63 ≤ n) (hhigh : n < 2 ^ 64) : asI64 n < 0 := by
  rw [asI64]
  split_ifs <;> omega

theorem fitI64_of_fits {n : ℤ} (h : Fits n) : (fitI64 n : Checked Failure ℤ) = .ok n := if_pos h

theorem fitI64_of_not_fits {n : ℤ} (h : ¬Fits n) :
    (fitI64 n : Checked Failure ℤ) = .error .panicked :=
  if_neg h

theorem countPacket_zero (packet : OggPacket) : countPacket packet 0 .start = .ok .start := rfl

theorem addFrames_of_fits {counted : Counted} (h : 0 ≤ frames)
    (hfits : Fits (counted.decodedSamples + frames)) :
    addFrames frames position counted = .ok ⟨position, counted.decodedSamples + frames, true⟩ := by
  rw [addFrames, if_neg (by omega), fitI64_of_fits hfits, Checked.ok_bind]

theorem addFrames_ne_panicked {counted : Counted}
    (hfits : 0 ≤ frames → Fits (counted.decodedSamples + frames)) :
    addFrames frames position counted ≠ .error .panicked := by
  by_cases h : frames < 0
  · rw [addFrames, if_pos h]
    nofun
  · rw [addFrames_of_fits (by omega) (hfits (by omega))]
    nofun

theorem trimEnd_last (hlast : packet.isLast = true) (h : Fits (position - granuleOf packet))
    (hframes : granuleOf packet < position → Fits (frames - (position - granuleOf packet))) :
    trimEnd packet frames position =
      .ok (if granuleOf packet < position then frames - (position - granuleOf packet) else frames,
        granuleOf packet) := by
  rw [trimEnd, if_pos hlast, fitI64_of_fits h, Checked.ok_bind]
  by_cases hmore : granuleOf packet < position
  · rw [if_pos (by omega), if_pos hmore, fitI64_of_fits (hframes hmore), Checked.ok_bind]
  · rw [if_neg (by omega), if_neg hmore, Checked.ok_bind]

theorem trimEnd_other (hlast : packet.isLast = false) :
    trimEnd packet frames position = .ok (frames, position) :=
  if_neg (by rw [hlast]; exact Bool.false_ne_true)

theorem trimStart_started : trimStart packet true frames position = .ok (frames, position) :=
  if_neg fun h => Bool.true_eq_false_eq_False h.1

/-- A packet behind the first one with samples. -/
theorem countPacket_started (hlast : packet.isLast = false) (hfits : Fits (position + frames)) :
    countPacket packet frames ⟨position, decoded, true⟩ =
      addFrames frames (position + frames) ⟨position, decoded, true⟩ := by
  rw [countPacket, fitI64_of_fits hfits, Checked.ok_bind, if_neg (fun h => nomatch h.1),
    trimEnd_other hlast, Checked.ok_bind, trimStart_started, Checked.ok_bind]

theorem countPacket_panicked_iff (hdecoded : 0 ≤ decoded) (hposition : decoded ≤ position) :
    countPacket packet frames ⟨position, decoded, true⟩ ≠ .error .panicked ↔
      PacketFits position (packet, frames) := by
  have hgranule := fits_granuleOf packet
  by_cases hfits : Fits (position + frames)
  · cases hlast : packet.isLast with
    | false =>
      rw [countPacket_started hlast hfits]
      refine iff_of_true ?_ ⟨hfits, fun h => absurd (hlast.symm.trans h) Bool.false_ne_true⟩
      apply addFrames_ne_panicked
      intro hframes
      rw [Fits] at hfits ⊢
      simp only
      omega
    | true =>
      rw [countPacket, fitI64_of_fits hfits, Checked.ok_bind, if_neg (fun h => nomatch h.1)]
      by_cases hdiscard : Fits (position + frames - granuleOf packet)
      · by_cases hframes : granuleOf packet < position + frames → Fits (granuleOf packet - position)
        · have hsame : frames - (position + frames - granuleOf packet) =
              granuleOf packet - position := by omega
          rw [trimEnd_last hlast hdiscard (fun h => by rw [hsame]; exact hframes h),
            Checked.ok_bind,
            trimStart_started, Checked.ok_bind]
          refine iff_of_true ?_ ⟨hfits, fun _ => ⟨hdiscard, hframes⟩⟩
          apply addFrames_ne_panicked
          intro hleft
          rw [Fits] at *
          simp only at hleft ⊢
          split_ifs at hleft ⊢ <;> omega
        · obtain ⟨hmore, hnot⟩ := Classical.not_imp.mp hframes
          have hsame : frames - (position + frames - granuleOf packet) =
              granuleOf packet - position := by omega
          rw [trimEnd, if_pos hlast, fitI64_of_fits hdiscard, Checked.ok_bind, if_pos (by omega),
            hsame, fitI64_of_not_fits hnot]
          exact iff_of_false (fun h => h rfl) fun h => hnot ((h.2 hlast).2 hmore)
      · rw [trimEnd, if_pos hlast, fitI64_of_not_fits hdiscard]
        exact iff_of_false (fun h => h rfl) fun h => hdiscard (h.2 hlast).1
  · rw [countPacket, fitI64_of_not_fits hfits]
    exact iff_of_false (fun h => h rfl) fun h => hfits h.1

/-- The first packet with samples, where it does not end the stream. -/
theorem countPacket_first (hframes : frames ≠ 0) (hfits : Fits frames)
    (hlast : packet.isLast = false) :
    countPacket packet frames .start =
      trimStart packet false frames frames >>= fun trimmed =>
        addFrames trimmed.1 trimmed.2 .start := by
  have hposition : Counted.start.position + frames = frames := Int.zero_add frames
  rw [countPacket, hposition, fitI64_of_fits hfits, Checked.ok_bind,
    if_neg (fun h => hframes h.2), trimEnd_other hlast, Checked.ok_bind]
  rfl

theorem trimStart_first (hpage : packet.lastOnPage = true)
    (hfits : Fits (granuleOf packet - frames)) :
    trimStart packet false frames frames =
      .ok (min frames (granuleOf packet), granuleOf packet) := by
  have hgranule := fits_granuleOf packet
  rw [trimStart, if_pos ⟨rfl, hpage⟩, fitI64_of_fits hfits, Checked.ok_bind]
  by_cases hless : granuleOf packet - frames < 0
  · have hsame : frames + (granuleOf packet - frames) = granuleOf packet := by omega
    rw [if_pos hless, hsame, fitI64_of_fits hgranule, Checked.ok_bind, min_eq_right (by omega)]
  · rw [if_neg hless, Checked.ok_bind, min_eq_left (by omega)]

/-- The first packet with samples, where it ends the stream as well. -/
theorem countPacket_only_panicked_iff (hframes : frames ≠ 0) (hfits : Fits frames)
    (hlast : packet.isLast = true) :
    countPacket packet frames .start ≠ .error .panicked ↔ Fits (frames - granuleOf packet) := by
  have hgranule := fits_granuleOf packet
  have hposition : Counted.start.position + frames = frames := Int.zero_add frames
  rw [countPacket, hposition, fitI64_of_fits hfits, Checked.ok_bind, if_neg (fun h => hframes h.2)]
  by_cases hdiscard : Fits (frames - granuleOf packet)
  · have hsame : frames - (frames - granuleOf packet) = granuleOf packet := by omega
    rw [trimEnd_last hlast hdiscard (fun _ => by rw [hsame]; exact hgranule),
      Checked.ok_bind, hsame]
    refine iff_of_true ?_ hdiscard
    have hzero : Fits 0 := by rw [Fits]; omega
    have hstart : trimStart packet false
        (if granuleOf packet < frames then granuleOf packet else frames) (granuleOf packet) =
          .ok (if granuleOf packet < frames then granuleOf packet else frames,
            granuleOf packet) := by
      rw [trimStart]
      split_ifs
      · rw [Int.sub_self, fitI64_of_fits hzero]
        rfl
      · rw [Int.sub_self, fitI64_of_fits hzero]
        rfl
      · rfl
      · rfl
    change trimStart packet false _ _ >>= _ ≠ _
    rw [hstart, Checked.ok_bind]
    apply addFrames_ne_panicked
    intro _
    change Fits (0 + if _ then _ else _)
    rw [Int.zero_add]
    split_ifs
    · exact hgranule
    · exact hfits
  · rw [trimEnd, if_pos hlast, fitI64_of_not_fits hdiscard]
    exact iff_of_false (fun h => h rfl) hdiscard

end Packets

/-! ### What the loop does -/

theorem laterFit_cons {lead : ℤ} {packet : OggPacket × ℤ} {rest : List (OggPacket × ℤ)} :
    LaterFit lead (packet :: rest) ↔
      PacketFits lead packet ∧ (0 ≤ packet.2 → LaterFit (lead + packet.2) rest) := by
  have htotal : ∀ front, lead + total (packet :: front) = lead + packet.2 + total front := by
    intro front
    rw [total, List.map_cons, List.sum_cons, total, Int.add_assoc]
  constructor
  · intro h
    constructor
    · have hfirst := h [] packet rest rfl fun other hother => absurd hother List.not_mem_nil
      rw [total, List.map_nil, List.sum_nil, Int.add_zero] at hfirst
      exact hfirst
    · intro hlength front other behind hrest hfront
      have hnext := h (packet :: front) other behind (by rw [hrest]; rfl)
        (List.forall_mem_cons.mpr ⟨hlength, hfront⟩)
      rw [htotal] at hnext
      exact hnext
  · rintro ⟨hfirst, hrest⟩ front other behind hsplit hfront
    cases front with
    | nil =>
      rw [← (List.cons.inj hsplit).1, total, List.map_nil, List.sum_nil, Int.add_zero]
      exact hfirst
    | cons head front =>
      obtain ⟨rfl, htail⟩ := List.cons.inj hsplit
      obtain ⟨hhead, hothers⟩ := List.forall_mem_cons.mp hfront
      rw [htotal]
      exact hrest hhead front other behind htail hothers

/-- Only the last packet may end the stream. -/
def LastOnly (packets : List (OggPacket × ℤ)) : Prop :=
  ∀ front packet behind, packets = front ++ packet :: behind → packet.1.isLast = true → behind = []

theorem LastOnly.tail {packet : OggPacket × ℤ} {rest : List (OggPacket × ℤ)}
    (h : LastOnly (packet :: rest)) : LastOnly rest := by
  intro front other behind hrest
  exact h (packet :: front) other behind (by rw [hrest]; rfl)

theorem countAll_started_iff {later : List (OggPacket × ℤ)} {position decoded : ℤ}
    (hlast : LastOnly later) (hdecoded : 0 ≤ decoded) (hposition : decoded ≤ position) :
    countAll later ⟨position, decoded, true⟩ ≠ .error .panicked ↔ LaterFit position later := by
  induction later generalizing position decoded with
  | nil =>
    refine iff_of_true nofun ?_
    intro front packet behind h
    exact absurd h.symm (List.append_ne_nil_of_right_ne_nil _ (List.cons_ne_nil _ _))
  | cons packet rest ih =>
    have hpacket := @countPacket_panicked_iff packet.1 packet.2 position decoded hdecoded hposition
    rw [laterFit_cons, countAll]
    by_cases hfits : PacketFits position packet
    · rw [and_iff_right hfits]
      cases hends : packet.1.isLast with
      | true =>
        -- Nothing follows the packet that ends the stream.
        have hrest : rest = [] := hlast [] packet rest rfl hends
        subst hrest
        have hnil : LaterFit (position + packet.2) [] := by
          intro front other behind h
          exact absurd h.symm (List.append_ne_nil_of_right_ne_nil _ (List.cons_ne_nil _ _))
        refine iff_of_true ?_ fun _ => hnil
        have hsafe := hpacket.mpr hfits
        cases hcount : countPacket packet.1 packet.2 ⟨position, decoded, true⟩ with
        | ok next => nofun
        | error stop =>
          rw [hcount] at hsafe
          exact hsafe
      | false =>
        rw [countPacket_started hends hfits.1]
        by_cases hlength : 0 ≤ packet.2
        · have hsum := hfits.1
          have hadd : Fits (decoded + packet.2) := by
            rw [Fits] at hsum ⊢
            omega
          rw [addFrames_of_fits hlength hadd, Checked.ok_bind,
            ih hlast.tail (by simp only; omega) (by simp only; omega)]
          exact ⟨fun h _ => h, fun h => h hlength⟩
        · rw [addFrames, if_pos (by omega)]
          exact iff_of_true nofun fun h => absurd h hlength
    · have hcount := not_not.mp fun h => hfits (hpacket.mp h)
      rw [hcount]
      exact iff_of_false (fun h => h rfl) fun h => hfits h.1

theorem countAll_first_iff {packet : OggPacket} {frames : ℤ} {later : List (OggPacket × ℤ)}
    (hlast : LastOnly ((packet, frames) :: later)) (hframes : frames ≠ 0) (hfits : Fits frames) :
    countAll ((packet, frames) :: later) .start ≠ .error .panicked ↔
      FirstFits packet frames later := by
  have hgranule := fits_granuleOf packet
  rw [countAll, FirstFits]
  simp only
  cases hends : packet.isLast with
  | true =>
    have hlater : later = [] := hlast [] (packet, frames) later rfl hends
    subst hlater
    have hnil : ∀ lead, LaterFit lead [] := by
      intro lead front other behind h
      exact absurd h.symm (List.append_ne_nil_of_right_ne_nil _ (List.cons_ne_nil _ _))
    have honly := countPacket_only_panicked_iff hframes hfits hends
    have hrun : countPacket packet frames .start >>= countAll [] =
      countPacket packet frames .start := by
      cases countPacket packet frames .start <;> rfl
    rw [hrun, honly]
    exact ⟨fun h => ⟨fun _ => h, nofun, fun _ _ => hnil _⟩, fun h => h.1 rfl⟩
  | false =>
    rw [countPacket_first hframes hfits hends]
    cases hpage : packet.lastOnPage with
    | false =>
      have hstart : trimStart packet false frames frames = .ok (frames, frames) :=
        if_neg fun h => Bool.false_ne_true (hpage.symm.trans h.2)
      rw [hstart, Checked.ok_bind, if_neg Bool.false_ne_true]
      by_cases hlength : 0 ≤ frames
      · have hadd : Fits (Counted.start.decodedSamples + frames) := by
          change Fits (0 + frames)
          rw [Int.zero_add]
          exact hfits
        rw [addFrames_of_fits hlength hadd, Checked.ok_bind,
          countAll_started_iff hlast.tail (by change 0 ≤ 0 + frames; omega)
            (by change 0 + frames ≤ frames; omega)]
        exact ⟨fun h => ⟨nofun, nofun, fun _ _ => h⟩, fun h => h.2.2 hlength hlength⟩
      · rw [addFrames, if_pos (by simp only; omega)]
        exact iff_of_true nofun ⟨nofun, nofun, fun h => absurd h hlength⟩
    | true =>
      rw [if_pos rfl]
      by_cases hoffset : Fits (granuleOf packet - frames)
      · rw [trimStart_first hpage hoffset, Checked.ok_bind]
        by_cases hleft : 0 ≤ min frames (granuleOf packet)
        · obtain ⟨hlength, hlead⟩ := le_min_iff.mp hleft
          have hadd : Fits (Counted.start.decodedSamples + min frames (granuleOf packet)) := by
            change Fits (0 + _)
            rw [Fits] at *
            omega
          rw [addFrames_of_fits hleft hadd, Checked.ok_bind,
            countAll_started_iff hlast.tail (by change 0 ≤ 0 + _; omega)
              (by change 0 + min frames (granuleOf packet) ≤ granuleOf packet; omega)]
          exact ⟨fun h => ⟨nofun, fun _ _ => hoffset, fun _ _ => h⟩, fun h => h.2.2 hlength hlead⟩
        · rw [addFrames, if_pos (by simp only; omega)]
          refine iff_of_true nofun ⟨nofun, fun _ _ => hoffset, ?_⟩
          intro hlength hlead
          exact absurd (le_min hlength hlead) hleft
      · have hstart : trimStart packet false frames frames = .error .panicked := by
          rw [trimStart, if_pos ⟨rfl, hpage⟩, fitI64_of_not_fits hoffset]
          rfl
        rw [hstart]
        exact iff_of_false (fun h => h rfl) fun h => hoffset (h.2.1 rfl rfl)

/-- The loop overflows nowhere exactly where the arithmetic fits. -/
theorem countAll_start_iff {packets : List (OggPacket × ℤ)} (hlast : LastOnly packets)
    (hfits : ∀ packet ∈ packets, Fits packet.2) :
    countAll packets .start ≠ .error .panicked ↔
      match packets.dropWhile fun packet => packet.2 = 0 with
      | [] => True
      | (packet, frames) :: later => FirstFits packet frames later := by
  induction packets with
  | nil => exact iff_of_true nofun trivial
  | cons packet rest ih =>
    by_cases hzero : packet.2 = 0
    · -- Packets without samples are passed over.
      rw [List.dropWhile_cons, if_pos (by simpa using hzero), countAll, hzero, countPacket_zero,
        Checked.ok_bind]
      exact ih hlast.tail fun other hother => hfits other (List.mem_cons_of_mem _ hother)
    · rw [List.dropWhile_cons, if_neg (by simpa using hzero)]
      exact countAll_first_iff hlast hzero (hfits packet List.mem_cons_self)

/-! ### The calls between the packets -/

theorem reportCounted_meets (ctx : Context) (sizeBytes : ℕ) (length : ℤ) (index : ℕ)
    (counted : Counted) :
    Checked.Meets (fun _ => True) (reportCounted ctx sizeBytes length index counted) := by
  rw [reportCounted]
  apply Checked.Meets.ite
  · intro _
    exact Wav.report_meets ctx _ _ _ _ (by decide) false
  · intro _
    exact Checked.Meets.ok trivial

theorem reportCounted_quiet {ctx : Context} (hquiet : ctx.Quiet) (sizeBytes : ℕ) (length : ℤ)
    (index : ℕ) (counted : Counted) :
    reportCounted ctx sizeBytes length index counted = .ok () := by
  rw [reportCounted]
  split_ifs
  · exact hquiet.report_eq (by decide) false
  · rfl

section Calls

variable {ctx : Context} {sizeBytes : ℕ} {length : ℤ} {packets : List (OggPacket × ℕ)}

/-- The packets as the decoder gives them. -/
def decodedAll (packets : List (OggPacket × ℕ)) : List (OggPacket × Except String ℕ) :=
  packets.map fun packet => (packet.1, .ok packet.2)

theorem countFrom_quiet (hquiet : ctx.Quiet) {index : ℕ} (hindex : 3 < index) (counted : Counted) :
    countFrom ctx sizeBytes length index (decodedAll packets) counted =
      countAll (signed packets) counted := by
  induction packets generalizing index counted with
  | nil => rfl
  | cons packet rest ih =>
    change countFrom ctx sizeBytes length index
      ((packet.1, .ok packet.2) :: decodedAll rest) counted =
      countPacket packet.1 (asI64 packet.2) counted >>= countAll (signed rest)
    rw [countFrom, hquiet.check_eq, Checked.ok_bind]
    change countPacket packet.1 (framesOf index packet.2) counted >>= _ = _
    rw [framesOf, if_neg (by omega)]
    congr 1
    funext next
    rw [reportCounted_quiet hquiet, Checked.ok_bind]
    exact ih (by omega) next

/-- A run that is stopped early has not overflowed before. -/
theorem countFrom_ne_panicked {index : ℕ} (hindex : 3 < index) {counted : Counted}
    (h : countAll (signed packets) counted ≠ .error .panicked) :
    countFrom ctx sizeBytes length index (decodedAll packets) counted ≠ .error .panicked := by
  induction packets generalizing index counted with
  | nil => exact h
  | cons packet rest ih =>
    change countPacket packet.1 (asI64 packet.2) counted >>= countAll (signed rest) ≠ _ at h
    change countFrom ctx sizeBytes length index
      ((packet.1, .ok packet.2) :: decodedAll rest) counted ≠ _
    rw [countFrom]
    have hcheck := Wav.check_meets ctx index
    cases hresult : ctx.check index with
    | error stop =>
      rw [hresult] at hcheck
      rintro hpanic
      cases hpanic
      exact hcheck
    | ok _ =>
      change countPacket packet.1 (framesOf index packet.2) counted >>= _ ≠ _
      rw [framesOf, if_neg (by omega)]
      cases hcount : countPacket packet.1 (asI64 packet.2) counted with
      | error stop =>
        rw [hcount] at h
        exact h
      | ok next =>
        rw [hcount] at h
        rw [Checked.ok_bind]
        have hreport := reportCounted_meets ctx sizeBytes length index next
        cases hresult' : reportCounted ctx sizeBytes length index next with
        | error stop =>
          rw [hresult'] at hreport
          rintro hpanic
          cases hpanic
          exact hreport
        | ok _ => exact ih (by omega) h

end Calls

end Harmony.Inspect.Vorbis
