/-
# The samples of a Vorbis stream

Where every granule is the number of samples up to it, the samples that are counted are those of
the final granule. The counting overflows nowhere exactly where the granules and lengths fit.
-/

import Harmony.Inspect.VorbisCount

namespace Harmony.Inspect.Vorbis

open Checked (fail fitI64 ofExcept)
open Ogg (OggPacket)
open Wav (Context)
open VorbisStream (samples)

/-! ### Streams whose granules are right -/

section Runs

variable {packet : OggPacket} {n T : ℕ}

/-- The state of the loop with so many samples behind it. -/
def Counted.at (T : ℕ) : Counted := ⟨T, T, decide (0 < T)⟩

theorem at_of_pos (h : 0 < T) : Counted.at T = ⟨T, T, true⟩ := by
  rw [Counted.at, decide_eq_true h]

/-- A packet that ends its page at its granule is not trimmed. -/
theorem countPacket_plain (hlast : packet.isLast = false)
    (hpage : packet.lastOnPage = true → packet.granule = T + n) (hfits : T + n < 2 ^ 63) :
    countPacket packet n (.at T) = .ok (.at (T + n)) := by
  by_cases hstarted : 0 < T
  · have hsum : Fits ((T : ℤ) + n) := by rw [Fits]; omega
    rw [at_of_pos hstarted, countPacket_started hlast hsum,
      addFrames_of_fits (Int.natCast_nonneg n) hsum, at_of_pos (by omega), Nat.cast_add]
  · obtain rfl : T = 0 := by omega
    rw [Nat.zero_add] at hpage hfits ⊢
    by_cases hnone : n = 0
    · rw [hnone]
      rfl
    · have hn : Fits (n : ℤ) := by rw [Fits]; omega
      have hadd : Fits (Counted.start.decodedSamples + (n : ℤ)) := by
        change Fits (0 + (n : ℤ))
        rw [Int.zero_add]
        exact hn
      have htrim : trimStart packet false n n = .ok ((n : ℤ), (n : ℤ)) := by
        cases hends : packet.lastOnPage with
        | false => exact if_neg fun h => Bool.false_ne_true (hends.symm.trans h.2)
        | true =>
          have hgranule : granuleOf packet = n := by rw [granuleOf, hpage hends, asI64_of_lt hfits]
          rw [trimStart_first hends (by rw [hgranule, Fits]; omega), hgranule, min_self]
      have hfirst := countPacket_first (by omega) hn hlast
      rw [htrim, Checked.ok_bind, addFrames_of_fits (Int.natCast_nonneg n) hadd] at hfirst
      rw [at_of_pos (Nat.pos_of_ne_zero hnone)]
      refine hfirst.trans ?_
      change Except.ok (⟨(n : ℤ), 0 + (n : ℤ), true⟩ : Counted) = _
      rw [Int.zero_add]

/-- The last packet is trimmed to the final granule. -/
theorem countPacket_final (hlast : packet.isLast = true) (hlow : T ≤ packet.granule)
    (hhigh : packet.granule ≤ T + n) (hpos : 0 < packet.granule) (hfits : T + n < 2 ^ 63) :
    countPacket packet n (.at T) = .ok (.at packet.granule) := by
  have hgranule : granuleOf packet = packet.granule := asI64_of_lt (by omega)
  have hsum : Fits ((T : ℤ) + n) := by rw [Fits]; omega
  have hskip : ¬((Counted.at T).started = false ∧ (n : ℤ) = 0) := by
    rintro ⟨hstart, hnone⟩
    have hzero : ¬0 < T := of_decide_eq_false hstart
    omega
  have hdiscard : Fits ((T : ℤ) + n - granuleOf packet) := by
    rw [hgranule, Fits]
    omega
  have hleft :
      (if granuleOf packet < (T : ℤ) + n then (n : ℤ) - (T + n - granuleOf packet) else n) =
      packet.granule - T := by
    rw [hgranule]
    split_ifs <;> omega
  have hframes : granuleOf packet < (T : ℤ) + n → Fits ((n : ℤ) - (T + n - granuleOf packet)) := by
    intro _
    rw [hgranule, Fits]
    omega
  have hstart : trimStart packet (Counted.at T).started ((packet.granule : ℤ) - T)
    (granuleOf packet) =
      .ok ((packet.granule : ℤ) - T, (packet.granule : ℤ)) := by
    have hzero : Fits 0 := by rw [Fits]; omega
    rw [trimStart, Int.sub_self, fitI64_of_fits hzero, hgranule]
    split_ifs <;> rfl
  rw [countPacket]
  change (fitI64 ((T : ℤ) + n) >>= _) = _
  rw [fitI64_of_fits hsum, Checked.ok_bind, if_neg hskip, trimEnd_last hlast hdiscard hframes,
    Checked.ok_bind, hleft, hstart, Checked.ok_bind, addFrames_of_fits (by simp only; omega)
      (by change Fits ((T : ℤ) + _); rw [Fits]; simp only; omega), at_of_pos hpos]
  change Except.ok (⟨_, (T : ℤ) + (packet.granule - T), true⟩ : Counted) = _
  rw [Int.add_comm, Int.sub_add_cancel]

/-! ### What a count that succeeds says -/

theorem trimEnd_le {frames position : ℤ} {r : ℤ × ℤ} (h : trimEnd packet frames position = .ok r) :
    r.1 ≤ frames := by
  rw [trimEnd] at h
  by_cases hlast : packet.isLast = true
  · rw [if_pos hlast] at h
    obtain ⟨discard, -, h⟩ := Checked.bind_eq_ok.mp h
    split_ifs at h with hmore
    · obtain ⟨left, hleft, h⟩ := Checked.bind_eq_ok.mp h
      cases h
      rw [fitI64] at hleft
      split_ifs at hleft
      cases hleft
      simp only
      omega
    · cases h
      exact le_refl _
  · rw [if_neg hlast] at h
    cases h
    exact le_refl _

theorem trimStart_le {frames position : ℤ} {started : Bool} {r : ℤ × ℤ}
    (h : trimStart packet started frames position = .ok r) : r.1 ≤ frames := by
  rw [trimStart] at h
  by_cases hstart : started = false ∧ packet.lastOnPage = true
  · rw [if_pos hstart] at h
    obtain ⟨offset, -, h⟩ := Checked.bind_eq_ok.mp h
    split_ifs at h with hless
    · obtain ⟨left, hleft, h⟩ := Checked.bind_eq_ok.mp h
      cases h
      rw [fitI64] at hleft
      split_ifs at hleft
      cases hleft
      simp only
      omega
    · cases h
      exact le_refl _
  · rw [if_neg hstart] at h
    cases h
    exact le_refl _

/-- A packet that is counted has no negative length. -/
theorem nonneg_of_countPacket {frames : ℤ} {counted next : Counted}
    (h : countPacket packet frames counted = .ok next) :
    0 ≤ frames ∧ Fits (counted.position + frames) := by
  rw [countPacket] at h
  obtain ⟨position, hposition, h⟩ := Checked.bind_eq_ok.mp h
  have hfits : Fits (counted.position + frames) := by
    by_contra hnot
    rw [fitI64_of_not_fits hnot] at hposition
    cases hposition
  refine ⟨?_, hfits⟩
  split_ifs at h with hskip
  · exact le_of_eq hskip.2.symm
  · obtain ⟨ended, hended, h⟩ := Checked.bind_eq_ok.mp h
    obtain ⟨trimmed, htrimmed, h⟩ := Checked.bind_eq_ok.mp h
    have hfirst := trimEnd_le hended
    have hsecond := trimStart_le htrimmed
    rw [addFrames] at h
    split_ifs at h with hnegative
    · cases h
    · omega

/-- A length that is counted is the decoder's own. -/
theorem asI64_of_countPacket (hn : n < 2 ^ 64) {next : Counted}
    (h : countPacket packet (asI64 n) (.at T) = .ok next) : asI64 n = n ∧ T + n < 2 ^ 63 := by
  obtain ⟨hlength, hfits⟩ := nonneg_of_countPacket h
  have hlow : n < 2 ^ 63 := by
    by_contra hhigh
    exact absurd (asI64_neg (by omega) hn) (by omega)
  have hsame := asI64_of_lt hlow
  rw [hsame] at hfits
  change Fits ((T : ℤ) + n) at hfits
  rw [Fits] at hfits
  exact ⟨hsame, by omega⟩

end Runs

/-! ### Runs -/

theorem samples_cons (packet : OggPacket × ℕ) (rest : List (OggPacket × ℕ)) :
    samples (packet :: rest) = packet.2 + samples rest := rfl

/-- No packet ends the stream, and those that end a page have the samples up to them. -/
def ArePlain (T : ℕ) (packets : List (OggPacket × ℕ)) : Prop :=
  ∀ front packet behind, packets = front ++ packet :: behind →
    packet.1.isLast = false ∧
      (packet.1.lastOnPage = true → packet.1.granule = T + samples (front ++ [packet]))

theorem ArePlain.cons {T : ℕ} {packet : OggPacket × ℕ} {rest : List (OggPacket × ℕ)}
    (h : ArePlain T (packet :: rest)) :
    packet.1.isLast = false ∧ (packet.1.lastOnPage = true → packet.1.granule = T + packet.2) ∧
      ArePlain (T + packet.2) rest := by
  refine ⟨(h [] packet rest rfl).1, (h [] packet rest rfl).2, ?_⟩
  intro front other behind hrest
  have hother := h (packet :: front) other behind (by rw [hrest]; rfl)
  rw [List.cons_append, samples_cons, ← Nat.add_assoc] at hother
  exact hother

theorem countAll_plain {T : ℕ} {packets : List (OggPacket × ℕ)} (h : ArePlain T packets)
    (hfits : T + samples packets < 2 ^ 63) :
    countAll (signed packets) (.at T) = .ok (.at (T + samples packets)) := by
  induction packets generalizing T with
  | nil => rfl
  | cons packet rest ih =>
    obtain ⟨hlast, hpage, hrest⟩ := h.cons
    rw [samples_cons, ← Nat.add_assoc] at hfits ⊢
    change countPacket packet.1 (asI64 packet.2) (.at T) >>= countAll (signed rest) = _
    rw [asI64_of_lt (by omega), countPacket_plain hlast hpage (by omega), Checked.ok_bind]
    exact ih hrest hfits

theorem countAll_plain_ok {T : ℕ} {packets : List (OggPacket × ℕ)} {counted : Counted}
    (h : ArePlain T packets) (hlengths : ∀ packet ∈ packets, packet.2 < 2 ^ 64)
    (hT : T < 2 ^ 63) (hcount : countAll (signed packets) (.at T) = .ok counted) :
    T + samples packets < 2 ^ 63 := by
  induction packets generalizing T with
  | nil => exact hT
  | cons packet rest ih =>
    obtain ⟨hlast, hpage, hrest⟩ := h.cons
    have hrun : countPacket packet.1 (asI64 packet.2) (.at T) >>= countAll (signed rest) =
        .ok counted := hcount
    obtain ⟨next, hnext, hafter⟩ := Checked.bind_eq_ok.mp hrun
    obtain ⟨hsame, hfits⟩ := asI64_of_countPacket (hlengths packet List.mem_cons_self) hnext
    rw [hsame, countPacket_plain hlast hpage hfits] at hnext
    cases hnext
    rw [samples_cons, ← Nat.add_assoc]
    exact ih hrest (fun other hother => hlengths other (List.mem_cons_of_mem _ hother)) hfits hafter

theorem countAll_append (front rest : List (OggPacket × ℤ)) (counted : Counted) :
    countAll (front ++ rest) counted = countAll front counted >>= countAll rest := by
  induction front generalizing counted with
  | nil => rfl
  | cons packet front ih =>
    rw [List.cons_append, countAll, countAll, bind_assoc]
    congr 1
    funext next
    exact ih next

/-! ### Whole streams -/

section Streams

variable {stream : VorbisStream}

theorem samples_append (front rest : List (OggPacket × ℕ)) :
    samples (front ++ rest) = samples front + samples rest := by
  rw [samples, samples, samples, List.map_append, List.sum_append]

/-- All packets but the last. -/
theorem VorbisStream.WellGranuled.arePlain (h : stream.WellGranuled)
    {front behind : List (OggPacket × ℕ)}
    (hsplit : stream.rest = front ++ behind)
    (hlast : ∀ packet ∈ front, packet.1.isLast = false) : ArePlain 0 front := by
  intro before packet after hfront
  have hmem : packet ∈ front := by
    rw [hfront]
    exact List.mem_append_right _ List.mem_cons_self
  refine ⟨hlast packet hmem, ?_⟩
  intro hpage
  have hgranule := h.pages ((stream.primer.1, 0) :: before) packet (after ++ behind)
    (by rw [VorbisStream.outputs, hsplit, hfront, List.append_assoc]; rfl) hpage (hlast packet hmem)
  rw [List.cons_append, samples_cons] at hgranule
  exact hgranule

theorem isLast_front {front behind : List (OggPacket × ℕ)} {last : OggPacket × ℕ}
    (hsplit : stream.rest = front ++ last :: behind) :
    ∀ packet ∈ front, packet.1.isLast = false := by
  intro packet hpacket
  obtain ⟨before, after, hfront⟩ := List.append_of_mem hpacket
  by_contra hends
  have hnone := stream.lastOnly (stream.primer :: before) packet (after ++ last :: behind)
    (by rw [hsplit, hfront]; simp) (Bool.eq_true_of_not_eq_false hends)
  exact List.append_ne_nil_of_right_ne_nil _ (List.cons_ne_nil _ _) hnone

theorem VorbisStream.WellGranuled.finalGranule_le (h : stream.WellGranuled) :
    stream.finalGranule ≤ samples stream.rest := by
  have houtputs : samples stream.outputs = samples stream.rest := Nat.zero_add _
  rcases List.eq_nil_or_concat' stream.outputs with hnil | ⟨front, last, hsplit⟩
  · cases hnil
  have hlast := (h.final front last hsplit).2.1
  rw [← hsplit] at hlast
  exact Nat.le_trans hlast (Nat.le_of_eq houtputs)

/-- The last packet ends the stream. -/
def VorbisStream.EndsMarked (stream : VorbisStream) : Prop :=
  ∃ front last, stream.rest = front ++ [last] ∧ last.1.isLast = true

/-- There are samples, as many as a signed number can count, and the final granule leaves none of
them out where no packet is marked as the last. -/
structure VorbisStream.Countable (stream : VorbisStream) : Prop where
  pos : 0 < stream.finalGranule
  samples_lt : samples stream.rest < 2 ^ 63
  ended : stream.EndsMarked ∨ stream.finalGranule = samples stream.rest

/-- The count of a stream whose granules are right. -/
theorem countAll_iff (h : stream.WellGranuled) :
    (∃ counted, countAll (signed stream.rest) .start = .ok counted ∧ 0 < asI64 stream.finalGranule ∧
      counted.decodedSamples = asI64 stream.finalGranule) ↔ stream.Countable := by
  rcases List.eq_nil_or_concat' stream.rest with hrest | ⟨front, last, hrest⟩
  · -- Nothing is output for the first packet.
    have hzero : stream.finalGranule = 0 := by
      have hfinal := (h.final [] (stream.primer.1, 0)
        (by rw [VorbisStream.outputs, hrest]; rfl)).2.1
      exact Nat.le_zero.mp hfinal
    constructor
    · rintro ⟨_, _, hpos, -⟩
      rw [hzero] at hpos
      exact absurd hpos (by decide)
    · intro hcountable
      exact absurd hcountable.pos (by omega)
  · have hfront := isLast_front hrest
    have hplain := h.arePlain hrest hfront
    have hlast :=
      stream.lengths last (by rw [hrest]; exact List.mem_append_right _ List.mem_cons_self)
    obtain ⟨hlow, hhigh, hgranule⟩ := h.final ((stream.primer.1, 0) :: front) last
      (by rw [VorbisStream.outputs, hrest]; rfl)
    rw [List.cons_append, samples_cons, Nat.zero_add, samples_append] at hhigh
    rw [samples_cons, Nat.zero_add] at hlow
    have hsum : samples stream.rest = samples front + last.2 := by
      rw [hrest, samples_append]
      rfl
    have hone : samples [last] = last.2 := rfl
    have hrun : countAll (signed stream.rest) .start =
        countAll (signed front) (.at 0) >>= countAll [(last.1, asI64 last.2)] := by
      rw [hrest, signed, List.map_append]
      exact countAll_append _ _ _
    have hunmarked : last.1.isLast = false →
        last.1.lastOnPage = true → last.1.granule = samples front + last.2 := by
      intro hends hpage
      have hwhole := h.pages ((stream.primer.1, 0) :: front) last []
        (by rw [VorbisStream.outputs, hrest]; rfl) hpage hends
      rw [List.cons_append, samples_cons, Nat.zero_add, samples_append] at hwhole
      exact hwhole
    constructor
    · rintro ⟨counted, hcount, hpos, hequal⟩
      rw [hrun] at hcount
      obtain ⟨before, hbefore, hend⟩ := Checked.bind_eq_ok.mp hcount
      have hfits := countAll_plain_ok hplain (fun packet hpacket => stream.lengths packet
        (by rw [hrest]; exact List.mem_append_left _ hpacket)) (by decide) hbefore
      rw [countAll_plain hplain hfits] at hbefore
      cases hbefore
      rw [Nat.zero_add] at hend hfits
      obtain ⟨next, hnext, hsame⟩ := Checked.bind_eq_ok.mp hend
      cases hsame
      obtain ⟨hlength, htotal⟩ := asI64_of_countPacket hlast hnext
      have hfinal : asI64 stream.finalGranule = stream.finalGranule := asI64_of_lt (by omega)
      rw [hfinal] at hpos hequal
      refine ⟨by omega, by omega, ?_⟩
      by_cases hends : last.1.isLast = true
      · exact .inl ⟨front, last, hrest, hends⟩
      · have hother := Bool.eq_false_iff.mpr hends
        simp only at hnext
        rw [hlength, countPacket_plain hother (hunmarked hother) htotal] at hnext
        cases hnext
        have hall : ((samples front + last.2 : ℕ) : ℤ) = stream.finalGranule := hequal
        exact .inr (by omega)
    · rintro ⟨hpos, htotal, hended⟩
      have hfinal : asI64 stream.finalGranule = stream.finalGranule := asI64_of_lt (by omega)
      have hlength : asI64 last.2 = last.2 := asI64_of_lt (by omega)
      have hbefore := countAll_plain hplain (by omega)
      rw [Nat.zero_add] at hbefore
      rw [hrun, hbefore, Checked.ok_bind, hlength, hfinal, countAll]
      refine ⟨.at stream.finalGranule, ?_, by omega, rfl⟩
      by_cases hends : last.1.isLast = true
      · have hsame := hgranule hends
        simp only
        rw [countPacket_final hends (by omega) (by omega) (by omega) (by omega), hsame]
        rfl
      · have hother := Bool.eq_false_iff.mpr hends
        have hequal : stream.finalGranule = samples front + last.2 := by
          rcases hended with ⟨front', last', hrest', hmarked⟩ | hequal
          · rw [hrest] at hrest'
            obtain ⟨-, hsame⟩ := List.append_inj' hrest' rfl
            rw [List.singleton_inj.mp hsame] at hends
            exact absurd hmarked hends
          · omega
        simp only
        rw [countPacket_plain hother (hunmarked hother) (by omega), hequal]
        rfl

theorem lastOnly_signed (stream : VorbisStream) : LastOnly (signed stream.rest) := by
  intro front packet behind hsplit hends
  obtain ⟨front', behind', hrest, rfl, hbehind⟩ := List.map_eq_append_iff.mp hsplit
  obtain ⟨packet', behind'', rfl, rfl, rfl⟩ := List.map_eq_cons_iff.mp hbehind
  have hnone := stream.lastOnly (stream.primer :: front') packet' behind''
    (by rw [hrest]; rfl) hends
  rw [hnone]
  rfl

/-- The loop over a stream goes over all packets but the first. -/
theorem countFrom_audio (ctx : Context) (sizeBytes : ℕ) (length : ℤ) (stream : VorbisStream) :
    countFrom ctx sizeBytes length 3 stream.audio .start =
      ctx.check 3 >>= fun _ =>
        countFrom ctx sizeBytes length 4 (decodedAll stream.rest) .start := by
  rfl

/-- What the samples of a stream are counted as, whatever stops the counting early. -/
structure CountsSamples (stream : VorbisStream) : Prop where
  fits : ∀ (ctx : Context) (sizeBytes : ℕ),
    countSamples ctx sizeBytes stream.finalGranule stream.audio ≠ .error .panicked
  counted : stream.WellGranuled → ∀ (ctx : Context) (sizeBytes : ℕ), ctx.Quiet →
    countSamples ctx sizeBytes stream.finalGranule stream.audio = .ok stream.finalGranule

def quietContext : Context := ⟨fun _ => false, none⟩

theorem quietContext_quiet : quietContext.Quiet := ⟨fun _ => rfl, nofun⟩

theorem countSamples_quiet {ctx : Context} (hquiet : ctx.Quiet) (sizeBytes : ℕ)
    (stream : VorbisStream) :
    countSamples ctx sizeBytes stream.finalGranule stream.audio =
      countAll (signed stream.rest) .start >>= fun counted =>
        if asI64 stream.finalGranule ≤ 0 ∨ counted.decodedSamples ≠ asI64 stream.finalGranule then
          fail (audioError "decoded sample count does not match OGG granule position")
        else .ok counted.decodedSamples := by
  rw [countSamples, countFrom_audio, hquiet.check_eq, Checked.ok_bind,
    countFrom_quiet hquiet (by decide)]

/-- The counting fits and counts the final granule exactly where the granules and lengths fit, and
there are samples for a right final granule to count. -/
theorem countsSamples_iff (stream : VorbisStream) :
    CountsSamples stream ↔ stream.AllFit ∧ (stream.WellGranuled → stream.Countable) := by
  have hsafe := @countAll_start_iff (signed stream.rest) (lastOnly_signed stream) (by
    intro packet hpacket
    obtain ⟨other, -, rfl⟩ := List.mem_map.mp hpacket
    exact fits_asI64 _)
  constructor
  · rintro ⟨hfits, hcounted⟩
    constructor
    · apply hsafe.mp
      intro hpanic
      have hrun := hfits quietContext 0
      rw [countSamples_quiet quietContext_quiet, hpanic] at hrun
      exact hrun rfl
    · intro hgranules
      have hrun := hcounted hgranules quietContext 0 quietContext_quiet
      rw [countSamples_quiet quietContext_quiet] at hrun
      obtain ⟨counted, hcount, hcheck⟩ := Checked.bind_eq_ok.mp hrun
      split_ifs at hcheck with hbad
      · cases hcheck
      · obtain ⟨hpos, hequal⟩ := not_or.mp hbad
        exact (countAll_iff hgranules).mp ⟨counted, hcount, by omega, not_not.mp hequal⟩
  · rintro ⟨hfits, hcountable⟩
    constructor
    · intro ctx sizeBytes
      have hloop := hsafe.mpr hfits
      have hcalls := @countFrom_ne_panicked ctx sizeBytes (asI64 stream.finalGranule) stream.rest 4
        (by decide) _ hloop
      rw [countSamples, countFrom_audio]
      have hcheck := Wav.check_meets ctx 3
      cases hresult : ctx.check 3 with
      | error stop =>
        rw [hresult] at hcheck
        rintro hpanic
        cases hpanic
        exact hcheck
      | ok _ =>
        rw [Checked.ok_bind]
        cases hcount : countFrom ctx sizeBytes (asI64 stream.finalGranule) 4
            (decodedAll stream.rest) .start with
        | error stop =>
          rw [hcount] at hcalls
          intro hpanic
          cases hpanic
          exact hcalls rfl
        | ok counted =>
          rw [Checked.ok_bind]
          split_ifs <;> nofun
    · intro hgranules ctx sizeBytes hquiet
      have hready := hcountable hgranules
      obtain ⟨counted, hcount, hpos, hequal⟩ := (countAll_iff hgranules).mpr hready
      have hlt : stream.finalGranule < 2 ^ 63 :=
        Nat.lt_of_le_of_lt hgranules.finalGranule_le hready.samples_lt
      rw [countSamples_quiet hquiet, hcount, Checked.ok_bind, if_neg (by omega), hequal,
        asI64_of_lt hlt]

/-- A stream whose only samples end at a granule that is negative as a signed number. -/
def farStream : VorbisStream where
  primer := (⟨[], 0, false, false⟩, 0)
  rest := [(⟨[], 2 ^ 63, true, true⟩, 1)]
  finalGranule := 2 ^ 63
  lengths := by decide
  lastOnly front packet behind hsplit hends := by
    rcases front with _ | ⟨first, _ | ⟨second, front⟩⟩
    · cases (List.cons.inj hsplit).1
      cases hends
    · cases hsplit
      rfl
    · have hlength := congrArg List.length hsplit
      simp at hlength

theorem not_countsSamples_farStream : ¬CountsSamples farStream := by
  intro h
  have hpanic : countSamples quietContext 0 farStream.finalGranule farStream.audio =
      .error .panicked := by
    decide +kernel
  exact h.fits quietContext 0 hpanic

end Streams

/-- The packets of an accepted file are the packets of a stream. -/
theorem exists_stream {headerPackets : ℕ} {isCancelled : ℕ → Bool} {file : File}
    {analysis : Ogg.Analysis} (h : Ogg.analyze headerPackets isCancelled file = .ok analysis) :
    ∃ packets, Ogg.packets file = .ok packets ∧
      ∀ headers primer audio, packets = headers ++ primer :: audio →
        ∀ lengths : List ℕ, lengths.length = audio.length → (∀ n ∈ lengths, n < 2 ^ 64) →
          ∃ stream : VorbisStream, stream.primer.1 = primer ∧ stream.rest = audio.zip lengths ∧
            stream.finalGranule = analysis.finalGranule := by
  obtain ⟨front, last, -, hagree, -, hlast⟩ := Ogg.packetsAgree_of_analyze h
  refine ⟨_, hagree.packets, ?_⟩
  intro headers primer audio hpackets lengths hlengths hbounds
  refine ⟨⟨(primer, 0), audio.zip lengths, analysis.finalGranule, ?_, ?_⟩, rfl, rfl, rfl⟩
  · intro packet hpacket
    exact hbounds packet.2 (List.of_mem_zip hpacket).2
  · intro before packet behind hsplit hends
    have hfirst := congrArg (List.map Prod.fst) hsplit
    rw [List.map_cons, List.map_fst_zip (Nat.le_of_eq hlengths.symm), List.map_append,
      List.map_cons] at hfirst
    rw [hfirst, ← List.append_assoc] at hpackets
    exact List.map_eq_nil_iff.mp (hlast _ _ _ hpackets hends)

theorem exists_stream_endedFile :
    ∃ packets, Ogg.packets Ogg.endedFile = .ok packets ∧
      ∃ stream : VorbisStream, packets[2]? = some stream.primer.1 ∧
        stream.rest.map Prod.fst = packets.drop 3 ∧ stream.finalGranule = 5 := by
  have haccepted : Ogg.analyze 2 (fun _ => false) Ogg.endedFile = .ok ⟨2, 5⟩ := by
    decide +kernel
  have hfour : (Ogg.packets Ogg.endedFile).map List.length = .ok 4 := by decide +kernel
  obtain ⟨packets, hpackets, hstream⟩ := exists_stream haccepted
  rw [hpackets, Except.map, Except.ok.injEq] at hfour
  obtain ⟨first, second, primer, last, rfl⟩ := List.length_eq_four.mp hfour
  obtain ⟨stream, hprimer, hrest, hgranule⟩ :=
    hstream [first, second] primer [last] rfl [64] rfl (by decide)
  exact ⟨_, hpackets, stream, by rw [hprimer]; rfl, by rw [hrest]; rfl, hgranule⟩

end Harmony.Inspect.Vorbis
