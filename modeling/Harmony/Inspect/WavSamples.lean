/-
# The samples of a WAV file

The reading of the samples takes the bytes of their chunk in order, however many of them each read
of the file gives, and stops early only where it is cancelled or its progress is refused.
-/

import Harmony.Inspect.WavChunks

namespace Harmony.Inspect.Wav

open Checked
open Spans (cut)

/-- An inspection that nobody stops. -/
structure Context.Quiet (ctx : Context) : Prop where
  uncancelled : ∀ call, ctx.isCancelled call = false
  accepted : ∀ report, ctx.progress = some report → ∀ call progress, report call progress = .ok ()

section Samples

variable {file : File} {ctx : Context} {grant : ℕ → ℕ}

theorem check_meets (ctx : Context) (call : ℕ) : Meets (fun _ => True) (ctx.check call) := by
  rw [Context.check]
  split_ifs
  · exact Meets.fail _
  · exact Meets.ok trivial

theorem Context.Quiet.check_eq (h : ctx.Quiet) (call : ℕ) : ctx.check call = .ok () := by
  rw [Context.check, h.uncancelled call]
  rfl

/-- Progress is counted without overflow up to the size of a chunk. -/
theorem percentOf_eq_ok (decoded total size : ℕ) {encoded : ℕ} (h : encoded < 2 ^ 32) :
    ∃ percent, Context.percentOf decoded total encoded size = .ok percent := by
  rw [Context.percentOf]
  split_ifs
  · exact ⟨_, rfl⟩
  · rw [fitI64_of_range (by omega) (by omega)]
    exact ⟨_, rfl⟩
  · exact ⟨_, rfl⟩

theorem report_meets (ctx : Context) (call decoded total size : ℕ) {encoded : ℕ}
    (h : encoded < 2 ^ 32) (isComplete : Bool) :
    Meets (fun _ => True) (ctx.report call decoded total encoded size isComplete) := by
  rw [Context.report]
  cases ctx.progress with
  | none => exact Meets.ok trivial
  | some report =>
    obtain ⟨percent, hpercent⟩ := percentOf_eq_ok decoded total size h
    simp only
    rw [hpercent, ok_bind]
    exact Meets.ofExcept fun _ _ => trivial

theorem Context.Quiet.report_eq (hquiet : ctx.Quiet) {call decoded total encoded size : ℕ}
    (h : encoded < 2 ^ 32) (isComplete : Bool) :
    ctx.report call decoded total encoded size isComplete = .ok () := by
  rw [Context.report]
  cases hprogress : ctx.progress with
  | none => rfl
  | some report =>
    obtain ⟨percent, hpercent⟩ := percentOf_eq_ok decoded total size h
    simp only
    rw [hpercent, ok_bind, hquiet.accepted report hprogress]
    rfl

/-- A buffer inside the file is filled. -/
theorem readFull_eq (grant : ℕ → ℕ) {start want done fuel : ℕ} (hfile : start + want ≤ file.size)
    (hdone : done ≤ want) (hfuel : want < done + fuel) :
    readFull file grant want fuel (start + done) (cut file.bytes start (start + done)) =
      .ok (cut file.bytes start (start + want), none) := by
  have hlength : ∀ {n : ℕ}, n ≤ want → (cut file.bytes start (start + n)).length = n := by
    intro n hn
    rw [Spans.length_cut (Nat.le_trans (Nat.add_le_add_left hn start) hfile),
      Nat.add_sub_cancel_left]
  have hbytes : file.size = file.bytes.length := rfl
  induction fuel generalizing done with
  | zero => omega
  | succ fuel ih =>
    rw [readFull, hlength hdone]
    by_cases hmore : done < want
    · obtain ⟨n, hpos, hn, hread⟩ := File.exists_read grant (Nat.sub_pos_of_lt hmore)
      have hcount : (cut file.bytes (start + done) (start + done + n)).length = n := by
        rw [Spans.length_cut (by omega), Nat.add_sub_cancel_left]
      have hsome : cut file.bytes (start + done) (start + done + n) ≠ [] :=
        List.ne_nil_of_length_pos (by rw [hcount]; exact hpos)
      rw [if_pos hmore, hread]
      simp only
      rw [if_neg hsome, hcount, Spans.cut_append (by omega) (by omega), Nat.add_assoc]
      exact ih (by omega) (by omega)
    · have hall : done = want := by omega
      rw [if_neg hmore, hall]

/-- What comes of reading some bytes: they are read in order, all of them where the reading
succeeds, and nothing but a stop keeps it from that. -/
structure ReadsWhole {α : Type} (ctx : Context) (whole : List UInt8)
    (outcome : List UInt8 × Checked Failure α) : Prop where
  inOrder : outcome.1 <+: whole
  all_of_ok : ∀ a, outcome.2 = .ok a → outcome.1 = whole
  all_of_quiet : ctx.Quiet → outcome.1 = whole
  safe : Meets (fun _ => True) outcome.2

theorem ReadsWhole.stopped {α : Type} {whole bytes : List UInt8} {stop : Stop Failure}
    (hinOrder : bytes <+: whole) (hquiet : ¬ctx.Quiet)
    (hsafe : Meets (fun _ => True) (.error stop : Checked Failure Unit)) :
    ReadsWhole ctx whole (bytes, (.error stop : Checked Failure α)) where
  inOrder := hinOrder
  all_of_ok _ h := by cases h
  all_of_quiet h := absurd h hquiet
  safe := by
    cases stop with
    | failed failure => exact Meets.fail failure
    | panicked => exact hsafe
    | unfinished => exact hsafe

/-- The loop reads what remains, one buffer after another. -/
theorem readSamples_reads (ctx : Context) (grant : ℕ → ℕ) (blockAlign call : ℕ)
    {start size fuel done : ℕ} (hfile : start + size ≤ file.size) (hsize : size < 2 ^ 32)
    (hdone : done ≤ size)
    (hfuel : size < done + fuel) :
    ReadsWhole ctx (cut file.bytes start (start + size))
        (readSamples file ctx grant blockAlign size fuel call (start + done) (size - done)
          (cut file.bytes start (start + done))) ∧
      (ctx.Quiet → (readSamples file ctx grant blockAlign size fuel call (start + done)
        (size - done) (cut file.bytes start (start + done))).2 = .ok ()) := by
  have hinOrder : ∀ {n : ℕ}, n ≤ size →
      cut file.bytes start (start + n) <+: cut file.bytes start (start + size) := by
    intro n hn
    have hlow : start ≤ start + n := Nat.le_add_right _ _
    rw [← Spans.cut_append hlow (Nat.add_le_add_left hn start)]
    exact List.prefix_append _ _
  have hbytes : file.size = file.bytes.length := rfl
  induction fuel generalizing call done with
  | zero => omega
  | succ fuel ih =>
    rw [readSamples]
    by_cases hall : size - done = 0
    · have heq : done = size := by omega
      rw [if_pos hall, heq]
      exact ⟨⟨List.prefix_rfl, fun _ _ => rfl, fun _ => rfl, Meets.ok trivial⟩, fun _ => rfl⟩
    · rw [if_neg hall]
      have hcheckSafe := check_meets ctx (call + 1)
      cases hcheck : ctx.check (call + 1) with
      | error stop =>
        rw [hcheck] at hcheckSafe
        have hstop : ¬ctx.Quiet := by
          intro hquiet
          rw [hquiet.check_eq] at hcheck
          cases hcheck
        exact ⟨.stopped (hinOrder hdone) hstop hcheckSafe, fun hquiet => absurd hquiet hstop⟩
      | ok u =>
        generalize hwant : min (size - done) bufferSizeBytes = want
        have hpos : 0 < want := by
          rw [← hwant]
          exact Nat.lt_min.mpr ⟨Nat.pos_of_ne_zero hall, by decide⟩
        have hle : want ≤ size - done := by
          rw [← hwant]
          exact Nat.min_le_left _ _
        have hfull : readFull file grant want (want + 1) (start + done) [] =
            .ok (cut file.bytes (start + done) (start + done + want), none) := by
          have hroom : start + done + want ≤ file.size := by omega
          have hbound : want < 0 + (want + 1) := by omega
          have hstart := readFull_eq grant hroom (Nat.zero_le _) hbound
          simp only [Nat.add_zero, Spans.cut_self] at hstart
          exact hstart
        have hlength : (cut file.bytes (start + done) (start + done + want)).length = want := by
          rw [Spans.length_cut (by omega), Nat.add_sub_cancel_left]
        have hjoin : cut file.bytes start (start + done) ++
            cut file.bytes (start + done) (start + done + want) =
              cut file.bytes start (start + (done + want)) := by
          rw [Spans.cut_append (by omega) (by omega), Nat.add_assoc]
        have hleft : size - done - want = size - (done + want) := Nat.sub_sub _ _ _
        have hencoded : size - (size - (done + want)) < 2 ^ 32 := by omega
        simp only
        rw [hfull]
        simp only
        rw [hlength, hjoin, hleft]
        have hreportSafe := report_meets ctx call ((size - (size - (done + want))) / blockAlign)
          (size / blockAlign) size hencoded false
        cases hreport : ctx.report call ((size - (size - (done + want))) / blockAlign)
            (size / blockAlign) ((size - (size - (done + want)) : ℕ) : ℤ) size false with
        | error stop =>
          rw [hreport] at hreportSafe
          have hstop : ¬ctx.Quiet := by
            intro hquiet
            rw [hquiet.report_eq hencoded] at hreport
            cases hreport
          exact ⟨.stopped (hinOrder (by omega)) hstop hreportSafe,
            fun hquiet => absurd hquiet hstop⟩
        | ok u =>
          simp only
          rw [Nat.add_assoc]
          exact ih (call + 1) (by omega) (by omega)

theorem technicalAudio_meets {format : Format} {size calls : ℕ} (hformat : Valid format)
    (hsize : size < 2 ^ 32) :
    Meets (fun _ => True) (technicalAudio ctx format size calls) := by
  have hrate := hformat.rate
  rw [technicalAudio, if_neg (by omega)]
  apply Meets.ite
  · intro _
    exact Meets.fail _
  · intro _
    apply Meets.ite
    · intro _
      exact Meets.fail _
    · intro _
      apply (report_meets ctx _ _ _ _ hsize true).bind
      intro _ _
      exact Meets.ok trivial

/-- The samples are read as the bytes of their chunk. In a chunk without whole frames none is. -/
structure ReadsBody (file : File) (read : Chunks) : Prop where
  reads : ∀ (ctx : Context) (grant : ℕ → ℕ), read.dataSize % read.format.blockAlign = 0 →
    ReadsWhole ctx (cut file.bytes read.dataOffset (read.dataOffset + read.dataSize))
      (decodePcm file ctx grant read)
  broken : ∀ (ctx : Context) (grant : ℕ → ℕ), read.dataSize % read.format.blockAlign ≠ 0 →
    decodePcm file ctx grant read = ([], fail (audioError
      s!"data chunk size {read.dataSize} is not a whole number of PCM frames"))

theorem IsWave.readsBody {C : Casing} {chunks : List Chunk} {read : Chunks}
    (h : IsWave C file chunks read) : ReadsBody file read := by
  constructor
  · intro ctx grant hwhole
    obtain ⟨place, hplace, hvalid⟩ := h.format
    obtain ⟨dataPlace, hdata, -, -, hlength⟩ := h.data
    have hmem : dataPlace ∈ (placed riffHeaderSizeBytes chunks).filter (HasId [dataId]) := by
      rw [hdata]
      exact List.mem_singleton_self _
    have hsize : read.dataSize < 2 ^ 32 := by
      rw [hlength]
      exact (h.sound _ (mem_of_mem_placed (List.mem_filter.mp hmem).1)).body
    rw [decodePcm, if_neg (not_not.mpr hwhole)]
    have hcheckSafe := check_meets ctx 0
    cases hcheck : ctx.check 0 with
    | error stop =>
      rw [hcheck] at hcheckSafe
      have hstop : ¬ctx.Quiet := by
        intro hquiet
        rw [hquiet.check_eq] at hcheck
        cases hcheck
      exact .stopped List.nil_prefix hstop hcheckSafe
    | ok u =>
      have hbound : read.dataSize < 0 + (read.dataSize + 1) := by omega
      have hreads := (readSamples_reads ctx grant read.format.blockAlign 0 h.liesApart.inside hsize
        (Nat.zero_le _) hbound).1
      simp only [Nat.add_zero, Nat.sub_zero, Spans.cut_self] at hreads
      constructor
      · exact hreads.inOrder
      · intro audio haudio
        obtain ⟨done, hdone, -⟩ := bind_eq_ok.mp haudio
        exact hreads.all_of_ok done hdone
      · exact hreads.all_of_quiet
      · apply hreads.safe.bind
        intro _ _
        exact technicalAudio_meets hvalid.valid hsize
  · intro ctx grant hbroken
    rw [decodePcm, if_pos hbroken]

/-- The walk over a file always ends. It succeeds where the file is tiled by chunks with one format,
one chunk of samples and one tag among them; the samples are then their chunk's body, apart from
the other chunks, and what is read of them is that body. -/
theorem readChunks_eq_ok_iff (C : Casing) (file : File) :
    Meets (fun _ => True) (readChunks C file) ∧
      ∀ read, (readChunks C file = .ok read ↔ ∃ chunks, IsWave C file chunks read) ∧
        ∀ chunks, IsWave C file chunks read → LiesApart file chunks read ∧ ReadsBody file read := by
  refine ⟨(readChunks_meets C file).mono fun _ _ => trivial, ?_⟩
  intro read
  refine ⟨⟨?_, ?_⟩, ?_⟩
  · intro h
    exact (readChunks_meets C file).of_ok h
  · rintro ⟨chunks, hchunks⟩
    exact readChunks_of_isWave hchunks
  · intro chunks h
    exact ⟨h.liesApart, h.readsBody⟩

end Samples

end Harmony.Inspect.Wav
