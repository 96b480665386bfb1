/-
# Staging an upload

A body streams into a file of its own. A chunk is written only after it was counted
against the limit and after room was found for it; room is asked for in steps, not chunk
by chunk. Whatever ends the stream early, the file is removed again.

What the body delivers, what the capacity is and which operations fail comes from outside.
A write hands its bytes over; they may reach the file later, up to the flush.
-/

import Harmony.ManagedImport.Uploads
import Mathlib.Algebra.Order.Ring.Int

namespace Harmony.ManagedImport

/-- A failure of the operating system. -/
def ioError (operation text : String) : Error := .new s!"{operation}: {text}"

/-! ### Managed Storage -/

/-- Managed Storage: its limits, and what is wrong with its root. -/
structure ManagedStorage where
  limits : UploadLimits
  reserveBytes : ℤ
  rootError : Option Error

namespace ManagedStorage

def i64Max : ℤ := 2 ^ 63 - 1

def initializationError (storage : ManagedStorage) : Option Error :=
  storage.rootError.or (
    if storage.reserveBytes < 0 ∨ storage.limits.file ≤ 0 ∨ storage.limits.batch ≤ 0 then
      some (.new "managed storage limits are invalid")
    else if storage.limits.file = i64Max ∨ storage.limits.batch = i64Max then
      some (.new "managed import limits exceed supported byte counts")
    else none)

/-- Why the root cannot be opened. -/
def openRoot (storage : ManagedStorage) (fault : Option Error) : Option Error :=
  storage.initializationError.or fault

end ManagedStorage

/-- What an inspection of the root says: whether it opens, and the free bytes. -/
structure CapacityAnswer where
  root : Option Error
  available : Except String ℤ

/-- Why there is no room for the selected bytes on top of the reserve. -/
def ManagedStorage.preflight (storage : ManagedStorage) (selectedBytes temporaryBytes : ℤ)
    (answer : CapacityAnswer) : Option Error :=
  if selectedBytes < 0 ∨ temporaryBytes < 0 then
    some (.new "managed storage preflight byte counts must not be negative")
  else
    match storage.openRoot answer.root with
    | some error => some error
    | none =>
      let required := storage.reserveBytes + selectedBytes + temporaryBytes
      if ManagedStorage.i64Max < required then
        some (.new "managed storage preflight byte count overflow")
      else
        match answer.available with
        | .error text => some (ioError "inspect Managed Storage capacity" text)
        | .ok available =>
          if available < required then
            some (.wrap .insufficientStorage
              s!"{available} bytes available, {required} bytes required")
          else none

/-! ### The body -/

/-- What comes next: a chunk or the error that ends the body, the capacity should it be
asked for, what the write reports, and how many of the bytes handed over are in the file
then. -/
structure Arrival where
  chunk : Except Error Bytes
  capacity : CapacityAnswer
  write : Option String
  landed : ℕ

/-- What an upload has done, with what failed. -/
inductive StagingOperation
  | openRoot (failure : Option Error)
  | probe (selectedBytes : ℤ) (failure : Option Error)
  | ensureDirectory (failure : Option Error)
  | create (failure : Option Error)
  /-- The chunk is handed over; the file holds `content` afterwards. -/
  | write (chunk content : Bytes) (failure : Option Error)
  | flush (failure : Option Error)
  | remove (failure : Option Error)

/-- The loop's variables, the content of the file and what was done so far. -/
structure Staging where
  written : ℤ
  sinceCheck : ℤ
  checked : Bool
  /-- What the hasher was fed. -/
  hashed : Bytes
  content : Bytes
  log : List StagingOperation

/-- How the loop ended. -/
structure StreamEnd where
  failure : Option Error
  interrupted : Bool
  overLimit : Bool

/-- The body was read to its end. -/
def StreamEnd.IsClean (ended : StreamEnd) : Prop :=
  ended.failure = none ∧ ended.overLimit = false

def capacityCheckIntervalBytes : ℤ := 4 * 2 ^ 20

/-- What a probe asks for: the bytes that land before the next one. -/
def probeSize (contentLength written length : ℤ) : ℤ :=
  let remaining := if 0 ≤ contentLength then contentLength - written else -1
  let probe :=
    if 0 ≤ remaining ∧ remaining < capacityCheckIntervalBytes then remaining
    else capacityCheckIntervalBytes
  max probe length

namespace Staging

/-- It is time to ask for room before a chunk. -/
def IsDue (checked : Bool) (since length : ℤ) : Prop :=
  checked = false ∨ capacityCheckIntervalBytes ≤ since + length

instance (checked : Bool) (since length : ℤ) : Decidable (IsDue checked since length) :=
  inferInstanceAs (Decidable (_ ∨ _))

variable (storage : ManagedStorage) (contentLength : ℤ)

/-- Asks for room before the chunk, where it is time to. -/
def probeBefore (s : Staging) (chunk : Bytes) (answer : CapacityAnswer) :
    Staging × Option Error :=
  if IsDue s.checked s.sinceCheck chunk.length then
    let selected := probeSize contentLength s.written chunk.length
    match storage.preflight selected 0 answer with
    | some error => ({ s with log := s.log ++ [.probe selected (some error)] }, some error)
    | none =>
      ({ s with checked := true, sinceCheck := 0, log := s.log ++ [.probe selected none] }, none)
  else (s, none)

def writeChunk (s : Staging) (chunk : Bytes) (arrival : Arrival) : Staging × Option StreamEnd :=
  let content := (s.hashed ++ chunk).take arrival.landed
  match arrival.write with
  | some text =>
    let error := ioError "write Managed Import staging file" text
    ({ s with content := content, log := s.log ++ [.write chunk content (some error)] },
      some ⟨some error, false, false⟩)
  | none =>
    ({ s with
        written := s.written + chunk.length
        sinceCheck := s.sinceCheck + chunk.length
        hashed := s.hashed ++ chunk
        content := content
        log := s.log ++ [.write chunk content none] }, none)

/-- One turn of the loop. -/
def takeChunk (s : Staging) (arrival : Arrival) : Staging × Option StreamEnd :=
  match arrival.chunk with
  | .error error =>
    (s, some ⟨some error, error.is .uploadInterrupted || error.is .cancelled, false⟩)
  | .ok chunk =>
    if s.written + chunk.length > storage.limits.streamLimit.1 then
      (s, some ⟨none, false, true⟩)
    else
      match s.probeBefore storage contentLength chunk arrival.capacity with
      | (s', some error) => (s', some ⟨some error, false, false⟩)
      | (s', none) => s'.writeChunk chunk arrival

def readBody : Staging → List Arrival → Staging × StreamEnd
  | s, [] => (s, ⟨none, false, false⟩)
  | s, arrival :: body =>
    match s.takeChunk storage contentLength arrival with
    | (s', some ended) => (s', ended)
    | (s', none) => readBody s' body

end Staging

/-! ### An upload -/

structure StagedUpload where
  path : RelativePath
  size : ℤ
  sha256 : String

/-- What else the file system says, and the name that is drawn. -/
structure StagingSurroundings where
  /-- Asked for the declared length, before anything is created. -/
  capacity : CapacityAnswer
  root : Option Error
  ensureDirectory : Option Error
  create : Option String
  flush : Option String
  removal : Option Error
  path : RelativePath

/-- What is returned, what there is at the path afterwards and what was done. -/
structure StagingResult where
  result : Except Error StagedUpload
  file : Option Bytes
  log : List StagingOperation

section Upload

variable (P : Platform) (storage : ManagedStorage) (around : StagingSurroundings)
variable (contentLength : ℤ)

/-- The part after the loop. -/
def closeStaging (s : Staging) (ended : StreamEnd) : StagingResult :=
  let close := around.flush.map (ioError "close Managed Import staging file")
  -- What was handed over is in the file once a flush has gone well.
  let content := if close.isNone && ended.failure.isNone then s.hashed else s.content
  let log := s.log ++ [.flush close]
  let short := decide (0 ≤ contentLength ∧ s.written < contentLength)
  if ended.overLimit || ended.failure.isSome || close.isSome || short then
    let removed := around.removal
    let file := if removed.isSome then some content else none
    let log := log ++ [.remove removed]
    if ended.overLimit then
      ⟨.error ((Error.sentinel storage.limits.streamLimit.2).also [removed]), file, log⟩
    else if short || ended.interrupted then
      ⟨.error ((Error.sentinel .uploadInterrupted).also
        [some (.new "unexpected EOF"), ended.failure, close, removed]), file, log⟩
    else
      match Error.join [ended.failure, close, removed] with
      | some error => ⟨.error error, file, log⟩
      -- One of the first two is there.
      | none => ⟨.error (.new ""), file, log⟩
  else ⟨.ok ⟨around.path, s.written, P.sha256Hex s.hashed⟩, some content, log⟩

def createStaging (log : List StagingOperation) (body : List Arrival) : StagingResult :=
  match storage.openRoot around.root with
  | some error => ⟨.error error, none, log ++ [.openRoot (some error)]⟩
  | none =>
    match around.ensureDirectory with
    | some error => ⟨.error error, none, log ++ [.ensureDirectory (some error)]⟩
    | none =>
      match around.create with
      | some text =>
        let error := ioError "create Managed Import staging file" text
        ⟨.error error, none, log ++ [.create (some error)]⟩
      | none =>
        let read := Staging.readBody storage contentLength ⟨0, 0, false, [], [], log⟩ body
        closeStaging P storage around contentLength read.1 read.2

/-- Streams an upload into the staging directory, hashing it and checking capacity as it
lands; a short or failed upload leaves nothing behind. -/
def stageUpload (body : List Arrival) : StagingResult :=
  match storage.limits.validateUploadLength contentLength with
  | .error error => ⟨.error error, none, []⟩
  | .ok _ =>
    if 0 < contentLength then
      match storage.preflight contentLength 0 around.capacity with
      | some error => ⟨.error error, none, [.probe contentLength (some error)]⟩
      | none => createStaging P storage around contentLength [.probe contentLength none] body
    else createStaging P storage around contentLength [] body

end Upload

/-! ### What one turn does -/

namespace Staging

variable {storage : ManagedStorage} {contentLength length : ℤ} {answer : CapacityAnswer}
variable {s t : Staging} {arrival : Arrival}

/-- There is room for the chunk: it was asked for, or the last time is not long ago. -/
inductive Probed (storage : ManagedStorage) (contentLength : ℤ) (s : Staging) (length : ℤ)
    (answer : CapacityAnswer) : Staging → Prop
  | kept (hdue : ¬IsDue s.checked s.sinceCheck length) :
      Probed storage contentLength s length answer s
  | asked (hdue : IsDue s.checked s.sinceCheck length)
      (hanswer : storage.preflight (probeSize contentLength s.written length) 0 answer = none) :
      Probed storage contentLength s length answer
      { s with
        checked := true, sinceCheck := 0
        log := s.log ++ [.probe (probeSize contentLength s.written length) none] }

/-- All that a turn of the loop can do. -/
inductive Turn (storage : ManagedStorage) (contentLength : ℤ) (s : Staging) (arrival : Arrival) :
    Staging → Option StreamEnd → Prop
  | bodyFails (error : Error) (interrupted : Bool) (hchunk : arrival.chunk = .error error) :
      Turn storage contentLength s arrival s (some ⟨some error, interrupted, false⟩)
  | overLimit (chunk : Bytes) (hchunk : arrival.chunk = .ok chunk)
      (hlimit : storage.limits.streamLimit.1 < s.written + chunk.length) :
      Turn storage contentLength s arrival s (some ⟨none, false, true⟩)
  | probeFails (chunk : Bytes) (error : Error) (hchunk : arrival.chunk = .ok chunk)
      (hdue : IsDue s.checked s.sinceCheck chunk.length)
      (hanswer : storage.preflight (probeSize contentLength s.written chunk.length) 0
        arrival.capacity = some error) :
      Turn storage contentLength s arrival
        { s with
          log := s.log ++ [.probe (probeSize contentLength s.written chunk.length) (some error)] }
        (some ⟨some error, false, false⟩)
  | writeFails (chunk content : Bytes) (error : Error) (t : Staging)
      (hchunk : arrival.chunk = .ok chunk) (hwrite : arrival.write ≠ none)
      (hfits : s.written + chunk.length ≤ storage.limits.streamLimit.1)
      (hprobed : Probed storage contentLength s chunk.length arrival.capacity t)
      (hcontent : content <+: t.hashed ++ chunk) :
      Turn storage contentLength s arrival
        { t with content := content, log := t.log ++ [.write chunk content (some error)] }
        (some ⟨some error, false, false⟩)
  | wrote (chunk content : Bytes) (t : Staging) (hchunk : arrival.chunk = .ok chunk)
      (hwrite : arrival.write = none)
      (hfits : s.written + chunk.length ≤ storage.limits.streamLimit.1)
      (hprobed : Probed storage contentLength s chunk.length arrival.capacity t)
      (hcontent : content <+: t.hashed ++ chunk) :
      Turn storage contentLength s arrival
        { t with
          written := t.written + chunk.length
          sinceCheck := t.sinceCheck + chunk.length
          hashed := t.hashed ++ chunk
          content := content
          log := t.log ++ [.write chunk content none] } none

theorem writeChunk_turn {chunk : Bytes} (hchunk : arrival.chunk = .ok chunk)
    (hfits : s.written + chunk.length ≤ storage.limits.streamLimit.1)
    (hprobed : Probed storage contentLength s chunk.length arrival.capacity t) :
    Turn storage contentLength s arrival (t.writeChunk chunk arrival).1
      (t.writeChunk chunk arrival).2 := by
  have hcontent := List.take_prefix arrival.landed (t.hashed ++ chunk)
  rw [writeChunk]
  cases hwrite : arrival.write with
  | some text =>
    exact .writeFails chunk _ _ t hchunk (hwrite ▸ Option.some_ne_none _) hfits hprobed hcontent
  | none => exact .wrote chunk _ t hchunk hwrite hfits hprobed hcontent

theorem takeChunk_turn (storage : ManagedStorage) (contentLength : ℤ) (s : Staging)
    (arrival : Arrival) :
    Turn storage contentLength s arrival (s.takeChunk storage contentLength arrival).1
      (s.takeChunk storage contentLength arrival).2 := by
  rw [takeChunk]
  cases hchunk : arrival.chunk with
  | error error => exact .bodyFails error _ hchunk
  | ok chunk =>
    by_cases hlimit : s.written + chunk.length > storage.limits.streamLimit.1
    · simp only [if_pos hlimit]
      exact .overLimit chunk hchunk hlimit
    · simp only [if_neg hlimit]
      have hfits := Int.not_lt.mp hlimit
      rw [probeBefore]
      by_cases hdue : IsDue s.checked s.sinceCheck chunk.length
      · rw [if_pos hdue]
        simp only
        cases hanswer : storage.preflight (probeSize contentLength s.written chunk.length) 0
            arrival.capacity with
        | some error => exact .probeFails chunk error hchunk hdue hanswer
        | none => exact writeChunk_turn hchunk hfits (.asked hdue hanswer)
      · rw [if_neg hdue]
        exact writeChunk_turn hchunk hfits (.kept hdue)

theorem Probed.written (h : Probed storage contentLength s length answer t) :
    t.written = s.written ∧ t.hashed = s.hashed ∧ t.content = s.content := by
  cases h with
  | kept => exact ⟨rfl, rfl, rfl⟩
  | asked => exact ⟨rfl, rfl, rfl⟩

theorem Probed.log (h : Probed storage contentLength s length answer t) :
    ∀ operation ∈ t.log, operation ∈ s.log ∨ ∃ selected, operation = .probe selected none := by
  cases h with
  | kept => exact fun _ => .inl
  | asked =>
    intro operation hmem
    rcases List.mem_append.mp hmem with hold | hnew
    · exact .inl hold
    · exact .inr ⟨_, List.mem_singleton.mp hnew⟩

/-! ### The file stays within the limit -/

/-- The operation leaves no more than that in the file. -/
def FitsIn (limit : ℤ) : StagingOperation → Prop
  | .write _ content _ => content.length ≤ limit
  | _ => True

/-- Bytes are counted as they are hashed, and never beyond the limit. -/
structure Sound (limit : ℤ) (s : Staging) : Prop where
  counted : s.written = s.hashed.length
  within : s.written ≤ limit
  content : s.content.length ≤ limit
  fits : ∀ operation ∈ s.log, FitsIn limit operation

theorem Sound.probed {limit : ℤ} (h : s.Sound limit)
    (hprobed : Probed storage contentLength s length answer t) : t.Sound limit := by
  obtain ⟨hwritten, hhashed, hcontent⟩ := hprobed.written
  refine ⟨by rw [hwritten, hhashed, h.counted], hwritten ▸ h.within, hcontent ▸ h.content, ?_⟩
  intro operation hmem
  rcases hprobed.log operation hmem with hold | ⟨selected, rfl⟩
  · exact h.fits operation hold
  · trivial

theorem Sound.handOver {limit : ℤ} {chunk content : Bytes} {failure : Option Error}
    (h : t.Sound limit) (hfits : t.written + chunk.length ≤ limit)
    (hcontent : content <+: t.hashed ++ chunk) :
    (content.length : ℤ) ≤ limit ∧
      ∀ operation ∈ t.log ++ [.write chunk content failure], FitsIn limit operation := by
  have hlength : (content.length : ℤ) ≤ limit := by
    have hle := hcontent.length_le
    rw [List.length_append] at hle
    have hcounted := h.counted
    omega
  refine ⟨hlength, fun operation hmem => ?_⟩
  rcases List.mem_append.mp hmem with hold | hnew
  · exact h.fits operation hold
  · rw [List.mem_singleton.mp hnew]
    exact hlength

theorem Sound.turn {ended : Option StreamEnd} (h : s.Sound storage.limits.streamLimit.1)
    (hturn : Turn storage contentLength s arrival t ended) :
    t.Sound storage.limits.streamLimit.1 := by
  cases hturn with
  | bodyFails error interrupted hchunk => exact h
  | overLimit chunk hchunk hlimit => exact h
  | probeFails =>
    refine ⟨h.counted, h.within, h.content, fun operation hmem => ?_⟩
    rcases List.mem_append.mp hmem with hold | hnew
    · exact h.fits operation hold
    · rw [List.mem_singleton.mp hnew]
      trivial
  | writeFails chunk content error t hchunk hwrite hfits hprobed hcontent =>
    have ht := h.probed hprobed
    rw [← hprobed.written.1] at hfits
    obtain ⟨hlength, hlog⟩ := ht.handOver hfits hcontent
    exact ⟨ht.counted, ht.within, hlength, hlog⟩
  | wrote chunk content t hchunk hwrite hfits hprobed hcontent =>
    have ht := h.probed hprobed
    rw [← hprobed.written.1] at hfits
    obtain ⟨hlength, hlog⟩ := ht.handOver hfits hcontent
    refine ⟨?_, hfits, hlength, hlog⟩
    rw [ht.counted, List.length_append]
    push_cast
    rfl

theorem Sound.readBody (body : List Arrival) (h : s.Sound storage.limits.streamLimit.1) :
    (s.readBody storage contentLength body).1.Sound storage.limits.streamLimit.1 := by
  induction body generalizing s with
  | nil => exact h
  | cons arrival body ih =>
    have hturn := h.turn (takeChunk_turn storage contentLength s arrival)
    rw [Staging.readBody]
    cases htaken : s.takeChunk storage contentLength arrival with
    | mk t ended =>
      rw [htaken] at hturn
      cases ended with
      | none => exact ih hturn
      | some ended => exact hturn

/-! ### What was asked for covers what is written -/

/-- What the last successful probe asked for, and what was handed over since. -/
structure Room where
  asked : ℤ
  since : ℤ

def Room.after (room : Room) : StagingOperation → Room
  | .probe selected none => ⟨selected, 0⟩
  | .write chunk _ _ => { room with since := room.since + chunk.length }
  | _ => room

def roomOf (log : List StagingOperation) : Room := log.foldl Room.after ⟨0, 0⟩

/-- At every moment the last probe asked for all that was written since. -/
def Covered (log : List StagingOperation) : Prop :=
  ∀ front, front <+: log → (roomOf front).since ≤ (roomOf front).asked

theorem roomOf_concat (log : List StagingOperation) (operation : StagingOperation) :
    roomOf (log ++ [operation]) = (roomOf log).after operation := by
  rw [roomOf, List.foldl_append]
  rfl

theorem covered_concat {log : List StagingOperation} {operation : StagingOperation} :
    Covered (log ++ [operation]) ↔
      Covered log ∧ ((roomOf log).after operation).since ≤
        ((roomOf log).after operation).asked := by
  rw [← roomOf_concat]
  constructor
  · exact fun h => ⟨fun front hfront => h front (hfront.trans (List.prefix_append _ _)),
      h _ List.prefix_rfl⟩
  · rintro ⟨hlog, hnew⟩ front hfront
    rcases List.prefix_concat_iff.mp hfront with rfl | hold
    · exact hnew
    · exact hlog front hold

/-- A probe asks for its chunk, and for what lands before the next probe. -/
theorem probeSize_covers (contentLength written length : ℤ) :
    length ≤ probeSize contentLength written length ∧
      (capacityCheckIntervalBytes ≤ probeSize contentLength written length ∨
        0 ≤ contentLength ∧ contentLength - written ≤ probeSize contentLength written length) := by
  refine ⟨le_max_right _ _, ?_⟩
  rw [probeSize]
  by_cases hdeclared : 0 ≤ contentLength
  · simp only [if_pos hdeclared]
    split
    · exact .inr ⟨hdeclared, le_max_left _ _⟩
    · exact .inl (le_max_left _ _)
  · simp only [if_neg hdeclared]
    rw [if_neg (by omega)]
    exact .inl (le_max_left _ _)

/-- The loop's own count is what was written since the last probe, which asked for a whole
interval or for all that was left of the declared length. -/
structure Asked (contentLength : ℤ) (s : Staging) : Prop where
  covered : Covered s.log
  nonneg : 0 ≤ s.sinceCheck
  since : s.checked = true → (roomOf s.log).since = s.sinceCheck
  ahead : s.checked = true → capacityCheckIntervalBytes ≤ (roomOf s.log).asked ∨
    0 ≤ contentLength ∧ contentLength - (s.written - s.sinceCheck) ≤ (roomOf s.log).asked

/-- After a probe there is room for the chunk, too. -/
theorem Asked.probed (h : s.Asked contentLength) (hlength : 0 ≤ length)
    (hdeclared : 0 ≤ contentLength → s.written + length ≤ contentLength)
    (hprobed : Probed storage contentLength s length answer t) :
    t.Asked contentLength ∧ t.checked = true ∧
      (roomOf t.log).since + length ≤ (roomOf t.log).asked := by
  cases hprobed with
  | kept hdue =>
    obtain ⟨hchecked, hroom⟩ := not_or.mp hdue
    rw [Bool.not_eq_false] at hchecked
    refine ⟨h, hchecked, ?_⟩
    have hahead := h.ahead hchecked
    rw [h.since hchecked]
    omega
  | asked =>
    obtain ⟨hchunk, hahead⟩ := probeSize_covers contentLength s.written length
    have hroom : roomOf (s.log ++ [.probe (probeSize contentLength s.written length) none]) =
        ⟨probeSize contentLength s.written length, 0⟩ := by
      rw [roomOf_concat]
      rfl
    refine ⟨⟨covered_concat.mpr ⟨h.covered, ?_⟩, le_refl 0, fun _ => ?_, fun _ => ?_⟩, rfl, ?_⟩
    · exact le_trans hlength hchunk
    · rw [hroom]
    · rw [hroom, sub_zero]
      exact hahead
    · rw [hroom, zero_add]
      exact hchunk

/-- What the write hands over was asked for, and the count goes on where it went well. -/
theorem Asked.turn {ended : Option StreamEnd} (h : s.Asked contentLength)
    (hdeclared : ∀ chunk, arrival.chunk = .ok chunk → 0 ≤ contentLength →
      s.written + chunk.length ≤ contentLength)
    (hturn : Turn storage contentLength s arrival t ended) :
    Covered t.log ∧ (ended = none → t.Asked contentLength) := by
  cases hturn with
  | bodyFails error interrupted hchunk => exact ⟨h.covered, nofun⟩
  | overLimit chunk hchunk hlimit => exact ⟨h.covered, nofun⟩
  | probeFails =>
    exact ⟨covered_concat.mpr ⟨h.covered, h.covered _ List.prefix_rfl⟩, nofun⟩
  | writeFails chunk content error t hchunk hwrite hfits hprobed hcontent =>
    obtain ⟨ht, -, hroom⟩ := h.probed (Int.natCast_nonneg _) (hdeclared chunk hchunk) hprobed
    exact ⟨covered_concat.mpr ⟨ht.covered, hroom⟩, nofun⟩
  | wrote chunk content t hchunk hwrite hfits hprobed hcontent =>
    obtain ⟨ht, hchecked, hroom⟩ :=
      h.probed (Int.natCast_nonneg _) (hdeclared chunk hchunk) hprobed
    have hcovered : Covered (t.log ++ [.write chunk content none]) :=
      covered_concat.mpr ⟨ht.covered, hroom⟩
    have hafter : roomOf (t.log ++ [.write chunk content none]) =
        ⟨(roomOf t.log).asked, (roomOf t.log).since + chunk.length⟩ := by
      rw [roomOf_concat]
      rfl
    refine ⟨hcovered, fun _ => ⟨hcovered, ?_, fun _ => ?_, fun _ => ?_⟩⟩
    · exact add_nonneg ht.nonneg (Int.natCast_nonneg _)
    · rw [hafter, ht.since hchecked]
    · rw [hafter]
      refine (ht.ahead hchecked).imp_right fun ⟨hlength, hleft⟩ => ⟨hlength, ?_⟩
      simp only at hleft ⊢
      omega

def chunkOf (arrival : Arrival) : Bytes :=
  match arrival.chunk with
  | .ok chunk => chunk
  | .error _ => []

/-- The bytes of the chunks that a body delivers. -/
def bytesOf (body : List Arrival) : Bytes := body.flatMap chunkOf

theorem chunkOf_eq {chunk : Bytes} (hchunk : arrival.chunk = .ok chunk) :
    chunkOf arrival = chunk := by
  rw [chunkOf, hchunk]

theorem bytesOf_cons {chunk : Bytes} (hchunk : arrival.chunk = .ok chunk) (body : List Arrival) :
    bytesOf (arrival :: body) = chunk ++ bytesOf body := by
  rw [bytesOf, List.flatMap_cons, chunkOf_eq hchunk]
  rfl

theorem Asked.readBody (body : List Arrival) (h : s.Asked contentLength)
    (hdeclared : 0 ≤ contentLength → s.written + (bytesOf body).length ≤ contentLength) :
    Covered (s.readBody storage contentLength body).1.log := by
  induction body generalizing s with
  | nil => exact h.covered
  | cons arrival body ih =>
    have hchunk : ∀ chunk, arrival.chunk = .ok chunk → 0 ≤ contentLength →
        s.written + chunk.length + (bytesOf body).length ≤ contentLength := by
      intro chunk hchunk hlength
      have hle := hdeclared hlength
      rw [bytesOf_cons hchunk, List.length_append] at hle
      push_cast at hle
      omega
    have hturn := takeChunk_turn storage contentLength s arrival
    have hasked :=
      h.turn (fun chunk hok hlength => by have := hchunk chunk hok hlength; omega) hturn
    rw [Staging.readBody]
    cases htaken : s.takeChunk storage contentLength arrival with
    | mk t ended =>
      rw [htaken] at hturn hasked
      cases ended with
      | some ended => exact hasked.1
      | none =>
        refine ih (hasked.2 rfl) fun hlength => ?_
        cases hturn with
        | wrote chunk content t' hok hwrite hfits hprobed hcontent =>
          have hle := hchunk chunk hok hlength
          simp only [hprobed.written.1]
          omega

/-! ### When the body is read to its end -/

/-- The probes for a body that arrives whole: what each asks for, and what it is told. -/
def dueProbes (contentLength : ℤ) : ℤ → ℤ → Bool → List Arrival → List (ℤ × CapacityAnswer)
  | _, _, _, [] => []
  | written, since, checked, arrival :: body =>
    let length : ℤ := (chunkOf arrival).length
    if IsDue checked since length then
      (probeSize contentLength written length, arrival.capacity) ::
        dueProbes contentLength (written + length) length true body
    else dueProbes contentLength (written + length) (since + length) checked body

/-- The rest of the body delivers all its chunks, each is written, every probe that is due
finds room, and the total is within the limit. -/
structure Arrives (storage : ManagedStorage) (contentLength : ℤ) (s : Staging)
    (body : List Arrival) : Prop where
  chunks : ∀ arrival ∈ body, arrival.chunk.isOk = true
  writes : ∀ arrival ∈ body, arrival.write = none
  probes : ∀ probe ∈ dueProbes contentLength s.written s.sinceCheck s.checked body,
    storage.preflight probe.1 0 probe.2 = none
  limit : s.written + (bytesOf body).length ≤ storage.limits.streamLimit.1

/-- A turn that ends the stream had a reason to. -/
theorem Turn.blame {ended : StreamEnd} {body : List Arrival}
    (hturn : Turn storage contentLength s arrival t (some ended)) :
    ¬ended.IsClean ∧ ¬Arrives storage contentLength s (arrival :: body) := by
  cases hturn with
  | bodyFails error interrupted hchunk =>
    refine ⟨fun h => (nomatch h.1), fun h => ?_⟩
    have hok := h.chunks arrival List.mem_cons_self
    rw [hchunk] at hok
    cases hok
  | overLimit chunk hchunk hlimit =>
    refine ⟨fun h => (nomatch h.2), fun h => ?_⟩
    have hwithin := h.limit
    rw [bytesOf_cons hchunk, List.length_append] at hwithin
    push_cast at hwithin
    omega
  | probeFails chunk error hchunk hdue hanswer =>
    refine ⟨fun h => (nomatch h.1), fun h => ?_⟩
    have hprobes := h.probes
    simp only [dueProbes, chunkOf_eq hchunk, if_pos hdue, List.forall_mem_cons, hanswer] at hprobes
    cases hprobes.1
  | writeFails chunk content error t hchunk hwrite =>
    exact ⟨fun h => (nomatch h.1), fun h => hwrite (h.writes arrival List.mem_cons_self)⟩

/-- A turn that goes on has its chunk hashed, and leaves it to the rest of the body. -/
theorem Turn.goesOn {body : List Arrival}
    (hturn : Turn storage contentLength s arrival t none) :
    ∃ chunk, arrival.chunk = .ok chunk ∧ t.hashed = s.hashed ++ chunk ∧
      t.written = s.written + chunk.length ∧ t.written ≤ storage.limits.streamLimit.1 ∧
      (Arrives storage contentLength s (arrival :: body) ↔
        Arrives storage contentLength t body) := by
  cases hturn with
  | wrote chunk content t hchunk hwrite hfits hprobed hcontent =>
    obtain ⟨hwritten, hhashed, -⟩ := hprobed.written
    have hprobes : (∀ probe ∈ dueProbes contentLength s.written s.sinceCheck s.checked
          (arrival :: body), storage.preflight probe.1 0 probe.2 = none) ↔
        ∀ probe ∈ dueProbes contentLength (t.written + chunk.length) (t.sinceCheck + chunk.length)
          t.checked body, storage.preflight probe.1 0 probe.2 = none := by
      cases hprobed with
      | kept hdue => simp only [dueProbes, chunkOf_eq hchunk, if_neg hdue]
      | asked hdue hanswer =>
        simp only [dueProbes, chunkOf_eq hchunk, if_pos hdue, List.forall_mem_cons, hanswer,
          true_and, zero_add]
    have hlimit : s.written + ((bytesOf (arrival :: body)).length : ℤ) =
        t.written + chunk.length + (bytesOf body).length := by
      rw [bytesOf_cons hchunk, List.length_append, hwritten]
      push_cast
      omega
    refine ⟨chunk, hchunk, by rw [hhashed], by rw [hwritten], by simpa only [hwritten] using hfits,
      fun h => ⟨(List.forall_mem_cons.mp h.chunks).2, (List.forall_mem_cons.mp h.writes).2,
        hprobes.mp h.probes, hlimit ▸ h.limit⟩, fun h => ?_⟩
    exact ⟨List.forall_mem_cons.mpr ⟨by rw [hchunk]; rfl, h.chunks⟩,
      List.forall_mem_cons.mpr ⟨hwrite, h.writes⟩, hprobes.mpr h.probes, hlimit ▸ h.limit⟩

/-- How reading a body ends. -/
structure ReadsTo (storage : ManagedStorage) (contentLength : ℤ) (s : Staging)
    (body : List Arrival) (t : Staging) (ended : StreamEnd) : Prop where
  clean : ended.IsClean ↔ Arrives storage contentLength s body
  hashed : ended.IsClean → t.hashed = s.hashed ++ bytesOf body ∧
    t.written = s.written + (bytesOf body).length

/-- By induction on the body. -/
theorem readBody_outcome (body : List Arrival) (s : Staging)
    (hlimit : s.written ≤ storage.limits.streamLimit.1) :
    ReadsTo storage contentLength s body (s.readBody storage contentLength body).1
      (s.readBody storage contentLength body).2 := by
  induction body generalizing s with
  | nil =>
    refine ⟨⟨fun _ => ⟨nofun, nofun, nofun, ?_⟩, fun _ => ⟨rfl, rfl⟩⟩, fun _ => ⟨?_, ?_⟩⟩
    · exact (add_zero s.written).trans_le hlimit
    · exact (List.append_nil _).symm
    · exact (add_zero _).symm
  | cons arrival body ih =>
    have hturn := takeChunk_turn storage contentLength s arrival
    rw [Staging.readBody]
    cases htaken : s.takeChunk storage contentLength arrival with
    | mk t ended =>
      rw [htaken] at hturn
      cases ended with
      | some ended =>
        obtain ⟨hended, hrest⟩ := hturn.blame
        exact ⟨⟨fun h => absurd h hended, fun h => absurd h hrest⟩, fun h => absurd h hended⟩
      | none =>
        obtain ⟨chunk, hchunk, hhashed, hwritten, hfits, harrives⟩ := hturn.goesOn
        have hrest := ih t hfits
        refine ⟨hrest.clean.trans harrives.symm, fun hclean => ?_⟩
        obtain ⟨hhashed', hwritten'⟩ := hrest.hashed hclean
        constructor
        · rw [hhashed', hhashed, bytesOf_cons hchunk, List.append_assoc]
        · rw [hwritten', hwritten, bytesOf_cons hchunk, List.length_append]
          push_cast
          omega

end Staging

/-! ### All or nothing -/

section Result

variable {P : Platform} {storage : ManagedStorage} {around : StagingSurroundings}
variable {contentLength : ℤ}

open Staging

/-- The file can be begun: there is room for the declared length, and the file system lets
it be created. -/
structure Begins (storage : ManagedStorage) (around : StagingSurroundings) (contentLength : ℤ) :
    Prop where
  room : 0 < contentLength → storage.preflight contentLength 0 around.capacity = none
  root : storage.openRoot around.root = none
  directory : around.ensureDirectory = none
  create : around.create = none

/-- What has to hold of the body, the capacity and the file system for an upload to
succeed. -/
structure Complete (storage : ManagedStorage) (around : StagingSurroundings) (contentLength : ℤ)
    (body : List Arrival) : Prop where
  begins : Begins storage around contentLength
  arrives : Arrives storage contentLength ⟨0, 0, false, [], [], []⟩ body
  declared : contentLength ≤ (bytesOf body).length
  flush : around.flush = none

/-- What an upload leaves behind, with what it returns. -/
structure AllOrNothing (P : Platform) (storage : ManagedStorage) (around : StagingSurroundings)
    (contentLength : ℤ) (body : List Arrival) (staged : StagingResult) : Prop where
  ok : staged.result.isOk = true ↔ Complete storage around contentLength body
  exact : ∀ upload, staged.result = .ok upload →
    upload = ⟨around.path, (bytesOf body).length, P.sha256Hex (bytesOf body)⟩ ∧
      staged.file = some (bytesOf body)
  nothing : staged.result.isOk = false → around.removal = none → staged.file = none
  limit : (∀ operation ∈ staged.log, FitsIn storage.limits.streamLimit.1 operation) ∧
    ∀ content, staged.file = some content →
      (content.length : ℤ) ≤ storage.limits.streamLimit.1
  covered : (0 ≤ contentLength → ((bytesOf body).length : ℤ) ≤ contentLength) →
    Covered staged.log

/-- An upload that fails before its file is there. -/
theorem allOrNothing_of_early {body : List Arrival} {log : List StagingOperation}
    {operation : StagingOperation} {error : Error} (hcovered : Covered log)
    (hfits : ∀ other ∈ log, FitsIn storage.limits.streamLimit.1 other)
    (hincomplete : ¬Begins storage around contentLength)
    (hprobe : (roomOf log).after operation = roomOf log)
    (hoperation : FitsIn storage.limits.streamLimit.1 operation) :
    AllOrNothing P storage around contentLength body ⟨.error error, none, log ++ [operation]⟩ where
  ok := ⟨fun h => (nomatch h), fun h => absurd h.begins hincomplete⟩
  exact := nofun
  nothing _ _ := rfl
  limit := ⟨List.forall_mem_append.mpr ⟨hfits, List.forall_mem_singleton.mpr hoperation⟩, nofun⟩
  covered _ := by
    refine covered_concat.mpr ⟨hcovered, ?_⟩
    rw [hprobe]
    exact hcovered _ List.prefix_rfl

theorem covered_operation {log : List StagingOperation} {operation : StagingOperation}
    (h : Covered log) (hroom : ∀ room : Room, room.after operation = room) :
    Covered (log ++ [operation]) := by
  refine covered_concat.mpr ⟨h, ?_⟩
  rw [hroom]
  exact h _ List.prefix_rfl

/-- The file is removed whenever the upload fails, and whole when it does not. -/
theorem allOrNothing_closeStaging {body : List Arrival} {log : List StagingOperation}
    {s : Staging} {ended : StreamEnd} (hbegins : Begins storage around contentLength)
    (hsound : s.Sound storage.limits.streamLimit.1)
    (hcovered : (0 ≤ contentLength → ((bytesOf body).length : ℤ) ≤ contentLength) →
      Covered s.log)
    (houtcome : ReadsTo storage contentLength ⟨0, 0, false, [], [], log⟩ body s ended) :
    AllOrNothing P storage around contentLength body
      (closeStaging P storage around contentLength s ended) := by
  have hflush : ∀ (failure : Option Error) (room : Room), room.after (.flush failure) = room :=
    fun _ _ => rfl
  have hremove : ∀ (failure : Option Error) (room : Room), room.after (.remove failure) = room :=
    fun _ _ => rfl
  have hcontent : ∀ b : Bool, ((if b then s.hashed else s.content).length : ℤ) ≤
      storage.limits.streamLimit.1 := by
    intro b
    cases b with
    | true => exact hsound.counted ▸ hsound.within
    | false => exact hsound.content
  rw [closeStaging]
  simp only
  generalize hclose : around.flush.map (ioError "close Managed Import staging file") = close
  generalize hshort : decide (0 ≤ contentLength ∧ s.written < contentLength) = short
  cases hbad : ended.overLimit || ended.failure.isSome || close.isSome || short with
  | true =>
    rw [if_pos rfl]
    have hincomplete : ¬Complete storage around contentLength body := by
      rintro ⟨-, harrives, hdeclared, hflushed⟩
      obtain ⟨hfailure, hover⟩ :=
        houtcome.clean.mpr ⟨harrives.1, harrives.2, harrives.3, harrives.4⟩
      -- Then the body came up short, but it is as long as declared.
      have hwritten := (houtcome.hashed ⟨hfailure, hover⟩).2
      rw [hflushed] at hclose
      rw [hfailure, hover, ← hclose] at hbad
      have hless := of_decide_eq_true (hshort.trans hbad)
      simp only at hwritten
      omega
    have hlog : ∀ removed : Option Error,
        ∀ operation ∈ s.log ++ [.flush close] ++ [.remove removed],
          FitsIn storage.limits.streamLimit.1 operation := by
      intro removed
      simp only [List.forall_mem_append, List.forall_mem_singleton]
      exact ⟨⟨hsound.fits, trivial⟩, trivial⟩
    have hfile : ∀ content, (if around.removal.isSome = true then
        some (if (close.isNone && ended.failure.isNone) = true then s.hashed else s.content)
        else none) = some content → (content.length : ℤ) ≤ storage.limits.streamLimit.1 := by
      intro content hsome
      split at hsome
      · cases hsome
        exact hcontent _
      · cases hsome
    have hresult : ∀ error : Error, AllOrNothing P storage around contentLength body
        ⟨.error error, if around.removal.isSome = true then
          some (if (close.isNone && ended.failure.isNone) = true then s.hashed else s.content)
          else none, s.log ++ [.flush close] ++ [.remove around.removal]⟩ := by
      intro error
      refine ⟨⟨nofun, fun h => absurd h hincomplete⟩, nofun, fun _ hremoved => ?_,
        ⟨hlog _, hfile⟩, fun hdeclared => ?_⟩
      · simp only [hremoved, Option.isSome_none, Bool.false_eq_true, if_false]
      · exact covered_operation (covered_operation (hcovered hdeclared) (hflush _)) (hremove _)
    split
    · exact hresult _
    · split
      · exact hresult _
      · split <;> exact hresult _
  | false =>
    simp only [Bool.or_eq_false_iff, Option.isSome_eq_false_iff, Option.isNone_iff_eq_none] at hbad
    obtain ⟨⟨⟨hover, hfailure⟩, hclosed⟩, hlong⟩ := hbad
    obtain ⟨hchunks, hwrites, hprobes, hlimit⟩ := houtcome.clean.mp ⟨hfailure, hover⟩
    obtain ⟨hhashed, hwritten⟩ := houtcome.hashed ⟨hfailure, hover⟩
    simp only [List.nil_append, zero_add] at hhashed hwritten
    have hdeclared := of_decide_eq_false (hshort.trans hlong)
    subst hclosed
    have hflushed := Option.map_eq_none_iff.mp hclose
    rw [if_neg (by decide)]
    refine ⟨⟨fun _ => ⟨hbegins, ⟨hchunks, hwrites, hprobes, hlimit⟩, by omega, hflushed⟩,
      fun _ => rfl⟩, fun upload hupload => ?_, nofun, ⟨?_, fun content hsome => ?_⟩, ?_⟩
    · cases hupload
      simp only [hfailure, Option.isNone_none, Bool.and_self, if_true, hhashed, hwritten]
      exact ⟨trivial, trivial⟩
    · rw [List.forall_mem_append, List.forall_mem_singleton]
      exact ⟨hsound.fits, trivial⟩
    · cases hsome
      exact hcontent _
    · exact fun hbound => covered_operation (hcovered hbound) (hflush _)

/-- The limit of a stream is the smaller of the two. -/
theorem streamLimit_le (limits : UploadLimits) :
    limits.streamLimit.1 ≤ limits.file ∧ limits.streamLimit.1 ≤ limits.batch ∧
      (limits.streamLimit.1 = limits.file ∨ limits.streamLimit.1 = limits.batch) := by
  rw [UploadLimits.streamLimit]
  by_cases hsmaller : limits.batch < limits.file
  · rw [if_pos hsmaller]
    exact ⟨hsmaller.le, le_refl _, .inr rfl⟩
  · rw [if_neg hsmaller]
    exact ⟨le_refl _, not_lt.mp hsmaller, .inl rfl⟩

/-- Storage that opens has limits. -/
theorem streamLimit_pos {fault : Option Error} (h : storage.openRoot fault = none) :
    0 < storage.limits.streamLimit.1 := by
  rw [ManagedStorage.openRoot, Option.or_eq_none_iff, ManagedStorage.initializationError,
    Option.or_eq_none_iff] at h
  obtain ⟨⟨-, hlimits⟩, -⟩ := h
  have hpositive : ¬(storage.reserveBytes < 0 ∨ storage.limits.file ≤ 0 ∨
      storage.limits.batch ≤ 0) := by
    intro hbad
    rw [if_pos hbad] at hlimits
    cases hlimits
  have hlimit := streamLimit_le storage.limits
  omega

theorem allOrNothing_createStaging {body : List Arrival} {log : List StagingOperation}
    (hroom : 0 < contentLength → storage.preflight contentLength 0 around.capacity = none)
    (hcovered : Covered log)
    (hfits : ∀ operation ∈ log, FitsIn storage.limits.streamLimit.1 operation) :
    AllOrNothing P storage around contentLength body
      (createStaging P storage around contentLength log body) := by
  rw [createStaging]
  cases hroot : storage.openRoot around.root with
  | some error =>
    exact allOrNothing_of_early hcovered hfits
      (fun h => nomatch hroot.symm.trans h.root) rfl trivial
  | none =>
    cases hdirectory : around.ensureDirectory with
    | some error =>
      exact allOrNothing_of_early hcovered hfits
        (fun h => nomatch hdirectory.symm.trans h.directory) rfl trivial
    | none =>
      cases hcreate : around.create with
      | some text =>
        exact allOrNothing_of_early hcovered hfits
          (fun h => nomatch hcreate.symm.trans h.create) rfl trivial
      | none =>
        have hpositive := streamLimit_pos hroot
        have hsound : Sound storage.limits.streamLimit.1 ⟨0, 0, false, [], [], log⟩ :=
          ⟨rfl, hpositive.le, hpositive.le, hfits⟩
        have hasked : Asked contentLength ⟨0, 0, false, [], [], log⟩ :=
          ⟨hcovered, le_refl 0, nofun, nofun⟩
        refine allOrNothing_closeStaging ⟨hroom, hroot, hdirectory, hcreate⟩
          (hsound.readBody body) (fun hdeclared => ?_) (readBody_outcome body _ hpositive.le)
        exact hasked.readBody body fun hlength => by simpa using hdeclared hlength

/-- Staging an upload is all or nothing, whatever arrives and whatever fails. -/
theorem stageUpload_all_or_nothing (P : Platform) (storage : ManagedStorage)
    (around : StagingSurroundings) (contentLength : ℤ) (body : List Arrival) :
    AllOrNothing P storage around contentLength body
      (stageUpload P storage around contentLength body) := by
  have hnothing : Covered [] := fun front hfront => by
    rw [List.prefix_nil.mp hfront]
    exact le_refl 0
  have hlimit := streamLimit_le storage.limits
  rw [stageUpload]
  cases hvalid : storage.limits.validateUploadLength contentLength with
  | error error =>
    refine ⟨⟨nofun, fun h => ?_⟩, nofun, fun _ _ => rfl, ⟨nofun, nofun⟩, fun _ => hnothing⟩
    -- A length beyond a limit is one the body cannot have.
    have hwithin : 0 + ((bytesOf body).length : ℤ) ≤ storage.limits.streamLimit.1 := h.arrives.limit
    have hdeclared := h.declared
    rw [UploadLimits.validateUploadLength, if_neg (by omega), if_neg (by omega)] at hvalid
    cases hvalid
  | ok _ =>
    by_cases hpositive : 0 < contentLength
    · simp only [if_pos hpositive]
      cases hcapacity : storage.preflight contentLength 0 around.capacity with
      | some error =>
        have hearly := @allOrNothing_of_early P storage around contentLength body []
          (.probe contentLength (some error)) error hnothing nofun
          (fun h => nomatch hcapacity.symm.trans (h.room hpositive)) rfl trivial
        exact hearly
      | none =>
        have hroom : (roomOf []).after (.probe contentLength none) = ⟨contentLength, 0⟩ := rfl
        have hcovered : Covered ([] ++ [.probe contentLength none]) :=
          covered_concat.mpr ⟨hnothing, by rw [hroom]; exact hpositive.le⟩
        exact allOrNothing_createStaging (fun _ => hcapacity) hcovered
          (List.forall_mem_singleton.mpr trivial)
    · simp only [if_neg hpositive]
      exact allOrNothing_createStaging (fun h => absurd h hpositive) hnothing nofun

/-- A chunk of a body for which there is room. -/
def arriving (chunk : Bytes) : Arrival := ⟨.ok chunk, ⟨none, .ok 100⟩, none, 0⟩

def openStorage : ManagedStorage := ⟨⟨10, 20⟩, 5, none⟩

def noFailures : StagingSurroundings :=
  ⟨⟨none, .ok 100⟩, none, none, none, none, none, ["staging", "upload"]⟩

/-- Three bytes in two chunks, as many as declared. -/
def stagedChunks : StagingResult :=
  stageUpload plainPlatform openStorage noFailures 3 [arriving [1, 2], arriving [3]]

theorem stageUpload_stores_chunks :
    stagedChunks.result =
        .ok ⟨["staging", "upload"], 3, plainPlatform.sha256Hex [1, 2, 3]⟩ ∧
      stagedChunks.file = some [1, 2, 3] := by
  have h := stageUpload_all_or_nothing plainPlatform openStorage noFailures 3
    [arriving [1, 2], arriving [3]]
  have hok : stagedChunks.result.isOk = true := h.ok.mpr
    { begins := ⟨fun _ => by decide, by decide, rfl, rfl⟩
      arrives := ⟨by decide, by decide, by decide, by decide⟩
      declared := by decide
      flush := rfl }
  cases hresult : stagedChunks.result with
  | error error =>
    rw [hresult] at hok
    cases hok
  | ok upload =>
    obtain ⟨rfl, hfile⟩ := h.exact upload hresult
    exact ⟨rfl, hfile⟩

end Result

end Harmony.ManagedImport
