/-
# Byte ranges of a file

How the server reads a `Range` header. Every range it reads lies in the file, and where
the header is one that RFC 9110 describes, the ranges are those that it names, in order.
-/

import Mathlib.Data.List.Forall2
import Harmony.Library.RangeHeader
import Harmony.Library.Transition

namespace Harmony.ServeFile

open Numerals (digitsValue parseI64)
open RangeHeader (Elements Says Spec isBlank)

/-- The server caps the ranges it reads from one header. -/
def maxRanges : ℕ := 200

structure Range where
  start : ℕ
  length : ℕ
  deriving DecidableEq

inductive RangeError
  | invalid
  | noOverlap
  deriving DecidableEq

/-! ### Reading a header -/

def trimBlanks (text : List Char) : List Char := Chars.trimMatches isBlank text

/-- The ranges so far, and whether a part of the header has missed the file. -/
structure Gathered where
  ranges : List Range
  noOverlap : Bool

namespace Gathered

def push (gathered : Gathered) (range : Range) : Gathered :=
  { gathered with ranges := gathered.ranges ++ [range] }

def miss (gathered : Gathered) : Gathered := { gathered with noOverlap := true }

end Gathered

/-- A part that gives no first position asks for the last bytes. -/
def parseSuffix (size : ℕ) (gathered : Gathered) (stop : List Char) :
    Except RangeError Gathered :=
  if stop = [] ∨ stop.head? = some '-' then .error .invalid
  else
    match parseI64 stop with
    | none => .error .invalid
    | some suffix =>
      if suffix < 0 then .error .invalid
      else
        let suffix := min suffix.toNat size
        -- No bytes are selected, also when the file is empty.
        if suffix = 0 then .ok gathered.miss
        else .ok (gathered.push ⟨size - suffix, suffix⟩)

def parsePositions (size : ℕ) (gathered : Gathered) (start stop : List Char) :
    Except RangeError Gathered :=
  match parseI64 start with
  | none => .error .invalid
  | some first =>
    if first < 0 then .error .invalid
    else if size ≤ first.toNat then .ok gathered.miss
    else if stop = [] then .ok (gathered.push ⟨first.toNat, size - first.toNat⟩)
    else
      match parseI64 stop with
      | none => .error .invalid
      | some last =>
        if last < first then .error .invalid
        else
          .ok (gathered.push ⟨first.toNat, min last.toNat (size - 1) - first.toNat + 1⟩)

/-- One turn of the loop over the parts between the commas. -/
def parseSpec (size : ℕ) (gathered : Gathered) (spec : List Char) :
    Except RangeError Gathered :=
  let spec := trimBlanks spec
  if spec = [] then .ok gathered
  else
    match Chars.splitOnce ['-'] spec with
    | none => .error .invalid
    | some (start, stop) =>
      if trimBlanks start = [] then parseSuffix size gathered (trimBlanks stop)
      else parsePositions size gathered (trimBlanks start) (trimBlanks stop)

def parseRange (header : List Char) (size : ℕ) : Except RangeError (List Range) :=
  if header = [] then .ok []
  else
    match "bytes=".toList.isPrefixOf? header with
    | none => .error .invalid
    | some specs =>
      if maxRanges < specs.count ',' + 1 then .ok []
      else
        match (specs.splitOn ',').foldlM (parseSpec size) ⟨[], false⟩ with
        | .error error => .error error
        | .ok gathered =>
          if gathered.noOverlap = true ∧ gathered.ranges = [] then .error .noOverlap
          else .ok gathered.ranges

/-! ### Ranges within the file -/

namespace Range

/-- At least one byte, and all of them in the file. -/
def Within (size : ℕ) (range : Range) : Prop :=
  0 < range.length ∧ range.start + range.length ≤ size

def Covers (range : Range) (position : ℕ) : Prop :=
  range.start ≤ position ∧ position < range.start + range.length

end Range

variable {size : ℕ} {gathered gathered' : Gathered} {ranges : List Range}

/-- What a turn of the loop does: at most one more range, which lies in the file. -/
inductive Turn (size : ℕ) (gathered : Gathered) : Gathered → Prop
  | kept : Turn size gathered gathered
  | missed : Turn size gathered gathered.miss
  | pushed {range : Range} (h : range.Within size) : Turn size gathered (gathered.push range)

theorem turn_of_parseSuffix {stop : List Char}
    (h : parseSuffix size gathered stop = .ok gathered') :
    Turn size gathered gathered' := by
  simp only [parseSuffix] at h
  split at h
  · cases h
  · split at h
    · cases h
    · split at h
      · cases h
      · split at h
        · cases h
          exact .missed
        · rename_i hsome
          cases h
          refine .pushed ⟨Nat.pos_of_ne_zero hsome, ?_⟩
          simp only
          omega

theorem turn_of_parsePositions {start stop : List Char}
    (h : parsePositions size gathered start stop = .ok gathered') :
    Turn size gathered gathered' := by
  simp only [parsePositions] at h
  split at h
  · cases h
  · split at h
    · cases h
    · split at h
      · cases h
        exact .missed
      · rename_i hfirst
        split at h
        · cases h
          refine .pushed ⟨?_, ?_⟩ <;> simp only <;> omega
        · split at h
          · cases h
          · split at h
            · cases h
            · rename_i hlast
              cases h
              refine .pushed ⟨?_, ?_⟩ <;> simp only <;> omega

theorem turn_of_parseSpec {spec : List Char} (h : parseSpec size gathered spec = .ok gathered') :
    Turn size gathered gathered' := by
  simp only [parseSpec] at h
  split at h
  · cases h
    exact .kept
  · split at h
    · cases h
    · split at h
      · exact turn_of_parseSuffix h
      · exact turn_of_parsePositions h

/-- The loop reads at most one range from each part, and only ranges of the file. -/
theorem gathered_of_foldlM {specs : List (List Char)}
    (h : specs.foldlM (parseSpec size) ⟨[], false⟩ = .ok gathered) :
    gathered.ranges.length ≤ specs.length ∧ ∀ range ∈ gathered.ranges, range.Within size := by
  have hstep : ∀ (specs : List (List Char)) (gathered : Gathered) (spec : List Char)
      (gathered' : Gathered),
      (gathered.ranges.length ≤ specs.length ∧ ∀ range ∈ gathered.ranges, range.Within size) →
      parseSpec size gathered spec = .ok gathered' →
      gathered'.ranges.length ≤ (specs ++ [spec]).length ∧
        ∀ range ∈ gathered'.ranges, range.Within size := by
    rintro specs gathered spec gathered' ⟨hlength, hranges⟩ hspec
    rw [List.length_append, List.length_singleton]
    cases turn_of_parseSpec hspec with
    | kept => exact ⟨Nat.le_succ_of_le hlength, hranges⟩
    | missed => exact ⟨Nat.le_succ_of_le hlength, hranges⟩
    | pushed hrange =>
      rw [Gathered.push, List.length_append, List.length_singleton]
      refine ⟨Nat.succ_le_succ hlength, fun range hmem => ?_⟩
      rcases List.mem_append.mp hmem with hmem | hmem
      · exact hranges range hmem
      · rw [List.mem_singleton.mp hmem]
        exact hrange
  have hstart : ([] : List Range).length ≤ ([] : List (List Char)).length ∧
      ∀ range ∈ ([] : List Range), range.Within size :=
    ⟨Nat.le_refl 0, fun range hrange => absurd hrange List.not_mem_nil⟩
  have hrun := (Transition.Run.of_except h).history hstep hstart
  rwa [List.nil_append] at hrun

theorem length_splitOn (c : Char) (text : List Char) :
    (text.splitOn c).length = text.count c + 1 := by
  induction text with
  | nil => rfl
  | cons d text ih =>
    rw [List.splitOn, List.splitOnP_cons_eq_if_modifyHead, List.count_cons]
    by_cases hd : (d == c) = true
    · rw [if_pos hd, if_pos hd, List.length_cons]
      exact congrArg (· + 1) ih
    · rw [if_neg hd, if_neg hd, List.length_modifyHead]
      exact ih

/-- No more than the cap, and each of them in the file. -/
theorem parseRange_within {header : List Char} (h : parseRange header size = .ok ranges) :
    ranges.length ≤ maxRanges ∧ ∀ range ∈ ranges, range.Within size := by
  have hnone : ([] : List Range).length ≤ maxRanges ∧
      ∀ range ∈ ([] : List Range), range.Within size :=
    ⟨Nat.zero_le _, fun range hrange => absurd hrange List.not_mem_nil⟩
  simp only [parseRange] at h
  split at h
  · cases h
    exact hnone
  · split at h
    · cases h
    · split at h
      · cases h
        exact hnone
      · rename_i specs _ hfew
        split at h
        · cases h
        · rename_i gathered hrun
          split at h
          · cases h
          · cases h
            obtain ⟨hlength, hranges⟩ := gathered_of_foldlM hrun
            rw [length_splitOn] at hlength
            exact ⟨hlength.trans (Nat.not_lt.mp hfew), hranges⟩

/-! ### The ranges that a header names -/

/-- The bytes of the file that a range of the request asks for, where there are some. -/
def cut (size : ℕ) : Spec → Range
  | .between first last => ⟨first, min last (size - 1) - first + 1⟩
  | .onward first => ⟨first, size - first⟩
  | .suffix length => ⟨size - min length size, min length size⟩

theorem cut_covers {spec : Spec} (h : spec.Satisfiable size) (position : ℕ) :
    (cut size spec).Covers position ↔ spec.Names size position := by
  cases spec with
  | between first last =>
    have hspec := Spec.satisfiable_between.mp h
    simp only [cut, Range.Covers, Spec.Names]
    omega
  | onward first =>
    have hspec := Spec.satisfiable_onward.mp h
    simp only [cut, Range.Covers, Spec.Names]
    omega
  | suffix length =>
    have hspec := Spec.satisfiable_suffix.mp h
    simp only [cut, Range.Covers, Spec.Names]
    omega

/-- What the loop does with a range of the request. -/
def take (size : ℕ) (gathered : Gathered) (spec : Spec) : Gathered :=
  if spec.Satisfiable size then gathered.push (cut size spec) else gathered.miss

theorem parseSuffix_digits {stop : List Char} {length : ℕ} (h : digitsValue stop = some length)
    (hlength : length < 2 ^ 63) :
    parseSuffix size gathered stop = .ok (take size gathered (.suffix length)) := by
  have hstop : ¬(stop = [] ∨ stop.head? = some '-') := by
    obtain ⟨hne, hdigits⟩ := Numerals.digitsValue_isDigit h
    rintro (hnil | hhead)
    · exact hne hnil
    · exact absurd (hdigits _ (List.mem_of_mem_head? hhead)) (by decide)
  have hpos : ¬(length : ℤ) < 0 := Int.not_lt.mpr (Int.natCast_nonneg length)
  simp only [parseSuffix, if_neg hstop, RangeHeader.parseI64_digits h hlength, if_neg hpos,
    Int.toNat_natCast, take, Spec.satisfiable_suffix, cut]
  by_cases hnone : min length size = 0
  · rw [if_pos hnone, if_neg (by omega)]
  · rw [if_neg hnone, if_pos (by omega)]

theorem parsePositions_onward {start : List Char} {first : ℕ} (h : digitsValue start = some first)
    (hfirst : first < 2 ^ 63) :
    parsePositions size gathered start [] = .ok (take size gathered (.onward first)) := by
  have hpos : ¬(first : ℤ) < 0 := Int.not_lt.mpr (Int.natCast_nonneg first)
  simp only [parsePositions, RangeHeader.parseI64_digits h hfirst, if_neg hpos, Int.toNat_natCast,
    take, Spec.satisfiable_onward, cut]
  by_cases hsize : size ≤ first
  · rw [if_pos hsize, if_neg (Nat.not_lt.mpr hsize)]
  · rw [if_neg hsize, if_pos trivial, if_pos (Nat.not_le.mp hsize)]

theorem parsePositions_between {start stop : List Char} {first last : ℕ}
    (hstart : digitsValue start = some first) (hstop : digitsValue stop = some last)
    (hfirst : first < 2 ^ 63) (hlast : last < 2 ^ 63) (hvalid : first ≤ last) :
    parsePositions size gathered start stop = .ok (take size gathered (.between first last)) := by
  have hpos : ¬(first : ℤ) < 0 := Int.not_lt.mpr (Int.natCast_nonneg first)
  have hne : stop ≠ [] := (Numerals.digitsValue_isDigit hstop).1
  have horder : ¬(last : ℤ) < first := Int.not_lt.mpr (Int.ofNat_le.mpr hvalid)
  simp only [parsePositions, RangeHeader.parseI64_digits hstart hfirst,
    RangeHeader.parseI64_digits hstop hlast, if_neg hpos, Int.toNat_natCast, if_neg hne,
    if_neg horder, take, Spec.satisfiable_between, cut]
  by_cases hsize : size ≤ first
  · rw [if_pos hsize, if_neg (by omega)]
  · rw [if_neg hsize, if_pos ⟨hvalid, Nat.not_le.mp hsize⟩]

/-- A range of the request, read alone. -/
theorem parseSpec_written {spec : Spec} {before text after : List Char}
    (hbefore : ∀ c ∈ before, isBlank c = true) (hafter : ∀ c ∈ after, isBlank c = true)
    (htext : spec.Written text) (hvalid : spec.Valid) (hbelow : spec.Below (2 ^ 63)) :
    parseSpec size gathered (before ++ text ++ after) = .ok (take size gathered spec) := by
  have hdash : ∀ {digits : List Char} {n : ℕ}, digitsValue digits = some n → '-' ∉ digits :=
    fun h hc => absurd ((Numerals.digitsValue_isDigit h).2 _ hc) (by decide)
  have htrim : trimBlanks (before ++ text ++ after) = text := htext.trim hbefore hafter
  have hdigits : ∀ {digits : List Char} {n : ℕ}, digitsValue digits = some n →
      trimBlanks digits = digits := RangeHeader.trim_digits
  have hempty : trimBlanks [] = [] := rfl
  simp only [parseSpec, htrim, if_neg htext.ne_nil]
  cases htext with
  | between hstart hstop =>
    have hne := (Numerals.digitsValue_isDigit hstart).1
    simp only [Chars.splitOnce_append (hdash hstart), hdigits hstart, hdigits hstop, if_neg hne]
    exact parsePositions_between hstart hstop hbelow.1 hbelow.2 hvalid
  | onward hstart =>
    have hne := (Numerals.digitsValue_isDigit hstart).1
    simp only [Chars.splitOnce_append (hdash hstart), hempty, hdigits hstart, if_neg hne]
    exact parsePositions_onward hstart hbelow
  | @suffix length stop hstop =>
    have hsplit : Chars.splitOnce ['-'] ('-' :: stop) = some ([], stop) :=
      @Chars.splitOnce_append '-' [] stop List.not_mem_nil
    simp only [hsplit, hempty, hdigits hstop, if_true]
    exact parseSuffix_digits hstop hbelow

/-- The loop reads the ranges of a list in order. -/
theorem foldlM_elements {elements : List (List Char)} {specs : List Spec}
    (h : Elements elements specs) (hvalid : ∀ spec ∈ specs, spec.Valid)
    (hbelow : ∀ spec ∈ specs, spec.Below (2 ^ 63)) (gathered : Gathered) :
    elements.foldlM (parseSpec size) gathered = .ok (specs.foldl (take size) gathered) := by
  induction h generalizing gathered with
  | nil => rfl
  | @empty blanks _ _ hblanks _ ih =>
    have hkept : parseSpec size gathered blanks = .ok gathered := by
      rw [parseSpec, trimBlanks, RangeHeader.trim_blanks hblanks, if_pos rfl]
    rw [List.foldlM_cons, hkept]
    exact ih hvalid hbelow gathered
  | spec hbefore hafter htext _ ih =>
    rw [List.forall_mem_cons] at hvalid hbelow
    rw [List.foldlM_cons, parseSpec_written hbefore hafter htext hvalid.1 hbelow.1, List.foldl_cons]
    exact ih hvalid.2 hbelow.2 _

/-- The ranges that some byte of the file is in, and whether there were others. -/
theorem foldl_take (specs : List Spec) (gathered : Gathered) :
    specs.foldl (take size) gathered =
      ⟨gathered.ranges ++ (specs.filter fun spec => spec.Satisfiable size).map (cut size),
        gathered.noOverlap || specs.any fun spec => !spec.Satisfiable size⟩ := by
  induction specs generalizing gathered with
  | nil => simp
  | cons spec specs ih =>
    rw [List.foldl_cons, ih]
    by_cases hspec : spec.Satisfiable size
    · simp [take, hspec, Gathered.push]
    · simp [take, hspec, Gathered.miss]

variable {header : List Char} {specs : List Spec}

/-- The ranges of a header in the form that the standard gives it, unless the file has no
byte that it asks for. -/
theorem parseRange_eq (h : Says maxRanges header specs)
    (hbelow : ∀ spec ∈ specs, spec.Below (2 ^ 63)) :
    parseRange header size =
      if ∀ spec ∈ specs, ¬spec.Satisfiable size then .error .noOverlap
      else .ok ((specs.filter fun spec => spec.Satisfiable size).map (cut size)) := by
  obtain ⟨elements, rfl, helements, hlimit, hspecs, hvalid⟩ := h
  have hne := helements.ne_nil hspecs
  have hunit : "bytes=".toList.isPrefixOf? ("bytes=".toList ++ [','].intercalate elements) =
      some ([','].intercalate elements) := by
    exact rfl
  have hcount : ¬maxRanges < ([','].intercalate elements).count ',' + 1 := by
    rw [RangeHeader.count_intercalate helements.comma_notMem hne]
    exact Nat.not_lt.mpr hlimit
  have hsplit : ([','].intercalate elements).splitOn ',' = elements :=
    List.splitOn_intercalate ',' helements.comma_notMem hne
  have hheader : "bytes=".toList ++ [','].intercalate elements ≠ [] := by
    exact List.append_ne_nil_of_left_ne_nil (by decide) _
  simp only [parseRange, if_neg hheader, hunit, if_neg hcount, hsplit,
    foldlM_elements helements hvalid hbelow, foldl_take, List.nil_append, Bool.false_or]
  by_cases hall : ∀ spec ∈ specs, ¬spec.Satisfiable size
  · have hmissed : (specs.any fun spec => !decide (spec.Satisfiable size)) = true := by
      obtain ⟨spec, hspec⟩ := List.exists_mem_of_ne_nil specs hspecs
      exact List.any_eq_true.mpr ⟨spec, hspec, by simp [hall spec hspec]⟩
    have hnone : (specs.filter fun spec => decide (spec.Satisfiable size)) = [] := by
      rw [List.filter_eq_nil_iff]
      intro spec hspec
      simpa using hall spec hspec
    rw [if_pos hall, hnone, if_pos ⟨hmissed, rfl⟩]
  · have hsome : (specs.filter fun spec => decide (spec.Satisfiable size)).map (cut size) ≠ [] := by
      rw [Ne, List.map_eq_nil_iff, List.filter_eq_nil_iff]
      simpa using hall
    rw [if_neg hall, if_neg fun hboth => hsome hboth.2]

/-- Each range of the request that some byte of the file is in becomes the range of just
those bytes. -/
theorem parseRange_exact (h : Says maxRanges header specs)
    (hbelow : ∀ spec ∈ specs, spec.Below (2 ^ 63))
    (hsome : ∃ spec ∈ specs, spec.Satisfiable size) :
    ∃ ranges, parseRange header size = .ok ranges ∧
      List.Forall₂ (fun spec range => ∀ position, range.Covers position ↔ spec.Names size position)
        (specs.filter fun spec => spec.Satisfiable size) ranges := by
  refine ⟨(specs.filter fun spec => spec.Satisfiable size).map (cut size), ?_, ?_⟩
  · rw [parseRange_eq h hbelow, if_neg]
    obtain ⟨spec, hspec, hsatisfiable⟩ := hsome
    exact fun hnone => hnone spec hspec hsatisfiable
  · rw [List.forall₂_map_right_iff, List.forall₂_same]
    intro spec hspec
    exact cut_covers (of_decide_eq_true (List.mem_filter.mp hspec).2)

end Harmony.ServeFile
