/-
# Exact range responses

The body of a response is the bytes of the ranges in order, each as a part of a multipart
body where there are several, and the announced length is the number of its bytes.
-/

import Harmony.ServeFile.Serving

namespace Harmony.ServeFile

open RangeHeader (Says Spec)

/-! ### Multipart bodies -/

def crlf : List UInt8 := Utf8.encode "\r\n".toList

/-- A part: its delimiter and its headers, an empty line, and the bytes of its range. -/
def part (boundary : Boundary) (type : List Char) (file : File) (range : Range) : List UInt8 :=
  Utf8.encode ("--".toList ++ boundary.text ++ "\r\n".toList ++ "Content-Range: ".toList ++
    range.contentRange file.size ++ "\r\nContent-Type: ".toList ++ type ++ "\r\n\r\n".toList) ++
    range.bytesOf file

/-- Each part with the line that ends it, and the last delimiter. -/
def multipart (boundary : Boundary) (type : List Char) (file : File) (ranges : List Range) :
    List UInt8 :=
  (ranges.flatMap fun range => part boundary type file range ++ crlf) ++
    Utf8.encode ("--".toList ++ boundary.text ++ "--\r\n".toList)

variable {boundary : Boundary} {type : List Char} {file : File} {ranges : List Range}

/-- A part after the first one begins with the line end of the part before. -/
theorem partHeader_append (index : ℕ) (range : Range) :
    partHeader boundary type file.size index range ++ range.bytesOf file =
      (if index = 0 then [] else crlf) ++ part boundary type file range := by
  have hlater : "\r\n--".toList = "\r\n".toList ++ "--".toList := by decide
  by_cases hindex : index = 0
  · rw [partHeader, if_pos hindex, if_pos hindex, part, List.nil_append]
  · rw [partHeader, if_neg hindex, if_neg hindex, part, hlater, crlf, ← List.append_assoc,
      ← Utf8.encode_append]
    simp only [List.append_assoc]

theorem flatten_later (ranges : List Range) :
    (ranges.map fun range => crlf ++ part boundary type file range).flatten ++ closing boundary =
      crlf ++ multipart boundary type file ranges := by
  have hclosing : closing boundary =
      crlf ++ Utf8.encode ("--".toList ++ boundary.text ++ "--\r\n".toList) := by
    rw [closing, crlf, ← Utf8.encode_append]
    rfl
  induction ranges with
  | nil => exact hclosing
  | cons range ranges ih =>
    rw [List.map_cons, List.flatten_cons, List.append_assoc, ih, multipart, multipart,
      List.flatMap_cons]
    simp only [List.append_assoc]

/-- The body that is sent for several ranges. -/
theorem multipart_eq (hne : ranges ≠ []) :
    (ranges.mapIdx fun index range =>
      partHeader boundary type file.size index range ++ range.bytesOf file).flatten ++
        closing boundary = multipart boundary type file ranges := by
  obtain ⟨range, ranges, rfl⟩ := List.exists_cons_of_ne_nil hne
  have hlater : (ranges.mapIdx fun index range =>
      (if index + 1 = 0 then [] else crlf) ++ part boundary type file range) =
        ranges.map fun range => crlf ++ part boundary type file range := by
    rw [List.mapIdx_eq_iff]
    intro index
    rw [List.getElem?_map]
    rfl
  simp only [partHeader_append]
  rw [List.mapIdx_cons, hlater, List.flatten_cons, if_pos rfl, List.nil_append, List.append_assoc,
    flatten_later, multipart, multipart, List.flatMap_cons]
  simp only [List.append_assoc]

/-! ### Sums of 64-bit numbers -/

theorem wrappingSum_eq (numbers : List ℕ) : wrappingSum numbers = numbers.sum % 2 ^ 64 := by
  have hfold : ∀ (numbers : List ℕ) (start : ℕ), start < 2 ^ 64 →
      numbers.foldl wrappingAdd start = (start + numbers.sum) % 2 ^ 64 := by
    intro numbers
    induction numbers with
    | nil => intro start hstart; exact (Nat.mod_eq_of_lt hstart).symm
    | cons number numbers ih =>
      intro start _
      rw [List.foldl_cons, wrappingAdd, ih _ (Nat.mod_lt _ (by decide)), Nat.mod_add_mod,
        List.sum_cons, Nat.add_assoc]
  rw [wrappingSum, hfold numbers 0 (by decide), Nat.zero_add]

theorem length_bytesOf {range : Range} (h : range.Within file.size) :
    (range.bytesOf file).length = range.length := by
  have hend : range.start + range.length ≤ file.bytes.length := h.2
  rw [Range.bytesOf, List.length_take, List.length_drop]
  omega

/-- Where every range lies in the file, the announced length is that of the multipart
body, as a 64-bit number. -/
theorem announced_eq (hne : ranges ≠ []) (hranges : ∀ range ∈ ranges, range.Within file.size) :
    wrappingAdd (wrappingSum (ranges.mapIdx fun index range =>
      wrappingAdd (partHeader boundary type file.size index range).length range.length))
        (closing boundary).length = (multipart boundary type file ranges).length % 2 ^ 64 := by
  have hsum : ∀ (lengths : List ℕ), (lengths.map (· % 2 ^ 64)).sum % 2 ^ 64 =
      lengths.sum % 2 ^ 64 := by
    intro lengths
    induction lengths with
    | nil => rfl
    | cons length lengths ih =>
      rw [List.map_cons, List.sum_cons, List.sum_cons, Nat.mod_add_mod, Nat.add_mod, ih,
        ← Nat.add_mod]
  have hpart : (ranges.mapIdx fun index range =>
      wrappingAdd (partHeader boundary type file.size index range).length range.length) =
        ((ranges.mapIdx fun index range =>
          partHeader boundary type file.size index range ++ range.bytesOf file).map
            List.length).map (· % 2 ^ 64) := by
    rw [List.mapIdx_eq_iff]
    intro index
    rw [List.getElem?_map, List.getElem?_map, List.getElem?_mapIdx]
    cases hrange : ranges[index]? with
    | none => rfl
    | some range =>
      have hlength := length_bytesOf (hranges range (List.mem_of_getElem? hrange))
      simp only [Option.map_some, List.length_append, hlength, wrappingAdd]
  rw [hpart, wrappingSum_eq, hsum, wrappingAdd, Nat.mod_add_mod, ← List.length_flatten,
    ← List.length_append, multipart_eq hne]

/-! ### Lengths -/

theorem length_encode {text : List Char} (h : ∀ c ∈ text, c.toNat < 0x80) :
    (Utf8.encode text).length = text.length := by
  induction text with
  | nil => rfl
  | cons c text ih =>
    rw [List.forall_mem_cons] at h
    rw [Utf8.encode_cons, Utf8.utf8EncodeChar_ascii h.1, List.singleton_append, List.length_cons,
      List.length_cons, ih h.2]

theorem length_encode_decimal {n : ℕ} (h : n < 2 ^ 64) :
    (Utf8.encode (decimal n)).length ≤ 20 := by
  have hdigits : ∀ c ∈ decimal n, c.toNat < 0x80 := by
    intro c hc
    have hdigit : c.isDigit = true := Numerals.isDigit_toDigits hc
    rw [Char.isDigit, Bool.and_eq_true, decide_eq_true_eq, decide_eq_true_eq] at hdigit
    exact Nat.lt_of_le_of_lt (Nat.le_of_lt_succ (Nat.lt_succ_of_le hdigit.2)) (by decide)
  rw [length_encode hdigits]
  refine (Nat.length_toDigits_le_iff (by decide) (by decide)).mpr (Nat.lt_trans h ?_)
  decide

theorem length_encode_boundary (boundary : Boundary) :
    (Utf8.encode boundary.text).length = 60 := by
  rw [length_encode boundary.ascii, boundary.length]

theorem length_contentRange_le {range : Range} {size : ℕ} (h : range.Within size)
    (hsize : size < 2 ^ 64) : (Utf8.encode (range.contentRange size)).length ≤ 68 := by
  have hinside : range.start + range.length ≤ size := h.2
  have hfirst : range.start < 2 ^ 64 := by omega
  have hlast : range.start + range.length - 1 < 2 ^ 64 := by omega
  have hfirst := length_encode_decimal hfirst
  have hlast := length_encode_decimal hlast
  have hwhole := length_encode_decimal hsize
  have hunit : (Utf8.encode "bytes ".toList).length = 6 := by decide +kernel
  have hdash : (String.utf8EncodeChar '-').length = 1 := by decide +kernel
  have hslash : (String.utf8EncodeChar '/').length = 1 := by decide +kernel
  unfold Range.contentRange
  simp only [Utf8.encode_append, Utf8.encode_cons, List.length_append, hunit, hdash, hslash]
  generalize (Utf8.encode (decimal range.start)).length = first at hfirst ⊢
  generalize (Utf8.encode (decimal (range.start + range.length - 1))).length = last at hlast ⊢
  generalize (Utf8.encode (decimal size)).length = whole at hwhole ⊢
  omega

/-- The headers of a part take less than two hundred bytes and the type. -/
theorem length_part_le {range : Range} (h : range.Within file.size) (hsize : file.size < 2 ^ 64) :
    (part boundary type file range).length ≤
      range.length + (Utf8.encode type).length + 167 := by
  have hnamed := length_contentRange_le h hsize
  have hdashes : (Utf8.encode "--".toList).length = 2 := by decide +kernel
  have hline : (Utf8.encode "\r\n".toList).length = 2 := by decide +kernel
  have hrange : (Utf8.encode "Content-Range: ".toList).length = 15 := by decide +kernel
  have htype : (Utf8.encode "\r\nContent-Type: ".toList).length = 16 := by decide +kernel
  have hend : (Utf8.encode "\r\n\r\n".toList).length = 4 := by decide +kernel
  simp only [part, Utf8.encode_append, List.length_append, length_encode_boundary, hdashes, hline,
    hrange, htype, hend, length_bytesOf h]
  omega

theorem length_multipart_le (hranges : ∀ range ∈ ranges, range.Within file.size)
    (hsize : file.size < 2 ^ 64) :
    (multipart boundary type file ranges).length ≤ (ranges.map Range.length).sum +
      ranges.length * ((Utf8.encode type).length + 169) + 66 := by
  have hdashes : (Utf8.encode "--".toList).length = 2 := by decide +kernel
  have hlast : (Utf8.encode "--\r\n".toList).length = 4 := by decide +kernel
  have hline : crlf.length = 2 := by decide +kernel
  have hparts : (ranges.flatMap fun range => part boundary type file range ++ crlf).length ≤
      (ranges.map Range.length).sum + ranges.length * ((Utf8.encode type).length + 169) := by
    induction ranges with
    | nil => exact Nat.zero_le _
    | cons range ranges ih =>
      rw [List.forall_mem_cons] at hranges
      have hpart := @length_part_le boundary type file range hranges.1 hsize
      have hrest := ih hranges.2
      rw [List.flatMap_cons, List.length_append, List.length_append, hline, List.map_cons,
        List.sum_cons, List.length_cons, Nat.succ_mul]
      omega
  simp only [multipart, Utf8.encode_append, List.length_append, length_encode_boundary, hdashes,
    hlast]
  omega

/-! ### Responses -/

variable (libraries : Libraries)

/-- What the client gets for the ranges: their bytes in order, or the whole file where they
are together longer than it. -/
def carried (boundary : Boundary) (file : File) (ranges : List Range) : List UInt8 :=
  if file.size < (ranges.map Range.length).sum then file.bytes
  else
    match ranges with
    | [] => file.bytes
    | [range] => range.bytesOf file
    | ranges => multipart boundary (contentType libraries file) file ranges

/-- No sum that the response is computed with reaches `2 ^ 64`. -/
def Fits (boundary : Boundary) (file : File) (ranges : List Range) : Prop :=
  (ranges.map Range.length).sum < 2 ^ 64 ∧ (carried libraries boundary file ranges).length < 2 ^ 64

/-- The body, and the length that is announced for it. -/
def Response.Carries (response : Response) (body : List UInt8) : Prop :=
  response.body = body ∧ response.headers .contentLength = some (decimal body.length)

theorem insert_self (headers : HeaderMap) (name : HeaderName) (value : List Char) :
    headers.insert name value name = some value := Function.update_self name _ headers

theorem respond_carries (hranges : ∀ range ∈ ranges, range.Within file.size)
    (hfits : Fits libraries boundary file ranges) :
    (respond libraries boundary .get file ranges).Carries
      (carried libraries boundary file ranges) := by
  obtain ⟨hsum, hlength⟩ := hfits
  have htotal : wrappingSum (ranges.map Range.length) = (ranges.map Range.length).sum := by
    rw [wrappingSum_eq, Nat.mod_eq_of_lt hsum]
  have hget : ¬Method.get = Method.head := by decide
  simp only [carried] at hlength ⊢
  simp only [respond, htotal, if_neg hget]
  have hwhole := insert_self (fileHeaders libraries file) .contentLength (decimal file.size)
  by_cases hlong : file.size < (ranges.map Range.length).sum
  · rw [if_pos hlong, if_pos hlong]
    exact ⟨rfl, hwhole⟩
  · rw [if_neg hlong] at hlength
    rw [if_neg hlong, if_neg hlong]
    rcases ranges with _ | ⟨range, _ | ⟨second, rest⟩⟩
    · exact ⟨rfl, hwhole⟩
    · refine ⟨rfl, ?_⟩
      simp only [insert_self, length_bytesOf (hranges range List.mem_cons_self)]
    · refine ⟨multipart_eq (List.cons_ne_nil _ _), ?_⟩
      simp only [insert_self]
      rw [announced_eq (List.cons_ne_nil _ _) hranges, Nat.mod_eq_of_lt hlength]

/-- A file for which no sum can overflow, whatever is asked for. -/
theorem fits_of_size (hcount : ranges.length ≤ maxRanges)
    (hranges : ∀ range ∈ ranges, range.Within file.size)
    (hsize : maxRanges * (file.size + (Utf8.encode (contentType libraries file)).length + 200) <
      2 ^ 64) : Fits libraries boundary file ranges := by
  have hcap : maxRanges = 200 := rfl
  rw [hcap] at hcount hsize
  have hsum : ∀ (ranges : List Range), (∀ range ∈ ranges, range.Within file.size) →
      (ranges.map Range.length).sum ≤ ranges.length * file.size := by
    intro ranges hranges
    induction ranges with
    | nil => exact Nat.zero_le _
    | cons range ranges ih =>
      rw [List.forall_mem_cons] at hranges
      have hone : range.start + range.length ≤ file.size := hranges.1.2
      have hrest := ih hranges.2
      rw [List.map_cons, List.sum_cons, List.length_cons, Nat.succ_mul]
      omega
  have htotal := (hsum ranges hranges).trans (Nat.mul_le_mul_right file.size hcount)
  refine ⟨by omega, ?_⟩
  have hwhole : file.bytes.length < 2 ^ 64 := by
    have hbytes : file.size = file.bytes.length := rfl
    omega
  simp only [carried]
  by_cases hlong : file.size < (ranges.map Range.length).sum
  · rw [if_pos hlong]
    exact hwhole
  · rw [if_neg hlong]
    match ranges, hranges, hcount, hlong with
    | [], _, _, _ => exact hwhole
    | [range], hranges, _, _ =>
      have hinside : range.start + range.length ≤ file.size :=
        (hranges range List.mem_cons_self).2
      simp only [length_bytesOf (hranges range List.mem_cons_self)]
      omega
    | first :: second :: rest, hranges, hcount, hlong =>
      have hbody := @length_multipart_le boundary (contentType libraries file) file _ hranges
        (by omega)
      have hheaders := Nat.mul_le_mul_right
        ((Utf8.encode (contentType libraries file)).length + 169) hcount
      simp only
      omega

/-- Every range that is read lies in the file. A header that names bytes of the file is read
as the ranges of just those bytes, in order. Where no precondition ends the request, the
response carries the bytes of the ranges, or the whole file, and announces their number; and
no sum overflows for a file of up to about a two hundredth of `2 ^ 64` bytes. -/
theorem range_responses_exact :
    (∀ header size ranges, parseRange header size = .ok ranges →
      ranges.length ≤ maxRanges ∧ ∀ range ∈ ranges, range.Within size) ∧
    (∀ header size specs, Says maxRanges header specs → (∀ spec ∈ specs, spec.Below (2 ^ 63)) →
      (∃ spec ∈ specs, spec.Satisfiable size) →
      ∃ ranges, parseRange header size = .ok ranges ∧
        List.Forall₂
          (fun spec range => ∀ position, range.Covers position ↔ spec.Names size position)
          (specs.filter fun spec => spec.Satisfiable size) ranges) ∧
    (∀ libraries boundary file request ranges, stopped libraries .get request file = none →
      parseRange (rangeHeader libraries .get request file) file.size = .ok ranges →
      (Fits libraries boundary file ranges →
        ∃ response, serve libraries boundary .get request (.ok file) = .ok response ∧
          response.Carries (carried libraries boundary file ranges)) ∧
      (maxRanges * (file.size + (Utf8.encode (contentType libraries file)).length + 200) < 2 ^ 64 →
        Fits libraries boundary file ranges)) := by
  refine ⟨fun _ _ _ => parseRange_within, fun _ _ _ => parseRange_exact, ?_⟩
  intro libraries boundary file request ranges hstopped hranges
  obtain ⟨hcount, hwithin⟩ := parseRange_within hranges
  refine ⟨fun hfits => ?_, fits_of_size libraries hcount hwithin⟩
  refine ⟨respond libraries boundary .get file ranges, ?_, respond_carries libraries hwithin hfits⟩
  simp only [serve, hstopped, hranges]

/-! ### A file of ten bytes -/

def noLibraries : Libraries where
  guessType _ := none
  parseHttpDate _ := none
  fmtHttpDate _ := []

def zeros : Boundary where
  text := List.replicate 60 '0'
  length := rfl
  ascii c hc := by rw [(List.mem_replicate.mp hc).2]; decide

def tenBytes : File where
  extension := some "flac".toList
  modified := none
  bytes := Utf8.encode "0123456789".toList

def asking (header : String) : HeaderMap := HeaderMap.empty.insert .range header.toList

/-- A list of two ranges, as a client writes it. -/
theorem says_between {header : List Char} {first last first' last' : ℕ}
    {start stop start' stop' : List Char} (hstart : Numerals.digitsValue start = some first)
    (hstop : Numerals.digitsValue stop = some last)
    (hstart' : Numerals.digitsValue start' = some first')
    (hstop' : Numerals.digitsValue stop' = some last') (horder : first ≤ last)
    (horder' : first' ≤ last')
    (hheader : header = "bytes=".toList ++
      [','].intercalate [start ++ '-' :: stop, start' ++ '-' :: stop']) :
    Says maxRanges header [.between first last, .between first' last'] := by
  have hblanks : ∀ c ∈ ([] : List Char), RangeHeader.isBlank c = true :=
    fun _ hc => absurd hc List.not_mem_nil
  have hfirst := Spec.Written.between hstart hstop
  have hsecond := Spec.Written.between hstart' hstop'
  have helements := RangeHeader.Elements.spec hblanks hblanks hfirst
    (.spec hblanks hblanks hsecond .nil)
  simp only [List.nil_append, List.append_nil] at helements
  have hlimit : 2 ≤ maxRanges := by decide
  refine ⟨_, hheader, helements, hlimit, List.cons_ne_nil _ _, ?_⟩
  rw [List.forall_mem_cons, List.forall_mem_singleton]
  exact ⟨horder, horder'⟩

theorem two_ranges_served :
    (∀ range ∈ [Range.mk 0 1, ⟨8, 2⟩], range.Within 10) ∧
    (∃ ranges, parseRange "bytes=0-0,8-20".toList 10 = .ok ranges ∧
      List.Forall₂ (fun spec range => ∀ position, range.Covers position ↔ spec.Names 10 position)
        [Spec.between 0 0, .between 8 20] ranges) ∧
    ∃ response,
      serve noLibraries zeros .get (asking "bytes=0-0,8-20") (.ok tenBytes) = .ok response ∧
        response.Carries (carried noLibraries zeros tenBytes [⟨0, 1⟩, ⟨8, 2⟩]) := by
  obtain ⟨hwithin, hexact, hserved⟩ := range_responses_exact
  have hsays : Says maxRanges "bytes=0-0,8-20".toList [.between 0 0, .between 8 20] :=
    @says_between _ 0 0 8 20 ['0'] ['0'] ['8'] ['2', '0'] (by decide) (by decide) (by decide)
      (by decide) (by decide) (by decide) (by decide +kernel)
  have hstopped : stopped noLibraries .get (asking "bytes=0-0,8-20") tenBytes = none := by
    rw [← Option.isNone_iff_eq_none]
    decide +kernel
  have hparsed := hserved noLibraries zeros tenBytes (asking "bytes=0-0,8-20") [⟨0, 1⟩, ⟨8, 2⟩]
    hstopped (by decide +kernel)
  refine ⟨(hwithin "bytes=0-0,8-20".toList 10 _ (by decide +kernel)).2, ?_, ?_⟩
  · exact hexact _ 10 _ hsays (by decide) (by decide)
  · exact hparsed.1 (hparsed.2 (by decide +kernel))

/-- Two ranges that are together longer than the file are not sent, a last position beyond
63 bits and a unit in capitals are not read, and the sum of three ranges of the longest file
overflows. -/
theorem not_every_range_carried :
    (¬∀ request ranges, stopped noLibraries .get request tenBytes = none →
      parseRange (rangeHeader noLibraries .get request tenBytes) tenBytes.size = .ok ranges →
      1 < ranges.length → ∀ response,
        serve noLibraries zeros .get request (.ok tenBytes) = .ok response →
        response.body =
          multipart zeros (contentType noLibraries tenBytes) tenBytes ranges) ∧
    (¬∀ header specs, Says maxRanges header specs → (∃ spec ∈ specs, spec.Satisfiable 10) →
      ∃ ranges, parseRange header 10 = .ok ranges) ∧
    parseRange "Bytes=0-0".toList 10 = .error .invalid ∧
    ¬∀ header ranges, parseRange header (2 ^ 63 - 1) = .ok ranges →
      wrappingSum (ranges.map Range.length) = (ranges.map Range.length).sum := by
  refine ⟨fun hall => ?_, fun hall => ?_, by decide +kernel, fun hall => ?_⟩
  · have hstopped : stopped noLibraries .get (asking "bytes=0-9,0-9") tenBytes = none := by
      rw [← Option.isNone_iff_eq_none]
      decide +kernel
    have hranges : parseRange (rangeHeader noLibraries .get (asking "bytes=0-9,0-9") tenBytes)
        tenBytes.size = .ok [⟨0, 10⟩, ⟨0, 10⟩] := by decide +kernel
    have hbody := hall (asking "bytes=0-9,0-9") _ hstopped hranges (by decide)
      (respond noLibraries zeros .get tenBytes [⟨0, 10⟩, ⟨0, 10⟩])
      (by simp only [serve, hstopped, hranges])
    revert hbody
    decide +kernel
  · have hsays : Says maxRanges "bytes=0-0,1-9223372036854775808".toList
        [.between 0 0, .between 1 (2 ^ 63)] :=
      @says_between _ 0 0 1 (2 ^ 63) ['0'] ['0'] ['1'] "9223372036854775808".toList (by decide)
        (by decide +kernel) (by decide) (by decide +kernel) (by decide) (by decide)
        (by decide +kernel)
    obtain ⟨ranges, hranges⟩ := hall _ _ hsays (by decide)
    have hinvalid : parseRange "bytes=0-0,1-9223372036854775808".toList 10 = .error .invalid := by
      decide +kernel
    rw [hinvalid] at hranges
    cases hranges
  · have hsum := hall "bytes=0-,0-,0-".toList
      [⟨0, 2 ^ 63 - 1⟩, ⟨0, 2 ^ 63 - 1⟩, ⟨0, 2 ^ 63 - 1⟩] (by decide +kernel)
    revert hsum
    decide +kernel

end Harmony.ServeFile
