/-
# The packets of an analysed stream

Both reads of a stream see the same pages, so that what the analysis counts is what the packets
have. The last packet is marked where the page that ends the stream ends a packet as well.
-/

import Harmony.Inspect.Ogg

namespace Harmony.Inspect.Ogg

open Checked (fail slice)
open Lacing (assemble total LaysOut)

/-! ### Pages -/

/-- The pages of a stream to its end. -/
def Reads : List UInt8 → List Page → Prop
  | data, [] => readPage data = .error .eof
  | data, page :: rest => ∃ next, readPage data = .ok (page, next) ∧ Reads next rest

/-- A page has the bytes of its segments. -/
def Page.IsWhole (page : Page) : Prop := total page.segments = page.payload.length

variable {page : Page} {data : List UInt8}

theorem readPage_eq_ok {data next : List UInt8} (h : readPage data = .ok (page, next)) :
    page.IsWhole ∧ next.length < data.length := by
  rw [readPage] at h
  split_ifs at h with hnone hshort hheader
  have hlong : pageHeaderSizeBytes ≤ data.length := by
    rw [List.length_take] at hshort
    omega
  have hsize : 0 < pageHeaderSizeBytes := by decide
  rw [readBody] at h
  simp only at h
  split_ifs at h with htable hpayload hsum
  cases h
  constructor
  · rw [Page.IsWhole, List.length_take]
    exact (Nat.min_eq_left (Nat.le_of_not_lt hpayload)).symm
  · simp only [List.length_drop]
    omega

theorem Reads.isWhole {pages : List Page} (h : Reads data pages) :
    ∀ page ∈ pages, page.IsWhole := by
  induction pages generalizing data with
  | nil => exact fun page hpage => absurd hpage List.not_mem_nil
  | cons page rest ih =>
    obtain ⟨next, hread, hrest⟩ := h
    intro other hother
    rcases List.mem_cons.mp hother with rfl | hother
    · exact (readPage_eq_ok hread).1
    · exact ih hrest other hother

/-- A stream has its pages in one way. -/
theorem Reads.unique {pages pages' : List Page} (h : Reads data pages) (h' : Reads data pages') :
    pages = pages' := by
  induction pages generalizing data pages' with
  | nil =>
    cases pages' with
    | nil => rfl
    | cons page rest =>
      obtain ⟨next, hread, -⟩ := h'
      cases h.symm.trans hread
  | cons page rest ih =>
    obtain ⟨next, hread, hrest⟩ := h
    cases pages' with
    | nil => cases hread.symm.trans h'
    | cons page' rest' =>
      obtain ⟨next', hread', hrest'⟩ := h'
      cases hread.symm.trans hread'
      rw [ih hrest hrest']

/-- The analysis has gone over the pages. -/
theorem reads_of_analyzeFrom {headerPackets fuel call : ℕ} {isCancelled : ℕ → Bool}
    {scan final : Scan} (h : analyzeFrom headerPackets isCancelled fuel call data scan = .ok final)
    :
    ∃ pages, Reads data pages ∧ pages.foldlM (scanPage headerPackets) scan = .ok final := by
  induction fuel generalizing call data scan with
  | zero => cases h
  | succ fuel ih =>
    rw [analyzeFrom] at h
    split_ifs at h with hcancelled
    · cases h
    · cases hread : readPage data with
      | error error =>
        rw [hread] at h
        cases error with
        | eof =>
          cases h
          exact ⟨[], hread, rfl⟩
        | invalid message => cases h
      | ok read =>
        obtain ⟨page, rest⟩ := read
        rw [hread] at h
        simp only at h
        cases hscan : scanPage headerPackets scan page with
        | error message =>
          rw [hscan] at h
          cases h
        | ok next =>
          rw [hscan] at h
          obtain ⟨pages, hreads, hfold⟩ := ih h
          refine ⟨page :: pages, ⟨rest, hread, hreads⟩, ?_⟩
          rw [List.foldlM_cons, hscan]
          exact hfold

/-! ### The packets of pages -/

def packetOf (page : Page) (data : List UInt8) : OggPacket := ⟨data, page.granule, false, false⟩

/-- The packets that pages end, and what they leave of the next one. -/
def packetsOf : List Page → List UInt8 → List OggPacket × List UInt8
  | [], begun => ([], begun)
  | page :: rest, begun =>
    let ended := assemble page.segments page.payload begun
    let next := packetsOf rest ended.2
    (markLast page (ended.1.map (packetOf page)) ++ next.1, next.2)

theorem collectSegments_eq {segments begun : List UInt8} {offset : ℕ}
    (h : offset + total segments ≤ page.payload.length) :
    collectSegments page segments offset begun =
      .ok ((assemble segments (page.payload.drop offset) begun).1.map (packetOf page),
        (assemble segments (page.payload.drop offset) begun).2) := by
  induction segments generalizing offset begun with
  | nil => rfl
  | cons segment rest ih =>
    rw [Lacing.total_cons] at h
    rw [collectSegments, Checked.slice_of_le (Nat.le_add_right _ _) (by omega), Checked.ok_bind,
      Nat.add_sub_cancel_left, assemble, List.drop_drop]
    by_cases hshort : segment < maxSegmentSize
    · rw [if_pos hshort, if_pos (show segment < 255 from hshort), ih (by omega)]
      rfl
    · rw [if_neg hshort, if_neg (show ¬segment < 255 from hshort), ih (by omega)]

theorem packetsFrom_eq {pages : List Page} {data begun : List UInt8} {fuel : ℕ}
    {out : List OggPacket} (h : Reads data pages) (hfuel : data.length < fuel) :
    packetsFrom fuel data out begun = .ok (out ++ (packetsOf pages begun).1) := by
  induction pages generalizing fuel data out begun with
  | nil =>
    obtain ⟨fuel, rfl⟩ := Nat.exists_eq_add_of_lt hfuel
    have hread : readPage data = .error .eof := h
    rw [packetsFrom, hread]
    exact congrArg Except.ok (List.append_nil out).symm
  | cons page rest ih =>
    obtain ⟨fuel, rfl⟩ := Nat.exists_eq_add_of_lt hfuel
    obtain ⟨next, hread, hrest⟩ := h
    obtain ⟨hwhole, hless⟩ := readPage_eq_ok hread
    have hsegments := @collectSegments_eq page page.segments begun 0
      (by rw [Nat.zero_add]; exact Nat.le_of_eq hwhole)
    rw [List.drop_zero] at hsegments
    rw [packetsFrom, hread]
    simp only
    rw [hsegments, Checked.ok_bind]
    simp only
    rw [ih hrest (by omega), packetsOf, List.append_assoc]

theorem packets_eq {file : File} {pages : List Page} (h : Reads file.bytes pages) :
    packets file = .ok (packetsOf pages []).1 := by
  have hfuel : file.bytes.length < file.size + 1 := Nat.lt_succ_self _
  rw [packets, packetsFrom_eq h hfuel, List.nil_append]

theorem map_data_markLast (page : Page) (packets : List OggPacket) :
    (markLast page packets).map OggPacket.data = packets.map OggPacket.data := by
  induction packets with
  | nil => rfl
  | cons packet rest ih =>
    cases rest with
    | nil => rfl
    | cons second rest =>
      rw [markLast, List.map_cons, ih]
      · rfl
      · exact List.cons_ne_nil second rest

/-- The packets of pages are those of all their segments. -/
theorem map_data_packetsOf {pages : List Page} {begun : List UInt8}
    (h : ∀ page ∈ pages, page.IsWhole) :
    ((packetsOf pages begun).1.map OggPacket.data, (packetsOf pages begun).2) =
      assemble (pages.flatMap Page.segments) (pages.flatMap Page.payload) begun := by
  induction pages generalizing begun with
  | nil => rfl
  | cons page rest ih =>
    rw [List.flatMap_cons, List.flatMap_cons,
      Lacing.assemble_append _ (h page List.mem_cons_self),
      ← ih fun other hother => h other (List.mem_cons_of_mem _ hother), packetsOf, List.map_append,
      map_data_markLast, List.map_map]
    have hsame : OggPacket.data ∘ packetOf page = id := rfl
    rw [hsame, List.map_id]

theorem total_pages {pages : List Page} (h : ∀ page ∈ pages, page.IsWhole) :
    total (pages.flatMap Page.segments) = (pages.flatMap Page.payload).length := by
  induction pages with
  | nil => rfl
  | cons page rest ih =>
    rw [List.flatMap_cons, List.flatMap_cons, Lacing.total_append, List.length_append,
      h page List.mem_cons_self, ih fun other hother => h other (List.mem_cons_of_mem _ hother)]

/-! ### What the analysis counts -/

/-- How many bytes the packets have that are not headers. -/
def audioBytes (headerPackets : ℕ) (packets : List (List UInt8)) : ℕ :=
  ((packets.drop headerPackets).map List.length).sum

/-- The analysis has gone on over these packets and what is left of the next one. -/
structure Counts (headerPackets : ℕ) (scan next : Scan) (packets : List (List UInt8))
    (left : List UInt8) : Prop where
  partialBytes : next.partialBytes = left.length
  packetIndex : next.packetIndex = scan.packetIndex + packets.length
  encoded : next.analysis.encodedAudioBytes =
    scan.analysis.encodedAudioBytes + audioBytes (headerPackets - scan.packetIndex) packets
  hasEos : next.hasEos = scan.hasEos

theorem audioBytes_append (headerPackets : ℕ) (front rest : List (List UInt8)) :
    audioBytes headerPackets (front ++ rest) =
      audioBytes headerPackets front + audioBytes (headerPackets - front.length) rest := by
  rw [audioBytes, audioBytes, audioBytes, List.drop_append, List.map_append, List.sum_append]

theorem audioBytes_cons (headerPackets : ℕ) (packet : List UInt8) (rest : List (List UInt8)) :
    audioBytes headerPackets (packet :: rest) =
      (if headerPackets = 0 then packet.length else 0) + audioBytes (headerPackets - 1) rest := by
  cases headerPackets with
  | zero => rfl
  | succ n => rw [if_neg n.succ_ne_zero, Nat.zero_add]; rfl

section Counting

variable {headerPackets : ℕ} {scan : Scan}

theorem counts_of_scanSegments {segments bytes begun : List UInt8} {next : Scan}
    (h : segments.foldlM (scanSegment headerPackets) scan = .ok next)
    (hbytes : total segments = bytes.length) (hbegun : scan.partialBytes = begun.length) :
    Counts headerPackets scan next (assemble segments bytes begun).1
      (assemble segments bytes begun).2 := by
  induction segments generalizing scan bytes begun with
  | nil =>
    cases h
    exact ⟨hbegun, rfl, by simp [assemble, audioBytes], rfl⟩
  | cons segment rest ih =>
    rw [Lacing.total_cons] at hbytes
    rw [List.foldlM_cons] at h
    simp only [scanSegment] at h
    have hrest : total rest = (bytes.drop segment.toNat).length := by
      rw [List.length_drop]
      omega
    have hsize : scan.partialBytes + segment.toNat =
        (begun ++ bytes.take segment.toNat).length := by
      rw [List.length_append, List.length_take]
      omega
    split_ifs at h with hlong hshort
    · cases h
    · obtain ⟨hleft, hindex, hencoded, heos⟩ := @ih _ _ [] h hrest rfl
      rw [assemble, if_pos (show segment < 255 from hshort)]
      refine ⟨hleft, ?_, ?_, heos⟩
      · rw [hindex, List.length_cons]
        change scan.packetIndex + 1 + _ = _
        omega
      · -- The packet counts where no header is left.
        have hheader : headerPackets - scan.packetIndex = 0 ↔ headerPackets ≤ scan.packetIndex :=
          Nat.sub_eq_zero_iff_le
        have hrestIndex : headerPackets - scan.packetIndex - 1 =
            headerPackets - (scan.packetIndex + 1) := Nat.sub_sub _ _ _
        change next.analysis.encodedAudioBytes =
          scan.analysis.encodedAudioBytes + audioBytes (headerPackets - scan.packetIndex) (_ :: _)
        rw [hencoded, audioBytes_cons, ← hsize, hrestIndex, ← Nat.add_assoc]
        change scan.analysis.encodedAudioBytes + (if _ then _ else 0) + _ = _
        rw [if_congr hheader.symm rfl rfl]
        rfl
    · have hnext : rest.foldlM (scanSegment headerPackets)
          { scan with partialBytes := scan.partialBytes + segment.toNat } = .ok next := h
      rw [assemble, if_neg (show ¬segment < 255 from hshort)]
      have hcounts := ih hnext hrest hsize
      exact ⟨hcounts.partialBytes, hcounts.packetIndex, hcounts.encoded, hcounts.hasEos⟩

theorem scanPage_eq_ok {next : Scan} (h : scanPage headerPackets scan page = .ok next) :
    validateContinuity page scan = .ok () ∧
      ∃ last, page.segments.foldlM (scanSegment headerPackets) (beginPage page scan) = .ok last ∧
        next = endPage page last := by
  rw [scanPage] at h
  cases hvalid : validateContinuity page scan with
  | error message =>
    rw [hvalid] at h
    cases h
  | ok _ =>
    rw [hvalid] at h
    have hscan : scanSegments headerPackets scan page = .ok next := h
    rw [scanSegments] at hscan
    cases hsegments : page.segments.foldlM (scanSegment headerPackets) (beginPage page scan) with
    | error message =>
      rw [hsegments] at hscan
      cases hscan
    | ok last =>
      rw [hsegments] at hscan
      exact ⟨rfl, last, rfl, (Except.ok.inj hscan).symm⟩

theorem counts_of_scanPages {pages : List Page} {begun : List UInt8} {final : Scan}
    (h : pages.foldlM (scanPage headerPackets) scan = .ok final)
    (hwhole : ∀ page ∈ pages, page.IsWhole) (hbegun : scan.partialBytes = begun.length) :
    final.partialBytes = (packetsOf pages begun).2.length ∧
      final.packetIndex = scan.packetIndex + (packetsOf pages begun).1.length ∧
      final.analysis.encodedAudioBytes = scan.analysis.encodedAudioBytes +
        audioBytes (headerPackets - scan.packetIndex)
          ((packetsOf pages begun).1.map OggPacket.data) := by
  induction pages generalizing scan begun with
  | nil =>
    cases h
    exact ⟨hbegun, rfl, by simp [packetsOf, audioBytes]⟩
  | cons page rest ih =>
    rw [List.foldlM_cons] at h
    cases hpage : scanPage headerPackets scan page with
    | error message =>
      rw [hpage] at h
      cases h
    | ok next =>
      rw [hpage] at h
      obtain ⟨-, last, hsegments, rfl⟩ := scanPage_eq_ok hpage
      obtain ⟨hover, hindex, hencoded, -⟩ :=
        counts_of_scanSegments hsegments (hwhole page List.mem_cons_self) hbegun
      have hend : (endPage page last).partialBytes = last.partialBytes ∧
          (endPage page last).packetIndex = last.packetIndex ∧
          (endPage page last).analysis.encodedAudioBytes = last.analysis.encodedAudioBytes := by
        rw [endPage]
        split_ifs <;> exact ⟨rfl, rfl, rfl⟩
      obtain ⟨hrestOver, hrestIndex, hrestEncoded⟩ :=
        ih h (fun other hother => hwhole other (List.mem_cons_of_mem _ hother))
          (hend.1.trans hover)
      have hdata : (packetsOf (page :: rest) begun).1.map OggPacket.data =
          (assemble page.segments page.payload begun).1 ++
            (packetsOf rest (assemble page.segments page.payload begun).2).1.map
              OggPacket.data := by
        rw [packetsOf, List.map_append, map_data_markLast, List.map_map]
        exact congrArg (· ++ _) (List.map_id _)
      have hlength := congrArg List.length hdata
      rw [List.length_map, List.length_append, List.length_map] at hlength
      have hbefore : (beginPage page scan).packetIndex = scan.packetIndex := rfl
      have hstarted : (beginPage page scan).analysis = scan.analysis := rfl
      refine ⟨hrestOver, by omega, ?_⟩
      rw [hrestEncoded, hend.2.2, hend.2.1, hencoded, hindex, hdata, audioBytes_append, hbefore,
        hstarted, Nat.sub_sub, Nat.add_assoc]

/-- Only the last page ends the stream, with the final granule. -/
theorem ends_of_scanPages {pages : List Page} {final : Scan}
    (h : pages.foldlM (scanPage headerPackets) scan = .ok final)
    (hwhole : ∀ page ∈ pages, page.IsWhole) (hscan : scan.hasEos = false)
    (hfinal : final.hasEos = true) :
    ∃ front last, pages = front ++ [last] ∧ last.isEndOfStream = true ∧
      (∀ page ∈ front, page.isEndOfStream = false) ∧
      final.analysis.finalGranule = last.granule := by
  induction pages generalizing scan with
  | nil =>
    cases h
    rw [hscan] at hfinal
    cases hfinal
  | cons page rest ih =>
    rw [List.foldlM_cons] at h
    cases hpage : scanPage headerPackets scan page with
    | error message =>
      rw [hpage] at h
      cases h
    | ok next =>
      rw [hpage] at h
      obtain ⟨-, last, hsegments, rfl⟩ := scanPage_eq_ok hpage
      by_cases hends : page.isEndOfStream = true
      · have hlast : endPage page last =
            { last with hasEos := true, analysis.finalGranule := page.granule } := if_pos hends
        cases rest with
        | nil =>
          cases h
          refine ⟨[], page, rfl, hends, fun other hother => absurd hother List.not_mem_nil, ?_⟩
          rw [hlast]
        | cons second rest =>
          -- Nothing may follow the page.
          have hsecond : scanPage headerPackets (endPage page last) second =
              .error "OGG data follows end-of-stream page" := by
            rw [scanPage, validateContinuity, hlast, if_pos rfl]
            rfl
          have hbind : (scanPage headerPackets (endPage page last) second >>= fun scan =>
              rest.foldlM (scanPage headerPackets) scan) = .ok final := by
            rw [← List.foldlM_cons]
            exact h
          rw [hsecond] at hbind
          cases hbind
      · have hlast : endPage page last = last := if_neg hends
        have hbegun : (beginPage page scan).partialBytes =
            (List.replicate scan.partialBytes (0 : UInt8)).length :=
          List.length_replicate.symm
        have heos : last.hasEos = scan.hasEos :=
          (counts_of_scanSegments hsegments (hwhole page List.mem_cons_self) hbegun).hasEos
        rw [hlast] at h
        obtain ⟨front, final', rfl, hend, hfront, hgranule⟩ :=
          ih h (fun other hother => hwhole other (List.mem_cons_of_mem _ hother)) (heos.trans hscan)
        refine ⟨page :: front, final', rfl, hend, ?_, hgranule⟩
        intro other hother
        rcases List.mem_cons.mp hother with rfl | hother
        · exact Bool.eq_false_iff.mpr hends
        · exact hfront other hother

end Counting

/-! ### The last packet -/

/-- The last packet is marked, and no other one, and it carries the granule. -/
def MarksLast (packets : List OggPacket) (granule : ℕ) : Prop :=
  ∃ front last, packets = front ++ [last] ∧ (∀ packet ∈ front, packet.isLast = false) ∧
    last.isLast = true ∧ last.granule = granule

theorem markLast_append (page : Page) (front : List OggPacket) (last : OggPacket) :
    markLast page (front ++ [last]) =
      front ++ [{ last with lastOnPage := true, isLast := page.isEndOfStream }] := by
  induction front with
  | nil => rfl
  | cons packet rest ih =>
    rw [List.cons_append, markLast, ih]
    · rfl
    · exact List.append_ne_nil_of_right_ne_nil _ (List.cons_ne_nil _ _)

theorem isLast_of_mem_markLast {ended : List (List UInt8)} {packet : OggPacket}
    (h : packet ∈ markLast page (ended.map (packetOf page))) (hpage : page.isEndOfStream = false) :
    packet.isLast = false := by
  rcases List.eq_nil_or_concat' ended with rfl | ⟨front, last, rfl⟩
  · cases h
  · rw [List.map_append, List.map_cons, List.map_nil, markLast_append] at h
    rcases List.mem_append.mp h with hfront | hlast
    · obtain ⟨data, -, rfl⟩ := List.mem_map.mp hfront
      rfl
    · rw [List.mem_singleton.mp hlast]
      exact hpage

theorem packetsOf_append (front rest : List Page) (begun : List UInt8) :
    packetsOf (front ++ rest) begun =
      ((packetsOf front begun).1 ++ (packetsOf rest (packetsOf front begun).2).1,
        (packetsOf rest (packetsOf front begun).2).2) := by
  induction front generalizing begun with
  | nil => rfl
  | cons page front ih =>
    rw [List.cons_append, packetsOf, ih, packetsOf, List.append_assoc]

theorem isLast_packetsOf {pages : List Page} {begun : List UInt8}
    (h : ∀ page ∈ pages, page.isEndOfStream = false) :
    ∀ packet ∈ (packetsOf pages begun).1, packet.isLast = false := by
  induction pages generalizing begun with
  | nil => exact fun packet hpacket => absurd hpacket List.not_mem_nil
  | cons page rest ih =>
    intro packet hpacket
    rcases List.mem_append.mp hpacket with hown | hrest
    · exact isLast_of_mem_markLast hown (h page List.mem_cons_self)
    · exact ih (fun other hother => h other (List.mem_cons_of_mem _ hother)) packet hrest

/-- Segments that leave nothing end a packet. -/
theorem assemble_ne_nil {segments bytes begun : List UInt8} (hsegments : segments ≠ [])
    (hbytes : total segments = bytes.length) (hleft : (assemble segments bytes begun).2 = []) :
    (assemble segments bytes begun).1 ≠ [] := by
  intro hnone
  have hflat := @Lacing.flatten_assemble segments bytes begun hbytes
  rw [hnone, hleft] at hflat
  obtain ⟨hbegun, hempty⟩ := List.append_eq_nil_iff.mp hflat.symm
  have hlaces := (@Lacing.laces_assemble segments bytes begun hbytes (by rw [hbegun]; rfl)).1
  rw [hnone, hleft, hbegun] at hlaces
  exact hsegments hlaces

/-- The last packet is marked where the last page has segments. -/
theorem marksLast_iff {front : List Page} {last : Page} {granule : ℕ}
    (hfront : ∀ page ∈ front, page.isEndOfStream = false) (hlast : last.isEndOfStream = true)
    (hwhole : last.IsWhole) (hgranule : granule = last.granule)
    (hleft : (packetsOf (front ++ [last]) []).2 = []) :
    MarksLast (packetsOf (front ++ [last]) []).1 granule ↔ last.segments ≠ [] := by
  rw [packetsOf_append] at hleft ⊢
  have hbefore := @isLast_packetsOf front [] hfront
  generalize (packetsOf front []).1 = before at hbefore ⊢
  generalize hbegun : (packetsOf front []).2 = begun at hleft ⊢
  have hsplit : (packetsOf [last] begun).1 =
      markLast last ((assemble last.segments last.payload begun).1.map (packetOf last)) :=
    List.append_nil _
  simp only at hleft ⊢
  rw [hsplit]
  constructor
  · rintro ⟨packets, packet, hpackets, -, hmarked, -⟩ hnone
    rw [hnone] at hpackets
    have hmem : packet ∈ before := by
      have hall : before = packets ++ [packet] := (List.append_nil before).symm.trans hpackets
      rw [hall]
      exact List.mem_append_right _ List.mem_cons_self
    rw [hbefore packet hmem] at hmarked
    cases hmarked
  · intro hsegments
    rcases List.eq_nil_or_concat' (assemble last.segments last.payload begun).1 with
      hnil | ⟨ended, data, hended⟩
    · exact absurd hnil (assemble_ne_nil hsegments hwhole hleft)
    · rw [hended, List.map_append, List.map_cons, List.map_nil, markLast_append,
        ← List.append_assoc]
      refine ⟨_, _, rfl, ?_, hlast, hgranule.symm⟩
      intro packet hpacket
      rcases List.mem_append.mp hpacket with hearlier | hown
      · exact hbefore packet hearlier
      · obtain ⟨_, -, rfl⟩ := List.mem_map.mp hown
        rfl

/-- At most the last packet is marked. -/
theorem lastOnly_packetsOf {front : List Page} {last : Page}
    (hfront : ∀ page ∈ front, page.isEndOfStream = false) (before : List OggPacket)
    (packet : OggPacket) (behind : List OggPacket)
    (hsplit : (packetsOf (front ++ [last]) []).1 = before ++ packet :: behind)
    (hmarked : packet.isLast = true) : behind = [] := by
  -- All packets but the last are not marked.
  have hinit : ∀ other ∈ (packetsOf (front ++ [last]) []).1.dropLast, other.isLast = false := by
    have hbefore := @isLast_packetsOf front [] hfront
    rw [packetsOf_append]
    generalize (packetsOf front []).1 = earlier at hbefore ⊢
    have hown : (packetsOf [last] (packetsOf front []).2).1 = markLast last
        ((assemble last.segments last.payload (packetsOf front []).2).1.map (packetOf last)) :=
      List.append_nil _
    simp only
    rw [hown]
    rcases List.eq_nil_or_concat' (assemble last.segments last.payload (packetsOf front []).2).1
      with hnil | ⟨ended, data, hended⟩
    · rw [hnil, List.map_nil, markLast, List.append_nil]
      exact fun other hother => hbefore other (List.dropLast_subset _ hother)
    · rw [hended, List.map_append, List.map_cons, List.map_nil, markLast_append,
        ← List.append_assoc, List.dropLast_concat]
      intro other hother
      rcases List.mem_append.mp hother with hearlier | hmapped
      · exact hbefore other hearlier
      · obtain ⟨_, -, rfl⟩ := List.mem_map.mp hmapped
        rfl
  by_contra hmore
  have hmem : packet ∈ (before ++ packet :: behind).dropLast := by
    rw [List.dropLast_append_of_ne_nil (List.cons_ne_nil _ _), List.dropLast_cons_of_ne_nil hmore]
    exact List.mem_append_right _ List.mem_cons_self
  rw [← hsplit] at hmem
  rw [hinit packet hmem] at hmarked
  cases hmarked

/-! ### The two reads -/

/-- The pages of a file lay these packets out. -/
def IsLaidOut (file : File) (packets : List (List UInt8)) : Prop :=
  ∃ pages, Reads file.bytes pages ∧
    LaysOut packets (pages.flatMap Page.segments) (pages.flatMap Page.payload)

/-- The packets of a file are what its analysis says. -/
structure PacketsAgree (headerPackets : ℕ) (file : File) (analysis : Analysis)
    (found : List OggPacket) : Prop where
  packets : packets file = .ok found
  more : headerPackets < found.length
  payload : ∀ pages, Reads file.bytes pages →
    (found.map OggPacket.data).flatten = pages.flatMap Page.payload
  counted : audioBytes headerPackets (found.map OggPacket.data) = analysis.encodedAudioBytes
  laidOut : ∀ data, IsLaidOut file data ↔ data = found.map OggPacket.data

/-- What an analysis has accepted is read, with what it has counted. -/
theorem packetsAgree_of_analyze {headerPackets : ℕ} {isCancelled : ℕ → Bool} {file : File}
    {analysis : Analysis} (h : analyze headerPackets isCancelled file = .ok analysis) :
    ∃ front last, Reads file.bytes (front ++ [last]) ∧
      PacketsAgree headerPackets file analysis (packetsOf (front ++ [last]) []).1 ∧
      (MarksLast (packetsOf (front ++ [last]) []).1 analysis.finalGranule ↔ last.segments ≠ []) ∧
      ∀ before packet behind, (packetsOf (front ++ [last]) []).1 = before ++ packet :: behind →
        packet.isLast = true → behind = [] := by
  obtain ⟨scan, hscan, hresult⟩ := Checked.bind_eq_ok.mp h
  split_ifs at hresult with hcomplete
  · cases hresult
    obtain ⟨hpage, heos, hover, hmore, hpositive⟩ := hcomplete
    obtain ⟨pages, hreads, hfold⟩ := reads_of_analyzeFrom hscan
    have hwhole := hreads.isWhole
    obtain ⟨hleft, hindex, hencoded⟩ := 
      @counts_of_scanPages headerPackets .start pages [] scan hfold hwhole rfl
    obtain ⟨front, last, rfl, hlast, hfront, hgranule⟩ := ends_of_scanPages hfold hwhole rfl heos
    have hnothing : (packetsOf (front ++ [last]) []).2 = [] := by
      rw [hover] at hleft
      exact List.eq_nil_of_length_eq_zero hleft.symm
    have hall := @map_data_packetsOf (front ++ [last]) [] hwhole
    have htotal := total_pages hwhole
    have hflat := @Lacing.flatten_assemble _ _ [] htotal
    rw [hnothing] at hall
    rw [← hall, List.append_nil, List.nil_append] at hflat
    refine ⟨front, last, hreads, ?_, ?_, lastOnly_packetsOf hfront⟩
    · constructor
      · exact packets_eq hreads
      · rw [hindex] at hmore
        exact Nat.lt_of_lt_of_eq hmore (Nat.zero_add _)
      · intro pages' hpages'
        rw [hpages'.unique hreads]
        exact hflat
      · rw [hencoded]
        exact (Nat.zero_add _).symm
      · intro data
        constructor
        · rintro ⟨pages', hpages', hlays⟩
          rw [hpages'.unique hreads] at hlays
          have hsame := (Lacing.laysOut_iff htotal).mp hlays
          rw [← hall] at hsame
          exact (Prod.mk.inj hsame).1.symm
        · rintro rfl
          exact ⟨_, hreads, (Lacing.laysOut_iff htotal).mpr hall.symm⟩
    · exact marksLast_iff hfront hlast (hwhole last (by simp)) hgranule hnothing
  · cases hresult

/-- The page that ends the stream ends a packet as well. -/
def LastPageHasSegments (file : File) : Prop :=
  ∃ front last, Reads file.bytes (front ++ [last]) ∧ last.segments ≠ []

/-- The two reads of a file agree, and any two files with the same packets have the same data. -/
structure ReadsAgree (headerPackets : ℕ) (file : File) (analysis : Analysis) : Prop where
  agrees : ∃ found, PacketsAgree headerPackets file analysis found ∧
    MarksLast found analysis.finalGranule
  anyLayout : ∀ {headers : ℕ} {isCancelled : ℕ → Bool} {other : File} {analysis' : Analysis},
    analyze headers isCancelled other = .ok analysis' →
      ∀ laid, IsLaidOut file laid → IsLaidOut other laid →
        ∃ found found', packets file = .ok found ∧ packets other = .ok found' ∧
          found.map OggPacket.data = found'.map OggPacket.data

/-- The two reads of an accepted file agree exactly where the last page ends a packet. -/
theorem readsAgree_iff {headerPackets : ℕ} {isCancelled : ℕ → Bool} {file : File}
    {analysis : Analysis} (h : analyze headerPackets isCancelled file = .ok analysis) :
    ReadsAgree headerPackets file analysis ↔ LastPageHasSegments file := by
  obtain ⟨front, last, hreads, hagree, hmarks, -⟩ := packetsAgree_of_analyze h
  constructor
  · rintro ⟨⟨found, hfound, hmarked⟩, -⟩
    have hsame := Except.ok.inj (hfound.packets.symm.trans hagree.packets)
    rw [hsame] at hmarked
    exact ⟨front, last, hreads, hmarks.mp hmarked⟩
  · rintro ⟨front', last', hreads', hsegments⟩
    have hsame : last' = last :=
      List.singleton_inj.mp (List.append_inj' (hreads'.unique hreads) rfl).2
    rw [hsame] at hsegments
    refine ⟨⟨_, hagree, hmarks.mpr hsegments⟩, ?_⟩
    intro headers isCancelled' other analysis' hother laid hlaid hlaid'
    obtain ⟨front', last', -, hagree', -, -⟩ := packetsAgree_of_analyze hother
    refine ⟨_, _, hagree.packets, hagree'.packets, ?_⟩
    rw [← (hagree.laidOut laid).mp hlaid]
    exact (hagree'.laidOut laid).mp hlaid'

/-! ### Two streams -/

section Streams

def headerBytes (headerType : UInt8) (granule sequence checksum segmentCount : ℕ) : List UInt8 :=
  capturePattern ++ [0, headerType] ++ ByteOrder.toLe 8 granule ++ ByteOrder.toLe 4 0 ++
    ByteOrder.toLe 4 sequence ++ ByteOrder.toLe 4 checksum ++ [UInt8.ofNat segmentCount]

/-- A page with its checksum. -/
def pageBytes (headerType : UInt8) (granule sequence : ℕ) (segments payload : List UInt8) :
    List UInt8 :=
  let header := headerBytes headerType granule sequence 0 segments.length
  headerBytes headerType granule sequence (checksum header segments payload).toNat
    segments.length ++ segments ++ payload

/-- Three packets of a byte each, before the last page. -/
def firstPage : List UInt8 := pageBytes beginningOfStreamFlag 1 0 [1, 1, 1] [0x61, 0x62, 0x63]

def endedFile : File :=
  ⟨firstPage ++ pageBytes endOfStreamFlag 5 1 [1] [0x64], by decide +kernel⟩

/-- The last page ends no packet. -/
def emptyEndFile : File :=
  ⟨firstPage ++ pageBytes endOfStreamFlag 5 1 [] [], by decide +kernel⟩

theorem readsAgree_endedFile : ReadsAgree 2 endedFile ⟨2, 5⟩ := by
  have haccepted : analyze 2 (fun _ => false) endedFile = .ok ⟨2, 5⟩ := by
    decide +kernel
  apply (readsAgree_iff haccepted).mpr
  refine ⟨[⟨2, 1, 0, 0, [1, 1, 1], [0x61, 0x62, 0x63]⟩], ⟨4, 5, 0, 1, [1], [0x64]⟩,
    ⟨pageBytes endOfStreamFlag 5 1 [1] [0x64], ?_, [], ?_, ?_⟩, ?_⟩
  · decide +kernel
  · decide +kernel
  · exact (rfl : readPage [] = .error .eof)
  · decide

/-- The stream is accepted, but no packet of it is marked as the last. -/
theorem not_readsAgree_emptyEndFile :
    analyze 2 (fun _ => false) emptyEndFile = .ok ⟨1, 5⟩ ∧ ¬ReadsAgree 2 emptyEndFile ⟨1, 5⟩ := by
  constructor
  · decide +kernel
  · rintro ⟨⟨found, hfound, front, last, rfl, -, hmarked, -⟩, -⟩
    have hpackets : packets emptyEndFile =
        .ok [⟨[0x61], 1, false, false⟩, ⟨[0x62], 1, false, false⟩, ⟨[0x63], 1, true, false⟩] := by
      decide +kernel
    have hsame := Except.ok.inj (hfound.packets.symm.trans hpackets)
    have hlast : last ∈ front ++ [last] := List.mem_append_right _ List.mem_cons_self
    rw [hsame] at hlast
    simp only [List.mem_cons, List.not_mem_nil, or_false] at hlast
    rcases hlast with rfl | rfl | rfl <;> cases hmarked

end Streams

end Harmony.Inspect.Ogg
