/-
# A playlist through both rewriters

The Music Server rewrites a playlist to its own links, and the desktop's proxy puts its
token before each of them. The two disagree about lines of whitespace, which the server
keeps and the desktop takes for references, and about a header that does not begin its
line, which the server takes for a reference. Everything else that the server accepts,
the desktop plays.
-/

import Harmony.MediaProxy.Links
import Harmony.External.Requests
import Mathlib.Data.List.DropRight

namespace Harmony.MediaProxy

open External

/-! ### Texts with references -/

inductive Piece
  | plain (text : List Char)
  | reference (link : List Char)

/-- The text with each reference written in a certain way. -/
def render (write : List Char → List Char) (pieces : List Piece) : List Char :=
  pieces.flatMap fun
    | .plain text => text
    | .reference link => write link

def references (pieces : List Piece) : List (List Char) :=
  pieces.flatMap fun
    | .plain _ => []
    | .reference link => [link]

/-- The second text is the first with each of the links written anew and nothing else
changed. -/
def ChangesOnly (write : List Char → List Char) (links : List (List Char))
    (before after : List Char) : Prop :=
  ∃ pieces, references pieces = links ∧ render id pieces = before ∧ render write pieces = after

variable {rows : List Rewritten}

section Pieces

variable {write : List Char → List Char} {links more : List (List Char)}
  {before after before' after' : List Char}

theorem ChangesOnly.plain (text : List Char) : ChangesOnly write [] text text := by
  refine ⟨[.plain text], rfl, ?_, ?_⟩
  · exact List.append_nil text
  · exact List.append_nil text

theorem ChangesOnly.reference (link : List Char) :
    ChangesOnly write [link] link (write link) := by
  refine ⟨[.reference link], rfl, ?_, ?_⟩
  · exact List.append_nil link
  · exact List.append_nil (write link)

theorem ChangesOnly.append (h : ChangesOnly write links before after)
    (h' : ChangesOnly write more before' after') :
    ChangesOnly write (links ++ more) (before ++ before') (after ++ after') := by
  obtain ⟨pieces, rfl, rfl, rfl⟩ := h
  obtain ⟨pieces', rfl, rfl, rfl⟩ := h'
  refine ⟨pieces ++ pieces', ?_, ?_, ?_⟩
  · exact List.flatMap_append
  · exact List.flatMap_append
  · exact List.flatMap_append

/-- Lines that are changed so, joined by line feeds. -/
theorem ChangesOnly.lines {f : String → List Char} {written : List (List Char)}
    (h : List.Forall₂ (fun row text => ChangesOnly write (row.2.map f) row.1 text) rows written) :
    ChangesOnly write ((rows.flatMap (·.2)).map f) (['\n'].intercalate (rows.map (·.1)))
      (['\n'].intercalate written) := by
  induction h with
  | nil => exact .plain []
  | @cons row text rows written hfirst hrest ih =>
    cases hrest with
    | nil =>
      rw [List.flatMap_cons, List.flatMap_nil, List.append_nil, List.map_cons, List.map_nil,
        List.intercalate_singleton, List.intercalate_singleton]
      exact hfirst
    | cons hnext hlast =>
      rw [List.flatMap_cons, List.map_append, List.map_cons, List.map_cons,
        List.intercalate_cons_cons, List.intercalate_cons_cons, ← List.map_cons]
      have hbreak := hfirst.append (.plain ['\n'])
      rw [List.append_nil] at hbreak
      exact hbreak.append ih

end Pieces

/-! ### What is asked of a playlist -/

def isBlank (line : List Char) : Bool := (Chars.trim line).isEmpty

/-- A blank line is empty or a carriage return, and the first line that is not blank
begins with its `#`. -/
structure Readable (playlist : List Char) : Prop where
  blank : ∀ line ∈ linesOf playlist, isBlank line = true → line = [] ∨ line = ['\r']
  header : ∀ line, (linesOf playlist).find? (!isBlank ·) = some line →
    startsWith ['#'] line = true

/-- The proxy accepts the rewritten playlist, changes only the references, and forwards
a request for each as the link. -/
def Plays (crates : UrlCrates) (token : List Char) (link : String → String)
    (out : Rewritten) : Prop :=
  ∃ written, rewriteHlsManifest crates token out.1 = .ok written ∧
    ChangesOnly ('/' :: token ++ ·) (out.2.map fun url => (link url).toList) out.1 written ∧
    ∀ url ∈ out.2, ∃ uri, crates.target ('/' :: token ++ (link url).toList) = some uri ∧
      proxyRelativeUrl uri token = .ok (link url).toList

/-! ### Whitespace -/

variable {line : List Char} {row : Rewritten} {c : Char}

theorem trimStart_eq_nil_of_isBlank (h : isBlank line = true) :
    trimStart line = [] := by
  rw [isBlank, List.isEmpty_iff] at h
  rw [Chars.trim, Chars.trimMatches, List.reverse_eq_nil_iff, List.dropWhile_eq_nil_iff] at h
  rw [trimStart]
  by_contra hne
  have hhead := List.head_dropWhile_not Chars.isWhitespace hne
  have hmem := List.head_mem hne
  rw [h _ (List.mem_reverse.mpr hmem)] at hhead
  cases hhead

theorem isBlank_iff : isBlank line = true ↔ trimStart line = [] := by
  constructor
  · exact trimStart_eq_nil_of_isBlank
  · intro h
    rw [trimStart] at h
    rw [isBlank, Chars.trim, Chars.trimMatches, h]
    rfl

theorem isBlank_cons_of_not {rest : List Char} (h : Chars.isWhitespace c = false) :
    isBlank (c :: rest) = false := by
  rw [Bool.eq_false_iff, ne_eq, isBlank_iff, trimStart, List.dropWhile_cons, h]
  exact List.cons_ne_nil _ _

theorem startsWith_singleton {c d : Char} {rest : List Char} :
    startsWith [c] (d :: rest) = (c == d) := by
  rw [startsWith, List.isPrefixOf, List.isPrefixOf, Bool.and_true]

/-- A pattern on one line does not begin a text with what follows the line. -/
theorem startsWith_append_break {pattern line rest : List Char} (hbreak : '\n' ∉ pattern) :
    startsWith pattern (line ++ '\n' :: rest) = startsWith pattern line := by
  by_cases hlength : pattern.length ≤ line.length
  · exact Chars.isPrefixOf_append _ hlength
  · have hnot : ∀ text, text = line ++ '\n' :: rest ∨ text = line →
        ¬ startsWith pattern text = true := by
      rintro text htext hstart
      rw [startsWith, List.isPrefixOf_iff_prefix] at hstart
      rcases htext with rfl | rfl
      · have hfront : line ++ ['\n'] <+: pattern := by
          refine List.prefix_of_prefix_length_le ?_ hstart ?_
          · exact ⟨rest, by rw [List.append_assoc, List.singleton_append]⟩
          · rw [List.length_append, List.length_singleton]
            omega
        exact hbreak (hfront.subset (List.mem_append_right line List.mem_cons_self))
      · exact hlength hstart.length_le
    rw [Bool.eq_false_iff.mpr (hnot _ (.inl rfl)), Bool.eq_false_iff.mpr (hnot _ (.inr rfl))]

/-- Past the blank lines the text begins with the first line that is not blank. -/
theorem startsWith_trimStart_lines {pattern : List Char} (hpattern : pattern ≠ [])
    (hbreak : '\n' ∉ pattern) (lines : List (List Char)) :
    startsWith pattern (trimStart (['\n'].intercalate lines)) = true ↔
      ∃ line, lines.find? (!isBlank ·) = some line ∧
        startsWith pattern (trimStart line) = true := by
  have hempty : ¬ startsWith pattern [] = true := by
    rw [startsWith, List.isPrefixOf_iff_prefix, List.prefix_nil]
    exact hpattern
  induction lines with
  | nil =>
    refine iff_of_false hempty ?_
    rintro ⟨line, hfind, -⟩
    cases hfind
  | cons line lines ih =>
    by_cases hblank : isBlank line = true
    · have hspaces : trimStart line = [] := isBlank_iff.mp hblank
      rw [List.find?_cons_of_neg (by rw [hblank]; decide)]
      cases lines with
      | nil =>
        rw [List.intercalate_singleton, hspaces]
        refine iff_of_false hempty ?_
        rintro ⟨line, hfind, -⟩
        cases hfind
      | cons next lines =>
        have hskip : trimStart (['\n'].intercalate (line :: next :: lines)) =
            trimStart (['\n'].intercalate (next :: lines)) := by
          rw [List.intercalate_cons_cons, List.append_assoc, trimStart,
            List.dropWhile_append_of_pos (List.dropWhile_eq_nil_iff.mp hspaces),
            List.singleton_append, List.dropWhile_cons_of_pos (by rfl), ← trimStart]
        rw [hskip]
        exact ih
    · have hfind : (line :: lines).find? (!isBlank ·) = some line := by
        rw [List.find?_cons_of_pos]
        simpa using hblank
      have hstart : startsWith pattern (trimStart (['\n'].intercalate (line :: lines))) =
          startsWith pattern (trimStart line) := by
        cases lines with
        | nil => rw [List.intercalate_singleton]
        | cons next lines =>
          rw [isBlank_iff] at hblank
          rw [List.intercalate_cons_cons, List.append_assoc, trimStart, List.dropWhile_append,
            if_neg (by rwa [List.isEmpty_iff]), ← trimStart, List.singleton_append]
          exact startsWith_append_break hbreak
      rw [hstart, hfind]
      constructor
      · exact fun h => ⟨line, rfl, h⟩
      · rintro ⟨found, hfound, h⟩
        cases hfound
        exact h

/-! ### The links on a line -/

theorem Stream.character_link (stream : Stream) (resource : Segment)
    (hc : c ∈ (stream.link (String.ofList resource.text)).toList) :
    isPathCharacter c = true ∨ c = '/' ∨ c = '?' := by
  have hpath : ∀ names : List Segment, c ∈ pathOf names →
      isPathCharacter c = true ∨ c = '/' ∨ c = '?' := by
    intro names hmem
    obtain ⟨name, -, hname⟩ := List.mem_flatMap.mp hmem
    rcases List.mem_cons.mp hname with rfl | hname
    · exact .inr (.inl rfl)
    · exact .inl (List.all_eq_true.mp name.plain c hname)
  rw [stream.toList_link] at hc
  cases hquery : stream.query resource with
  | none =>
    rw [hquery] at hc
    exact hpath _ hc
  | some query =>
    have hplain := stream.isPlainQuery_query resource
    rw [hquery, isPlainQuery, Option.all_some] at hplain
    rw [hquery, targetText, List.mem_append, List.mem_cons] at hc
    rcases hc with hc | rfl | hc
    · exact hpath _ hc
    · exact .inr (.inr rfl)
    · exact .inl (List.all_eq_true.mp hplain c hc)

theorem Stream.notMem_link (stream : Stream) (resource : Segment)
    (hc : (isPathCharacter c || c == '/' || c == '?') = false) :
    c ∉ (stream.link (String.ofList resource.text)).toList := by
  intro hmem
  rw [Bool.or_eq_false_iff, Bool.or_eq_false_iff, beq_eq_false_iff_ne, beq_eq_false_iff_ne] at hc
  rcases stream.character_link resource hmem with hplain | rfl | rfl
  · rw [hplain] at hc
    cases hc.1.1
  · exact hc.1.2 rfl
  · exact hc.2 rfl

theorem Stream.link_cons (stream : Stream) (resource : Segment) :
    ∃ rest, (stream.link (String.ofList resource.text)).toList = '/' :: rest := by
  rw [stream.toList_link]
  cases stream with
  | station id => exact ⟨_, rfl⟩
  | preview id => exact ⟨_, rfl⟩
  | external id => exact ⟨_, rfl⟩

/-! ### One line -/

section Line

variable {crates : UrlCrates} {token : List Char} {urls : UrlLibrary} {base : Url}
  {stream : Stream} {resource : String → Segment}

/-- The links that the server writes. -/
def linkOf (stream : Stream) (resource : String → Segment) (url : String) : String :=
  stream.link (String.ofList (resource url).text)

theorem proxy_cases {link : String → String} {reference : List Char}
    (h : proxy urls base link reference = .ok row) : ∃ url, row = ((link url).toList, [url]) := by
  rw [proxy] at h
  split at h
  · cases h
  next resolved _ =>
    split at h
    · cases h
    · exact ⟨resolved.text, (Except.ok.inj h).symm⟩

theorem length_uriMarker : uriMarker.length = 5 := rfl

variable (token) in
/-- The attributes that the server has rewritten, the proxy rewrites. -/
theorem rewriteHlsAttributes_rewritten (hlawful : crates.Lawful) {n fuel : ℕ}
    (hserver : rewriteUriAttributes urls base (linkOf stream resource) n line = .ok row)
    (hn : line.length ≤ n) (hfuel : row.1.length ≤ fuel + 1) : ∃ text,
      rewriteHlsAttributes crates token fuel row.1 = .ok text ∧
        ChangesOnly ('/' :: token ++ ·)
          (row.2.map fun url => (linkOf stream resource url).toList) row.1 text := by
  induction n generalizing line row fuel with
  | zero =>
    obtain rfl : line = [] := List.length_eq_zero_iff.mp (Nat.le_zero.mp hn)
    cases hserver
    refine ⟨[], ?_, .plain []⟩
    cases fuel with
    | zero => rfl
    | succ fuel => rfl
  | succ n ih =>
    rcases rewriteUriAttributes_succ hserver with ⟨hmarker, rfl⟩ |
      ⟨before, after, reference, rest, made, tail, hmarker, hquote, hproxy, htail, rfl⟩
    · refine ⟨line, ?_, .plain line⟩
      cases fuel with
      | zero => rfl
      | succ fuel => rw [rewriteHlsAttributes, hmarker]
    · obtain ⟨url, rfl⟩ := proxy_cases hproxy
      have hrest : rest.length ≤ n := by
        rw [Chars.eq_of_splitOnce hmarker, Chars.eq_of_splitOnce hquote] at hn
        simp only [List.length_append, List.length_singleton, length_uriMarker] at hn
        omega
      have hlink : '"' ∉ (linkOf stream resource url).toList :=
        stream.notMem_link (resource url) (by decide)
      simp only [List.length_append, List.length_cons, length_uriMarker] at hfuel
      cases fuel with
      | zero => omega
      | succ fuel =>
        have hshort : tail.1.length ≤ fuel + 1 := by omega
        obtain ⟨text, htext, hchanges⟩ := ih htail hrest hshort
        refine ⟨before ++ uriMarker ++ ('/' :: token ++
          (linkOf stream resource url).toList) ++ '"' :: text, ?_, ?_⟩
        · -- What follows the marker is new, but the marker is where it was.
          simp only
          rw [rewriteHlsAttributes, List.append_assoc (before ++ uriMarker),
            Chars.splitOnce_replace hmarker]
          simp only
          rw [Chars.splitOnce_append hlink]
          simp only
          rw [linkOf, rewriteHlsUri_link stream (resource url) hlawful token]
          simp only
          rw [htext]
        · have hfront : ChangesOnly ('/' :: token ++ ·) _ _ _ :=
            (ChangesOnly.plain (before ++ uriMarker)).append
              (.reference (linkOf stream resource url).toList)
          have hwhole := (hfront.append (.plain ['"'])).append hchanges
          simpa using hwhole

/-- A carriage return at the end of a line is in none of its attributes. -/
theorem rewriteHlsAttributes_concat (fuel : ℕ) (line : List Char) :
    rewriteHlsAttributes crates token fuel (line ++ ['\r']) =
      (rewriteHlsAttributes crates token fuel line).map (· ++ ['\r']) := by
  induction fuel generalizing line with
  | zero => rfl
  | succ fuel ih =>
    have hmarker : Chars.splitOnce uriMarker (line ++ ['\r']) =
        (Chars.splitOnce uriMarker line).map fun parts => (parts.1, parts.2 ++ ['\r']) :=
      Chars.splitOnce_concat (by decide) (by decide) line
    rw [rewriteHlsAttributes, rewriteHlsAttributes, hmarker]
    cases Chars.splitOnce uriMarker line with
    | none => rfl
    | some parts =>
      have hquote : Chars.splitOnce ['"'] (parts.2 ++ ['\r']) =
          (Chars.splitOnce ['"'] parts.2).map fun halves => (halves.1, halves.2 ++ ['\r']) :=
        Chars.splitOnce_concat (by decide) (by decide) parts.2
      simp only [Option.map_some]
      rw [hquote]
      cases Chars.splitOnce ['"'] parts.2 with
      | none => rfl
      | some halves =>
        simp only [Option.map_some]
        cases rewriteHlsUri crates token halves.1 with
        | error error => rfl
        | ok rewritten =>
          simp only
          rw [ih]
          cases rewriteHlsAttributes crates token fuel halves.2 with
          | error error => rfl
          | ok tail => simp [Except.map]

theorem stripCarriageReturn_cases (line : List Char) :
    (∃ content, line = content ++ ['\r'] ∧ stripCarriageReturn line = (content, ['\r'])) ∨
      (line.getLast? ≠ some '\r' ∧ stripCarriageReturn line = (line, [])) := by
  rw [stripCarriageReturn]
  by_cases hlast : line.getLast? = some '\r'
  · obtain ⟨content, rfl⟩ := List.getLast?_eq_some_iff.mp hlast
    refine .inl ⟨content, rfl, ?_⟩
    rw [if_pos hlast, List.dropLast_concat]
  · exact .inr ⟨hlast, if_neg hlast⟩

/-- A front that ends before a reference stays as it is. -/
theorem startsWith_rewritten {link : String → String} {n : ℕ} {line pattern : List Char}
    (hserver : rewriteUriAttributes urls base link n line = .ok row)
    (hstart : startsWith pattern line = true)
    (hfront : ∀ before after, Chars.splitOnce uriMarker line = some (before, after) →
      pattern.length ≤ (before ++ uriMarker).length) : startsWith pattern row.1 = true := by
  cases n with
  | zero =>
    cases hserver
    exact hstart
  | succ n =>
    rcases rewriteUriAttributes_succ hserver with
      ⟨-, rfl⟩ | ⟨before, after, _, _, _, _, hmarker, -, -, -, rfl⟩
    · exact hstart
    · have hlength := hfront before after hmarker
      rw [Chars.eq_of_splitOnce hmarker, startsWith, Chars.isPrefixOf_append _ hlength] at hstart
      rw [startsWith, List.append_assoc (before ++ uriMarker), Chars.isPrefixOf_append _ hlength]
      exact hstart

/-- What the server makes of a line that it accepts. -/
theorem rewriteLine_cases {link : String → String} {toUppercase : List Char → List Char}
    (h : rewriteLine urls base link toUppercase line = .ok row) :
    (startsWith ['#'] line = true ∧
        rewriteUriAttributes urls base link line.length line = .ok row) ∨
      (startsWith ['#'] line = false ∧ isBlank line = true ∧ row = (line, [])) ∨
      (startsWith ['#'] line = false ∧ isBlank line = false ∧
        ∃ url, row = ((link url).toList, [url])) := by
  rw [rewriteLine] at h
  split at h
  next hcomment =>
    split at h
    · cases h
    · cases h
    · exact .inl ⟨hcomment, h⟩
  next hcomment =>
    rw [Bool.not_eq_true] at hcomment
    split at h
    next hblank =>
      refine .inr (.inl ⟨hcomment, ?_, (Except.ok.inj h).symm⟩)
      rw [isBlank, hblank]
      rfl
    next hblank =>
      refine .inr (.inr ⟨hcomment, ?_, proxy_cases h⟩)
      rw [isBlank, List.isEmpty_eq_false_iff]
      exact hblank

/-- A comment or a tag of the server's goes through. -/
theorem rewriteHlsLine_tag (hlawful : crates.Lawful)
    (hserver : rewriteUriAttributes urls base (linkOf stream resource) line.length line = .ok row)
    (hstart : startsWith ['#'] line = true) : ∃ text,
      rewriteHlsLine crates token row.1 = .ok text ∧
        ChangesOnly ('/' :: token ++ ·)
          (row.2.map fun url => (linkOf stream resource url).toList) row.1 text := by
  have hrow : startsWith ['#'] row.1 = true := by
    refine startsWith_rewritten hserver hstart ?_
    intro before after _
    rw [List.length_append, List.length_singleton, length_uriMarker]
    omega
  rw [rewriteHlsLine]
  rcases stripCarriageReturn_cases row.1 with ⟨content, hcontent, hstrip⟩ | ⟨-, hstrip⟩
  · rw [hstrip]
    simp only
    have htag : startsWith ['#'] content = true := by
      cases content with
      | nil => rw [hcontent] at hrow; exact absurd hrow (by decide)
      | cons c content =>
        rw [hcontent, startsWith, Chars.isPrefixOf_append] at hrow
        · exact hrow
        · simp
    have hne : content ≠ [] := by
      rintro rfl
      exact absurd htag (by decide)
    have hfuel : row.1.length ≤ content.length + 1 := by
      rw [hcontent, List.length_append, List.length_singleton]
    obtain ⟨text, htext, hchanges⟩ :=
      rewriteHlsAttributes_rewritten token hlawful hserver le_rfl hfuel
    refine ⟨text, ?_, hchanges⟩
    rw [if_neg hne, if_pos htag]
    rw [hcontent, rewriteHlsAttributes_concat] at htext
    exact htext
  · rw [hstrip]
    simp only
    have hne : row.1 ≠ [] := by
      intro hempty
      rw [hempty] at hrow
      exact absurd hrow (by decide)
    obtain ⟨text, htext, hchanges⟩ :=
      rewriteHlsAttributes_rewritten token hlawful hserver le_rfl (Nat.le_succ _)
    refine ⟨text, ?_, hchanges⟩
    rw [if_neg hne, if_pos hrow, htext]
    simp [Except.map]

/-- A link on a line of its own goes through. -/
theorem rewriteHlsLine_link (hlawful : crates.Lawful) (url : String) :
    rewriteHlsLine crates token (linkOf stream resource url).toList =
      .ok ('/' :: token ++ (linkOf stream resource url).toList) := by
  have hreturn : '\r' ∉ (linkOf stream resource url).toList :=
    stream.notMem_link (resource url) (by decide)
  obtain ⟨rest, hrest⟩ := stream.link_cons (resource url)
  rw [rewriteHlsLine]
  rcases stripCarriageReturn_cases (linkOf stream resource url).toList with
    ⟨content, hcontent, -⟩ | ⟨-, hstrip⟩
  · rw [hcontent] at hreturn
    exact absurd (List.mem_append_right content List.mem_cons_self) hreturn
  · rw [hstrip]
    simp only
    have hne : (linkOf stream resource url).toList ≠ [] := by
      rw [linkOf, hrest]
      exact List.cons_ne_nil _ _
    have htag : startsWith ['#'] (linkOf stream resource url).toList = false := by
      rw [linkOf, hrest]
      rfl
    rw [if_neg hne, htag, linkOf, rewriteHlsUri_link stream (resource url) hlawful token]
    simp [Except.map]

/-- Of the blank lines only the empty one and the carriage return go through. -/
theorem rewriteHlsLine_blank {line text : List Char} (hblank : isBlank line = true)
    (h : rewriteHlsLine crates token line = .ok text) : line = [] ∨ line = ['\r'] := by
  by_contra hneither
  rw [not_or] at hneither
  have hspaces : ∀ c ∈ line, Chars.isWhitespace c = true := by
    rw [isBlank_iff, trimStart, List.dropWhile_eq_nil_iff] at hblank
    exact hblank
  -- The content begins with whitespace, so it is no tag and no path either.
  have hcontent : ∀ content, content <+: line → content ≠ [] →
      startsWith ['#'] content = false ∧ startsWith ['/'] content = false := by
    intro content hfront hne
    cases content with
    | nil => exact absurd rfl hne
    | cons c content =>
      have hspace := hspaces c (hfront.subset List.mem_cons_self)
      have htag : c ≠ '#' := by
        rintro rfl
        exact absurd hspace (by decide)
      have hslash : c ≠ '/' := by
        rintro rfl
        exact absurd hspace (by decide)
      rw [startsWith_singleton, startsWith_singleton, beq_eq_false_iff_ne, beq_eq_false_iff_ne]
      exact ⟨htag.symm, hslash.symm⟩
  have hrefused : ∀ content, startsWith ['/'] content = false →
      ∃ error, rewriteHlsUri crates token content = .error error := by
    intro content hslash
    rw [rewriteHlsUri]
    split
    · exact ⟨_, rfl⟩
    · rw [hslash]
      exact ⟨_, rfl⟩
  rw [rewriteHlsLine] at h
  rcases stripCarriageReturn_cases line with ⟨content, hline, hstrip⟩ | ⟨-, hstrip⟩
  · rw [hstrip] at h
    simp only at h
    have hne : content ≠ [] := by
      rintro rfl
      exact hneither.2 hline
    obtain ⟨htag, hslash⟩ := hcontent content ⟨_, hline.symm⟩ hne
    obtain ⟨error, herror⟩ := hrefused content hslash
    rw [if_neg hne, htag, herror] at h
    cases h
  · rw [hstrip] at h
    simp only at h
    obtain ⟨htag, hslash⟩ := hcontent line (List.prefix_refl line) hneither.1
    obtain ⟨error, herror⟩ := hrefused line hslash
    rw [if_neg hneither.1, htag, herror] at h
    cases h

variable (token) in
/-- Every line of the server's goes through, if it is no strange blank one. -/
theorem rewriteHlsLine_rewritten (hlawful : crates.Lawful) {toUppercase : List Char → List Char}
    (hserver : rewriteLine urls base (linkOf stream resource) toUppercase line = .ok row)
    (hplain : isBlank line = true → line = [] ∨ line = ['\r']) : ∃ text,
      rewriteHlsLine crates token row.1 = .ok text ∧
        ChangesOnly ('/' :: token ++ ·)
          (row.2.map fun url => (linkOf stream resource url).toList) row.1 text := by
  rcases rewriteLine_cases hserver with ⟨htag, hattributes⟩ | ⟨-, hblank, rfl⟩ | ⟨-, -, url, rfl⟩
  · exact rewriteHlsLine_tag hlawful hattributes htag
  · rcases hplain hblank with rfl | rfl
    · exact ⟨[], rfl, .plain []⟩
    · exact ⟨['\r'], rfl, .plain ['\r']⟩
  · exact ⟨_, rewriteHlsLine_link hlawful url, .reference _⟩

/-- The server keeps what is blank, and what is not. -/
theorem isBlank_rewritten {toUppercase : List Char → List Char}
    (hserver : rewriteLine urls base (linkOf stream resource) toUppercase line = .ok row) :
    isBlank row.1 = isBlank line := by
  rcases rewriteLine_cases hserver with
    ⟨htag, hattributes⟩ | ⟨-, hblank, rfl⟩ | ⟨-, hblank, url, rfl⟩
  · have hrow : startsWith ['#'] row.1 = true := by
      refine startsWith_rewritten hattributes htag ?_
      intro before after _
      rw [List.length_append, List.length_singleton, length_uriMarker]
      omega
    have hnot : ∀ text : List Char, startsWith ['#'] text = true → isBlank text = false := by
      intro text htext
      obtain ⟨rest, rfl⟩ := List.isPrefixOf_iff_prefix.mp htext
      exact isBlank_cons_of_not (by decide)
    rw [hnot _ hrow, hnot _ htag]
  · rfl
  · obtain ⟨rest, hrest⟩ := stream.link_cons (resource url)
    rw [hblank, linkOf, hrest]
    exact isBlank_cons_of_not (by decide)

/-- The server adds no line feed. -/
theorem break_notMem_rewritten {n : ℕ}
    (hserver : rewriteUriAttributes urls base (linkOf stream resource) n line = .ok row)
    (hline : '\n' ∉ line) : '\n' ∉ row.1 := by
  induction n generalizing line row with
  | zero =>
    cases hserver
    exact hline
  | succ n ih =>
    rcases rewriteUriAttributes_succ hserver with ⟨-, rfl⟩ |
      ⟨before, after, reference, rest, made, tail, hmarker, hquote, hproxy, htail, rfl⟩
    · exact hline
    · obtain ⟨url, rfl⟩ := proxy_cases hproxy
      rw [Chars.eq_of_splitOnce hmarker, Chars.eq_of_splitOnce hquote] at hline
      simp only [List.mem_append, List.mem_singleton, not_or] at hline
      have hlink : '\n' ∉ (linkOf stream resource url).toList :=
        stream.notMem_link (resource url) (by decide)
      have htext := ih htail hline.2.2
      simp only [List.mem_append, List.mem_cons, not_or]
      exact ⟨⟨hline.1, hlink⟩, by decide, htext⟩

theorem break_notMem_row {toUppercase : List Char → List Char}
    (hserver : rewriteLine urls base (linkOf stream resource) toUppercase line = .ok row)
    (hline : '\n' ∉ line) : '\n' ∉ row.1 := by
  rcases rewriteLine_cases hserver with ⟨-, hattributes⟩ | ⟨-, -, rfl⟩ | ⟨-, -, url, rfl⟩
  · exact break_notMem_rewritten hattributes hline
  · exact hline
  · exact stream.notMem_link (resource url) (by decide)

end Line

/-! ### The whole playlist -/

section Playlist

variable {crates : UrlCrates} {token : Segment} {urls : UrlLibrary} {base : Url}
  {stream : Stream} {resource : String → Segment} {toUppercase : List Char → List Char}
  {playlist : List Char}

/-- The first line that is not blank is the same before and after. -/
theorem find_rewritten {lines : List (List Char)}
    (h : List.Forall₂ (fun line row =>
      rewriteLine urls base (linkOf stream resource) toUppercase line = .ok row) lines rows) :
    (lines.find? (!isBlank ·) = none ∧ (rows.map (·.1)).find? (!isBlank ·) = none) ∨
      ∃ line row, lines.find? (!isBlank ·) = some line ∧
        (rows.map (·.1)).find? (!isBlank ·) = some row.1 ∧
          rewriteLine urls base (linkOf stream resource) toUppercase line = .ok row := by
  induction h with
  | nil => exact .inl ⟨rfl, rfl⟩
  | @cons line row lines rows hfirst _ ih =>
    rw [List.map_cons, List.find?_cons, List.find?_cons, isBlank_rewritten hfirst]
    cases hblank : isBlank line with
    | true => exact ih
    | false => exact .inr ⟨line, row, rfl, rfl, hfirst⟩

theorem trimStart_of_startsWith (hc : Chars.isWhitespace c = false)
    (h : startsWith [c] line = true) : trimStart line = line := by
  obtain ⟨rest, rfl⟩ := List.isPrefixOf_iff_prefix.mp h
  rw [trimStart, List.singleton_append, List.dropWhile_cons_of_neg]
  rw [hc]
  exact Bool.false_ne_true

theorem startsWith_trimStart {pattern text : List Char}
    (h : startsWith pattern (Chars.trim text) = true) :
    startsWith pattern (trimStart text) = true := by
  rw [startsWith, List.isPrefixOf_iff_prefix] at h ⊢
  exact h.trans (List.rdropWhile_prefix Chars.isWhitespace (trimStart text))

def headerText : List Char := "#EXTM3U".toList

theorem headerText_eq : headerText = "#EXTM3U".toList := rfl

/-- The header that a tag begins with is kept. -/
theorem startsWith_header {n : ℕ}
    (hserver : rewriteUriAttributes urls base (linkOf stream resource) n line = .ok row)
    (hstart : startsWith headerText line = true) : startsWith headerText row.1 = true := by
  refine startsWith_rewritten hserver hstart ?_
  intro before after hmarker
  obtain ⟨rest, hrest⟩ := List.isPrefixOf_iff_prefix.mp hstart
  have hline := (Chars.eq_of_splitOnce hmarker).symm.trans hrest.symm
  -- The marker begins with `U`, and the header's `U` is its last character.
  match before, hline with
  | [], hline => exact absurd hline (by simp [uriMarker, headerText_eq])
  | [c], hline => exact absurd hline (by simp [uriMarker, headerText_eq])
  | c :: d :: before, _ =>
    rw [List.length_append, length_uriMarker]
    change 7 ≤ before.length + 1 + 1 + 5
    omega

/-- What the server has accepted: a header, and every line. -/
theorem rewritePlaylistWith_cases {link : String → String} {out : Rewritten}
    (h : rewritePlaylistWith urls base link toUppercase playlist = .ok out) :
    startsWith headerText (Chars.trim playlist) = true ∧ ∃ rows,
      List.Forall₂ (fun line row => rewriteLine urls base link toUppercase line = .ok row)
        (linesOf playlist) rows ∧
      out = (['\n'].intercalate (rows.map (·.1)), rows.flatMap (·.2)) := by
  rw [rewritePlaylistWith] at h
  split at h
  · cases h
  next hheader =>
    rw [Bool.not_eq_false] at hheader
    refine ⟨hheader, ?_⟩
    cases hlines : (linesOf playlist).mapM (rewriteLine urls base link toUppercase) with
    | error error =>
      rw [hlines] at h
      cases h
    | ok rows =>
      rw [hlines] at h
      exact ⟨rows, Traversal.forall₂_of_mapM hlines, (Except.ok.inj h).symm⟩

theorem break_notMem_line (playlist : List Char) : ∀ line ∈ linesOf playlist, '\n' ∉ line := by
  change ∀ line ∈ playlist.splitOn '\n', '\n' ∉ line
  induction playlist with
  | nil => simp
  | cons c playlist ih =>
    intro line hline
    rw [List.splitOn_cons_eq_if_modifyHead] at hline
    split at hline
    · rcases List.mem_cons.mp hline with rfl | hline
      · exact List.not_mem_nil
      · exact ih line hline
    next hne =>
      cases hparts : playlist.splitOn '\n' with
      | nil => exact absurd hparts (List.splitOn_ne_nil '\n' playlist)
      | cons first rest =>
        rw [hparts] at hline ih
        rw [List.modifyHead_cons] at hline
        rcases List.mem_cons.mp hline with rfl | hline
        · rw [List.mem_cons, not_or]
          refine ⟨?_, ih first List.mem_cons_self⟩
          rintro rfl
          exact hne (beq_self_eq_true _)
        · exact ih line (List.mem_cons_of_mem _ hline)

/-- The lines of what the server has written are its rows. -/
theorem linesOf_rewritten
    (h : List.Forall₂ (fun line row =>
      rewriteLine urls base (linkOf stream resource) toUppercase line = .ok row)
      (linesOf playlist) rows) :
    linesOf (['\n'].intercalate (rows.map (·.1))) = rows.map (·.1) := by
  refine List.splitOn_intercalate '\n' ?_ ?_
  · intro text htext
    obtain ⟨row, hrow, rfl⟩ := List.mem_map.mp htext
    obtain ⟨line, hline, hserver⟩ := Traversal.exists_of_mem_right h hrow
    exact break_notMem_row hserver (break_notMem_line playlist line hline)
  · intro hnil
    rw [List.map_eq_nil_iff] at hnil
    rw [hnil] at h
    have hlines := List.forall₂_nil_right_iff.mp h
    exact List.splitOn_ne_nil '\n' playlist hlines

variable (token) in
/-- The proxy takes the rewritten lines one by one. -/
theorem rewriteHlsLines (hlawful : crates.Lawful) {lines : List (List Char)}
   
    (h : List.Forall₂ (fun line row =>
      rewriteLine urls base (linkOf stream resource) toUppercase line = .ok row) lines rows)
    (hblank : ∀ line ∈ lines, isBlank line = true → line = [] ∨ line = ['\r']) : ∃ texts,
      (rows.map (·.1)).mapM (rewriteHlsLine crates token.text) = .ok texts ∧
        List.Forall₂ (fun row text => ChangesOnly ('/' :: token.text ++ ·)
          (row.2.map fun url => (linkOf stream resource url).toList) row.1 text) rows texts := by
  induction h with
  | nil => exact ⟨[], rfl, .nil⟩
  | @cons line row lines rows hfirst _ ih =>
    obtain ⟨text, htext, hchanges⟩ :=
      rewriteHlsLine_rewritten token.text hlawful hfirst (hblank line List.mem_cons_self)
    obtain ⟨texts, htexts, hrest⟩ :=
      ih fun later hlater => hblank later (List.mem_cons_of_mem _ hlater)
    refine ⟨text :: texts, ?_, .cons hchanges hrest⟩
    rw [List.map_cons, List.mapM_cons, htext, htexts]
    rfl

/-- What the Music Server accepts, the desktop plays exactly when its blank lines are
plain and its header begins a line. -/
theorem desktop_plays_iff_readable (hlawful : crates.Lawful)
    {out : Rewritten}
    (hserver : rewritePlaylistWith urls base (linkOf stream resource) toUppercase playlist =
      .ok out) :
    Plays crates token.text (linkOf stream resource) out ↔ Readable playlist := by
  obtain ⟨hheader, rows, hrows, rfl⟩ := rewritePlaylistWith_cases hserver
  have hlines := linesOf_rewritten hrows
  have hpattern : headerText ≠ [] := by decide
  have hbreak : '\n' ∉ headerText := by decide
  constructor
  · rintro ⟨written, hwritten, -, -⟩
    rw [rewriteHlsManifest] at hwritten
    split at hwritten
    · cases hwritten
    next hdesktop =>
      simp only at hdesktop hwritten
      rw [hlines] at hwritten
      cases htexts : (rows.map (·.1)).mapM (rewriteHlsLine crates token.text) with
      | error error =>
        rw [htexts] at hwritten
        cases hwritten
      | ok texts =>
        have hpairs := List.forall₂_map_left_iff.mp (Traversal.forall₂_of_mapM htexts)
        constructor
        · intro line hline hblank
          obtain ⟨row, hrow, hrewritten⟩ := Traversal.exists_of_mem_left hrows hline
          obtain ⟨text, -, htext⟩ := Traversal.exists_of_mem_left hpairs hrow
          rcases rewriteLine_cases hrewritten with ⟨htag, -⟩ | ⟨-, -, rfl⟩ | ⟨-, hnot, -⟩
          · obtain ⟨rest, rfl⟩ := List.isPrefixOf_iff_prefix.mp htag
            rw [List.singleton_append, isBlank_cons_of_not (by decide)] at hblank
            cases hblank
          · exact rewriteHlsLine_blank hblank htext
          · rw [hnot] at hblank
            cases hblank
        · intro line hfind
          rw [Bool.not_eq_false, ← headerText_eq,
            startsWith_trimStart_lines hpattern hbreak] at hdesktop
          obtain ⟨first, hfirst, hstart⟩ := hdesktop
          rcases find_rewritten hrows with ⟨hnone, -⟩ | ⟨found, row, hfound, hrow, hrewritten⟩
          · rw [hnone] at hfind
            cases hfind
          · rw [hfind] at hfound
            cases hfound
            rw [hrow] at hfirst
            cases hfirst
            rcases rewriteLine_cases hrewritten with ⟨htag, -⟩ | ⟨-, hblank, -⟩ | ⟨-, -, url, rfl⟩
            · exact htag
            · have hnot := List.find?_some hfind
              rw [hblank] at hnot
              cases hnot
            · -- The first line became a link, and a link is no header.
              obtain ⟨rest, hrest⟩ := stream.link_cons (resource url)
              simp only [linkOf, hrest] at hstart
              exact absurd hstart
                (by simp [trimStart, startsWith, headerText_eq, Chars.isWhitespace])
  · intro hreadable
    obtain ⟨texts, htexts, hchanges⟩ := rewriteHlsLines token hlawful hrows hreadable.blank
    have hdesktop : startsWith headerText
        (trimStart (['\n'].intercalate (rows.map (·.1)))) = true := by
      have hserverHeader := startsWith_trimStart hheader
      rw [show playlist = ['\n'].intercalate (linesOf playlist) from
          (List.intercalate_splitOn '\n').symm,
        startsWith_trimStart_lines hpattern hbreak] at hserverHeader
      obtain ⟨line, hfind, hstart⟩ := hserverHeader
      rw [startsWith_trimStart_lines hpattern hbreak]
      rcases find_rewritten hrows with ⟨hnone, -⟩ | ⟨found, row, hfound, hrow, hrewritten⟩
      · exact absurd (hnone.symm.trans hfind) (by simp)
      · obtain rfl := Option.some.inj (hfound.symm.trans hfind)
        have htag := hreadable.header found hfound
        rw [trimStart_of_startsWith (by decide) htag] at hstart
        refine ⟨row.1, hrow, ?_⟩
        rcases rewriteLine_cases hrewritten with ⟨-, hattributes⟩ | ⟨hnot, -⟩ | ⟨hnot, -⟩
        · have hkept := startsWith_header hattributes hstart
          have hrowTag : startsWith ['#'] row.1 = true := by
            obtain ⟨rest, hrest⟩ := List.isPrefixOf_iff_prefix.mp hkept
            rw [← hrest]
            rfl
          rw [trimStart_of_startsWith (by decide) hrowTag]
          exact hkept
        · rw [hnot] at htag
          cases htag
        · rw [hnot] at htag
          cases htag
    refine ⟨['\n'].intercalate texts, ?_, ChangesOnly.lines hchanges, ?_⟩
    · rw [rewriteHlsManifest]
      simp only
      rw [if_neg (by rw [← headerText_eq, hdesktop]; decide), hlines, htexts]
      rfl
    · intro url _
      exact proxyRelativeUrl_link stream (resource url) hlawful token

end Playlist

/-! ### Signed resources -/

section Signed

variable (signer : ResourceSigner) (format : PayloadFormat ResourceClaims) (now : ℤ)
  (scope : String)

theorem all_isIdCharacter_encode (bytes : List UInt8) :
    (Base64.encode bytes).all isIdCharacter = true := by
  rw [List.all_eq_true]
  intro c hc
  exact TokenSigner.isIdCharacter_of_isSymbol (Base64.isSymbol_of_mem_encode c hc)

theorem length_sign (hmac : ∀ text, (signer.mac text).length = 32) (url : String) :
    6 < (signer.sign format now scope url).toList.length := by
  have hlength := length_le_length_encode
    (signer.mac (ResourceSigner.payload format ⟨scope, url, now + hlsResourceTokenTtlSeconds⟩))
  rw [hmac] at hlength
  rw [ResourceSigner.sign, signedText, String.toList_ofList]
  simp only [List.length_append, List.length_singleton]
  omega

theorem all_isIdCharacter_sign (url : String) :
    (signer.sign format now scope url).toList.all isIdCharacter = true := by
  rw [ResourceSigner.sign, signedText, String.toList_ofList, List.all_append, List.all_append,
    Bool.and_eq_true, Bool.and_eq_true]
  exact ⟨⟨all_isIdCharacter_encode _, by decide⟩, all_isIdCharacter_encode _⟩

/-- A tag of 32 bytes makes a token a segment of a path. -/
def signedSegment (hmac : ∀ text, (signer.mac text).length = 32) (url : String) : Segment :=
  .ofId (signer.sign format now scope url).toList (length_sign signer format now scope hmac url)
    (all_isIdCharacter_sign signer format now scope url)

theorem linkOf_signedSegment (hmac : ∀ text, (signer.mac text).length = 32) (stream : Stream) :
    linkOf stream (signedSegment signer format now scope hmac) =
      fun url => stream.link (signer.sign format now scope url) := by
  funext url
  rw [linkOf, signedSegment, Segment.ofId, String.ofList_toList]

/-- What the Music Server makes of a playlist with signed links, the desktop plays
exactly when the playlist's blank lines are plain and its header begins a line. -/
theorem rewriters_compose_iff {crates : UrlCrates} (hlawful : crates.Lawful)
    (hmac : ∀ text, (signer.mac text).length = 32) {urls : UrlLibrary} {base : Url}
    {toUppercase : List Char → List Char} {stream : Stream} {token : Segment}
    {playlist : List Char} {out : Rewritten}
    (hserver : rewritePlaylistWith urls base
      (fun url => stream.link (signer.sign format now scope url)) toUppercase playlist =
        .ok out) :
    Plays crates token.text (fun url => stream.link (signer.sign format now scope url)) out ↔
      Readable playlist := by
  rw [← linkOf_signedSegment signer format now scope hmac] at hserver ⊢
  exact desktop_plays_iff_readable hlawful hserver

end Signed

/-! ### A station's playlists -/

namespace Sample

/-- A text up to the character, and what comes after it. -/
def cut (c : Char) (text : List Char) : List Char × Option (List Char) :=
  match Chars.splitOnce [c] text with
  | some (before, after) => (before, some after)
  | none => (text, none)

theorem cut_append {before after : List Char} (h : c ∉ before) :
    cut c (before ++ c :: after) = (before, some after) := by
  rw [cut, Chars.splitOnce_append h]

theorem cut_of_notMem {text : List Char} (h : c ∉ text) : cut c text = (text, none) := by
  rw [cut]
  cases hsplit : Chars.splitOnce [c] text with
  | none => rfl
  | some parts =>
    rw [Chars.eq_of_splitOnce hsplit] at h
    exact absurd (List.mem_append_left _ (List.mem_append_right _ List.mem_cons_self)) h

/-- What the two libraries do with plain texts: no escape is written or read. -/
def crates : UrlCrates where
  parse text := ("http://desktop.invalid".toList.isPrefixOf? text).map fun rest =>
    ⟨(cut '?' (cut '#' rest).1).1, (cut '#' rest).2⟩
  target text := some ⟨(cut '?' text).1, (cut '?' text).2⟩

theorem notMem_pathOf (hc : (isPathCharacter c || c == '/') = false) (names : List Segment) :
    c ∉ pathOf names := by
  rw [Bool.or_eq_false_iff, beq_eq_false_iff_ne] at hc
  intro hmem
  obtain ⟨name, -, hname⟩ := List.mem_flatMap.mp hmem
  rcases List.mem_cons.mp hname with rfl | hname
  · exact hc.2 rfl
  · have hplain := List.all_eq_true.mp name.plain c hname
    rw [hc.1] at hplain
    cases hplain

theorem cut_targetText (names : List Segment) (query : Option (List Char)) :
    cut '?' (targetText (pathOf names) query) = (pathOf names, query) := by
  have hquestion : '?' ∉ pathOf names := notMem_pathOf (by decide) names
  cases query with
  | none => exact cut_of_notMem hquestion
  | some query => exact cut_append hquestion

theorem crates_lawful : crates.Lawful where
  parse names query _ hquery := by
    have hhash : '#' ∉ targetText (pathOf names) query := by
      have hpath : '#' ∉ pathOf names := notMem_pathOf (by decide) names
      cases query with
      | none => exact hpath
      | some query =>
        rw [targetText, List.mem_append, List.mem_cons, not_or, not_or]
        refine ⟨hpath, by decide, fun hmem => ?_⟩
        exact absurd (List.all_eq_true.mp hquery '#' hmem) (by decide)
    rw [crates]
    simp only
    rw [isPrefixOf?_append, Option.map_some, cut_of_notMem hhash]
    simp only
    rw [cut_targetText]
  target names query _ _ := by
    rw [crates]
    simp only
    rw [cut_targetText]

def segmentUrl : Url :=
  ⟨"https", some (.domain "radio.example"), "/live/one.ts", [],
    "https://radio.example/live/one.ts"⟩

def playlistUrl : Url :=
  ⟨"https", some (.domain "radio.example"), "/live/index.m3u8", [],
    "https://radio.example/live/index.m3u8"⟩

/-- The one reference that the playlist has. -/
def urls : UrlLibrary where
  parse _ := .ok segmentUrl
  join _ _ := .ok segmentUrl

def signer : ResourceSigner := ⟨fun payload =>
  (payload.map fun c => UInt8.ofNat c.toNat).take 32 ++
    List.replicate (32 - payload.length) 0⟩

def station : Stream := .station (.literal "one" (by decide))

def token : Segment := .literal "5eed" (by decide)

def link (url : String) : String :=
  station.link (signer.sign claimsFormat 1700000000 "one" url)

theorem length_mac (text : List Char) : (signer.mac text).length = 32 := by
  rw [signer, List.length_append, List.length_take, List.length_map, List.length_replicate]
  omega

def playlist : List Char := "#EXTM3U\n#EXTINF:6,\none.ts\n".toList

/-- A line of one blank before the segment. -/
def spacedPlaylist : List Char := "#EXTM3U\n#EXTINF:6,\n \none.ts\n".toList

theorem playlist_readable : Readable playlist := by
  have hlines : linesOf playlist =
      ["#EXTM3U".toList, "#EXTINF:6,".toList, "one.ts".toList, []] := by decide
  constructor
  · rw [hlines]
    intro line hline hblank
    simp only [List.mem_cons, List.not_mem_nil, or_false] at hline
    rcases hline with rfl | rfl | rfl | rfl
    · exact absurd hblank (by decide)
    · exact absurd hblank (by decide)
    · exact absurd hblank (by decide)
    · exact .inl rfl
  · rw [hlines]
    intro line hfind
    cases hfind
    rfl

theorem playlist_plays : ∃ out, rewritePlaylistWith urls playlistUrl link (List.map Char.toUpper)
      playlist = .ok out ∧ out.2 = [segmentUrl.text] ∧ Plays crates token.text link out := by
  have hserver : rewritePlaylistWith urls playlistUrl link (List.map Char.toUpper) playlist =
      .ok _ := rfl
  exact ⟨_, hserver, rfl, (rewriters_compose_iff signer claimsFormat 1700000000
    "one" crates_lawful length_mac hserver).mpr playlist_readable⟩

theorem spacedPlaylist_accepted : ∃ out,
    rewritePlaylistWith urls playlistUrl link (List.map Char.toUpper) spacedPlaylist = .ok out :=
  ⟨_, rfl⟩

theorem spacedPlaylist_not_readable : ¬ Readable spacedPlaylist := by
  intro hreadable
  have hline : [' '] ∈ linesOf spacedPlaylist := by decide
  rcases hreadable.blank [' '] hline (by decide) with h | h
  · exact absurd h (by decide)
  · exact absurd h (by decide)

/-- The server keeps the line of one blank, and the desktop refuses it. -/
theorem spacedPlaylist_does_not_play : ¬ ∀ (crates : UrlCrates) (signer : ResourceSigner)
    (format : PayloadFormat ResourceClaims) (now : ℤ) (scope : String) (urls : UrlLibrary)
    (base : Url) (toUppercase : List Char → List Char) (stream : Stream) (token : Segment)
    (playlist : List Char) (out : Rewritten),
    crates.Lawful → (∀ text, (signer.mac text).length = 32) →
      rewritePlaylistWith urls base
        (fun url => stream.link (signer.sign format now scope url)) toUppercase playlist =
          .ok out →
      Plays crates token.text (fun url => stream.link (signer.sign format now scope url)) out := by
  intro h
  obtain ⟨out, hserver⟩ := spacedPlaylist_accepted
  have hplays := h crates signer claimsFormat 1700000000 "one" urls playlistUrl
    (List.map Char.toUpper) station token spacedPlaylist out crates_lawful length_mac hserver
  have hlink : link = linkOf station
      (signedSegment signer claimsFormat 1700000000 "one" length_mac) :=
    (linkOf_signedSegment signer claimsFormat 1700000000 "one" length_mac station).symm
  rw [hlink] at hserver
  change Plays crates token.text link out at hplays
  rw [hlink] at hplays
  exact spacedPlaylist_not_readable
    ((desktop_plays_iff_readable crates_lawful hserver).mp hplays)

end Sample

end Harmony.MediaProxy
