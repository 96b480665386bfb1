/-
# What a rewritten playlist holds

A tag line is text and quoted strings in turn, and a quoted string after `URI=` is a reference.
The rewriter looks for `URI="` anywhere, and so takes the closing quote of a string that ends in
`URI=` for the beginning of a reference. Where no other string ends so, each reference is
replaced by its link, and nothing else of the line is changed.
-/

import Harmony.External.Playlist

namespace Harmony.External

/-- Text without quotes, and the quoted string after it. -/
structure Part where
  text : List Char
  quoted : List Char
  plain : '"' ∉ text ∧ '"' ∉ quoted

def uriName : List Char := "URI=".toList

def Part.isReference (part : Part) : Bool := uriName.isSuffixOf part.text

/-- The end of the quoted string looks like the beginning of a reference. -/
def Part.isMisread (part : Part) : Bool := !part.isReference && uriName.isSuffixOf part.quoted

/-- A line of quoted strings that are closed. -/
structure TagLine where
  parts : List Part
  tail : List Char
  plain : '"' ∉ tail

/-- The part with something in place of its quoted string. -/
def Part.render (write : Part → List Char) (part : Part) : List Char :=
  part.text ++ '"' :: (write part ++ ['"'])

def renderParts (write : Part → List Char) (parts : List Part) (tail : List Char) : List Char :=
  parts.foldr (fun part rest => part.render write ++ rest) tail

def TagLine.render (line : TagLine) (write : Part → List Char) : List Char :=
  renderParts write line.parts line.tail

theorem Part.render_append {write : Part → List Char} {part : Part} {rest : List Char} :
    part.render write ++ rest = part.text ++ '"' :: (write part ++ '"' :: rest) := by
  rw [Part.render, List.append_assoc, List.cons_append, List.append_assoc]
  rfl

/-! ### Where the marker is found -/

section Marker

variable {text rest : List Char}

theorem isSuffixOf_cons {c : Char} (hne : uriName ≠ c :: text) :
    uriName.isSuffixOf (c :: text) = uriName.isSuffixOf text := by
  rw [Bool.eq_iff_iff, List.isSuffixOf_iff_suffix, List.isSuffixOf_iff_suffix, List.suffix_cons_iff,
    or_iff_right hne]

/-- The marker can stand at the next quote only. -/
theorem splitOnce_uriMarker (h : '"' ∉ text) : Chars.splitOnce uriMarker (text ++ '"' :: rest) =
    if uriName.isSuffixOf text then some (text.take (text.length - 4), rest)
    else (Chars.splitOnce uriMarker rest).map fun parts => (text ++ '"' :: parts.1, parts.2) := by
  induction text with
  | nil => rfl
  | cons c text ih =>
    rw [List.mem_cons, not_or] at h
    rw [List.cons_append, Chars.splitOnce]
    by_cases hhere : uriName = c :: text
    · have hstart : uriMarker.isPrefixOf (c :: (text ++ '"' :: rest)) = true := by
        rw [List.isPrefixOf_iff_prefix]
        exact ⟨rest, by rw [← List.cons_append, ← hhere]; rfl⟩
      rw [if_pos hstart, ← List.cons_append, ← hhere]
      rfl
    · have hstart : ¬uriMarker.isPrefixOf (c :: (text ++ '"' :: rest)) = true := by
        rw [List.isPrefixOf_iff_prefix]
        rintro ⟨more, hmore⟩
        have hfound : Chars.splitOnce ['"'] (c :: text ++ '"' :: rest) = some (c :: text, rest) :=
          Chars.splitOnce_append (by rw [List.mem_cons, not_or]; exact h)
        have hname : Chars.splitOnce ['"'] (uriName ++ '"' :: more) = some (uriName, more) :=
          Chars.splitOnce_append (by decide)
        rw [List.cons_append, ← hmore] at hfound
        change Chars.splitOnce ['"'] (uriName ++ '"' :: more) = _ at hfound
        rw [hname] at hfound
        exact hhere (Prod.mk.inj (Option.some.inj hfound)).1
      rw [if_neg hstart, ih h.2, isSuffixOf_cons hhere]
      split_ifs with hends
      · have hlong : 4 ≤ text.length := (List.isSuffixOf_iff_suffix.mp hends).length_le
        rw [List.length_cons, Nat.succ_sub hlong]
        rfl
      · rw [Option.map_map]
        rfl

theorem splitOnce_uriMarker_tail (h : '"' ∉ text) : Chars.splitOnce uriMarker text = none := by
  cases hfound : Chars.splitOnce uriMarker text with
  | none => rfl
  | some parts =>
    refine absurd ?_ h
    rw [Chars.eq_of_splitOnce hfound]
    exact List.mem_append_left _ (List.mem_append_right _ (by decide))

end Marker

/-! ### The attributes of a line -/

section Attributes

variable {urls : UrlLibrary} {base : Url} {link : String → String} {lead rest line : List Char}

/-- The link for a reference, as it is written. -/
def linkText (urls : UrlLibrary) (base : Url) (link : String → String) (reference : List Char) :
    List Char :=
  match urls.join base (String.ofList reference) with
  | .ok resolved => (link resolved.text).toList
  | .error _ => []

/-- The reference is joined to the base and passes the checks. -/
def Allowed (urls : UrlLibrary) (base : Url) (reference : List Char) : Prop :=
  ∃ resolved, urls.join base (String.ofList reference) = .ok resolved ∧
    validateStreamUrl urls resolved.text = .ok ()

theorem proxy_eq_ok {reference : List Char} {out : Rewritten}
    (h : proxy urls base link reference = .ok out) :
    Allowed urls base reference ∧ out.1 = linkText urls base link reference := by
  rw [proxy] at h
  rw [linkText]
  cases hjoin : urls.join base (String.ofList reference) with
  | error error =>
    rw [hjoin] at h
    cases h
  | ok resolved =>
    simp only [hjoin] at h
    cases hvalid : validateStreamUrl urls resolved.text with
    | error error =>
      rw [hvalid] at h
      cases h
    | ok _ =>
      rw [hvalid] at h
      cases h
      exact ⟨⟨resolved, hjoin, hvalid⟩, rfl⟩

/-- With a turn for each character the loop comes to its end: more make no difference. -/
theorem rewriteUriAttributes_ends {fuel more : ℕ} (h : line.length ≤ fuel)
    (hmore : line.length ≤ more) :
    rewriteUriAttributes urls base link fuel line =
      rewriteUriAttributes urls base link more line := by
  have hempty : ∀ fuel, rewriteUriAttributes urls base link fuel [] = .ok ([], []) := by
    intro fuel
    cases fuel with
    | zero => rfl
    | succ fuel => rfl
  induction fuel generalizing more line with
  | zero =>
    obtain rfl := List.length_eq_zero_iff.mp (Nat.le_zero.mp h)
    rw [hempty, hempty]
  | succ fuel ih =>
    cases more with
    | zero =>
      obtain rfl := List.length_eq_zero_iff.mp (Nat.le_zero.mp hmore)
      rw [hempty, hempty]
    | succ more =>
      rw [rewriteUriAttributes, rewriteUriAttributes]
      cases hmarker : Chars.splitOnce uriMarker line with
      | none => rfl
      | some parts =>
        simp only
        cases hquote : Chars.splitOnce ['"'] parts.2 with
        | none => rfl
        | some halves =>
          -- what follows the reference is shorter than the line
          have hline := congrArg List.length (Chars.eq_of_splitOnce hmarker)
          have hafter := congrArg List.length (Chars.eq_of_splitOnce hquote)
          simp only [List.length_append, List.length_singleton] at hline hafter
          simp only
          have hrest := @ih halves.2 more (by omega) (by omega)
          rw [hrest]

/-- Text in which the marker is not found is passed over. -/
theorem rewriteUriAttributes_lead {fuel : ℕ}
    (h : Chars.splitOnce uriMarker (lead ++ rest) =
      (Chars.splitOnce uriMarker rest).map fun parts => (lead ++ parts.1, parts.2)) :
    rewriteUriAttributes urls base link fuel (lead ++ rest) =
      (rewriteUriAttributes urls base link fuel rest).map fun out => (lead ++ out.1, out.2) := by
  cases fuel with
  | zero => rfl
  | succ fuel =>
    rw [rewriteUriAttributes, rewriteUriAttributes, h]
    cases hfound : Chars.splitOnce uriMarker rest with
    | none => rfl
    | some parts =>
      simp only [Option.map_some]
      cases Chars.splitOnce ['"'] parts.2 with
      | none => rfl
      | some halves =>
        simp only
        cases proxy urls base link halves.1 with
        | error error => rfl
        | ok made =>
          simp only
          cases rewriteUriAttributes urls base link fuel halves.2 with
          | error error => rfl
          | ok tail =>
            simp only [Except.map, List.append_assoc]

/-- What is written in place of a quoted string. -/
def rewrittenText (urls : UrlLibrary) (base : Url) (link : String → String) (part : Part) :
    List Char :=
  if part.isReference then linkText urls base link part.quoted else part.quoted

/-- A string that is no reference and is not taken for one is passed over. -/
theorem splitOnce_part {part : Part} (hreference : part.isReference = false)
    (hmisread : part.isMisread = false) :
    Chars.splitOnce uriMarker (part.render (·.quoted) ++ rest) =
      (Chars.splitOnce uriMarker rest).map fun parts =>
        (part.render (·.quoted) ++ parts.1, parts.2) := by
  have hquoted : ¬uriName.isSuffixOf part.quoted = true := by
    rw [Part.isMisread, hreference] at hmisread
    rw [Bool.not_eq_true]
    exact hmisread
  have htext : ¬uriName.isSuffixOf part.text = true := by
    rw [Bool.not_eq_true]
    exact hreference
  simp only [Part.render_append]
  rw [splitOnce_uriMarker part.plain.1, if_neg htext, splitOnce_uriMarker part.plain.2,
    if_neg hquoted, Option.map_map]
  rfl

/-- The loop replaces the references of a line and nothing else. -/
theorem rewriteUriAttributes_render {parts : List Part} {tail : List Char} (htail : '"' ∉ tail)
    (hparts : ∀ part ∈ parts, part.isMisread = false) {fuel : ℕ} {out : Rewritten}
    (hfuel : (renderParts (·.quoted) parts tail).length ≤ fuel)
    (h : rewriteUriAttributes urls base link fuel (renderParts (·.quoted) parts tail) = .ok out) :
    out.1 = renderParts (rewrittenText urls base link) parts tail ∧
      ∀ part ∈ parts, part.isReference = true → Allowed urls base part.quoted := by
  induction parts generalizing fuel out with
  | nil =>
    have hnone := splitOnce_uriMarker_tail htail
    change rewriteUriAttributes urls base link fuel tail = _ at h
    cases fuel with
    | zero =>
      cases h
      exact ⟨rfl, fun _ hpart => absurd hpart List.not_mem_nil⟩
    | succ fuel =>
      rw [rewriteUriAttributes, hnone] at h
      cases h
      exact ⟨rfl, fun _ hpart => absurd hpart List.not_mem_nil⟩
  | cons part parts ih =>
    have hrest : ∀ part ∈ parts, part.isMisread = false :=
      fun part hpart => hparts part (List.mem_cons_of_mem _ hpart)
    change rewriteUriAttributes urls base link fuel (part.render (·.quoted) ++
      renderParts (·.quoted) parts tail) = _ at h
    change (part.render (·.quoted) ++ renderParts (·.quoted) parts tail).length ≤ fuel at hfuel
    change out.1 = part.render _ ++ renderParts _ parts tail ∧ _
    cases hreference : part.isReference with
    | true =>
      have hends : uriName.isSuffixOf part.text = true := hreference
      rw [Part.render_append] at h hfuel
      simp only [List.length_append, List.length_cons] at hfuel
      obtain ⟨fuel, rfl⟩ : ∃ n, fuel = n + 1 := ⟨fuel - 1, by omega⟩
      rw [rewriteUriAttributes, splitOnce_uriMarker part.plain.1, if_pos hends] at h
      simp only [Chars.splitOnce_append part.plain.2] at h
      cases hproxy : proxy urls base link part.quoted with
      | error error =>
        rw [hproxy] at h
        cases h
      | ok made =>
        simp only [hproxy] at h
        cases hlater : rewriteUriAttributes urls base link fuel
            (renderParts (·.quoted) parts tail) with
        | error error =>
          rw [hlater] at h
          cases h
        | ok later =>
          rw [hlater] at h
          cases h
          obtain ⟨hallowed, hmade⟩ := proxy_eq_ok hproxy
          obtain ⟨hwritten, hothers⟩ := ih hrest (by omega) hlater
          have htext := List.suffix_iff_eq_append.mp (List.isSuffixOf_iff_suffix.mp hends)
          constructor
          · rw [Part.render_append, rewrittenText, if_pos hreference, ← hmade, ← hwritten]
            conv_rhs => rw [← htext]
            simp only [List.append_assoc]
            rfl
          · intro other hother hlinked
            rcases List.mem_cons.mp hother with rfl | hother
            · exact hallowed
            · exact hothers other hother hlinked
    | false =>
      have hshort : (renderParts (·.quoted) parts tail).length ≤ fuel := by
        rw [List.length_append] at hfuel
        omega
      have hmisread := hparts part List.mem_cons_self
      rw [rewriteUriAttributes_lead (splitOnce_part hreference hmisread)] at h
      cases hlater : rewriteUriAttributes urls base link fuel
          (renderParts (·.quoted) parts tail) with
      | error error =>
        rw [hlater] at h
        cases h
      | ok later =>
        rw [hlater] at h
        cases h
        obtain ⟨hwritten, hothers⟩ := ih hrest hshort hlater
        constructor
        · have hkept : part.render (rewrittenText urls base link) = part.render (·.quoted) := by
            rw [Part.render, rewrittenText, hreference]
            rfl
          rw [hkept, ← hwritten]
        · intro other hother hlinked
          rcases List.mem_cons.mp hother with rfl | hother
          · exact absurd hlinked (by rw [hreference]; exact Bool.false_ne_true)
          · exact hothers other hother hlinked

end Attributes

/-! ### The lines of a playlist -/

inductive Line
  | tag (line : TagLine)
  | other (text : List Char)

namespace Line

def text : Line → List Char
  | tag line => line.render (·.quoted)
  | other text => text

/-- One line each, and tags are what begins with `#`. -/
def IsProper (line : Line) : Prop :=
  '\n' ∉ line.text ∧ startsWith ['#'] line.text = (line matches .tag _)

/-- No string is taken for the beginning of a reference. -/
def isPlain : Line → Bool
  | tag line => line.parts.all (!·.isMisread)
  | other _ => true

/-- What stands on the line for another server to be asked. -/
def references : Line → List (List Char)
  | tag line => (line.parts.filter (·.isReference)).map (·.quoted)
  | other text => if Chars.trim text = [] then [] else [Chars.trim text]

/-- The line with its links. White space around a URI goes. -/
def rewritten (urls : UrlLibrary) (base : Url) (link : String → String) : Line → List Char
  | tag line => line.render (rewrittenText urls base link)
  | other text => if Chars.trim text = [] then text else linkText urls base link (Chars.trim text)

end Line

section Lines

variable {urls : UrlLibrary} {base : Url} {link : String → String}
  {toUppercase : List Char → List Char}

theorem rewriteLine_line {line : Line} {out : Rewritten} (hproper : line.IsProper)
    (hplain : line.isPlain = true)
    (h : rewriteLine urls base link toUppercase line.text = .ok out) :
    out.1 = line.rewritten urls base link ∧
      ∀ reference ∈ line.references, Allowed urls base reference := by
  cases line with
  | tag line =>
    have hhash : startsWith ['#'] (line.render (·.quoted)) = true := hproper.2
    change rewriteLine urls base link toUppercase (line.render (·.quoted)) = _ at h
    rw [rewriteLine, if_pos hhash] at h
    cases hdrm : hasUnsupportedProtection toUppercase (line.render (·.quoted)) with
    | none =>
      rw [hdrm] at h
      cases h
    | some refused =>
      rw [hdrm] at h
      cases refused with
      | true => cases h
      | false =>
        have hparts : ∀ part ∈ line.parts, part.isMisread = false :=
          fun part hpart => Bool.not_eq_true' _ ▸ List.all_eq_true.mp hplain part hpart
        obtain ⟨hwritten, hallowed⟩ :=
          rewriteUriAttributes_render line.plain hparts (Nat.le_refl _) h
        refine ⟨hwritten, fun reference hreference => ?_⟩
        obtain ⟨part, hpart, rfl⟩ := List.mem_map.mp hreference
        obtain ⟨hmem, hlinked⟩ := List.mem_filter.mp hpart
        exact hallowed part hmem hlinked
  | other text =>
    have hhash : ¬startsWith ['#'] text = true := by
      have hno := hproper.2
      rw [Bool.not_eq_true]
      exact hno
    change rewriteLine urls base link toUppercase text = _ at h
    rw [rewriteLine, if_neg hhash] at h
    simp only [Line.rewritten, Line.references]
    split_ifs at h ⊢ with hblank
    · cases h
      exact ⟨rfl, fun _ hreference => absurd hreference List.not_mem_nil⟩
    · obtain ⟨hallowed, hwritten⟩ := proxy_eq_ok h
      refine ⟨hwritten, fun reference hreference => ?_⟩
      rw [List.mem_singleton.mp hreference]
      exact hallowed

theorem mapM_rewriteLine {lines : List Line} {rows : List Rewritten}
    (hlines : ∀ line ∈ lines, line.IsProper ∧ line.isPlain = true)
    (h : (lines.map Line.text).mapM (rewriteLine urls base link toUppercase) = .ok rows) :
    rows.map (·.1) = lines.map (Line.rewritten urls base link) ∧
      ∀ line ∈ lines, ∀ reference ∈ line.references, Allowed urls base reference := by
  have hrows := Traversal.forall₂_of_mapM h
  rw [List.forall₂_map_left_iff] at hrows
  clear h
  induction hrows with
  | nil => exact ⟨rfl, fun _ hline => absurd hline List.not_mem_nil⟩
  | @cons line row lines rows hfirst _ ih =>
    obtain ⟨⟨hproper, hplain⟩, hothers⟩ := List.forall_mem_cons.mp hlines
    obtain ⟨hrow, hallowed⟩ := rewriteLine_line hproper hplain hfirst
    obtain ⟨hrows, hrest⟩ := ih hothers
    constructor
    · rw [List.map_cons, List.map_cons, hrow, hrows]
    · exact List.forall_mem_cons.mpr ⟨hallowed, hrest⟩

end Lines

/-- Where no string is taken for the beginning of a reference, an accepted playlist is the same
lines with a link for each reference, and each reference passed the checks. The loop over the
attributes ends on every line. -/
theorem rewritePlaylistWith_lines (urls : UrlLibrary) (base : Url) (link : String → String)
    (toUppercase : List Char → List Char) :
    (∀ {lines : List Line} {out : Rewritten},
      (∀ line ∈ lines, line.IsProper ∧ line.isPlain = true) →
      rewritePlaylistWith urls base link toUppercase (['\n'].intercalate (lines.map Line.text)) =
        .ok out →
      out.1 = ['\n'].intercalate (lines.map (Line.rewritten urls base link)) ∧
        ∀ line ∈ lines, ∀ reference ∈ line.references, Allowed urls base reference) ∧
      ∀ (line : List Char) (fuel : ℕ), line.length ≤ fuel →
        rewriteUriAttributes urls base link fuel line =
          rewriteUriAttributes urls base link line.length line := by
  refine ⟨fun {lines out} hlines h => ?_, fun line fuel hfuel =>
    rewriteUriAttributes_ends hfuel (Nat.le_refl _)⟩
  have hne : lines.map Line.text ≠ [] := by
    intro hnil
    rw [hnil, rewritePlaylistWith, if_pos (by decide)] at h
    cases h
  have hbreak : ∀ text ∈ lines.map Line.text, '\n' ∉ text := by
    intro text htext
    obtain ⟨line, hline, rfl⟩ := List.mem_map.mp htext
    exact (hlines line hline).1.1
  have hcut : linesOf (['\n'].intercalate (lines.map Line.text)) = lines.map Line.text :=
    List.splitOn_intercalate '\n' hbreak hne
  rw [rewritePlaylistWith, hcut] at h
  split_ifs at h
  cases hrows : (lines.map Line.text).mapM (rewriteLine urls base link toUppercase) with
  | error error =>
    rw [hrows] at h
    cases h
  | ok rows =>
    rw [hrows] at h
    cases h
    obtain ⟨hwritten, hallowed⟩ := mapM_rewriteLine hlines hrows
    refine ⟨?_, hallowed⟩
    change ['\n'].intercalate (rows.map (·.1)) = _
    rw [hwritten]

/-! ### A name that ends in the marker -/

namespace Sample

def radioUrl (text : String) : Url := ⟨"https", some (.domain "radio.example"), text, [], text⟩

def radioUrls : UrlLibrary where
  parse raw := .ok (radioUrl raw)
  join _ reference := .ok (radioUrl reference)

/-- A rendition of that name. -/
def rendition (name : String) (hname : '"' ∉ name.toList) : Line :=
  .tag ⟨[⟨"#EXT-X-MEDIA:NAME=".toList, name.toList, by decide, hname⟩,
    ⟨",URI=".toList, "a".toList, by decide⟩], [], by decide⟩

def header : Line := .tag ⟨[], "#EXTM3U".toList, by decide⟩

def link (url : String) : String := "/r?" ++ url

def playlistOf (name : String) (hname : '"' ∉ name.toList) : List Line :=
  [header, rendition name hname]

def rewrite (lines : List Line) : Except RewriteError Rewritten :=
  rewritePlaylistWith radioUrls (radioUrl "") link id (['\n'].intercalate (lines.map Line.text))

theorem isProper_playlistOf (name : String) (hname : '"' ∉ name.toList)
    (hbreak : '\n' ∉ name.toList) : ∀ line ∈ playlistOf name hname, line.IsProper := by
  rw [playlistOf, List.forall_mem_cons, List.forall_mem_singleton]
  refine ⟨⟨by decide, rfl⟩, ?_, rfl⟩
  simp [rendition, Line.text, TagLine.render, renderParts, Part.render, hbreak]

theorem rewrite_english : ∃ out, rewrite (playlistOf "en" (by decide)) = .ok out ∧
    out.1 = ['\n'].intercalate ((playlistOf "en" (by decide)).map
      (Line.rewritten radioUrls (radioUrl "") link)) := by
  have hproper := isProper_playlistOf "en" (by decide) (by decide)
  have hplain : ∀ line ∈ playlistOf "en" (by decide), line.isPlain = true := by decide
  have hrun : rewrite (playlistOf "en" (by decide)) =
      .ok ("#EXTM3U\n#EXT-X-MEDIA:NAME=\"en\",URI=\"/r?a\"".toList, ["a"]) := by decide +kernel
  refine ⟨_, hrun, ?_⟩
  exact ((rewritePlaylistWith_lines radioUrls (radioUrl "") link id).1
    (fun line hline => ⟨hproper line hline, hplain line hline⟩) hrun).1

/-- The closing quote of the name is taken for an opening one, and the reference is left. -/
theorem marker_name_misread : ¬ ∀ lines out, (∀ line ∈ lines, line.IsProper) →
    rewrite lines = .ok out → out.1 = ['\n'].intercalate
      (lines.map (Line.rewritten radioUrls (radioUrl "") link)) := by
  intro h
  have hname := h (playlistOf "URI=" (by decide))
    ("#EXTM3U\n#EXT-X-MEDIA:NAME=\"URI=\"/r?,URI=\"a\"".toList, [",URI="])
    (isProper_playlistOf "URI=" (by decide) (by decide)) (by decide +kernel)
  revert hname
  decide +kernel

end Sample

end Harmony.External
