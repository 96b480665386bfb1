/-
# Where a run and a request come from

Under clients that cannot forge tags, yt-dlp is run only on pages that a search found,
pinned to the extractor that found them. A URL is requested only when it passed the
check, and when it was resolved for the id, answered for its first chunk, stood in a
playlist of the id less than an hour before, or is the cover signed into the id.
-/

import Harmony.External.Service

namespace Harmony.External

section Origins

variable (source : ExternalSource) (lib : Libraries)

/-! ### What is said of a request -/

/-- The text that was checked is the one the URL was parsed from, or the URL's own. -/
def Passed (fetch : Fetch) : Prop :=
  ∃ raw, (validateStreamUrl lib.urls raw).isOk = true ∧
    (lib.urls.parse raw = .ok fetch.url ∨ fetch.url.text = raw)

/-- Where a requested URL comes from. A playlist is one of the same Track in the sense
that is given. -/
inductive Origin (same : String → String → Prop) (w : World) (fetch : Fetch) : Prop
  | resolved (raw : String) (hresolved : (fetch.id, raw) ∈ w.resolved)
      (hparse : lib.urls.parse raw = .ok fetch.url)
  | redirected (raw : String) (answer : Answer) (hanswer : answer ∈ w.answers)
      (hid : answer.fetch.id = fetch.id) (hresolved : (fetch.id, raw) ∈ w.resolved)
      (hparse : lib.urls.parse raw = .ok answer.fetch.url)
      (hrange : ∃ first last, answer.fetch.range = byteRange first last)
      (hfinal : answer.final = fetch.url)
  | listed (playlist : Playlist) (url : String) (hplaylist : playlist ∈ w.playlists)
      (hid : same playlist.id fetch.id) (hlisted : Listed lib.urls playlist.base playlist.text url)
      (hparse : lib.urls.parse url = .ok fetch.url) (htime : fetch.sentAt < playlist.readAt + 3600)
  | artwork (found : Found) (raw : String) (hfound : found ∈ w.found)
      (hid : found.track.id = fetch.id) (hartwork : found.track.hasArtwork = true)
      (hraw : found.item.artworkUrl = some raw) (hparse : lib.urls.parse raw = .ok fetch.url)
      (hscheme : fetch.url.scheme = "https")

/-- The arguments of a search, or of a page that a search found. -/
def RunOf (w : World) (args : List String) : Prop :=
  (∃ searchPrefix query limit, args = searchArgs searchPrefix query limit source.extractorArgs) ∨
    ∃ found ∈ w.found,
      args = resolveArgs found.item.webpageUrl found.item.extractor source.extractorArgs

/-- The id stands for what its search result says. -/
def Verifies (found : Found) : Prop :=
  found.track.webpageUrl = some found.item.webpageUrl ∧
    found.track.extractor = found.item.extractor ∧
    source.tracks.verify lib.tracks lib.urls found.track.id = .ok
      { url := found.item.webpageUrl, extractor := found.item.extractor
        artworkUrl := if found.track.hasArtwork then found.item.artworkUrl else none }

/-- A playlist was answered to a request of its Track, and its links are of URLs that
stand in it. -/
def Read (w : World) (playlist : Playlist) : Prop :=
  (∃ answer ∈ w.answers, answer.fetch.id = playlist.id ∧ answer.final = playlist.base) ∧
    ∀ url ∈ playlist.linked, Listed lib.urls playlist.base playlist.text url

/-- That the fingerprints of two ids are the same. -/
def SameFingerprint (first second : String) : Prop :=
  fingerprint lib.sha256 first = fingerprint lib.sha256 second

def Issued (w : World) (id : String) : Prop := ∃ found ∈ w.found, found.track.id = id

/-! ### What only grows -/

structure Later (w w' : World) : Prop where
  found : w.found ⊆ w'.found
  resolved : w.resolved ⊆ w'.resolved
  fetches : w.fetches ⊆ w'.fetches
  answers : w.answers ⊆ w'.answers
  playlists : w.playlists ⊆ w'.playlists
  resolutions : ∀ n resolution, w.resolutions.lookup n = some resolution →
    ∃ resolution', w'.resolutions.lookup n = some resolution' ∧ resolution'.id = resolution.id

instance : IsPreorder World Later where
  refl w :=
    { found := List.Subset.refl _
      resolved := List.Subset.refl _
      fetches := List.Subset.refl _
      answers := List.Subset.refl _
      playlists := List.Subset.refl _
      resolutions := fun _ resolution h => ⟨resolution, h, rfl⟩ }
  trans w w' w'' h h' :=
    { found := List.Subset.trans h.found h'.found
      resolved := List.Subset.trans h.resolved h'.resolved
      fetches := List.Subset.trans h.fetches h'.fetches
      answers := List.Subset.trans h.answers h'.answers
      playlists := List.Subset.trans h.playlists h'.playlists
      resolutions := by
        intro n resolution hlookup
        obtain ⟨second, hsecond, hid⟩ := h.resolutions n resolution hlookup
        obtain ⟨third, hthird, hid'⟩ := h'.resolutions n second hsecond
        exact ⟨third, hthird, hid'.trans hid⟩ }

variable {source lib}
variable {w w' : World} {fetch : Fetch} {same : String → String → Prop} {id : String}

theorem Origin.later (h : Origin lib same w fetch) (hlater : Later w w') :
    Origin lib same w' fetch := by
  cases h with
  | resolved raw hresolved hparse => exact .resolved raw (hlater.resolved hresolved) hparse
  | redirected raw answer hanswer hid hresolved hparse hrange hfinal =>
    exact .redirected raw answer (hlater.answers hanswer) hid (hlater.resolved hresolved) hparse
      hrange hfinal
  | listed playlist url hplaylist hid hlisted hparse htime =>
    exact .listed playlist url (hlater.playlists hplaylist) hid hlisted hparse htime
  | artwork found raw hfound hid hartwork hraw hparse hscheme =>
    exact .artwork found raw (hlater.found hfound) hid hartwork hraw hparse hscheme

theorem Origin.imp {same' : String → String → Prop} (h : Origin lib same w fetch)
    (himp : ∀ playlist ∈ w.playlists, same playlist.id fetch.id → same' playlist.id fetch.id) :
    Origin lib same' w fetch := by
  cases h with
  | resolved raw hresolved hparse => exact .resolved raw hresolved hparse
  | redirected raw answer hanswer hid hresolved hparse hrange hfinal =>
    exact .redirected raw answer hanswer hid hresolved hparse hrange hfinal
  | listed playlist url hplaylist hid hlisted hparse htime =>
    exact .listed playlist url hplaylist (himp playlist hplaylist hid) hlisted hparse htime
  | artwork found raw hfound hid hartwork hraw hparse hscheme =>
    exact .artwork found raw hfound hid hartwork hraw hparse hscheme

theorem RunOf.later {args : List String} (h : RunOf source w args) (hlater : Later w w') :
    RunOf source w' args := by
  rcases h with h | ⟨found, hfound, hargs⟩
  · exact Or.inl h
  · exact Or.inr ⟨found, hlater.found hfound, hargs⟩

theorem Read.later {playlist : Playlist} (h : Read lib w playlist) (hlater : Later w w') :
    Read lib w' playlist := by
  obtain ⟨⟨answer, hanswer, hid, hfinal⟩, hlinked⟩ := h
  exact ⟨⟨answer, hlater.answers hanswer, hid, hfinal⟩, hlinked⟩

theorem Issued.later (h : Issued w id) (hlater : Later w w') : Issued w' id := by
  obtain ⟨found, hfound, hid⟩ := h
  exact ⟨found, hlater.found hfound, hid⟩

/-! ### The invariant -/

variable (source lib)

/-- What a resolution's task has, when it has something. -/
def Stage.resolved : Stage → Option Resolved
  | .finished (.ok resolved) | .settled (.ok resolved) => some resolved
  | _ => none

/-- A resolution is of a found Track, and what it resolved is in the log. -/
def Resolution.Sound (w : World) (resolution : Resolution) : Prop :=
  (∃ found ∈ w.found, found.track.id = resolution.id ∧ found.ref = resolution.track) ∧
    ∀ resolved, resolution.stage.resolved = some resolved →
      (resolution.id, resolved.url) ∈ w.resolved

structure Sound (w : World) : Prop where
  found : ∀ found ∈ w.found,
    found.item.IsSafe lib.urls ∧ source.issue lib found.item = some found
  runs : ∀ args ∈ w.runs, RunOf source w args
  fetches : ∀ fetch ∈ w.fetches,
    Passed lib fetch ∧ Origin lib (SameFingerprint lib) w fetch ∧ Issued w fetch.id
  answers : ∀ answer ∈ w.answers, answer.fetch ∈ w.fetches
  playlists : ∀ playlist ∈ w.playlists, Read lib w playlist
  cache : ∀ id entry, w.cache.lookup id = some entry → (id, entry.resolved.url) ∈ w.resolved
  resolutions : ∀ n resolution, w.resolutions.lookup n = some resolution →
    resolution.Sound w ∧ n < w.nextResolution
  inFlight : ∀ id n, w.inFlight.lookup id = some n →
    ∃ resolution, w.resolutions.lookup n = some resolution ∧ resolution.id = id

variable {source lib}

theorem Resolution.Sound.later {resolution : Resolution} (h : resolution.Sound w)
    (hlater : Later w w') : resolution.Sound w' := by
  obtain ⟨⟨found, hfound, hresolution⟩, hresolved⟩ := h
  exact ⟨⟨found, hlater.found hfound, hresolution⟩, fun resolved hstage =>
    hlater.resolved (hresolved resolved hstage)⟩

theorem Sound.new (now : ℤ) (instant : ℕ) : Sound source lib (World.new now instant) where
  found := by simp [World.new]
  runs := by simp [World.new]
  fetches := by simp [World.new]
  answers := by simp [World.new]
  playlists := by simp [World.new]
  cache := by
    intro id entry h
    cases h
  resolutions := by
    intro n resolution h
    cases h
  inFlight := by
    intro id n h
    cases h

/-! ### Ids and tokens -/

/-- What the id of a found result was signed for. -/
theorem issue_eq_some {item : SearchItem} {found : Found}
    (h : source.issue lib item = some found) :
    found.item = item ∧ found.track.webpageUrl = some item.webpageUrl ∧
      found.track.extractor = item.extractor ∧
      found.ref = { url := item.webpageUrl, extractor := item.extractor
                    artworkUrl := if found.track.hasArtwork then item.artworkUrl else none } ∧
      source.tracks.sign lib.tracks found.ref = some found.track.id ∧
      (found.track.hasArtwork = true → item.artworkUrl.isSome = true) := by
  rw [ExternalSource.issue] at h
  cases hsign : source.tracks.sign lib.tracks
      { TrackRef.new item.webpageUrl item.extractor with artworkUrl := item.artworkUrl } with
  | some id =>
    simp only [hsign] at h
    cases h
    refine ⟨rfl, rfl, rfl, ?_, hsign, fun hartwork => hartwork⟩
    cases hcover : item.artworkUrl <;> simp [ExternalSource.foundAs, TrackRef.new]
  | none =>
    simp only [hsign] at h
    obtain ⟨id, hid, rfl⟩ := Option.map_eq_some_iff.mp h
    exact ⟨rfl, rfl, rfl, rfl, hid, fun hartwork =>
      absurd hartwork (by simp [ExternalSource.foundAs])⟩

/-- What was found and issued is well formed, so its id is accepted. -/
theorem verifies_of_issue {found : Found} (hsafe : found.item.IsSafe lib.urls)
    (h : source.issue lib found.item = some found) : Verifies source lib found := by
  obtain ⟨-, hpage, hextractor, href, hsign, -⟩ := issue_eq_some h
  refine ⟨hpage, hextractor, ?_⟩
  rw [← href]
  refine TokenSigner.verify_sign hsign ?_
  obtain ⟨hkey, hvalid, hartwork⟩ := hsafe
  rw [TokenSigner.isWellFormed, Bool.and_eq_true, Bool.and_eq_true, href]
  refine ⟨⟨hkey, isWebUrl_of_valid hvalid⟩, ?_⟩
  dsimp only
  split_ifs
  · cases hcover : found.item.artworkUrl with
    | none => rfl
    | some url => exact hartwork url hcover
  · rfl

/-- An id that is accepted under a genuine tag is one that was issued. -/
theorem Sound.issued (h : Sound source lib w) {track : TrackRef}
    (hgenuine : Genuine source.tracks.mac (w.trackPayloads lib) id = true)
    (hverify : source.verifyId lib id = .ok track) :
    ∃ found ∈ w.found, found.track.id = id ∧ found.ref = track := by
  have hok : source.tracks.verify lib.tracks lib.urls id = .ok track := by
    rw [ExternalSource.verifyId] at hverify
    cases hresult : source.tracks.verify lib.tracks lib.urls id with
    | error error => simp [hresult, Except.mapError] at hverify
    | ok found => simpa [hresult, Except.mapError] using hverify
  obtain ⟨payload, hopen, -⟩ := TokenSigner.verify_ok hok
  have hmem := mem_of_genuine hgenuine hopen
  rw [World.trackPayloads, List.mem_map] at hmem
  obtain ⟨found, hfound, rfl⟩ := hmem
  obtain ⟨htrack, hid⟩ := TokenSigner.eq_of_verify hok hopen
  obtain ⟨-, -, -, -, hsign, -⟩ := issue_eq_some (h.found found hfound).2
  refine ⟨found, hfound, ?_, htrack.symm⟩
  rw [hid]
  rw [TokenSigner.sign] at hsign
  split_ifs at hsign
  exact (Option.some.inj hsign).symm

/-! ### What a step changes -/

/-- A step that keeps the logs and the resolutions. -/
theorem Later.of_eq (hfound : w'.found = w.found) (hresolved : w'.resolved = w.resolved)
    (hfetches : w'.fetches = w.fetches) (hanswers : w'.answers = w.answers)
    (hplaylists : w'.playlists = w.playlists) (hresolutions : w'.resolutions = w.resolutions) :
    Later w w' where
  found := by rw [hfound]; exact List.Subset.refl _
  resolved := by rw [hresolved]; exact List.Subset.refl _
  fetches := by rw [hfetches]; exact List.Subset.refl _
  answers := by rw [hanswers]; exact List.Subset.refl _
  playlists := by rw [hplaylists]; exact List.Subset.refl _
  resolutions := by
    intro n resolution h
    rw [hresolutions]
    exact ⟨resolution, h, rfl⟩

/-- A step keeps the invariant when what it adds has an origin. -/
theorem Sound.step (h : Sound source lib w) (hlater : Later w w')
    (hfound : ∀ found ∈ w'.found, found ∈ w.found ∨
      found.item.IsSafe lib.urls ∧ source.issue lib found.item = some found)
    (hruns : ∀ args ∈ w'.runs, args ∈ w.runs ∨ RunOf source w' args)
    (hfetches : ∀ fetch ∈ w'.fetches, fetch ∈ w.fetches ∨
      Passed lib fetch ∧ Origin lib (SameFingerprint lib) w' fetch ∧ Issued w' fetch.id)
    (hanswers : ∀ answer ∈ w'.answers, answer ∈ w.answers ∨ answer.fetch ∈ w'.fetches)
    (hplaylists : ∀ playlist ∈ w'.playlists, playlist ∈ w.playlists ∨ Read lib w' playlist)
    (hcache : ∀ id entry, w'.cache.lookup id = some entry →
      w.cache.lookup id = some entry ∨ (id, entry.resolved.url) ∈ w'.resolved)
    (hresolutions : ∀ n resolution, w'.resolutions.lookup n = some resolution →
      w.resolutions.lookup n = some resolution ∨ resolution.Sound w' ∧ n < w'.nextResolution)
    (hnext : w.nextResolution ≤ w'.nextResolution)
    (hflight : ∀ id n, w'.inFlight.lookup id = some n → w.inFlight.lookup id = some n ∨
      ∃ resolution, w'.resolutions.lookup n = some resolution ∧ resolution.id = id) :
    Sound source lib w' ∧ Later w w' := by
  refine ⟨?_, hlater⟩
  exact
    { found := fun found hmem => (hfound found hmem).elim (h.found found) id
      runs := fun args hmem =>
        (hruns args hmem).elim (fun hold => (h.runs args hold).later hlater) id
      fetches := by
        intro fetch hmem
        rcases hfetches fetch hmem with hold | hnew
        · obtain ⟨hpassed, horigin, hissued⟩ := h.fetches fetch hold
          exact ⟨hpassed, horigin.later hlater, hissued.later hlater⟩
        · exact hnew
      answers := fun answer hmem =>
        (hanswers answer hmem).elim (fun hold => hlater.fetches (h.answers answer hold)) id
      playlists := fun playlist hmem =>
        (hplaylists playlist hmem).elim (fun hold => (h.playlists playlist hold).later hlater) id
      cache := fun id entry hentry =>
        (hcache id entry hentry).elim (fun hold => hlater.resolved (h.cache id entry hold))
          fun hnew => hnew
      resolutions := by
        intro n resolution hlookup
        rcases hresolutions n resolution hlookup with hold | hnew
        · obtain ⟨hsound, hlt⟩ := h.resolutions n resolution hold
          exact ⟨hsound.later hlater, by omega⟩
        · exact hnew
      inFlight := by
        intro id n hlookup
        rcases hflight id n hlookup with hold | hnew
        · obtain ⟨resolution, hresolution, hid⟩ := h.inFlight id n hold
          obtain ⟨resolution', hresolution', hid'⟩ := hlater.resolutions n resolution hresolution
          exact ⟨resolution', hresolution', hid'.trans hid⟩
        · exact hnew }

theorem Sound.forgetRefused (h : Sound source lib w) (id : String) :
    Sound source lib (w.forgetRefused id) ∧ Later w (w.forgetRefused id) := by
  rw [World.forgetRefused]
  cases hlookup : w.cache.lookup id with
  | none => exact ⟨h, refl w⟩
  | some entry =>
    dsimp only
    split_ifs
    · refine h.step (.of_eq rfl rfl rfl rfl rfl rfl) (fun _ => Or.inl) (fun _ => Or.inl)
        (fun _ => Or.inl) (fun _ => Or.inl) (fun _ => Or.inl) ?_ (fun _ _ => Or.inl) le_rfl
        (fun _ _ => Or.inl)
      intro other row hrow
      rw [Table.lookup_erase_eq] at hrow
      split_ifs at hrow
      exact Or.inl hrow
    · exact ⟨h, refl w⟩

/-- What is handed to the fetcher, when it passed the check and has an origin. -/
theorem Sound.send (h : Sound source lib w) {url : Url} {headers : RequestHeaders}
    {range : RangeRequest} (hpassed : Passed lib (w.send id url headers range).1)
    (horigin : Origin lib (SameFingerprint lib) w (w.send id url headers range).1)
    (hissued : Issued w id) :
    Sound source lib (w.send id url headers range).2 ∧
      Later w (w.send id url headers range).2 := by
  have hlater : Later w (w.send id url headers range).2 :=
    { found := List.Subset.refl _
      resolved := List.Subset.refl _
      fetches := List.subset_cons_self _ _
      answers := List.Subset.refl _
      playlists := List.Subset.refl _
      resolutions := fun n resolution hlookup => ⟨resolution, hlookup, rfl⟩ }
  refine h.step hlater (fun _ => Or.inl) (fun _ => Or.inl) ?_ (fun _ => Or.inl) (fun _ => Or.inl)
    (fun _ _ => Or.inl) (fun _ _ => Or.inl) le_rfl (fun _ _ => Or.inl)
  intro fetch hfetch
  rcases List.mem_cons.mp hfetch with rfl | hold
  · exact Or.inr ⟨hpassed, horigin.later hlater, hissued.later hlater⟩
  · exact Or.inl hold

theorem Sound.receive (h : Sound source lib w) {sent : Fetch} (hsent : sent ∈ w.fetches)
    (final : Url) :
    Sound source lib { w with answers := ⟨sent, final⟩ :: w.answers } ∧
      Later w { w with answers := ⟨sent, final⟩ :: w.answers } := by
  have hlater : Later w { w with answers := ⟨sent, final⟩ :: w.answers } :=
    { found := List.Subset.refl _
      resolved := List.Subset.refl _
      fetches := List.Subset.refl _
      answers := List.subset_cons_self _ _
      playlists := List.Subset.refl _
      resolutions := fun n resolution hlookup => ⟨resolution, hlookup, rfl⟩ }
  refine h.step hlater (fun _ => Or.inl) (fun _ => Or.inl) (fun _ => Or.inl) ?_ (fun _ => Or.inl)
    (fun _ _ => Or.inl) (fun _ _ => Or.inl) le_rfl (fun _ _ => Or.inl)
  intro answer hanswer
  rcases List.mem_cons.mp hanswer with rfl | hold
  · exact Or.inr hsent
  · exact Or.inl hold

/-- A resolution that begins is of the found Track. -/
theorem Sound.resolution (h : Sound source lib w) {track : TrackRef}
    (hfound : ∃ found ∈ w.found, found.track.id = id ∧ found.ref = track) :
    (Sound source lib (w.resolution id track).2 ∧ Later w (w.resolution id track).2) ∧
      ∃ resolution, (w.resolution id track).2.resolutions.lookup (w.resolution id track).1 =
        some resolution ∧ resolution.id = id := by
  rw [World.resolution]
  cases hlookup : w.inFlight.lookup id with
  | some existing => exact ⟨⟨h, refl w⟩, h.inFlight id existing hlookup⟩
  | none =>
    dsimp only
    have hrow : AList.lookup w.nextResolution
        (w.resolutions.insert w.nextResolution ⟨id, track, .queued⟩) =
          some ⟨id, track, .queued⟩ := AList.lookup_insert _
    refine ⟨h.step ?_ (fun _ => Or.inl) (fun _ => Or.inl) (fun _ => Or.inl) (fun _ => Or.inl)
      (fun _ => Or.inl) (fun _ _ => Or.inl) ?_ (Nat.le_succ _) ?_, _, hrow, rfl⟩
    · refine
        { found := List.Subset.refl _
          resolved := List.Subset.refl _
          fetches := List.Subset.refl _
          answers := List.Subset.refl _
          playlists := List.Subset.refl _
          resolutions := fun n resolution hold => ⟨resolution, ?_, rfl⟩ }
      -- The number is a new one.
      have hlt := (h.resolutions n resolution hold).2
      rw [Table.lookup_insert_eq, if_neg (by omega)]
      exact hold
    · intro n resolution hnew
      rw [Table.lookup_insert_eq] at hnew
      split_ifs at hnew with hn
      · cases hnew
        refine Or.inr ⟨⟨hfound, fun resolved hstage => ?_⟩, ?_⟩
        · cases hstage
        · dsimp only
          omega
      · exact Or.inl hnew
    · intro other n hnew
      rw [Table.lookup_insert_eq] at hnew
      split_ifs at hnew with hid
      · cases hnew
        exact Or.inr ⟨_, hrow, hid.symm⟩
      · exact Or.inl hnew

/-- A task goes on to a stage that has only what is in the log. -/
theorem Sound.setStage (h : Sound source lib w) {n : ℕ} {stage : Stage} {resolution : Resolution}
    (hlookup : w.resolutions.lookup n = some resolution)
    (hstage : ∀ resolved, stage.resolved = some resolved →
      (resolution.id, resolved.url) ∈ w.resolved) :
    Sound source lib (w.setStage n stage) ∧ Later w (w.setStage n stage) := by
  have hlater : Later w (w.setStage n stage) := by
    refine
      { found := List.Subset.refl _
        resolved := List.Subset.refl _
        fetches := List.Subset.refl _
        answers := List.Subset.refl _
        playlists := List.Subset.refl _
        resolutions := fun m row hold => ?_ }
    rw [World.setStage, Table.lookup_modify, hold]
    split_ifs
    · exact ⟨{ row with stage }, rfl, rfl⟩
    · exact ⟨row, rfl, rfl⟩
  refine h.step hlater (fun _ => Or.inl) (fun _ => Or.inl) (fun _ => Or.inl) (fun _ => Or.inl)
    (fun _ => Or.inl) (fun _ _ => Or.inl) ?_ le_rfl (fun _ _ => Or.inl)
  intro m row hrow
  rw [World.setStage, Table.lookup_modify] at hrow
  split_ifs at hrow with hm
  · subst hm
    rw [hlookup] at hrow
    cases hrow
    obtain ⟨⟨htrack, -⟩, hlt⟩ := h.resolutions m resolution hlookup
    exact Or.inr ⟨⟨htrack, hstage⟩, hlt⟩
  · exact Or.inl hrow

theorem lookup_insertResolved {id other : String} {resolved : Resolved} {lifetime : ℕ}
    {entry : CacheEntry}
    (h : (w.insertResolved id resolved lifetime).cache.lookup other = some entry) :
    (other = id ∧ entry.resolved = resolved) ∨ w.cache.lookup other = some entry := by
  have hkept : ∀ row, (w.cache.filter fun _ entry => w.instant < entry.staleAt).lookup other =
      some row → w.cache.lookup other = some row := by
    intro row hrow
    rw [Table.lookup_filter] at hrow
    exact (Option.filter_eq_some_iff.mp hrow).1
  rw [World.insertResolved] at h
  dsimp only at h
  rw [Table.lookup_insert_eq] at h
  split_ifs at h with hid hfull
  · cases h
    exact Or.inl ⟨hid, rfl⟩
  · cases holdest : World.oldest CacheEntry.staleAt
        (w.cache.filter fun _ entry => w.instant < entry.staleAt) with
    | none =>
      rw [holdest] at h
      exact Or.inr (hkept entry h)
    | some key =>
      rw [holdest] at h
      dsimp only at h
      rw [Table.lookup_erase_eq] at h
      split_ifs at h
      exact Or.inr (hkept entry h)
  · exact Or.inr (hkept entry h)

/-- What a task found is cached under its id. -/
theorem Sound.storeResult (h : Sound source lib w) {result : Except ExternalError Resolved}
    (hstore : w.storeResult lib id result = some w') :
    (Sound source lib w' ∧ Later w w') ∧ w'.resolutions = w.resolutions ∧
      ∀ resolved, result = .ok resolved → (id, resolved.url) ∈ w'.resolved := by
  cases result with
  | error error =>
    cases hstore
    exact ⟨⟨h, refl w⟩, rfl, fun _ hresult => by cases hresult⟩
  | ok resolved =>
    obtain ⟨lifetime, -, rfl⟩ := Option.map_eq_some_iff.mp hstore
    have hlater : Later w
        { w.insertResolved id resolved lifetime with
          resolved := (id, resolved.url) :: (w.insertResolved id resolved lifetime).resolved } :=
      { found := List.Subset.refl _
        resolved := List.subset_cons_self _ _
        fetches := List.Subset.refl _
        answers := List.Subset.refl _
        playlists := List.Subset.refl _
        resolutions := fun n resolution hlookup => ⟨resolution, hlookup, rfl⟩ }
    refine ⟨?_, rfl, ?_⟩
    · refine h.step hlater (fun _ => Or.inl) (fun _ => Or.inl) (fun _ => Or.inl) (fun _ => Or.inl)
        (fun _ => Or.inl) ?_ (fun _ _ => Or.inl) le_rfl (fun _ _ => Or.inl)
      intro other entry hentry
      rcases lookup_insertResolved hentry with ⟨rfl, hresolved⟩ | hold
      · refine Or.inr ?_
        rw [hresolved]
        exact List.mem_cons_self
      · exact Or.inl hold
    · intro other hresult
      cases hresult
      exact List.mem_cons_self

theorem Sound.logRun (h : Sound source lib w) {args : List String} (hargs : RunOf source w args) :
    Sound source lib { w with runs := args :: w.runs } ∧
      Later w { w with runs := args :: w.runs } := by
  have hlater : Later w { w with runs := args :: w.runs } := .of_eq rfl rfl rfl rfl rfl rfl
  refine h.step hlater (fun _ => Or.inl) ?_ (fun _ => Or.inl) (fun _ => Or.inl) (fun _ => Or.inl)
    (fun _ _ => Or.inl) (fun _ _ => Or.inl) le_rfl (fun _ _ => Or.inl)
  intro other hother
  rcases List.mem_cons.mp hother with rfl | hold
  · exact Or.inr (hargs.later hlater)
  · exact Or.inl hold

theorem Sound.issueAll (h : Sound source lib w) {searchPrefix : String} {items : List SearchItem}
    (hsafe : ∀ item ∈ items, item.IsSafe lib.urls) :
    Sound source lib (source.issueAll lib searchPrefix items w).2 ∧
      Later w (source.issueAll lib searchPrefix items w).2 := by
  have hlater : Later w (source.issueAll lib searchPrefix items w).2 :=
    { found := List.subset_append_right _ _
      resolved := List.Subset.refl _
      fetches := List.Subset.refl _
      answers := List.Subset.refl _
      playlists := List.Subset.refl _
      resolutions := fun n resolution hlookup => ⟨resolution, hlookup, rfl⟩ }
  refine h.step hlater ?_ (fun _ => Or.inl) (fun _ => Or.inl) (fun _ => Or.inl) (fun _ => Or.inl)
    (fun _ _ => Or.inl) (fun _ _ => Or.inl) le_rfl (fun _ _ => Or.inl)
  intro found hfound
  rcases List.mem_append.mp hfound with hnew | hold
  · obtain ⟨item, hitem, hissue⟩ := List.mem_filterMap.mp hnew
    have hsame := (issue_eq_some hissue).1
    rw [hsame]
    exact Or.inr ⟨hsafe item hitem, hissue⟩
  · exact Or.inl hold

/-- A playlist that was answered to its Track is signed for it. -/
theorem Sound.signPlaylist (h : Sound source lib w) {headers : RequestHeaders} {base : Url}
    {text : List Char}
    (hanswered : ∃ answer ∈ w.answers, answer.fetch.id = id ∧ answer.final = base) :
    Sound source lib (source.signPlaylist lib id headers base text w).2 ∧
      Later w (source.signPlaylist lib id headers base text w).2 := by
  rw [ExternalSource.signPlaylist]
  cases hrewrite : rewritePlaylistWith lib.urls base
      (fun url => resourcePath id
        (source.resources.sign lib.claims w.now (fingerprint lib.sha256 id) url))
      lib.toUppercase text with
  | error error => exact ⟨h, refl w⟩
  | ok out =>
    obtain ⟨rewritten, linked⟩ := out
    dsimp only
    refine h.step ?_ (fun _ => Or.inl) (fun _ => Or.inl) (fun _ => Or.inl) (fun _ => Or.inl) ?_
      (fun _ _ => Or.inl) (fun _ _ => Or.inl) le_rfl (fun _ _ => Or.inl)
    · exact
        { found := List.Subset.refl _
          resolved := List.Subset.refl _
          fetches := List.Subset.refl _
          answers := List.Subset.refl _
          playlists := List.subset_cons_self _ _
          resolutions := fun n resolution hlookup => ⟨resolution, hlookup, rfl⟩ }
    · intro playlist hplaylist
      rcases List.mem_cons.mp hplaylist with rfl | hold
      · exact Or.inr ⟨hanswered, rewritePlaylistWith_listed hrewrite⟩
      · exact Or.inl hold

theorem Sound.leaveFlight (h : Sound source lib w) (id : String) :
    Sound source lib { w with inFlight := w.inFlight.erase id } ∧
      Later w { w with inFlight := w.inFlight.erase id } := by
  refine h.step (.of_eq rfl rfl rfl rfl rfl rfl) (fun _ => Or.inl) (fun _ => Or.inl)
    (fun _ => Or.inl) (fun _ => Or.inl) (fun _ => Or.inl) (fun _ _ => Or.inl) (fun _ _ => Or.inl)
    le_rfl ?_
  intro other n hother
  rw [Table.lookup_erase_eq] at hother
  split_ifs at hother
  exact Or.inl hother

/-! ### What moves without a request -/

theorem Sound.move (h : Sound source lib w) {event : Outside}
    (hmove : w.move source lib event = some w') : Sound source lib w' ∧ Later w w' := by
  cases event with
  | clock now passed =>
    cases hmove
    exact h.step (.of_eq rfl rfl rfl rfl rfl rfl) (fun _ => Or.inl) (fun _ => Or.inl)
      (fun _ => Or.inl) (fun _ => Or.inl) (fun _ => Or.inl) (fun _ _ => Or.inl)
      (fun _ _ => Or.inl) le_rfl (fun _ _ => Or.inl)
  | run n =>
    rw [World.move] at hmove
    split at hmove
    · rename_i id track hlookup
      cases hmove
      have hstaged : Sound source lib (w.setStage n .running) ∧ Later w (w.setStage n .running) :=
        h.setStage hlookup (fun _ hstage => by cases hstage)
      obtain ⟨⟨⟨found, hfound, -, hsigned⟩, -⟩, -⟩ := h.resolutions n _ hlookup
      have href : found.ref = track := hsigned
      have hargs : RunOf source (w.setStage n .running)
          (resolveArgs track.url track.extractor source.extractorArgs) := by
        refine Or.inr ⟨found, hstaged.2.found hfound, ?_⟩
        obtain ⟨-, -, -, hpage, -, -⟩ := issue_eq_some (h.found found hfound).2
        rw [← href, hpage]
      obtain ⟨hlogged, hlater⟩ := hstaged.1.logRun hargs
      exact ⟨hlogged, trans_of Later hstaged.2 hlater⟩
    · cases hmove
  | finish n output =>
    simp only [World.move] at hmove
    split at hmove
    · rename_i id track hlookup
      obtain ⟨stored, hstore, rfl⟩ := Option.map_eq_some_iff.mp hmove
      obtain ⟨⟨hstored, hlater⟩, hsame, hresolved⟩ := h.storeResult hstore
      have hlookup' : stored.resolutions.lookup n = some ⟨id, track, .running⟩ := by
        rw [hsame]
        exact hlookup
      have hstage : ∀ resolved, (Stage.finished (World.resultOf lib output)).resolved =
          some resolved → World.resultOf lib output = .ok resolved := by
        intro resolved hstage
        cases hresult : World.resultOf lib output with
        | error error => simp [hresult, Stage.resolved] at hstage
        | ok other => simpa [hresult, Stage.resolved] using hstage
      obtain ⟨hkept, hlater'⟩ := hstored.setStage hlookup' fun resolved hsome =>
        hresolved resolved (hstage resolved hsome)
      exact ⟨hkept, trans_of Later hlater hlater'⟩
    · rename_i id track hlookup
      cases output with
      | ok printed => cases hmove
      | error error =>
        cases hmove
        exact h.setStage hlookup (fun _ hstage => by cases hstage)
    · cases hmove
  | settle n =>
    rw [World.move] at hmove
    split at hmove
    · rename_i id track result hlookup
      cases hmove
      have hstaged : Sound source lib (w.setStage n (.settled result)) ∧
          Later w (w.setStage n (.settled result)) := by
        refine h.setStage hlookup fun resolved hstage => ?_
        refine (h.resolutions n _ hlookup).1.2 resolved ?_
        cases result with
        | error error => cases hstage
        | ok other => exact hstage
      obtain ⟨hkept, hlater⟩ := hstaged.1.leaveFlight id
      exact ⟨hkept, trans_of Later hstaged.2 hlater⟩
    · cases hmove
  | stop n error =>
    rw [World.move] at hmove
    split at hmove
    · rename_i hlookup
      cases hmove
      exact h.setStage hlookup (fun _ hstage => by cases hstage)
    · rename_i hlookup
      cases hmove
      exact h.setStage hlookup (fun _ hstage => by cases hstage)
    · rename_i hlookup
      cases hmove
      exact h.setStage hlookup (fun _ hstage => by cases hstage)
    · cases hmove

end Origins

end Harmony.External
