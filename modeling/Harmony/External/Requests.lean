/-
# Requests of the External Source

Each program is shown to keep the invariant from every state that the other requests
may lead to. What a step passes on to the next one is a fact about the logs, and stays
true while they grow.
-/

import Mathlib.Data.Nat.Digits.Defs
import Harmony.External.Origins

namespace Harmony.External

section Requests

variable (source : ExternalSource) (lib : Libraries)

/-- The program keeps the invariant from the state on. -/
abbrev Keeps {α : Type} (Q : α → World → Prop) (program : Program α) (w : World) : Prop :=
  Thread.Safe (Sound source lib) Later Q program w

/-- The request went out with what it was given. -/
def Sent (id url : String) (range : RangeRequest) (sent : Fetch) (w : World) : Prop :=
  sent ∈ w.fetches ∧ sent.id = id ∧ sent.range = range ∧ lib.urls.parse url = .ok sent.url

/-- The response is the answer to such a request. -/
def Answers (id url : String) (range : RangeRequest) (response : Fetched) (w : World) : Prop :=
  ∃ sent, Sent lib id url range sent w ∧ ⟨sent, response.url⟩ ∈ w.answers

/-- The URL is where the first chunk of the Track's audio was answered from. -/
def AnswersFirst (id : String) (url : Url) (w : World) : Prop :=
  ∃ raw response first last, (id, raw) ∈ w.resolved ∧
    Answers lib id raw (byteRange first last) response w ∧ response.url = url

variable {source lib}
variable {w w' : World} {id url : String} {range : RangeRequest} {headers : RequestHeaders}

theorem Sent.later {sent : Fetch} (h : Sent lib id url range sent w) (hlater : Later w w') :
    Sent lib id url range sent w' :=
  ⟨hlater.fetches h.1, h.2⟩

theorem Answers.later {response : Fetched} (h : Answers lib id url range response w)
    (hlater : Later w w') : Answers lib id url range response w' := by
  obtain ⟨sent, hsent, hanswer⟩ := h
  exact ⟨sent, hsent.later hlater, hlater.answers hanswer⟩

theorem AnswersFirst.later {final : Url} (h : AnswersFirst lib id final w)
    (hlater : Later w w') : AnswersFirst lib id final w' := by
  obtain ⟨raw, response, first, last, hresolved, hanswers, hurl⟩ := h
  exact ⟨raw, response, first, last, hlater.resolved hresolved, hanswers.later hlater, hurl⟩

theorem AnswersFirst.origin {fetch : Fetch} (h : AnswersFirst lib fetch.id fetch.url w) :
    Origin lib (SameFingerprint lib) w fetch := by
  obtain ⟨raw, response, first, last, hresolved, ⟨sent, ⟨-, hid, hrange, hparse⟩, hanswer⟩, hurl⟩ :=
    h
  exact .redirected raw ⟨sent, response.url⟩ hanswer hid hresolved hparse ⟨first, last, hrange⟩ hurl

/-! ### The parts of a request -/

theorem keeps_attempt {α : Type} {Q : α → World → Prop}
    {run : World → Except ExternalError α × World}
    (h : ∀ w', Later w w' → Sound source lib w' →
      (Sound source lib (run w').2 ∧ Later w' (run w').2) ∧
        ∀ a, (run w').1 = .ok a → Q a (run w').2) :
    Keeps source lib Q (attempt run) w := by
  have hstep : Keeps source lib (fun result t => ∀ a, result = .ok a → Q a t)
      (Thread.step run) w := by
    apply Thread.Safe.step
    intro w' hlater hsound
    obtain ⟨⟨hkept, hmoved⟩, hresult⟩ := h w' hlater hsound
    exact ⟨hkept, hmoved, hresult⟩
  exact hstep.bind fun result t hresult => Thread.Safe.ofExcept hresult

theorem keeps_known {α : Type} (x : Except ExternalError α) :
    Keeps source lib (fun _ _ => True) (Thread.ofExcept x) w :=
  Thread.Safe.ofExcept fun _ _ => trivial

theorem keeps_receive {sent : Fetch} (hsent : sent ∈ w.fetches) :
    Keeps source lib (fun answer t => ∀ response, answer = .ok response →
      ⟨sent, response.url⟩ ∈ t.answers) (receive sent) w := by
  apply Thread.Safe.atomically
  intro w' hlater hsound reply answer t hrun
  split at hrun
  · rename_i response
    cases hrun
    obtain ⟨hkept, hmoved⟩ := hsound.receive (hlater.fetches hsent) response.url
    refine ⟨hkept, hmoved, fun other hother => ?_⟩
    cases hother
    exact List.mem_cons_self
  · cases hrun
    exact ⟨hsound, refl w', fun other hother => by cases hother⟩
  · cases hrun

theorem keeps_answered {sent : Fetch} (hsent : Sent lib id url range sent w) :
    Keeps source lib (Answers lib id url range) (ExternalSource.answered sent) w := by
  rw [ExternalSource.answered]
  refine Thread.Safe.andThen (keeps_receive hsent.1) fun answer t hlater hanswer => ?_
  cases answer with
  | error error => exact Thread.Safe.fail _
  | ok response =>
    apply Thread.Safe.ite
    · intro hgood
      exact ⟨sent, hsent.later hlater, hanswer response rfl⟩
    · intro hbad
      dsimp only
      apply Thread.Safe.ite
      · intro _
        have hforget : Keeps source lib (fun _ _ => True)
            (Thread.step fun w => ((), w.forgetRefused sent.id)) t := by
          apply Thread.Safe.step
          intro w' _ hsound
          obtain ⟨hkept, hmoved⟩ := hsound.forgetRefused sent.id
          exact ⟨hkept, hmoved, trivial⟩
        exact hforget.bind fun _ _ _ => Thread.Safe.fail _
      · intro _
        exact Thread.Safe.fail _

theorem sendChecked_sound (h : Sound source lib w)
    (hissued : Issued w id)
    (horigin : ∀ fetch, fetch.id = id → fetch.sentAt = w.now → lib.urls.parse url = .ok fetch.url →
      Origin lib (SameFingerprint lib) w fetch) :
    (Sound source lib (ExternalSource.sendChecked lib id url headers range w).2 ∧
      Later w (ExternalSource.sendChecked lib id url headers range w).2) ∧
      ∀ sent, (ExternalSource.sendChecked lib id url headers range w).1 = .ok sent →
        Sent lib id url range sent (ExternalSource.sendChecked lib id url headers range w).2 := by
  rw [ExternalSource.sendChecked]
  cases hvalid : validateStreamUrl lib.urls url with
  | error error => exact ⟨⟨h, refl w⟩, fun _ hsent => by cases hsent⟩
  | ok checked =>
    cases hparse : lib.urls.parse url with
    | error error => exact ⟨⟨h, refl w⟩, fun _ hsent => by cases hsent⟩
    | ok parsed =>
      dsimp only
      have hpassed : Passed lib (w.send id parsed headers range).1 :=
        ⟨url, by rw [hvalid]; rfl, Or.inl hparse⟩
      refine ⟨h.send hpassed (horigin _ rfl rfl hparse) hissued, fun sent hsent => ?_⟩
      cases hsent
      exact ⟨List.mem_cons_self, rfl, rfl, hparse⟩

theorem keeps_fetch (hresolved : (id, url) ∈ w.resolved) (hissued : Issued w id) :
    Keeps source lib (Answers lib id url range) (ExternalSource.fetch lib id url headers range)
      w := by
  rw [ExternalSource.fetch]
  refine Thread.Safe.bind (keeps_attempt fun w' hlater hsound => ?_) fun sent t hsent =>
    keeps_answered hsent
  refine sendChecked_sound hsound (hissued.later hlater) fun fetch hid _ hparse => ?_
  refine .resolved url ?_ hparse
  rw [hid]
  exact hlater.resolved hresolved

/-- A later chunk is asked of where the first one came from. -/
theorem keeps_laterChunks {final : Url} {chunkSize last : UInt64}
    (hvalid : (validateStreamUrl lib.urls final.text).isOk = true)
    (hfirst : AnswersFirst lib id final w) (hissued : Issued w id) (reads : ℕ) (next : UInt64) :
    Keeps source lib (fun _ _ => True)
      (ExternalSource.laterChunks id final headers chunkSize last reads next) w := by
  induction reads generalizing w next with
  | zero => trivial
  | succ reads ih =>
    rw [ExternalSource.laterChunks]
    apply Thread.Safe.ite
    · intro _
      trivial
    · intro _
      dsimp only
      have hsend : Keeps source lib (fun sent t => sent ∈ t.fetches)
          (Thread.step (·.send id final headers
            (byteRange next (min (saturatingAdd next (chunkSize - 1)) last)))) w := by
        apply Thread.Safe.step
        intro w' hlater hsound
        obtain ⟨hkept, hmoved⟩ := hsound.send ⟨final.text, hvalid, Or.inr rfl⟩
          (hfirst.later hlater).origin (hissued.later hlater)
        exact ⟨hkept, hmoved, List.mem_cons_self⟩
      refine hsend.andThen fun sent t hlater hsent => ?_
      refine (keeps_receive hsent).andThen fun answer u hlater' _ => ?_
      have hmoved : Later w u := trans_of Later hlater hlater'
      have hrest := fun next => ih (hfirst.later hmoved) (hissued.later hmoved) next
      cases answer with
      | error error => exact (hrest _).bind fun _ _ _ => trivial
      | ok response =>
        apply Thread.Safe.ite
        · intro _
          exact (hrest _).bind fun _ _ _ => trivial
        · intro _
          exact (hrest _).bind fun _ _ _ => trivial

theorem keeps_resolve (h : Sound source lib w)
    (hgenuine : Genuine source.tracks.mac (w.trackPayloads lib) id = true) :
    Keeps source lib (fun resolved t => (id, resolved.url) ∈ t.resolved ∧ Issued t id)
      (source.resolve lib id) w := by
  rw [ExternalSource.resolve]
  refine Thread.Safe.bind (Thread.Safe.ofExcept fun _ _ => (refl w : Later w w))
    fun _ t hlater => ?_
  have hverified : Keeps source lib (fun track t => ∃ found ∈ t.found, found.track.id = id ∧
      found.ref = track) (Thread.ofExcept (source.verifyId lib id)) t := by
    apply Thread.Safe.ofExcept
    intro track hverify
    obtain ⟨found, hfound, hsame⟩ := h.issued hgenuine hverify
    exact ⟨found, hlater.found hfound, hsame⟩
  refine hverified.andThen fun track u hlater' hfound => ?_
  obtain ⟨found, hmem, hid, href⟩ := hfound
  have hcached : Keeps source lib (fun cached t => ∀ resolved, cached = some resolved →
      (id, resolved.url) ∈ t.resolved) (Thread.step fun w => (w.cached id, w)) u := by
    apply Thread.Safe.step
    intro w' _ hsound
    refine ⟨hsound, refl w', fun resolved hcached => ?_⟩
    obtain ⟨entry, hentry, rfl⟩ := Option.map_eq_some_iff.mp hcached
    exact hsound.cache id entry (Option.filter_eq_some_iff.mp hentry).1
  refine hcached.andThen fun cached v hlater'' hresolved => ?_
  have hissued : Issued v id := ⟨found, hlater''.found hmem, hid⟩
  cases cached with
  | some resolved => exact ⟨hresolved resolved rfl, hissued⟩
  | none =>
    dsimp only
    have hbegun : Keeps source lib (fun n t => ∃ resolution, t.resolutions.lookup n =
        some resolution ∧ resolution.id = id) (Thread.step (·.resolution id track)) v := by
      apply Thread.Safe.step
      intro w' hmoved hsound
      obtain ⟨⟨hkept, hgrown⟩, hrow⟩ :=
        hsound.resolution ⟨found, hmoved.found (hlater''.found hmem), hid, href⟩
      exact ⟨hkept, hgrown, hrow⟩
    refine hbegun.andThen fun n x hmoved hrow => ?_
    obtain ⟨resolution, hlookup, hof⟩ := hrow
    have hawaited : Keeps source lib (fun result t => ∀ resolved, result = .ok resolved →
        (id, resolved.url) ∈ t.resolved) (ExternalSource.awaitResolution n) x := by
      apply Thread.Safe.atomically
      intro w' hgrown hsound reply result t hrun
      split at hrun
      · rename_i other track' result' hsettled
        cases hrun
        refine ⟨hsound, refl w', fun resolved hresult => ?_⟩
        obtain ⟨row, hrow, hsame⟩ := hgrown.resolutions n resolution hlookup
        rw [hsettled] at hrow
        cases hrow
        have hlogged := (hsound.resolutions n _ hsettled).1.2 resolved (by rw [hresult]; rfl)
        rw [hsame, hof] at hlogged
        exact hlogged
      · cases hrun
    refine hawaited.andThen fun result y hlast hresult => ?_
    apply Thread.Safe.ofExcept
    intro resolved hok
    exact ⟨hresult resolved hok, hissued.later (trans_of Later hmoved hlast)⟩

/-! ### The requests -/

theorem keeps_search (query : String) (limit : ℕ) :
    Keeps source lib (fun _ _ => True) (source.search lib query limit) w := by
  rw [ExternalSource.search]
  refine Thread.Safe.bind (keeps_known _) fun searchPrefix t _ => ?_
  dsimp only
  apply Thread.Safe.ite
  · intro _
    exact Thread.Safe.fail _
  intro _
  apply Thread.Safe.ite
  · intro _
    exact Thread.Safe.fail _
  intro _
  have hstart : ∀ args, RunOf source t args →
      Keeps source lib (fun _ _ => True) (ExternalSource.startRun args) t := by
    intro args hargs
    apply Thread.Safe.atomically
    intro w' hlater hsound reply result u hrun
    split at hrun
    · cases hrun
      obtain ⟨hkept, hmoved⟩ := hsound.logRun (hargs.later hlater)
      exact ⟨hkept, hmoved, trivial⟩
    · cases hrun
      exact ⟨hsound, refl w', trivial⟩
    · cases hrun
  refine Thread.Safe.bind (hstart _ (Or.inl ⟨_, _, _, rfl⟩)) fun started u _ => ?_
  refine Thread.Safe.bind (keeps_known _) fun _ u _ => ?_
  have houtput : Keeps source lib (fun _ _ => True) ExternalSource.awaitOutput u := by
    apply Thread.Safe.atomically
    intro w' _ hsound reply result v hrun
    split at hrun
    · cases hrun
      exact ⟨hsound, refl w', trivial⟩
    · cases hrun
  refine Thread.Safe.bind houtput fun printed v _ => ?_
  refine Thread.Safe.bind (keeps_known _) fun output v _ => ?_
  have hitems : Keeps source lib (fun items _ => ∀ item ∈ items, item.IsSafe lib.urls)
      (Thread.ofExcept (parseSearch lib.urls lib.fromStr output limit)) v :=
    Thread.Safe.ofExcept fun items hparse => parseSearch_safe hparse
  refine hitems.bind fun items v hsafe => ?_
  apply Thread.Safe.step
  intro w' _ hsound
  obtain ⟨hkept, hmoved⟩ := hsound.issueAll hsafe
  exact ⟨hkept, hmoved, trivial⟩

theorem keeps_playback (h : Sound source lib w)
    (hgenuine : Genuine source.tracks.mac (w.trackPayloads lib) id = true) :
    Keeps source lib (fun _ _ => True) (source.playback lib id) w :=
  (keeps_resolve h hgenuine).bind fun _ _ _ => trivial

theorem keeps_fetchInChunks {resolved : Resolved} {chunkSize start : UInt64}
    {wantedLast : Option UInt64} {ranged head : Bool} {reads : ℕ}
    (hresolved : (id, resolved.url) ∈ w.resolved) (hissued : Issued w id) :
    Keeps source lib (fun _ _ => True)
      (ExternalSource.fetchInChunks lib id resolved chunkSize start wantedLast ranged head reads)
      w := by
  rw [ExternalSource.fetchInChunks]
  dsimp only
  refine (keeps_fetch hresolved hissued).andThen fun first t hlater hanswers => ?_
  have hfirst : AnswersFirst lib id first.url t :=
    ⟨resolved.url, first, start, _, hlater.resolved hresolved, hanswers, rfl⟩
  cases (parseContentRange first.headers).filter fun _ => decide (first.status = 206) with
  | none => trivial
  | some span =>
    obtain ⟨servedFirst, servedLast, total⟩ := span
    dsimp only
    have hvalid : Keeps source lib
        (fun _ _ => (validateStreamUrl lib.urls first.url.text).isOk = true)
        (Thread.ofExcept
          ((validateStreamUrl lib.urls first.url.text).mapError ExternalError.failed)) t := by
      apply Thread.Safe.ofExcept
      intro _ hok
      cases hcheck : validateStreamUrl lib.urls first.url.text with
      | error error => simp [hcheck, Except.mapError] at hok
      | ok _ => rfl
    refine hvalid.andThen fun _ u hlater' hchecked => ?_
    apply Thread.Safe.ite
    · intro _
      trivial
    · intro _
      exact (keeps_laterChunks hchecked (hfirst.later hlater')
        (hissued.later (trans_of Later hlater hlater')) reads _).bind fun _ _ _ => trivial

theorem keeps_openStream (h : Sound source lib w)
    (hgenuine : Genuine source.tracks.mac (w.trackPayloads lib) id = true) (head : Bool)
    (reads : ℕ) :
    Keeps source lib (fun _ _ => True) (source.openStream lib id range head reads) w := by
  rw [ExternalSource.openStream]
  refine (keeps_resolve h hgenuine).bind fun resolved t hresolved => ?_
  apply Thread.Safe.ite
  · intro _
    exact Thread.Safe.fail _
  · intro _
    split
    · exact keeps_fetchInChunks hresolved.1 hresolved.2
    · exact (keeps_fetch hresolved.1 hresolved.2).bind fun _ _ _ => trivial

theorem keeps_rewrite {response : Fetched} (hanswers : Answers lib id url range response w) :
    Keeps source lib (fun _ _ => True) (source.rewrite lib id headers response) w := by
  rw [ExternalSource.rewrite]
  apply Thread.Safe.ite
  · intro _
    exact Thread.Safe.fail _
  intro _
  refine Thread.Safe.andThen (keeps_known _) fun bytes t hlater _ => ?_
  apply keeps_attempt
  intro w' hlater' hsound
  obtain ⟨sent, hsent, hanswer⟩ := hanswers.later (trans_of Later hlater hlater')
  exact ⟨hsound.signPlaylist ⟨_, hanswer, hsent.2.1, rfl⟩, fun _ _ => trivial⟩

theorem keeps_playlist (h : Sound source lib w)
    (hgenuine : Genuine source.tracks.mac (w.trackPayloads lib) id = true) :
    Keeps source lib (fun _ _ => True) (source.playlist lib id) w := by
  rw [ExternalSource.playlist]
  refine (keeps_resolve h hgenuine).bind fun resolved t hresolved => ?_
  apply Thread.Safe.ite
  · intro _
    exact Thread.Safe.fail _
  · intro _
    exact (keeps_fetch hresolved.1 hresolved.2).bind fun response u hanswers =>
      keeps_rewrite hanswers

/-- A resource's URL stood in a playlist of a Track with the same fingerprint. -/
theorem sendResource_sound (h : Sound source lib w) {token : String}
    (hid : Genuine source.tracks.mac (w.trackPayloads lib) id = true)
    (htoken : Genuine source.resources.mac (w.resourcePayloads lib) token = true) :
    (Sound source lib (source.sendResource lib id token range w).2 ∧
      Later w (source.sendResource lib id token range w).2) ∧
      ∀ sent, (source.sendResource lib id token range w).1 = .ok sent →
        ∃ url, Sent lib id url range sent (source.sendResource lib id token range w).2 := by
  rw [ExternalSource.sendResource]
  cases henabled : source.ensureEnabled with
  | error error => exact ⟨⟨h, refl w⟩, fun _ hsent => by cases hsent⟩
  | ok _ =>
    cases hverify : source.verifyId lib id with
    | error error => exact ⟨⟨h, refl w⟩, fun _ hsent => by cases hsent⟩
    | ok track =>
      cases hresource : source.resources.verify lib.claims lib.urls w.now token
          (fingerprint lib.sha256 id) with
      | error error => exact ⟨⟨h, refl w⟩, fun _ hsent => by cases hsent⟩
      | ok url =>
        dsimp only
        obtain ⟨found, hfound, hsame, -⟩ := h.issued hid hverify
        obtain ⟨payload, hopen⟩ := ResourceSigner.openText_of_verify hresource
        have hpayload := mem_of_genuine htoken hopen
        rw [World.resourcePayloads, List.mem_flatMap] at hpayload
        obtain ⟨playlist, hplaylist, hlink⟩ := hpayload
        obtain ⟨linked, hlinked, rfl⟩ := List.mem_map.mp hlink
        obtain ⟨hscope, htime, hurl⟩ := ResourceSigner.verify_ok hresource hopen
        have horigin : ∀ fetch, fetch.id = id → fetch.sentAt = w.now →
            lib.urls.parse url = .ok fetch.url → Origin lib (SameFingerprint lib) w fetch := by
          intro fetch hfetch hat hparse
          refine .listed playlist url hplaylist ?_ ?_ hparse ?_
          · rw [SameFingerprint, hfetch]
            exact hscope
          · rw [← hurl]
            exact (h.playlists playlist hplaylist).2 linked hlinked
          · rw [hat]
            exact htime
        obtain ⟨hkept, hsent⟩ := sendChecked_sound h ⟨found, hfound, hsame⟩ horigin
        exact ⟨hkept, fun sent hok => ⟨url, hsent sent hok⟩⟩

theorem genuine_later {token : String}
    (htoken : Genuine source.resources.mac (w.resourcePayloads lib) token = true)
    (hlater : Later w w') :
    Genuine source.resources.mac (w'.resourcePayloads lib) token = true := by
  refine Genuine.mono htoken fun payload hpayload => ?_
  rw [World.resourcePayloads, List.mem_flatMap] at hpayload ⊢
  obtain ⟨playlist, hplaylist, hlink⟩ := hpayload
  exact ⟨playlist, hlater.playlists hplaylist, hlink⟩

theorem genuineId_later
    (hid : Genuine source.tracks.mac (w.trackPayloads lib) id = true) (hlater : Later w w') :
    Genuine source.tracks.mac (w'.trackPayloads lib) id = true :=
  Genuine.mono hid (List.map_subset _ hlater.found)

theorem keeps_resource {token : String}
    (hid : Genuine source.tracks.mac (w.trackPayloads lib) id = true)
    (htoken : Genuine source.resources.mac (w.resourcePayloads lib) token = true) :
    Keeps source lib (fun _ _ => True) (source.resource lib id token range) w := by
  rw [ExternalSource.resource]
  have hsend : Keeps source lib (fun sent t => ∃ url, Sent lib id url range sent t)
      (attempt (source.sendResource lib id token range)) w :=
    keeps_attempt fun w' hlater hsound =>
      sendResource_sound hsound (genuineId_later hid hlater) (genuine_later htoken hlater)
  refine hsend.bind fun sent t hsent => ?_
  obtain ⟨url, hsent⟩ := hsent
  refine (keeps_answered hsent).bind fun response u hanswers => ?_
  generalize isHlsContent _ _ = hls
  apply Thread.Safe.ite
  · intro _
    exact (keeps_rewrite hanswers).bind fun _ _ _ => trivial
  · intro _
    trivial

theorem keeps_artwork (h : Sound source lib w)
    (hgenuine : Genuine source.tracks.mac (w.trackPayloads lib) id = true) :
    Keeps source lib (fun _ _ => True) (source.artwork lib id) w := by
  rw [ExternalSource.artwork]
  refine Thread.Safe.bind (Thread.Safe.ofExcept fun _ _ => (refl w : Later w w))
    fun _ t hlater => ?_
  have hverified : Keeps source lib (fun track t => ∃ found ∈ t.found, found.track.id = id ∧
      found.ref = track ∧ source.issue lib found.item = some found)
      (Thread.ofExcept (source.verifyId lib id)) t := by
    apply Thread.Safe.ofExcept
    intro track hverify
    obtain ⟨found, hfound, hid, href⟩ := h.issued hgenuine hverify
    exact ⟨found, hlater.found hfound, hid, href, (h.found found hfound).2⟩
  refine hverified.bind fun track u hfound => ?_
  obtain ⟨found, hmem, hid, href, hissue⟩ := hfound
  cases hartwork : track.artworkUrl with
  | none => exact Thread.Safe.fail _
  | some url =>
    dsimp only
    -- The cover of the id is the one that the search result had.
    obtain ⟨-, -, -, hsigned, -, -⟩ := issue_eq_some hissue
    rw [← href, hsigned] at hartwork
    dsimp only at hartwork
    split_ifs at hartwork with hhas
    have hsend : Keeps source lib (fun sent t => sent ∈ t.fetches)
        (attempt (ExternalSource.sendArtwork lib id url)) u := by
      apply keeps_attempt
      intro w' hmoved hsound
      rw [ExternalSource.sendArtwork]
      split_ifs with hunsafe
      · exact ⟨⟨hsound, refl w'⟩, fun _ hsent => by cases hsent⟩
      · rw [Bool.not_eq_false] at hunsafe
        cases hparse : lib.urls.parse url with
        | error error => exact ⟨⟨hsound, refl w'⟩, fun _ hsent => by cases hsent⟩
        | ok parsed =>
          dsimp only
          have hscheme : parsed.scheme = "https" := by
            rw [isArtworkUrl, hparse, Bool.and_eq_true] at hunsafe
            exact of_decide_eq_true hunsafe.1
          refine ⟨hsound.send ⟨url, valid_of_isArtworkUrl hunsafe, Or.inl hparse⟩
            (.artwork found url (hmoved.found hmem) hid hhas hartwork hparse hscheme)
            ⟨found, hmoved.found hmem, hid⟩, fun sent hsent => ?_⟩
          cases hsent
          exact List.mem_cons_self
    refine hsend.bind fun sent v hsent => ?_
    refine (keeps_receive hsent).bind fun answer x _ => ?_
    cases answer with
    | error error => exact Thread.Safe.fail _
    | ok response => exact keeps_known _

/-- Every request that a client can send keeps the invariant. -/
theorem keeps_handle (request : Request) (h : Sound source lib w)
    (hgenuine : w.notForged source lib request = true) :
    Keeps source lib (fun _ _ => True) (source.handle lib request) w := by
  cases request with
  | search query limit => exact (keeps_search query limit).bind fun _ _ _ => trivial
  | playback id => exact (keeps_playback h hgenuine).bind fun _ _ _ => trivial
  | stream id range head reads =>
    exact (keeps_openStream h hgenuine head reads).bind fun _ _ _ => trivial
  | playlist id => exact (keeps_playlist h hgenuine).bind fun _ _ _ => trivial
  | resource id token range =>
    rw [World.notForged, Bool.and_eq_true] at hgenuine
    exact (keeps_resource hgenuine.1 hgenuine.2).bind fun _ _ _ => trivial
  | artwork id => exact (keeps_artwork h hgenuine).bind fun _ _ _ => trivial

/-! ### The source -/

def Initial (w : World) : Prop := ∃ now instant, w = World.new now instant

/-- No two ids that were issued have one fingerprint. -/
def DistinctFingerprints (lib : Libraries) (w : World) : Prop :=
  ∀ first ∈ w.found, ∀ second ∈ w.found,
    SameFingerprint lib first.track.id second.track.id → first.track.id = second.track.id

instance (w : World) : Decidable (DistinctFingerprints lib w) := by
  unfold DistinctFingerprints SameFingerprint
  infer_instance

variable {pool : Thread.Pool World Reply ExternalError Response}

theorem reachable_sound (h : pool.Reachable (server source lib) Initial) :
    Sound source lib pool.shared := by
  refine Thread.Pool.Reachable.invariant (R := Later) ?_ ?_ ?_ h
  · rintro w ⟨now, instant, rfl⟩
    exact Sound.new now instant
  · intro request w hgenuine hsound
    exact keeps_handle request hsound hgenuine
  · intro event w w' hsound hmove
    exact hsound.move hmove

/-- yt-dlp is run, and the fetcher is used, only for what the searches produced; a
playlist is what a request of its Track was answered; and every id that a search
returned stands for its result. -/
theorem only_found_is_fetched (h : pool.Reachable (server source lib) Initial)
    (hdistinct : DistinctFingerprints lib pool.shared) :
    (∀ args ∈ pool.shared.runs, RunOf source pool.shared args) ∧
      (∀ fetch ∈ pool.shared.fetches, Passed lib fetch ∧ Origin lib Eq pool.shared fetch) ∧
      (∀ playlist ∈ pool.shared.playlists, Read lib pool.shared playlist) ∧
      ∀ found ∈ pool.shared.found, Verifies source lib found := by
  have hsound := reachable_sound h
  refine ⟨hsound.runs, fun fetch hfetch => ?_, hsound.playlists, fun found hfound => ?_⟩
  · obtain ⟨hpassed, horigin, first, hfirst, hfirstId⟩ := hsound.fetches fetch hfetch
    refine ⟨hpassed, horigin.imp fun playlist hplaylist hsame => ?_⟩
    -- The playlist came for an id that was issued as well.
    obtain ⟨⟨answer, hanswer, hanswerId, -⟩, -⟩ := hsound.playlists playlist hplaylist
    obtain ⟨-, -, second, hsecond, hsecondId⟩ :=
      hsound.fetches answer.fetch (hsound.answers answer hanswer)
    rw [← hanswerId, ← hsecondId, ← hfirstId] at hsame ⊢
    exact hdistinct second hsecond first hfirst hsame
  · obtain ⟨hsafe, hissue⟩ := hsound.found found hfound
    exact verifies_of_issue hsafe hissue

end Requests

/-! ### A server that finds one Track with a cover -/

section Sample

/-- A text within quotes. -/
def escape : List Char → List Char
  | [] => []
  | c :: rest => if c = '"' ∨ c = '\\' then '\\' :: c :: escape rest else c :: escape rest

/-- The text up to the closing quote, and what stands after it. -/
def unquote : List Char → Option (List Char × List Char)
  | [] => none
  | [c] => if c = '"' then some ([], []) else none
  | c :: d :: rest =>
    if c = '"' then some ([], d :: rest)
    else if c = '\\' then (unquote rest).map fun parts => (d :: parts.1, parts.2)
    else (unquote (d :: rest)).map fun parts => (c :: parts.1, parts.2)

theorem unquote_quote (rest : List Char) : unquote ('"' :: rest) = some ([], rest) := by
  cases rest <;> rfl

theorem unquote_cons {c : Char} {text : List Char} (hquote : c ≠ '"') (hslash : c ≠ '\\')
    (hne : text ≠ []) :
    unquote (c :: text) = (unquote text).map fun parts => (c :: parts.1, parts.2) := by
  cases text with
  | nil => exact absurd rfl hne
  | cons d text => rw [unquote, if_neg hquote, if_neg hslash]

theorem unquote_escape (text rest : List Char) :
    unquote (escape text ++ '"' :: rest) = some (text, rest) := by
  induction text with
  | nil => exact unquote_quote rest
  | cons c text ih =>
    rw [escape]
    split_ifs with hspecial
    · rw [List.cons_append, List.cons_append, unquote, if_neg (by decide), if_pos rfl, ih]
      rfl
    · rw [not_or] at hspecial
      rw [List.cons_append, unquote_cons hspecial.1 hspecial.2 (by simp), ih]
      rfl

/-- What stands after the given text. -/
def after (given text : List Char) : Option (List Char) :=
  if given.isPrefixOf text then some (text.drop given.length) else none

theorem after_append (given rest : List Char) : after given (given ++ rest) = some rest := by
  rw [after, if_pos (List.isPrefixOf_iff_prefix.mpr (List.prefix_append _ _)), List.drop_left]

/-- A named text of an object. -/
def writeField (start : String) (value : String) (rest : List Char) : List Char :=
  start.toList ++ (escape value.toList ++ '"' :: rest)

def readField (start : String) (text : List Char) : Option (String × List Char) :=
  ((after start.toList text).bind unquote).map fun parts => (String.ofList parts.1, parts.2)

theorem readField_writeField (start value : String) (rest : List Char) :
    readField start (writeField start value rest) = some (value, rest) := by
  rw [readField, writeField, after_append, Option.bind_some, unquote_escape, Option.map_some,
    String.ofList_toList]

/-- A character in one byte where it is ASCII. -/
def charBytes (c : Char) : List UInt8 :=
  if c.toNat < 128 then [UInt8.ofNat c.toNat]
  else [255, UInt8.ofNat (c.toNat / 65536), UInt8.ofNat (c.toNat / 256 % 256),
    UInt8.ofNat (c.toNat % 256)]

def bytesText : List UInt8 → List Char
  | [] => []
  | a :: b :: c :: d :: rest =>
    if a = 255 then Char.ofNat (b.toNat * 65536 + c.toNat * 256 + d.toNat) :: bytesText rest
    else Char.ofNat a.toNat :: bytesText (b :: c :: d :: rest)
  | a :: rest => Char.ofNat a.toNat :: bytesText rest

theorem bytesText_cons {a : UInt8} (h : a ≠ 255) (rest : List UInt8) :
    bytesText (a :: rest) = Char.ofNat a.toNat :: bytesText rest := by
  match rest with
  | [] | [_] | [_, _] => rfl
  | b :: c :: d :: rest => rw [bytesText, if_neg h]

theorem bytesText_flatMap (text : List Char) : bytesText (text.flatMap charBytes) = text := by
  induction text with
  | nil => rfl
  | cons c text ih =>
    have hlt : c.toNat < 1114112 := by
      rcases c.valid with h | h
      · exact lt_of_lt_of_le h (by decide)
      · exact h.2
    rw [List.flatMap_cons, charBytes]
    split_ifs with hascii
    · have hne : UInt8.ofNat c.toNat ≠ 255 := by
        intro heq
        have hnat := congrArg UInt8.toNat heq
        rw [Base64.toNat_ofNat (by omega)] at hnat
        simp only [UInt8.reduceToNat] at hnat
        omega
      rw [List.singleton_append, bytesText_cons hne, Base64.toNat_ofNat (by omega), ih,
        Char.ofNat_toNat]
    · simp only [List.cons_append, List.nil_append]
      rw [bytesText, if_pos rfl, Base64.toNat_ofNat (by omega), Base64.toNat_ofNat (by omega),
        Base64.toNat_ofNat (by omega), ih,
        show c.toNat / 65536 * 65536 + c.toNat / 256 % 256 * 256 + c.toNat % 256 = c.toNat by omega,
        Char.ofNat_toNat]

/-- The decimal digits of a number, with its sign. -/
def writeInteger (n : ℤ) : List Char :=
  (if n < 0 then ['-'] else []) ++
    (Nat.digits 10 n.natAbs).reverse.map fun d => Char.ofNat (d + 48)

def readInteger (text : List Char) : ℤ :=
  let digits (text : List Char) : ℕ :=
    Nat.ofDigits 10 (text.map fun c => c.toNat - 48).reverse
  if text.head? = some '-' then -digits text.tail else digits text

def trackText (track : TrackRef) : List Char :=
  writeField "\x7b\"u\":\"" track.url (writeField ",\"e\":\"" track.extractor
    (match track.artworkUrl with
      | none => "\x7d".toList
      | some url => writeField ",\"a\":\"" url "\x7d".toList))

def readTrackText (text : List Char) : Option TrackRef :=
  match readField "\x7b\"u\":\"" text with
  | none => none
  | some (url, rest) =>
    match readField ",\"e\":\"" rest with
    | none => none
    | some (extractor, rest') =>
      if rest' = "\x7d".toList then some ⟨url, extractor, none⟩
      else (readField ",\"a\":\"" rest').map fun parts => ⟨url, extractor, some parts.1⟩

theorem readTrackText_trackText (track : TrackRef) :
    readTrackText (trackText track) = some track := by
  obtain ⟨url, extractor, artworkUrl⟩ := track
  rw [readTrackText, trackText, readField_writeField]
  dsimp only
  rw [readField_writeField]
  dsimp only
  cases artworkUrl with
  | none => rw [if_pos rfl]
  | some cover =>
    dsimp only
    rw [if_neg (by simp [writeField]), readField_writeField]
    rfl

theorem readInteger_writeInteger (n : ℤ) : readInteger (writeInteger n) = n := by
  have hchar : ∀ d ∈ (Nat.digits 10 n.natAbs).reverse, (Char.ofNat (d + 48)).toNat - 48 = d ∧
      Char.ofNat (d + 48) ≠ '-' := by
    intro d hd
    have hlt : d < 10 := Nat.digits_lt_base (by omega) (List.mem_reverse.mp hd)
    interval_cases d <;> decide
  have hdigits : ((Nat.digits 10 n.natAbs).reverse.map fun d => Char.ofNat (d + 48)).map
      (fun c => c.toNat - 48) = (Nat.digits 10 n.natAbs).reverse := by
    rw [List.map_map]
    exact (List.map_congr_left fun d hd => (hchar d hd).1).trans (List.map_id' _)
  have hvalue : Nat.ofDigits 10 (((Nat.digits 10 n.natAbs).reverse.map fun d =>
      Char.ofNat (d + 48)).map fun c => c.toNat - 48).reverse = n.natAbs := by
    rw [hdigits, List.reverse_reverse, Nat.ofDigits_digits]
  rw [readInteger, writeInteger]
  dsimp only
  split_ifs with hsign hhead hhead
  · rw [List.singleton_append, List.tail_cons, hvalue]
    omega
  · exact absurd rfl hhead
  · -- No digit is a sign.
    rw [List.nil_append, List.head?_map, Option.map_eq_some_iff] at hhead
    obtain ⟨d, hd, hdash⟩ := hhead
    exact absurd hdash (hchar d (List.mem_of_mem_head? hd)).2
  · rw [List.nil_append, hvalue]
    omega

def claimsText (claims : ResourceClaims) : List Char :=
  writeField "\x7b\"s\":\"" claims.s (writeField ",\"u\":\"" claims.u
    (",\"e\":".toList ++ (writeInteger claims.e ++ ['}'])))

def readClaimsText (text : List Char) : Option ResourceClaims :=
  match readField "\x7b\"s\":\"" text with
  | none => none
  | some (s, rest) =>
    match readField ",\"u\":\"" rest with
    | none => none
    | some (u, rest') => (after ",\"e\":".toList rest').map fun last =>
      ⟨s, u, readInteger last.dropLast⟩

theorem readClaimsText_claimsText (claims : ResourceClaims) :
    readClaimsText (claimsText claims) = some claims := by
  rw [readClaimsText, claimsText, readField_writeField]
  dsimp only
  rw [readField_writeField]
  dsimp only
  rw [after_append, Option.map_some, List.dropLast_concat, readInteger_writeInteger]

def trackFormat : PayloadFormat TrackRef where
  write track := (trackText track).flatMap charBytes
  read bytes := readTrackText (bytesText bytes)
  read_write track := by rw [bytesText_flatMap, readTrackText_trackText]

def claimsFormat : PayloadFormat ResourceClaims where
  write claims := (claimsText claims).flatMap charBytes
  read bytes := readClaimsText (bytesText bytes)
  read_write claims := by rw [bytesText_flatMap, readClaimsText_claimsText]

def pageUrl : Url :=
  ⟨"https", some (.domain "soundcloud.com"), "/artist/track", [],
    "https://soundcloud.com/artist/track"⟩

def coverUrl : Url :=
  ⟨"https", some (.domain "i1.sndcdn.com"), "/cover-t300x300.jpg", [],
    "https://i1.sndcdn.com/cover-t300x300.jpg"⟩

/-- The two addresses that the run meets. -/
def foundUrls : UrlLibrary where
  parse text :=
    if text = pageUrl.text then .ok pageUrl
    else if text = coverUrl.text then .ok coverUrl
    else .error .relativeUrlWithoutBase
  join _ _ := .error .relativeUrlWithoutBase

def foundEntry : Value :=
  .object [("ie_key", .string "Soundcloud"), ("url", .string pageUrl.text),
    ("title", .string "Track"), ("thumbnail", .string coverUrl.text)]

/-- One line, as yt-dlp prints it. -/
def foundLine : String :=
  "\x7b\"ie_key\":\"Soundcloud\",\"url\":\"https://soundcloud.com/artist/track\"," ++
    "\"title\":\"Track\",\"thumbnail\":\"https://i1.sndcdn.com/cover-t300x300.jpg\"\x7d"

def foundLibraries : Libraries where
  overflowChecks := false
  urls := foundUrls
  fromStr line := if line = foundLine then some foundEntry else none
  tracks := trackFormat
  claims := claimsFormat
  sha256 bytes := bytes.take 32
  toUppercase := List.map Char.toUpper

/-- A key's tags: 32 bytes of the payload. -/
def foundSource : ExternalSource where
  searchPrefix := some "scsearch"
  extractorArgs := []
  tracks := ⟨fun payload => (payload.map fun c => UInt8.ofNat c.toNat).take 32⟩
  resources := ⟨fun payload => (payload.reverse.map fun c => UInt8.ofNat c.toNat).take 32⟩

/-- The id of the result. -/
def foundId : String :=
  (foundSource.tracks.sign trackFormat
    ⟨pageUrl.text, "Soundcloud", some coverUrl.text⟩).getD ""

/-- A search, then a request for the cover of its result. -/
def foundEvents : List (Thread.Event Reply Request Outside) :=
  [.begin 0 (.search "daft punk" 10), .step 0 .started,
    .step 0 (.output (.ok (foundLine.toList.flatMap charBytes))), .step 0 .none,
    .outside (.clock 1700000001 1000000000), .begin 1 (.artwork foundId), .step 1 .none]

def foundStart : Thread.Pool World Reply ExternalError Response :=
  .start (.new 1700000000 0)

theorem found_goes_on : (foundEvents.foldlM
    (Thread.Pool.perform (server foundSource foundLibraries)) foundStart).any (fun pool =>
      decide (DistinctFingerprints foundLibraries pool.shared) &&
        decide (pool.shared.fetches.map (·.url) = [coverUrl])) = true := by
  decide +kernel

theorem foundPool_isSome : (foundEvents.foldlM
    (Thread.Pool.perform (server foundSource foundLibraries)) foundStart).isSome = true := by
  obtain ⟨pool, hpool, -⟩ := Option.any_eq_true _ _ |>.mp found_goes_on
  exact Option.isSome_iff_exists.mpr ⟨pool, hpool⟩

def foundPool : Thread.Pool World Reply ExternalError Response :=
  (foundEvents.foldlM (Thread.Pool.perform (server foundSource foundLibraries)) foundStart).get
    foundPool_isSome

theorem foundPool_reachable : foundPool.Reachable (server foundSource foundLibraries) Initial :=
  ⟨foundStart, foundEvents, ⟨_, ⟨1700000000, 0, rfl⟩, rfl⟩,
    Transition.Run.of_option (Option.some_get foundPool_isSome).symm⟩

theorem foundPool_outcome : DistinctFingerprints foundLibraries foundPool.shared ∧
    foundPool.shared.fetches.map (·.url) = [coverUrl] := by
  obtain ⟨pool, hpool, hboth⟩ := Option.any_eq_true _ _ |>.mp found_goes_on
  have hget : foundPool = pool := Option.get_of_eq_some _ hpool
  rw [hget]
  simpa using hboth

/-- The cover was requested, from the address that was found. -/
theorem found_cover_is_fetched :
    foundPool.shared.fetches.map (·.url) = [coverUrl] ∧
      (∀ args ∈ foundPool.shared.runs, RunOf foundSource foundPool.shared args) ∧
      (∀ fetch ∈ foundPool.shared.fetches,
        Passed foundLibraries fetch ∧ Origin foundLibraries Eq foundPool.shared fetch) ∧
      (∀ playlist ∈ foundPool.shared.playlists, Read foundLibraries foundPool.shared playlist) ∧
      ∀ found ∈ foundPool.shared.found, Verifies foundSource foundLibraries found :=
  ⟨foundPool_outcome.2, only_found_is_fetched foundPool_reachable foundPool_outcome.1⟩

end Sample

end Harmony.External
