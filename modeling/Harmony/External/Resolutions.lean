/-
# Resolutions run once for each id

What a request does to the resolver is to read it, to join or start a resolution and to
forget a refused URL. The tasks of the resolutions do the rest. As long as no task ends
without a result and no lifetime overflows, an id has at most one run, whoever waits for
it gets its result, and the id is free again when it is over.

A task removes its id as its last step, so one that panics leaves it in the list.
-/

import Harmony.Library.SingleFlight
import Harmony.External.Requests

namespace Harmony.External

open Thread

/-! ### The lifetime of a URL -/

/-- Ten minutes, or until half a minute before the URL says that it expires. -/
def properLifetime (urls : UrlLibrary) (url : String) (now : ℤ) : ℕ :=
  match expiresOf urls url with
  | none => cacheTtl
  | some expires => min cacheTtl (seconds (expires - now - expiryMarginSeconds).toNat)

/-- The time that is left fits in 64 bits. -/
def LifetimeFits (urls : UrlLibrary) (url : String) (now : ℤ) : Prop :=
  ∀ expires, expiresOf urls url = some expires →
    -2 ^ 63 ≤ expires - now - expiryMarginSeconds ∧ expires - now < 2 ^ 63

theorem subI64_eq_some {a b : ℤ} (overflowChecks : Bool) (hlow : -2 ^ 63 ≤ a - b)
    (hhigh : a - b < 2 ^ 63) : subI64 overflowChecks a b = some (a - b) := by
  rw [subI64, if_pos ⟨hlow, hhigh⟩]

theorem cacheLifetime_eq_some {urls : UrlLibrary} {url : String} {now : ℤ}
    (overflowChecks : Bool) (h : LifetimeFits urls url now) :
    cacheLifetime urls overflowChecks url now = some (properLifetime urls url now) := by
  rw [cacheLifetime, properLifetime]
  cases hexpires : expiresOf urls url with
  | none => rfl
  | some expires =>
    obtain ⟨hlow, hhigh⟩ := h expires hexpires
    have hmargin : expiryMarginSeconds = 30 := rfl
    have hfirst : subI64 overflowChecks expires now = some (expires - now) :=
      subI64_eq_some overflowChecks (by omega) hhigh
    have hsecond : subI64 overflowChecks (expires - now) expiryMarginSeconds =
        some (expires - now - expiryMarginSeconds) :=
      subI64_eq_some overflowChecks hlow (by omega)
    simp only [hfirst, Option.bind_eq_bind, Option.bind_some, hsecond, Option.pure_def]

/-! ### What a request does to the resolver -/

structure SameResolver (w w' : World) : Prop where
  now : w'.now = w.now
  instant : w'.instant = w.instant
  cache : w'.cache = w.cache
  inFlight : w'.inFlight = w.inFlight
  nextResolution : w'.nextResolution = w.nextResolution
  resolutions : w'.resolutions = w.resolutions

theorem SameResolver.refl (w : World) : SameResolver w w := ⟨rfl, rfl, rfl, rfl, rfl, rfl⟩

inductive Touches (w : World) : World → Prop
  | same {w' : World} (h : SameResolver w w') : Touches w w'
  | forgetRefused (id : String) : Touches w (w.forgetRefused id)
  | resolution (id : String) (track : TrackRef) : Touches w (w.resolution id track).2

theorem Touches.refl (w : World) : Touches w w := .same (.refl w)

section Requests

variable (source : ExternalSource) (lib : Libraries)

theorem does_attempt {α : Type} {run : World → Except ExternalError α × World}
    (h : ∀ w, Touches w (run w).2) : Does Touches (attempt run) :=
  (Does.step h).bind fun result => Does.ofExcept result

theorem does_receive (sent : Fetch) : Does Touches (receive sent) := by
  apply Does.atomically
  intro w reply answer t hrun
  split at hrun
  · cases hrun
    exact .same ⟨rfl, rfl, rfl, rfl, rfl, rfl⟩
  · cases hrun
    exact .refl w
  · cases hrun

theorem touches_send (w : World) (id : String) (url : Url) (headers : RequestHeaders)
    (range : RangeRequest) : Touches w (w.send id url headers range).2 :=
  .same ⟨rfl, rfl, rfl, rfl, rfl, rfl⟩

theorem touches_sendChecked (id url : String) (headers : RequestHeaders) (range : RangeRequest)
    (w : World) : Touches w (ExternalSource.sendChecked lib id url headers range w).2 := by
  rw [ExternalSource.sendChecked]
  cases validateStreamUrl lib.urls url with
  | error error => exact .refl w
  | ok checked =>
    cases lib.urls.parse url with
    | error error => exact .refl w
    | ok parsed => exact touches_send w id parsed headers range

theorem does_answered (sent : Fetch) : Does Touches (ExternalSource.answered sent) := by
  rw [ExternalSource.answered]
  refine (does_receive sent).bind fun answer => ?_
  cases answer with
  | error error => exact Does.fail _
  | ok response =>
    apply Does.ite
    · exact Does.pure response
    · dsimp only
      apply Does.ite
      · exact (Does.step fun w => .forgetRefused sent.id).bind fun _ => Does.fail _
      · exact Does.fail _

theorem does_fetch (id url : String) (headers : RequestHeaders) (range : RangeRequest) :
    Does Touches (ExternalSource.fetch lib id url headers range) :=
  (does_attempt (touches_sendChecked lib id url headers range)).bind does_answered

theorem does_laterChunks (id : String) (url : Url) (headers : RequestHeaders)
    (chunkSize last : UInt64) (reads : ℕ) (next : UInt64) :
    Does Touches (ExternalSource.laterChunks id url headers chunkSize last reads next) := by
  induction reads generalizing next with
  | zero => exact Does.pure []
  | succ reads ih =>
    rw [ExternalSource.laterChunks]
    apply Does.ite
    · exact Does.pure []
    · refine (Does.step fun w => touches_send w _ _ _ _).bind fun sent => ?_
      refine (does_receive sent).bind fun answer => ?_
      cases answer with
      | error error => exact (ih _).bind fun _ => Does.pure _
      | ok response =>
        apply Does.ite
        · exact (ih _).bind fun _ => Does.pure _
        · exact (ih _).bind fun _ => Does.pure _

theorem does_awaitResolution (n : ℕ) : Does Touches (ExternalSource.awaitResolution n) := by
  apply Does.atomically
  intro w reply result t hrun
  split at hrun
  · cases hrun
    exact .refl w
  · cases hrun

theorem does_resolve (id : String) : Does Touches (source.resolve lib id) := by
  rw [ExternalSource.resolve]
  refine (Does.ofExcept _).bind fun _ => ?_
  refine (Does.ofExcept _).bind fun track => ?_
  refine (Does.step fun w => .refl w).bind fun cached => ?_
  cases cached with
  | some resolved => exact Does.pure resolved
  | none =>
    refine (Does.step fun w => .resolution id track).bind fun n => ?_
    exact (does_awaitResolution n).bind fun result => Does.ofExcept result

theorem does_search (query : String) (limit : ℕ) :
    Does Touches (source.search lib query limit) := by
  rw [ExternalSource.search]
  refine (Does.ofExcept _).bind fun searchPrefix => ?_
  dsimp only
  apply Does.ite
  · exact Does.fail _
  apply Does.ite
  · exact Does.fail _
  have hstart : ∀ args, Does Touches (ExternalSource.startRun args) := by
    intro args
    apply Does.atomically
    intro w reply result t hrun
    split at hrun
    · cases hrun
      exact .same ⟨rfl, rfl, rfl, rfl, rfl, rfl⟩
    · cases hrun
      exact .refl w
    · cases hrun
  have houtput : Does Touches ExternalSource.awaitOutput := by
    apply Does.atomically
    intro w reply result t hrun
    split at hrun
    · cases hrun
      exact .refl w
    · cases hrun
  refine (hstart _).bind fun started => ?_
  refine (Does.ofExcept _).bind fun _ => ?_
  refine houtput.bind fun printed => ?_
  refine (Does.ofExcept _).bind fun output => ?_
  refine (Does.ofExcept _).bind fun items => ?_
  exact Does.step fun w => .same ⟨rfl, rfl, rfl, rfl, rfl, rfl⟩

theorem does_playback (id : String) : Does Touches (source.playback lib id) :=
  (does_resolve source lib id).bind fun _ => Does.pure _

theorem does_fetchInChunks (id : String) (resolved : Resolved) (chunkSize start : UInt64)
    (wantedLast : Option UInt64) (ranged head : Bool) (reads : ℕ) :
    Does Touches (ExternalSource.fetchInChunks lib id resolved chunkSize start wantedLast ranged
      head reads) := by
  rw [ExternalSource.fetchInChunks]
  refine (does_fetch lib _ _ _ _).bind fun first => ?_
  split
  · exact Does.pure _
  · refine (Does.ofExcept _).bind fun _ => ?_
    dsimp only
    apply Does.ite
    · exact Does.pure _
    · exact (does_laterChunks _ _ _ _ _ _ _).bind fun rest => Does.pure _

theorem does_openStream (id : String) (range : RangeRequest) (head : Bool) (reads : ℕ) :
    Does Touches (source.openStream lib id range head reads) := by
  rw [ExternalSource.openStream]
  refine (does_resolve source lib id).bind fun resolved => ?_
  apply Does.ite
  · exact Does.fail _
  · split
    · exact does_fetchInChunks lib _ _ _ _ _ _ _ _
    · exact (does_fetch lib _ _ _ _).bind fun _ => Does.pure _

theorem does_rewrite (id : String) (headers : RequestHeaders) (response : Fetched) :
    Does Touches (source.rewrite lib id headers response) := by
  rw [ExternalSource.rewrite]
  apply Does.ite
  · exact Does.fail _
  · refine (Does.ofExcept _).bind fun bytes => ?_
    apply does_attempt
    intro w
    rw [ExternalSource.signPlaylist]
    dsimp only
    split
    · exact .refl w
    · exact .same ⟨rfl, rfl, rfl, rfl, rfl, rfl⟩

theorem does_playlist (id : String) : Does Touches (source.playlist lib id) := by
  rw [ExternalSource.playlist]
  refine (does_resolve source lib id).bind fun resolved => ?_
  apply Does.ite
  · exact Does.fail _
  · exact (does_fetch lib _ _ _ _).bind fun response => does_rewrite source lib _ _ _

theorem touches_sendResource (id token : String) (range : RangeRequest) (w : World) :
    Touches w (source.sendResource lib id token range w).2 := by
  rw [ExternalSource.sendResource]
  split
  · exact .refl w
  · exact .refl w
  · split
    · exact .refl w
    · exact touches_sendChecked lib _ _ _ _ w

theorem does_resource (id token : String) (range : RangeRequest) :
    Does Touches (source.resource lib id token range) := by
  rw [ExternalSource.resource]
  refine (does_attempt (touches_sendResource source lib id token range)).bind fun sent => ?_
  refine (does_answered sent).bind fun response => ?_
  generalize isHlsContent _ _ = hls
  apply Does.ite
  · exact (does_rewrite source lib _ _ _).bind fun _ => Does.pure _
  · exact Does.pure _

theorem touches_sendArtwork (id url : String) (w : World) :
    Touches w (ExternalSource.sendArtwork lib id url w).2 := by
  rw [ExternalSource.sendArtwork]
  split_ifs
  · exact .refl w
  · split
    · exact .refl w
    · exact touches_send w _ _ _ _

theorem does_artwork (id : String) : Does Touches (source.artwork lib id) := by
  rw [ExternalSource.artwork]
  refine (Does.ofExcept _).bind fun _ => ?_
  refine (Does.ofExcept _).bind fun track => ?_
  split
  · exact Does.fail _
  · refine (does_attempt (touches_sendArtwork lib id _)).bind fun sent => ?_
    refine (does_receive sent).bind fun answer => ?_
    cases answer with
    | error error => exact Does.fail _
    | ok response => exact Does.ofExcept _

/-- What any request does to the resolver. -/
theorem does_handle (request : Request) : Does Touches (source.handle lib request) := by
  cases request with
  | search query limit => exact (does_search source lib query limit).map
  | playback id => exact (does_playback source lib id).map
  | stream id range head reads => exact (does_openStream source lib id range head reads).map
  | playlist id => exact (does_playlist source lib id).map
  | resource id token range => exact (does_resource source lib id token range).map
  | artwork id => exact (does_artwork source lib id).map

end Requests

/-! ### The resolver as shared runs -/

/-- A run that waits for a permit is under way as well. -/
def Stage.flight : Stage → SingleFlight.Stage (Except ExternalError Resolved)
  | .queued | .running => .running
  | .finished result => .finished result
  | .settled result => .settled result

def Resolution.flight (resolution : Resolution) :
    SingleFlight.Flight String (Except ExternalError Resolved) :=
  ⟨resolution.id, resolution.stage.flight⟩

def World.flights (w : World) : SingleFlight.Flights String (Except ExternalError Resolved) :=
  .ofTables Resolution.flight w.inFlight w.resolutions

/-- The pool of the source's requests. -/
abbrev ServerPool := Pool World Reply ExternalError Response

theorem SameResolver.flights_eq {w w' : World} (h : SameResolver w w') :
    w'.flights = w.flights := by
  rw [World.flights, World.flights, h.inFlight, h.resolutions]

variable {n : ℕ}

theorem flights_setStage {w : World} {resolution : Resolution} {stage : Stage}
    (hlookup : w.resolutions.lookup n = some resolution) :
    (w.setStage n stage).flights =
      w.flights.setStage n resolution.flight stage.flight :=
  SingleFlight.Flights.ofTables_modify hlookup rfl

/-- Where new resolutions are numbered. -/
def Numbered (w : World) : Prop :=
  ∀ n, w.nextResolution ≤ n → w.resolutions.lookup n = none

section Runs

variable {source : ExternalSource} {lib : Libraries} {w w' : World} {id : String} {event : Outside}

/-- What a run of yt-dlp ended with. -/
def finishedOf (lib : Libraries) : Thread.Event Reply Request Outside →
    Option (ℕ × Except ExternalError Resolved)
  | .outside (.finish n output) => some (n, World.resultOf lib output)
  | _ => none

abbrev FlightRun (s : SingleFlight.Flights String (Except ExternalError Resolved))
    (history : List (SingleFlight.Event String (Except ExternalError Resolved)))
    (t : SingleFlight.Flights String (Except ExternalError Resolved)) : Prop :=
  Transition.Run SingleFlight.Flights.Goes s history t

theorem Touches.numbered (h : Touches w w') (hnumbered : Numbered w) : Numbered w' := by
  intro n hn
  cases h with
  | same hsame =>
    rw [hsame.nextResolution] at hn
    rw [hsame.resolutions]
    exact hnumbered n hn
  | forgetRefused id =>
    rw [World.forgetRefused] at hn ⊢
    split at hn
    · exact hnumbered n hn
    · split_ifs at hn ⊢
      · exact hnumbered n hn
      · exact hnumbered n hn
  | resolution id track =>
    rw [World.resolution] at hn ⊢
    split at hn
    · exact hnumbered n hn
    · dsimp only at hn ⊢
      rw [Table.lookup_insert_eq, if_neg (by omega)]
      exact hnumbered n (by omega)

/-- A request starts at most one run. -/
theorem Touches.flightRun (h : Touches w w') (hnumbered : Numbered w) :
    ∃ history, FlightRun w.flights history w'.flights ∧
      history.filterMap SingleFlight.Event.finished = [] := by
  cases h with
  | same hsame =>
    rw [hsame.flights_eq]
    exact ⟨[], .nil _, rfl⟩
  | forgetRefused id =>
    have hsame : (w.forgetRefused id).flights = w.flights := by
      rw [World.forgetRefused]
      split
      · rfl
      · split_ifs <;> rfl
    rw [hsame]
    exact ⟨[], .nil _, rfl⟩
  | resolution id track =>
    rw [World.resolution]
    cases hlisted : w.inFlight.lookup id with
    | some existing => exact ⟨[], .nil _, rfl⟩
    | none =>
      have hfresh : w.flights.flights w.nextResolution = none :=
        SingleFlight.Flights.flights_ofTables_none (hnumbered _ le_rfl)
      have hstart := SingleFlight.Flights.Step.start (s := w.flights) hlisted hfresh
      refine ⟨[.start id w.nextResolution], .cons ⟨?_, rfl⟩ (.nil _), rfl⟩
      have hflights : World.flights
          { w with
            inFlight := w.inFlight.insert id w.nextResolution
            resolutions := w.resolutions.insert w.nextResolution ⟨id, track, .queued⟩
            nextResolution := w.nextResolution + 1 } = _ :=
        SingleFlight.Flights.ofTables_insert w.inFlight w.resolutions id w.nextResolution _
      rw [hflights]
      exact hstart

theorem lookup_flights {resolution : Resolution} (h : w.resolutions.lookup n = some resolution) :
    w.flights.flights n = some resolution.flight :=
  SingleFlight.Flights.flights_ofTables h

theorem numbered_setStage {stage : Stage} (h : Numbered w) :
    Numbered (w.setStage n stage) := by
  intro m hm
  have hnone : w.resolutions.lookup m = none := h m hm
  rw [World.setStage, Table.lookup_modify]
  split_ifs
  · rw [hnone, Option.map_none]
  · exact hnone

theorem storeResult_same {result : Except ExternalError Resolved}
    (h : w.storeResult lib id result = some w') :
    w'.inFlight = w.inFlight ∧ w'.resolutions = w.resolutions ∧
      w'.nextResolution = w.nextResolution := by
  cases result with
  | error error =>
    cases h
    exact ⟨rfl, rfl, rfl⟩
  | ok resolved =>
    obtain ⟨lifetime, -, rfl⟩ := Option.map_eq_some_iff.mp h
    exact ⟨rfl, rfl, rfl⟩

/-- What moves without a request finishes runs and takes them off the list. -/
theorem flightRun_move (hnumbered : Numbered w) (hmove : w.move source lib event = some w')
    (hgoes : ∀ n error, event ≠ .stop n error) :
    Numbered w' ∧ ∃ history, FlightRun w.flights history w'.flights ∧
      history.filterMap SingleFlight.Event.finished = (finishedOf lib (.outside event)).toList := by
  cases event with
  | clock now passed =>
    cases hmove
    exact ⟨hnumbered, [], .nil _, rfl⟩
  | run n =>
    rw [World.move] at hmove
    split at hmove
    · rename_i id track hlookup
      cases hmove
      have hsame : (w.setStage n .running).flights = w.flights := by
        rw [flights_setStage hlookup]
        exact SingleFlight.Flights.setStage_eq_self (lookup_flights hlookup)
      refine ⟨numbered_setStage hnumbered, [], ?_, rfl⟩
      change FlightRun w.flights [] (w.setStage n .running).flights
      rw [hsame]
      exact .nil _
    · cases hmove
  | finish n output =>
    simp only [World.move] at hmove
    split at hmove
    · rename_i id track hlookup
      obtain ⟨stored, hstore, rfl⟩ := Option.map_eq_some_iff.mp hmove
      obtain ⟨hlisted, hresolutions, hnext⟩ := storeResult_same hstore
      have hflights : stored.flights = w.flights := by
        rw [World.flights, World.flights, hlisted, hresolutions]
      have hlookup' : stored.resolutions.lookup n = some ⟨id, track, .running⟩ := by
        rw [hresolutions, hlookup]
      have hstored : Numbered stored := by
        intro m hm
        rw [hnext] at hm
        rw [hresolutions]
        exact hnumbered m hm
      have hstep : SingleFlight.Flights.Step w.flights (.finish n (World.resultOf lib output)) _ :=
        .finish (lookup_flights hlookup)
      refine ⟨numbered_setStage hstored, [.finish n (World.resultOf lib output)],
        .cons ⟨?_, rfl⟩ (.nil _), rfl⟩
      rw [flights_setStage hlookup', hflights]
      exact hstep
    · rename_i id track hlookup
      cases output with
      | ok printed => cases hmove
      | error error =>
        cases hmove
        have hstep : SingleFlight.Flights.Step w.flights (.finish n (.error error)) _ :=
          .finish (lookup_flights hlookup)
        refine ⟨numbered_setStage hnumbered, [.finish n (.error error)],
          .cons ⟨?_, rfl⟩ (.nil _), rfl⟩
        rw [flights_setStage hlookup]
        exact hstep
    · cases hmove
  | settle n =>
    rw [World.move] at hmove
    split at hmove
    · rename_i id track result hlookup
      cases hmove
      have hstep := SingleFlight.Flights.Step.settle (lookup_flights hlookup)
      refine ⟨numbered_setStage hnumbered, [.settle n], .cons ⟨?_, rfl⟩ (.nil _), rfl⟩
      have hflights : World.flights
          { w.setStage n (.settled result) with inFlight := w.inFlight.erase id } =
          { (w.setStage n (.settled result)).flights with
            listed := Function.update w.flights.listed id none } :=
        SingleFlight.Flights.ofTables_erase w.inFlight _ id
      rw [hflights, flights_setStage hlookup]
      exact hstep
    · cases hmove
  | stop n error => exact absurd rfl (hgoes n error)

/-! ### The cache -/

theorem size_insertResolved {resolved : Resolved} {lifetime : ℕ} (h : w.cache.size ≤ cacheCapacity)
    :
    (w.insertResolved id resolved lifetime).cache.size ≤ cacheCapacity := by
  have hkept : (w.cache.filter fun _ entry => w.instant < entry.staleAt).size ≤ cacheCapacity :=
    (Table.size_rewrite_le _).trans h
  rw [World.insertResolved]
  dsimp only
  refine (Table.size_insert_le _ _ _).trans ?_
  split_ifs with hfull
  · cases holdest : World.oldest CacheEntry.staleAt
        (w.cache.filter fun _ entry => w.instant < entry.staleAt) with
    | none =>
      -- Only an empty cache has no oldest entry, and a full one is not empty.
      rw [World.oldest, Option.map_eq_none_iff, List.argmin_eq_none] at holdest
      rw [Table.size, holdest] at hfull
      cases hfull
    | some key =>
      obtain ⟨entry, hentry, rfl⟩ := Option.map_eq_some_iff.mp holdest
      have hmem : entry.1 ∈ w.cache.filter fun _ entry => w.instant < entry.staleAt :=
        List.mem_keys_of_mem (List.argmin_mem hentry)
      dsimp only
      have hsmaller := Table.size_erase_of_mem hmem
      omega
  · omega

theorem Touches.cache (h : Touches w w') :
    w'.instant = w.instant ∧ w'.cache.size ≤ w.cache.size ∧
      ∀ id entry, w'.cache.lookup id = some entry → w.cache.lookup id = some entry := by
  cases h with
  | same hsame =>
    rw [hsame.instant, hsame.cache]
    exact ⟨rfl, le_rfl, fun _ _ => id⟩
  | forgetRefused id =>
    rw [World.forgetRefused]
    split
    · exact ⟨rfl, le_rfl, fun _ _ h => h⟩
    · split_ifs
      · refine ⟨rfl, Table.size_erase_le _, fun other entry hentry => ?_⟩
        rw [Table.lookup_erase_eq] at hentry
        split_ifs at hentry
        exact hentry
      · exact ⟨rfl, le_rfl, fun _ _ h => h⟩
  | resolution id track =>
    rw [World.resolution]
    split
    · exact ⟨rfl, le_rfl, fun _ _ h => h⟩
    · exact ⟨rfl, le_rfl, fun _ _ h => h⟩

theorem lookup_insertResolved_eq_some {id other : String} {resolved : Resolved} {lifetime : ℕ}
    {entry : CacheEntry}
    (h : (w.insertResolved id resolved lifetime).cache.lookup other = some entry) :
    (other = id ∧ entry = ⟨resolved, w.instant + lifetime, w.instant⟩) ∨
      w.cache.lookup other = some entry := by
  by_cases hid : other = id
  · refine Or.inl ⟨hid, ?_⟩
    rw [World.insertResolved] at h
    dsimp only at h
    rw [Table.lookup_insert_eq, if_pos hid] at h
    exact (Option.some.inj h).symm
  · rcases lookup_insertResolved h with ⟨hsame, -⟩ | hold
    · exact absurd hsame hid
    · exact Or.inr hold

/-! ### Runs -/

/-- A step at which no task ends without a result and no lifetime overflows. -/
structure CalmStep (source : ExternalSource) (lib : Libraries) (pool : ServerPool)
    (e : Thread.Event Reply Request Outside) (pool' : ServerPool) : Prop where
  perform : pool.perform (server source lib) e = some pool'
  goes : ∀ n error, e ≠ .outside (.stop n error)
  fits : ∀ n output resolved, e = .outside (.finish n output) →
    World.resultOf lib output = .ok resolved →
      LifetimeFits lib.urls resolved.url pool.shared.now

/-- The run finished with the resolved URL here, and its lifetime begins. -/
def StoredAt (lib : Libraries) (mid : ServerPool) (n : ℕ)
    (output : Except ExternalError (List UInt8)) (id : String) (resolved : Resolved) : Prop :=
  (∃ track, mid.shared.resolutions.lookup n = some ⟨id, track, .running⟩) ∧
    World.resultOf lib output = .ok resolved

/-- The cache holds what a run of the history found, and until when it may be used. -/
def Stored (source : ExternalSource) (lib : Libraries) (first : ServerPool)
    (history : List (Thread.Event Reply Request Outside)) (id : String) (entry : CacheEntry) :
    Prop :=
  ∃ before n output after mid, history = before ++ .outside (.finish n output) :: after ∧
    Transition.Run (fun pool e pool' => pool.perform (server source lib) e = some pool') first
      before mid ∧
    StoredAt lib mid n output id entry.resolved ∧
    entry.staleAt =
      mid.shared.instant + properLifetime lib.urls entry.resolved.url mid.shared.now

/-- Resolutions run once for each id and never get stuck. -/
structure SingleFlight (source : ExternalSource) (lib : Libraries) (first : ServerPool)
    (history : List (Thread.Event Reply Request Outside)) (pool : ServerPool) : Prop where
  /-- An id has one run at a time. -/
  alone : ∀ n m row row', pool.shared.resolutions.lookup n = some row →
    pool.shared.resolutions.lookup m = some row' → row.stage.flight.isSettled = false →
    row'.stage.flight.isSettled = false → row.id = row'.id → n = m
  /-- A listed run is not over. -/
  listed : ∀ id n, pool.shared.inFlight.lookup id = some n →
    ∃ row, pool.shared.resolutions.lookup n = some row ∧ row.id = id ∧
      row.stage.flight.isSettled = false
  /-- Whoever asks for a resolution waits for a run of the id that is not over. -/
  joins : ∀ request id track next reply pool',
    pool.threads.lookup request = some (Thread.step (·.resolution id track) >>= next) →
    pool.perform (server source lib) (.step request reply) = some pool' →
    ∃ n row, pool'.threads.lookup request = some (next n) ∧
      pool'.shared.resolutions.lookup n = some row ∧ row.id = id ∧
      row.stage.flight.isSettled = false
  /-- Whoever waits for a run gets what it was finished with, once. -/
  shares : ∀ request n next reply pool',
    pool.threads.lookup request = some (ExternalSource.awaitResolution n >>= next) →
    pool.perform (server source lib) (.step request reply) = some pool' →
    ∃ result, pool'.threads.lookup request = some (next result) ∧
      SingleFlight.Flights.finishes (history.filterMap (finishedOf lib)) n = [result]
  /-- A run can always be brought to its end, and then its id is free. -/
  frees : ∀ id n, pool.shared.inFlight.lookup id = some n →
    ∃ rest pool', Transition.Run (CalmStep source lib) pool rest pool' ∧
      pool'.shared.inFlight.lookup id = none
  bounded : pool.shared.cache.size ≤ cacheCapacity
  fresh : ∀ id resolved, pool.shared.cached id = some resolved →
    ∃ entry, entry.resolved = resolved ∧ pool.shared.instant < entry.staleAt ∧
      Stored source lib first history id entry
  fits : ∀ before n output after mid id resolved,
    history = before ++ .outside (.finish n output) :: after →
    Transition.Run (fun pool e pool' => pool.perform (server source lib) e = some pool') first
      before mid →
    StoredAt lib mid n output id resolved →
    LifetimeFits lib.urls resolved.url mid.shared.now

variable {first pool pool' : ServerPool} {history : List (Thread.Event Reply Request Outside)}

/-- What the events so far leave behind. -/
structure KeepsHistory (source : ExternalSource) (lib : Libraries) (first : ServerPool)
    (history : List (Thread.Event Reply Request Outside)) (pool : ServerPool) : Prop where
  run : Transition.Run (fun pool e pool' => pool.perform (server source lib) e = some pool')
    first history pool
  requests : Pool.AllDo Touches pool
  numbered : Numbered pool.shared
  fair : SingleFlight.Flights.Fair (history.filterMap (finishedOf lib)) pool.shared.flights
  bounded : pool.shared.cache.size ≤ cacheCapacity
  cached : ∀ id entry, pool.shared.cache.lookup id = some entry →
    Stored source lib first history id entry

theorem Stored.later {entry : CacheEntry} (h : Stored source lib first history id entry)
    (e : Thread.Event Reply Request Outside) :
    Stored source lib first (history ++ [e]) id entry := by
  obtain ⟨before, n, output, after, mid, rfl, hrun, hstored, hstale⟩ := h
  exact ⟨before, n, output, after ++ [e], mid, by simp, hrun, hstored, hstale⟩

theorem Initial.keepsHistory (hinit : Initial w) :
    KeepsHistory source lib (Pool.start w) [] (Pool.start w) := by
  obtain ⟨now, instant, rfl⟩ := hinit
  exact
    { run := .nil _
      requests := Pool.allDo_start _
      numbered := fun n _ => rfl
      fair := SingleFlight.Flights.fair_empty
      bounded := Nat.zero_le _
      cached := fun id entry hentry => by cases hentry }

/-- What a task stores is stored in the history that ends with it. -/
theorem cached_move
    (hrun : Transition.Run (fun pool e pool' => pool.perform (server source lib) e = some pool')
      first history pool)
    (hbounded : pool.shared.cache.size ≤ cacheCapacity)
    (hcached : ∀ id entry, pool.shared.cache.lookup id = some entry →
      Stored source lib first history id entry)
    (hfits : ∀ n output resolved, event = .finish n output →
      World.resultOf lib output = .ok resolved →
        LifetimeFits lib.urls resolved.url pool.shared.now)
    (hmove : pool.shared.move source lib event = some w') :
    w'.cache.size ≤ cacheCapacity ∧ ∀ id entry, w'.cache.lookup id = some entry →
      Stored source lib first (history ++ [.outside event]) id entry := by
  have hsame : w'.cache = pool.shared.cache → w'.cache.size ≤ cacheCapacity ∧
      ∀ id entry, w'.cache.lookup id = some entry →
        Stored source lib first (history ++ [.outside event]) id entry := by
    intro heq
    rw [heq]
    exact ⟨hbounded, fun id entry hentry => (hcached id entry hentry).later _⟩
  cases event with
  | clock now passed =>
    cases hmove
    exact hsame rfl
  | run n =>
    rw [World.move] at hmove
    split at hmove
    · cases hmove
      exact hsame rfl
    · cases hmove
  | settle n =>
    rw [World.move] at hmove
    split at hmove
    · cases hmove
      exact hsame rfl
    · cases hmove
  | stop n error =>
    rw [World.move] at hmove
    split at hmove
    · cases hmove
      exact hsame rfl
    · cases hmove
      exact hsame rfl
    · cases hmove
      exact hsame rfl
    · cases hmove
  | finish n output =>
    simp only [World.move] at hmove
    split at hmove
    · rename_i id track hlookup
      obtain ⟨stored, hstore, rfl⟩ := Option.map_eq_some_iff.mp hmove
      cases hresult : World.resultOf lib output with
      | error error =>
        rw [hresult] at hstore
        cases hstore
        exact hsame rfl
      | ok resolved =>
        rw [hresult, World.storeResult,
          cacheLifetime_eq_some lib.overflowChecks (hfits n output resolved rfl hresult),
          Option.map_some] at hstore
        cases hstore
        refine ⟨size_insertResolved hbounded, fun other entry hentry => ?_⟩
        rcases lookup_insertResolved_eq_some hentry with ⟨rfl, rfl⟩ | hold
        · exact ⟨history, n, output, [], pool, rfl, hrun, ⟨⟨track, hlookup⟩, hresult⟩, rfl⟩
        · exact (hcached other entry hold).later _
    · cases output with
      | ok printed => cases hmove
      | error error =>
        cases hmove
        exact hsame rfl
    · cases hmove

theorem KeepsHistory.step {e : Thread.Event Reply Request Outside}
    (h : KeepsHistory source lib first history pool) (hstep : CalmStep source lib pool e pool') :
    KeepsHistory source lib first (history ++ [e]) pool' := by
  obtain ⟨hrequests, hmoved⟩ := h.requests.perform (does_handle source lib) hstep.perform
  have hrun := h.run.append (.cons hstep.perform (.nil pool'))
  have hfinished : (history ++ [e]).filterMap (finishedOf lib) =
      history.filterMap (finishedOf lib) ++ (finishedOf lib e).toList := by
    rw [List.filterMap_append, List.filterMap_cons, List.filterMap_nil]
    cases finishedOf lib e <;> rfl
  -- A request that begins or goes away leaves the source as it is.
  have hstill : pool'.shared = pool.shared → finishedOf lib e = none →
      KeepsHistory source lib first (history ++ [e]) pool' := by
    intro hshared hnone
    rw [hnone, Option.toList_none, List.append_nil] at hfinished
    exact
      { run := hrun
        requests := hrequests
        numbered := hshared ▸ h.numbered
        fair := by
          rw [hfinished, hshared]
          exact h.fair
        bounded := hshared ▸ h.bounded
        cached := fun id entry hentry => (h.cached id entry (hshared ▸ hentry)).later e }
  generalize hshared : pool'.shared = shared at hmoved
  cases hmoved with
  | begin id request => exact hstill hshared rfl
  | cancel id => exact hstill hshared rfl
  | step id reply htouches =>
    subst hshared
    obtain ⟨flown, hflown, hnone⟩ := htouches.flightRun h.numbered
    obtain ⟨-, hsize, hkept⟩ := htouches.cache
    have hfair := h.fair.run hflown
    rw [hnone, List.append_nil] at hfair
    exact
      { run := hrun
        requests := hrequests
        numbered := htouches.numbered h.numbered
        fair := by
          rw [hfinished]
          change SingleFlight.Flights.Fair (history.filterMap (finishedOf lib) ++ []) _
          rw [List.append_nil]
          exact hfair
        bounded := hsize.trans h.bounded
        cached := fun other entry hentry =>
          (h.cached other entry (hkept other entry hentry)).later _ }
  | outside event hmove =>
    subst hshared
    obtain ⟨hnumbered, flown, hflown, hnew⟩ := flightRun_move h.numbered hmove
      fun n error heq => hstep.goes n error (congrArg Thread.Event.outside heq)
    have hfair := h.fair.run hflown
    rw [hnew] at hfair
    obtain ⟨hbounded, hcached⟩ := cached_move h.run h.bounded h.cached
      (fun n output resolved heq => hstep.fits n output resolved
        (congrArg Thread.Event.outside heq)) hmove
    exact
      { run := hrun
        requests := hrequests
        numbered := hnumbered
        fair := by
          rw [hfinished]
          exact hfair
        bounded := hbounded
        cached := hcached }

theorem KeepsHistory.of_run {start : World} (hinit : Initial start)
    (hrun : Transition.Run (CalmStep source lib) (Pool.start start) history pool) :
    KeepsHistory source lib (Pool.start start) history pool :=
  hrun.history (fun _ _ _ _ h hstep => h.step hstep) hinit.keepsHistory

theorem perform_outside (h : pool.shared.move source lib event = some w') :
    pool.perform (server source lib) (.outside event) = some { pool with shared := w' } := by
  have hmove : (server source lib).outside event pool.shared = some w' := h
  simp only [Pool.perform, hmove]

/-- A calm step of what moves without a request, at which nothing is stored. -/
theorem calmStep_outside (h : pool.shared.move source lib event = some w')
    (hgoes : ∀ n error, event ≠ .stop n error)
    (hempty : ∀ n output, event = .finish n output → ∃ error, output = .error error) :
    CalmStep source lib pool (.outside event) { pool with shared := w' } where
  perform := perform_outside h
  goes n error heq := by
    injection heq with heq
    exact hgoes n error heq
  fits n output resolved heq hresult := by
    injection heq with heq
    obtain ⟨error, rfl⟩ := hempty n output heq
    cases hresult

theorem settle_frees {track : TrackRef} {result : Except ExternalError Resolved}
    (h : pool.shared.resolutions.lookup n = some ⟨id, track, .finished result⟩) :
    ∃ rest pool', Transition.Run (CalmStep source lib) pool rest pool' ∧
      pool'.shared.inFlight.lookup id = none := by
  have hmove : pool.shared.move source lib (.settle n) =
      some { pool.shared.setStage n (.settled result) with
        inFlight := pool.shared.inFlight.erase id } := by
    rw [World.move, h]
  have hstep := calmStep_outside hmove (fun m error heq => by cases heq)
    (fun m output heq => by cases heq)
  exact ⟨[.outside (.settle n)], _, .cons hstep (.nil _), AList.lookup_erase id _⟩

/-- A run that is not over can fail, and then it is taken off the list. -/
theorem finish_frees {track : TrackRef} {stage : Stage}
    (h : pool.shared.resolutions.lookup n = some ⟨id, track, stage⟩)
    (hstage : stage.flight.isSettled = false) :
    ∃ rest pool', Transition.Run (CalmStep source lib) pool rest pool' ∧
      pool'.shared.inFlight.lookup id = none := by
  have hfail : ∀ error, pool.shared.move source lib (.finish n (.error error)) =
        some (pool.shared.setStage n (.finished (.error error))) →
      ∃ rest pool', Transition.Run (CalmStep source lib) pool rest pool' ∧
        pool'.shared.inFlight.lookup id = none := by
    intro error hmove
    have hstep := calmStep_outside hmove (fun m error heq => by cases heq)
      (fun m output heq => by
        injection heq with _ heq
        exact ⟨error, heq.symm⟩)
    have hlookup : (pool.shared.setStage n (.finished (.error error))).resolutions.lookup n =
        some ⟨id, track, .finished (.error error)⟩ := by
      rw [World.setStage, Table.lookup_modify, if_pos rfl, h, Option.map_some]
    have hsettles : ∃ rest last, Transition.Run (CalmStep source lib)
        { pool with shared := pool.shared.setStage n (.finished (.error error)) } rest last ∧
          last.shared.inFlight.lookup id = none := settle_frees hlookup
    obtain ⟨rest, last, hrest, hfree⟩ := hsettles
    exact ⟨_, last, .cons hstep hrest, hfree⟩
  cases stage with
  | queued =>
    refine hfail (.failed "yt-dlp timed out") ?_
    simp only [World.move, h]
  | running =>
    refine hfail (.failed "yt-dlp timed out") ?_
    simp only [World.move, h]
    rfl
  | finished result => exact settle_frees h
  | settled result => cases hstage

/-- Where no task ends without a result and no lifetime overflows, resolutions run once for
each id, whoever waits gets the result, and no id stays taken. -/
theorem resolutions_single_flight {start : World} (hinit : Initial start)
    (hrun : Transition.Run (CalmStep source lib) (Pool.start start) history pool) :
    SingleFlight source lib (Pool.start start) history pool := by
  have hkept : KeepsHistory source lib (Pool.start start) history pool := .of_run hinit hrun
  have hlisted : ∀ id n, pool.shared.inFlight.lookup id = some n →
      ∃ row, pool.shared.resolutions.lookup n = some row ∧ row.id = id ∧
        row.stage.flight.isSettled = false := by
    intro id n hn
    obtain ⟨stage, hflight, hstage⟩ := (hkept.fair.listed id n).mp hn
    obtain ⟨row, hrow, hsame⟩ := Option.map_eq_some_iff.mp hflight
    obtain ⟨hid, rfl⟩ := SingleFlight.Flight.mk.inj hsame
    exact ⟨row, hrow, hid, hstage⟩
  exact
    { alone := by
        intro n m row row' hrow hrow' hstage hstage' hid
        have hfirst := lookup_flights hrow
        have hsecond := lookup_flights hrow'
        rw [Resolution.flight, hid] at hfirst
        exact hkept.fair.alone hfirst hstage hsecond hstage'
      listed := hlisted
      joins := by
        intro request id track next reply pool' hthread hstep
        change pool.threads.lookup request = some (.act _ _) at hthread
        simp only [Pool.perform, hthread] at hstep
        cases hstep
        refine ⟨(pool.shared.resolution id track).1, ?_⟩
        rw [World.resolution]
        cases hid : pool.shared.inFlight.lookup id with
        | some n =>
          obtain ⟨row, hrow⟩ := hlisted id n hid
          exact ⟨row, by rw [AList.lookup_insert]; rfl, hrow⟩
        | none =>
          refine ⟨⟨id, track, .queued⟩, by rw [AList.lookup_insert]; rfl, ?_, rfl, rfl⟩
          dsimp only
          rw [AList.lookup_insert]
      shares := by
        intro request n next reply pool' hthread hstep
        change pool.threads.lookup request = some (.act _ _) at hthread
        simp only [Pool.perform, hthread] at hstep
        split at hstep
        · rename_i result shared hawaited
          cases hstep
          split at hawaited
          · rename_i id track settled hlookup
            obtain ⟨rfl, rfl⟩ := Prod.mk.inj (Option.some.inj hawaited)
            refine ⟨settled, by rw [AList.lookup_insert]; rfl, ?_⟩
            exact hkept.fair.results n _ (lookup_flights hlookup)
          · cases hawaited
        · cases hstep
      frees := by
        intro id n hn
        obtain ⟨⟨other, track, stage⟩, hrow, rfl, hstage⟩ := hlisted id n hn
        exact finish_frees hrow hstage
      bounded := hkept.bounded
      fresh := by
        intro id resolved hcached
        obtain ⟨entry, hentry, rfl⟩ := Option.map_eq_some_iff.mp hcached
        obtain ⟨hlookup, hfresh⟩ := Option.filter_eq_some_iff.mp hentry
        exact ⟨entry, rfl, of_decide_eq_true hfresh, hkept.cached id entry hlookup⟩
      fits := by
        rintro before n output after mid id resolved rfl hbefore ⟨-, hresult⟩
        obtain ⟨mid', hcalm, hrest⟩ := hrun.split
        have hsame : mid' = mid := by
          refine (hcalm.mono fun _ _ _ h => h.perform).unique ?_ hbefore
          intro s e t t' ht ht'
          exact Option.some.inj (ht.symm.trans ht')
        subst hsame
        obtain _ | ⟨hstep, -⟩ := hrest
        exact hstep.fits n output resolved rfl hresult }

/-- Whether the step is one at which nothing goes wrong. -/
def isCalm (lib : Libraries) (pool : ServerPool) : Thread.Event Reply Request Outside → Bool
  | .outside (.stop _ _) => false
  | .outside (.finish _ output) =>
    match World.resultOf lib output with
    | .error _ => true
    | .ok resolved =>
      match expiresOf lib.urls resolved.url with
      | none => true
      | some expires => decide (-2 ^ 63 ≤ expires - pool.shared.now - expiryMarginSeconds ∧
          expires - pool.shared.now < 2 ^ 63)
  | _ => true

theorem CalmStep.of_isCalm {e : Thread.Event Reply Request Outside}
    (h : pool.perform (server source lib) e = some pool') (hcalm : isCalm lib pool e = true) :
    CalmStep source lib pool e pool' where
  perform := h
  goes n error heq := by
    subst heq
    cases hcalm
  fits n output resolved heq hresult expires hexpires := by
    subst heq
    simp only [isCalm, hresult, hexpires] at hcalm
    exact of_decide_eq_true hcalm

/-- The calm steps, computed. -/
def performCalmly (source : ExternalSource) (lib : Libraries) (pool : ServerPool)
    (e : Thread.Event Reply Request Outside) : Option ServerPool :=
  if isCalm lib pool e then pool.perform (server source lib) e else none

theorem run_of_performCalmly
    (h : history.foldlM (performCalmly source lib) first = some pool) :
    Transition.Run (CalmStep source lib) first history pool :=
  (Transition.Run.of_guarded h).mono fun _ _ _ hstep => .of_isCalm hstep.2 hstep.1

end Runs

/-! ### A run that resolves and one that panics -/

section Sample

/-- The audio of the found Track, for an hour. -/
def mediaUrl : Url :=
  ⟨"https", some (.domain "cf-media.sndcdn.com"), "/track.mp3", [("expire", "1700003600")],
    "https://cf-media.sndcdn.com/track.mp3?expire=1700003600"⟩

/-- One that expired before the oldest instant that 64 bits count from. -/
def overflowingUrl : Url :=
  ⟨"https", some (.domain "cf-media.sndcdn.com"), "/track.mp3",
    [("expire", "-9223372036854775808")],
    "https://cf-media.sndcdn.com/track.mp3?expire=-9223372036854775808"⟩

def mediaUrls : UrlLibrary where
  parse text :=
    if text = mediaUrl.text then .ok mediaUrl
    else if text = overflowingUrl.text then .ok overflowingUrl
    else foundUrls.parse text
  join := foundUrls.join

def resolvedLine : String :=
  "\x7b\"url\":\"https://cf-media.sndcdn.com/track.mp3?expire=1700003600\"," ++
    "\"protocol\":\"https\"\x7d"

def mediaLibraries : Libraries :=
  { foundLibraries with
    urls := mediaUrls
    fromStr := fun line =>
      if line = resolvedLine then
        some (.object [("url", .string mediaUrl.text), ("protocol", .string "https")])
      else foundLibraries.fromStr line }

/-- A search, then a request to play its result, which starts a resolution. -/
def resolvingEvents : List (Thread.Event Reply Request Outside) :=
  foundEvents.take 5 ++
    [.begin 1 (.playback foundId), .step 1 .none, .step 1 .none, .outside (.run 0)]

/-- It finds the audio, and the request gets it. -/
def resolvedEvents : List (Thread.Event Reply Request Outside) :=
  [.outside (.finish 0 (.ok (resolvedLine.toList.flatMap charBytes))), .outside (.settle 0),
    .step 1 .none]

def panicked : Thread.Event Reply Request Outside := .outside (.stop 0 "task 7 panicked")

def isResolved (pool : ServerPool) : Bool :=
  (pool.shared.cached foundId).map (·.url) = some mediaUrl.text

/-- The run that is listed for the id is over. -/
def isStuck (pool : ServerPool) : Bool :=
  pool.shared.inFlight.lookup foundId = some 0 ∧
    (pool.shared.resolutions.lookup 0).any (·.stage.flight.isSettled) = true

theorem resolving_goes_on : (resolvingEvents.foldlM
    (performCalmly foundSource mediaLibraries) foundStart).any (fun pool =>
      (resolvedEvents.foldlM (performCalmly foundSource mediaLibraries) pool).any isResolved &&
        (pool.perform (server foundSource mediaLibraries) panicked).any isStuck) = true := by
  decide +kernel

theorem resolving_outcomes : ∃ pool resolved stuck,
    resolvingEvents.foldlM (performCalmly foundSource mediaLibraries) foundStart = some pool ∧
    resolvedEvents.foldlM (performCalmly foundSource mediaLibraries) pool = some resolved ∧
    isResolved resolved = true ∧
    pool.perform (server foundSource mediaLibraries) panicked = some stuck ∧
    isStuck stuck = true := by
  obtain ⟨pool, hpool, hboth⟩ := Option.any_eq_true _ _ |>.mp resolving_goes_on
  obtain ⟨hfirst, hsecond⟩ := Bool.and_eq_true_iff.mp hboth
  obtain ⟨resolved, hresolved, hgood⟩ := Option.any_eq_true _ _ |>.mp hfirst
  obtain ⟨stuck, hstuck, hbad⟩ := Option.any_eq_true _ _ |>.mp hsecond
  exact ⟨pool, resolved, stuck, hpool, hresolved, hgood, hstuck, hbad⟩

theorem initial_foundStart : Initial (World.new 1700000000 0) := ⟨1700000000, 0, rfl⟩

/-- The id is free again, and what was found is in the cache. -/
theorem resolution_is_shared : ∃ pool, isResolved pool = true ∧
    SingleFlight foundSource mediaLibraries foundStart (resolvingEvents ++ resolvedEvents)
      pool := by
  obtain ⟨pool, resolved, -, hpool, hresolved, hgood, -⟩ := resolving_outcomes
  have hrun := (run_of_performCalmly hpool).append (run_of_performCalmly hresolved)
  exact ⟨resolved, hgood, resolutions_single_flight initial_foundStart hrun⟩

/-- The id of a task that panicked stays listed, and the lifetime of a URL can overflow. -/
theorem resolution_gets_stuck :
    ¬(∀ history pool, Transition.Run
        (fun pool e pool' => pool.perform (server foundSource mediaLibraries) e = some pool')
        foundStart history pool →
      SingleFlight foundSource mediaLibraries foundStart history pool) ∧
      cacheLifetime mediaUrls false overflowingUrl.text 1700000000 = some cacheTtl ∧
      cacheLifetime mediaUrls true overflowingUrl.text 1700000000 = none := by
  refine ⟨fun h => ?_, by decide +kernel, by decide +kernel⟩
  obtain ⟨pool, -, stuck, hpool, -, -, hstuck, hbad⟩ := resolving_outcomes
  have hresolving : Transition.Run
      (fun pool e pool' => pool.perform (server foundSource mediaLibraries) e = some pool')
      foundStart resolvingEvents pool :=
    (run_of_performCalmly hpool).mono fun _ _ _ hstep => hstep.perform
  obtain ⟨hlisted, hover⟩ := of_decide_eq_true hbad
  have hfair := h _ stuck (hresolving.append (.cons hstuck (.nil _)))
  obtain ⟨row, hrow, -, hstage⟩ := hfair.listed foundId 0 hlisted
  rw [hrow, Option.any_some, hstage] at hover
  cases hover

end Sample

end Harmony.External
