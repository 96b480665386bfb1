/-
# Reading the queue and reordering it

A read of the queue resolves each item's Track in the library and skips the
items whose Track is hidden, while a new order is compared with every row that is
stored. The two agree exactly as long as no Track of the queue is hidden.
-/

import Harmony.Playback.Requests

namespace Harmony.Playback

open Transaction

/-! ### The service's read -/

/-- An item as a client gets it. -/
structure QueueItem (σ : Type) where
  id : String
  trackId : String
  position : ℤ
  track : TrackRow
  source : σ

structure Queue (σ : Type) where
  items : List (QueueItem σ)
  revision : String
  eventSequence : String

/-- `LibraryService::get_track`, which reads the visible Tracks. -/
def Store.getTrack (s : Store) (trackId : String) : Option TrackRow :=
  (s.tracks.lookup trackId).filter TrackRow.isVisible

section Read

-- `sources::parse_json` of a stored source.
variable {σ : Type} (parseJson : String → Except String σ)

def resolveItems (s : Store) : List ItemRow → Except QueueError (List (QueueItem σ))
  | [] => .ok []
  | row :: rows =>
    match parseJson row.source with
    | .error error =>
      let id := row.id
      .error (.other s!"decode queue item \"{id}\" source: {error}")
    | .ok source =>
      match s.getTrack row.trackId with
      | none => resolveItems s rows
      | some track => do
        let items ← resolveItems s rows
        return ⟨row.id, row.trackId, row.position, track, source⟩ :: items

/-- The queue, skipping items whose Track no longer exists. -/
def getQueue (s : Store) (userId : String) : Except QueueError (Queue σ) := do
  let snapshot := Repository.read s userId
  let items ← resolveItems parseJson s snapshot.items
  return ⟨items, snapshot.revision, snapshot.eventSequence⟩

/-- Reorders only when `itemIds` is a permutation of the current items. -/
def reorder (s : Store) (userId revision : String) (itemIds : List String) :
    Except QueueError Store :=
  outcome (Repository.reorder userId revision itemIds fun current => sameItems current itemIds) s

/-! ### What a read returns -/

variable {parseJson} {s t : Store} {userId : String} {rows : List ItemRow}

/-- The item a row is read as, where it is shown. -/
def resolved (parseJson : String → Except String σ) (s : Store) (row : ItemRow) :
    Option (QueueItem σ) :=
  match parseJson row.source, s.getTrack row.trackId with
  | .ok source, some track => some ⟨row.id, row.trackId, row.position, track, source⟩
  | _, _ => none

theorem resolveItems_eq_ok {items : List (QueueItem σ)} :
    resolveItems parseJson s rows = .ok items ↔
      (∀ row ∈ rows, (parseJson row.source).isOk = true) ∧
        rows.filterMap (resolved parseJson s) = items := by
  induction rows generalizing items with
  | nil => simp [resolveItems]
  | cons row rows ih =>
    rw [resolveItems]
    cases hsource : parseJson row.source with
    | error error => simp [hsource, Except.isOk, Except.toBool]
    | ok source =>
      cases htrack : s.getTrack row.trackId with
      | none =>
        simp only [ih, List.forall_mem_cons, hsource, List.filterMap_cons, resolved, htrack]
        simp [Except.isOk, Except.toBool]
      | some track =>
        cases hrest : resolveItems parseJson s rows with
        | error error =>
          have hnot : ¬ ∀ row ∈ rows, (parseJson row.source).isOk = true := by
            intro hall
            rw [ih.mpr ⟨hall, rfl⟩] at hrest
            cases hrest
          simp [bind, Except.bind, hnot]
        | ok rest =>
          obtain ⟨hall, rfl⟩ := ih.mp hrest
          simp only [bind, Except.bind, pure, Except.pure, Except.ok.injEq, List.forall_mem_cons,
            List.filterMap_cons, resolved, hsource, htrack]
          exact ⟨fun h => ⟨⟨rfl, hall⟩, h⟩, fun h => h.2⟩

theorem getQueue_eq_ok {queue : Queue σ} :
    getQueue parseJson s userId = .ok queue ↔
      (∀ row ∈ s.queue.items userId, (parseJson row.source).isOk = true) ∧
        queue = ⟨(s.queue.items userId).filterMap (resolved parseJson s),
          toString (s.state userId).revision, toString (s.state userId).eventSequence⟩ := by
  rw [getQueue, Repository.read]
  cases hitems : resolveItems parseJson s (s.queue.items userId) with
  | error error =>
    have hnot : ¬ ∀ row ∈ s.queue.items userId, (parseJson row.source).isOk = true := by
      intro hall
      rw [resolveItems_eq_ok.mpr ⟨hall, rfl⟩] at hitems
      cases hitems
    simp [bind, Except.bind, hnot]
  | ok items =>
    obtain ⟨hall, rfl⟩ := resolveItems_eq_ok.mp hitems
    simp only [bind, Except.bind, pure, Except.pure, Except.ok.injEq]
    constructor
    · rintro rfl
      exact ⟨hall, rfl⟩
    · exact fun h => h.2.symm

theorem Store.isVisible_eq (s : Store) (trackId : String) :
    s.isVisible trackId = (s.getTrack trackId).isSome := by
  rw [Store.isVisible, Store.getTrack]
  cases s.tracks.lookup trackId with
  | none => rfl
  | some track => cases h : track.isVisible <;> simp [h]

/-- The items shown are those whose Track is visible. -/
theorem resolved_isSome {row : ItemRow} (hsource : (parseJson row.source).isOk = true) :
    (resolved parseJson s row).isSome = s.isVisible row.trackId := by
  rw [Store.isVisible_eq, resolved]
  cases hparse : parseJson row.source with
  | error error => simp [hparse, Except.isOk, Except.toBool] at hsource
  | ok source => cases s.getTrack row.trackId <;> rfl

theorem resolved_id {row : ItemRow} {item : QueueItem σ}
    (h : resolved parseJson s row = some item) : item.id = row.id := by
  rw [resolved] at h
  split at h
  · rw [← Option.some.inj h]
  · cases h

/-- The IDs of the items shown are those of the rows with a visible Track. -/
theorem ids_resolved (hsources : ∀ row ∈ rows, (parseJson row.source).isOk = true) :
    (rows.filterMap (resolved parseJson s)).map QueueItem.id =
      (rows.filter fun row => s.isVisible row.trackId).map ItemRow.id := by
  induction rows with
  | nil => rfl
  | cons row rows ih =>
    have hrest := ih fun other hother => hsources other (List.mem_cons_of_mem row hother)
    have hsome := resolved_isSome (s := s) (hsources row List.mem_cons_self)
    cases hresolved : resolved parseJson s row with
    | none =>
      rw [hresolved, Option.isSome_none] at hsome
      have hhidden : ¬ s.isVisible row.trackId = true := by rw [← hsome]; exact Bool.false_ne_true
      rw [List.filterMap_cons_none hresolved, hrest]
      exact congrArg (List.map ItemRow.id)
        (List.filter_cons_of_neg (p := fun row : ItemRow => s.isVisible row.trackId) hhidden).symm
    | some item =>
      rw [hresolved, Option.isSome_some] at hsome
      rw [List.filterMap_cons_some hresolved, List.map_cons, resolved_id hresolved, hrest,
        ← List.map_cons]
      exact congrArg (List.map ItemRow.id)
        (List.filter_cons_of_pos (p := fun row : ItemRow => s.isVisible row.trackId)
          hsome.symm).symm

/-- What the service answers with is the queue that is shown. -/
theorem getQueue_shown {queue : Queue σ} (h : getQueue parseJson s userId = .ok queue) :
    queue.items.map QueueItem.id = (s.shownQueue userId).items.map ItemRow.id ∧
      queue.revision = (s.shownQueue userId).revision ∧
      queue.eventSequence = (s.shownQueue userId).eventSequence := by
  obtain ⟨hsources, rfl⟩ := getQueue_eq_ok.mp h
  exact ⟨ids_resolved hsources, rfl, rfl⟩

/-- Where no Track is hidden, every row is shown. -/
theorem ids_resolved_of_visible (hsources : ∀ row ∈ rows, (parseJson row.source).isOk = true)
    (hvisible : ∀ row ∈ rows, s.isVisible row.trackId = true) :
    (rows.filterMap (resolved parseJson s)).map QueueItem.id = rows.map ItemRow.id := by
  rw [ids_resolved hsources, List.filter_eq_self.mpr hvisible]

/-! ### Reordering what was read -/

/-- The list operation puts the items in the requested order. -/
theorem ids_onList_reorder {uuids : ℕ → String} {itemIds : List String} {queue order : List Content}
    (h : (Mutation.reorder itemIds).onList uuids queue = .ok order) :
    itemIds.Perm (queue.map Content.id) ∧ order.map Content.id = itemIds ∧ order ⊆ queue := by
  rw [Mutation.onList] at h
  split_ifs at h with hperm
  cases h
  refine ⟨hperm, ?_, ?_⟩
  · rw [List.map_filterMap]
    have hfound : ∀ itemId ∈ itemIds,
        (queue.find? fun item => item.id == itemId).map Content.id = some itemId := by
      intro itemId hitem
      obtain ⟨item, hmem, hid⟩ := List.mem_map.mp (hperm.mem_iff.mp hitem)
      cases hfind : queue.find? fun item => item.id == itemId with
      | none => simpa [hid] using List.find?_eq_none.mp hfind item hmem
      | some found => simpa using List.find?_some hfind
    rw [List.filterMap_congr hfound, List.filterMap_some]
  · intro item hitem
    obtain ⟨itemId, -, hfind⟩ := List.mem_filterMap.mp hitem
    exact List.mem_of_find?_eq_some hfind

/-- The items agree on all but their positions. -/
def QueueItem.Same (a b : QueueItem σ) : Prop := { a with position := b.position } = b

theorem resolved_of_content {row row' : ItemRow} (htracks : t.tracks = s.tracks)
    (hcontent : row'.content = row.content) {item' : QueueItem σ}
    (h : resolved parseJson t row' = some item') :
    ∃ item, resolved parseJson s row = some item ∧ item.Same item' := by
  obtain ⟨hid, htrack, hsource⟩ := Content.mk.inj hcontent
  rw [resolved, Store.getTrack, htracks, htrack, hsource, ← Store.getTrack] at h
  rw [resolved]
  split at h
  · cases h
    exact ⟨_, rfl, by rw [QueueItem.Same, hid]⟩
  · cases h

end Read

/-- What a client gets of the queue it can put in any order, at the revision it
got, exactly when the Track of no stored item is hidden. -/
theorem reorder_listed_iff {σ : Type} (parseJson : String → Except String σ) {s : Store}
    (h : Reachable s) {userId : String} {queue : Queue σ}
    (hqueue : getQueue parseJson s userId = .ok queue) {itemIds : List String}
    (hperm : itemIds.Perm (queue.items.map QueueItem.id)) :
    (∃ t queue', reorder s userId queue.revision itemIds = .ok t ∧
      getQueue parseJson t userId = .ok queue' ∧ queue'.items.map QueueItem.id = itemIds ∧
      ∀ item' ∈ queue'.items, ∃ item ∈ queue.items, item.Same item') ↔
    ∀ row ∈ s.queue.items userId, s.isVisible row.trackId = true := by
  obtain ⟨hsources, rfl⟩ := getQueue_eq_ok.mp hqueue
  let revision := toString (s.state userId).revision
  have hspec : Meets _ _ (Repository.reorder userId revision itemIds
      fun current => sameItems current itemIds) s :=
    @reorder_spec s userId revision (fun _ => "") itemIds (h.nonNegative userId)
  constructor
  · rintro ⟨t, queue', hreorder, -⟩
    obtain ⟨⟨⟩, hrun⟩ := outcome_eq_ok.mp hreorder
    obtain ⟨-, hcommitted⟩ := hspec.committed hrun
    -- The request has as many IDs as there are rows, so the read dropped none.
    have hall := (ids_onList_reorder hcommitted.contents).1
    have hlength := hperm.symm.length_eq.trans hall.length_eq
    rw [ids_resolved hsources, List.length_map, ids_contents, List.length_map] at hlength
    exact List.length_filter_eq_length_iff.mp hlength
  · intro hvisible
    have hall : itemIds.Perm ((s.queue.contents userId).map Content.id) := by
      rw [ids_contents, ← ids_resolved_of_visible hsources hvisible]
      exact hperm
    cases hrun : Repository.reorder userId revision itemIds
        (fun current => sameItems current itemIds) s with
    | error e =>
      rcases hspec.failed hrun with ⟨hstale, -⟩ | ⟨-, herror⟩
      · exact absurd rfl hstale
      · rw [Mutation.onList, if_pos hall] at herror
        cases herror
    | ok result =>
      obtain ⟨⟨⟩, t⟩ := result
      obtain ⟨-, hcommitted⟩ := hspec.committed hrun
      obtain ⟨-, hids, hsubset⟩ := ids_onList_reorder hcommitted.contents
      have htracks : t.tracks = s.tracks := hcommitted.writes.tracks
      -- Each row of the new order is a row of the old one but for its position.
      have hold : ∀ row' ∈ t.queue.items userId,
          ∃ row ∈ s.queue.items userId, row.content = row'.content := by
        intro row' hrow
        exact List.mem_map.mp (hsubset (List.mem_map_of_mem hrow))
      have hsources' : ∀ row ∈ t.queue.items userId, (parseJson row.source).isOk = true := by
        intro row' hrow'
        obtain ⟨row, hrow, hcontent⟩ := hold row' hrow'
        rw [← (Content.mk.inj hcontent).2.2]
        exact hsources row hrow
      have hvisible' : ∀ row ∈ t.queue.items userId, t.isVisible row.trackId = true := by
        intro row' hrow'
        obtain ⟨row, hrow, hcontent⟩ := hold row' hrow'
        rw [← (Content.mk.inj hcontent).2.1, Store.isVisible, htracks]
        exact hvisible row hrow
      refine ⟨t, _, outcome_eq_ok.mpr ⟨(), hrun⟩, getQueue_eq_ok.mpr ⟨hsources', rfl⟩, ?_, ?_⟩
      · rw [ids_resolved_of_visible hsources' hvisible', ← ids_contents, hids]
      · intro item' hitem'
        obtain ⟨row', hrow', hresolved'⟩ := List.mem_filterMap.mp hitem'
        obtain ⟨row, hrow, hcontent⟩ := hold row' hrow'
        obtain ⟨item, hresolved, hsame⟩ := resolved_of_content htracks hcontent.symm hresolved'
        exact ⟨item, List.mem_filterMap.mpr ⟨row, hrow, hresolved⟩, hsame⟩

/-- Three items, of which the last one's Track is then hidden when `hides`. -/
def listedEvents (hides : Bool) : List Event :=
  [.changeTracks (AList.insert "a" ⟨true⟩ (AList.insert "b" ⟨true⟩ ∅)),
    .mutate "user" "0" (fun i => toString i) (.replace ["a", "a", "b"] "album"),
    .changeTracks (AList.insert "a" ⟨true⟩ (AList.insert "b" ⟨!hides⟩ ∅))]

def listedStore (hides : Bool) : Store :=
  match (listedEvents hides).foldlM Event.perform .empty with
  | .ok s => s
  | .error _ => .empty

theorem listedStore_reachable (hides : Bool) : Reachable (listedStore hides) := by
  have hok : ((listedEvents hides).foldlM Event.perform .empty).isOk = true := by
    cases hides <;> decide +kernel
  refine ⟨.empty, listedEvents hides, rfl, .of_except ?_⟩
  rw [listedStore]
  cases hrun : (listedEvents hides).foldlM Event.perform .empty with
  | ok s => rfl
  | error e => simp [hrun, Except.isOk, Except.toBool] at hok

/-- The read, with the stored text as the source. -/
def listed (s : Store) : Except QueueError (Queue String) :=
  getQueue (fun text => .ok text) s "user"

/-- With no Track hidden the items are reordered. -/
theorem listed_reordered :
    (listed (listedStore false)).map (fun queue => queue.items.map QueueItem.id) =
        .ok ["0", "1", "2"] ∧
      ∃ queue t queue', listed (listedStore false) = .ok queue ∧
        reorder (listedStore false) "user" queue.revision ["2", "0", "1"] = .ok t ∧
        listed t = .ok queue' ∧ queue'.items.map QueueItem.id = ["2", "0", "1"] := by
  refine ⟨by decide +kernel, ?_⟩
  cases hqueue : listed (listedStore false) with
  | error e =>
    have hok : (listed (listedStore false)).isOk = true := by decide +kernel
    simp [hqueue, Except.isOk, Except.toBool] at hok
  | ok queue =>
    have hids : (listed (listedStore false)).map (fun queue => queue.items.map QueueItem.id) =
        .ok ["0", "1", "2"] := by decide +kernel
    rw [hqueue] at hids
    have hids : queue.items.map QueueItem.id = ["0", "1", "2"] := Except.ok.inj hids
    have hperm : ["2", "0", "1"].Perm (queue.items.map QueueItem.id) := by
      rw [hids]
      decide
    obtain ⟨t, queue', hreorder, hread, horder, -⟩ :=
      (reorder_listed_iff _ (listedStore_reachable false) hqueue hperm).mpr (by decide +kernel)
    exact ⟨queue, t, queue', rfl, hreorder, hread, horder⟩

/-- With the Track of the last item hidden, the two items that are listed cannot
be swapped, nor even be put in the order they are in. -/
theorem listed_not_reordered :
    Reachable (listedStore true) ∧
      (listed (listedStore true)).map
      (fun queue => (queue.items.map QueueItem.id, queue.revision)) =
        .ok (["0", "1"], "1") ∧
      (∀ t, reorder (listedStore true) "user" "1" ["1", "0"] ≠ .ok t) ∧
      ∀ t, reorder (listedStore true) "user" "1" ["0", "1"] ≠ .ok t := by
  refine ⟨listedStore_reachable true, by decide +kernel, ?_, ?_⟩
  · intro t h
    have hfails : (reorder (listedStore true) "user" "1" ["1", "0"]).isOk = false := by
      decide +kernel
    simp [h, Except.isOk, Except.toBool] at hfails
  · intro t h
    have hfails : (reorder (listedStore true) "user" "1" ["0", "1"]).isOk = false := by
      decide +kernel
    simp [h, Except.isOk, Except.toBool] at hfails

end Harmony.Playback
