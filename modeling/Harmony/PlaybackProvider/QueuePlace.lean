/-
# The place of the playing item in a changing Queue

While an item plays, the provider remembers its id and its index, and refreshes the index
whenever it sees a Queue that still has the item. Where the item has left the Queue, the item
that is played next is the one that stands at the remembered index by then.
-/

import Harmony.PlaybackProvider.Provider
import Mathlib.Data.List.Nodup

namespace Harmony.PlaybackProvider

/-- A Queue of the Music Server; each item has an id of its own. -/
structure Queue where
  items : List QueueItem
  nodup : (items.map (·.id)).Nodup

def Queue.ids (queue : Queue) : List String := queue.items.map (·.id)

def findIndex (items : List QueueItem) (id : String) : Option ℕ := items.findIdx? (·.id = id)

/-- `currentQueueItemIdRef` and `currentQueueIndexRef`. -/
structure Place where
  currentQueueItemId : String
  currentQueueIndex : Option ℕ

/-- The effect that runs where the Queue or the source has changed. -/
def Place.refresh (place : Place) (items : List QueueItem) (sourceItemId : Option String) : Place :=
  let itemId := sourceItemId.getD place.currentQueueItemId
  match findIndex items itemId with
  | none => ⟨itemId, place.currentQueueIndex⟩
  | some itemIndex => ⟨itemId, some itemIndex⟩

/-- The item that is played next; where there is none, the engine is stopped. -/
def Place.advanceToNextQueueItem (place : Place) (items : List QueueItem) : Option QueueItem :=
  match findIndex items place.currentQueueItemId with
  | some index => items[index + 1]?
  | none => items[place.currentQueueIndex.getD 0]?

/-! ### While an item plays -/

/-- A newer Queue is put into `queueRef`, and the effect runs with it once it is rendered. -/
inductive Change
  | applied (queue : Queue)
  | rendered

/-- The provider while one item plays; `held` and `seen` are the last Queue that had the item
and the last one in which the effect has found it. -/
structure Following where
  itemId : String
  queue : Queue
  place : Place
  held : Queue
  seen : Queue

namespace Following

/-- `playQueueItemInternal` for an item of the Queue. -/
def start (queue : Queue) (index : Fin queue.items.length) : Following :=
  let itemId := queue.items[index].id
  ⟨itemId, queue, ⟨itemId, findIndex queue.items itemId⟩, queue, queue⟩

def step (s : Following) : Change → Following
  | .applied queue => { s with queue, held := if s.itemId ∈ queue.ids then queue else s.held }
  | .rendered => { s with
      place := s.place.refresh s.queue.items (some s.itemId)
      seen := if s.itemId ∈ s.queue.ids then s.queue else s.seen }

/-- The item that is played when the item ends or its failure is skipped. -/
def next (s : Following) : Option String :=
  (s.place.advanceToNextQueueItem s.queue.items).map (·.id)

/-- The first item still in the Queue of those behind the item in the last Queue that had it.
Where it is still there, this is the one after it. -/
def survivor (s : Following) : Option String :=
  (s.held.ids.drop (s.held.ids.idxOf s.itemId + 1)).find? (· ∈ s.queue.ids)

/-- As many items stand before the survivor as stood before the item where it was last seen;
where nothing survives, the Queue has no more than that. -/
def Aligned (s : Following) : Prop :=
  match s.survivor with
  | some id => s.queue.ids.idxOf id = s.seen.ids.idxOf s.itemId
  | none => s.queue.ids.length ≤ s.seen.ids.idxOf s.itemId

/-! ### What the changes keep -/

structure Sound (s : Following) : Prop where
  place : s.place = ⟨s.itemId, some (s.seen.ids.idxOf s.itemId)⟩
  held : s.itemId ∈ s.queue.ids → s.held = s.queue

theorem findIndex_of_mem {queue : Queue} {id : String} (h : id ∈ queue.ids) :
    findIndex queue.items id = some (queue.ids.idxOf id) := by
  rw [findIndex, List.findIdx?_eq_some_iff_findIdx_eq]
  constructor
  · have hlt := List.idxOf_lt_length_iff.mpr h
    rw [Queue.ids, List.length_map] at hlt
    exact hlt
  · rw [Queue.ids, List.idxOf, List.findIdx_map]
    rfl

theorem findIndex_of_notMem {queue : Queue} {id : String} (h : id ∉ queue.ids) :
    findIndex queue.items id = none := by
  rw [findIndex, List.findIdx?_eq_none_iff]
  intro item hitem
  apply decide_eq_false
  rintro rfl
  exact h (List.mem_map_of_mem hitem)

theorem sound_start (queue : Queue) (index : Fin queue.items.length) :
    (start queue index).Sound where
  place := by
    have hmem : queue.items[index].id ∈ queue.ids :=
      List.mem_map_of_mem (List.getElem_mem index.isLt)
    exact congrArg (Place.mk _) (findIndex_of_mem hmem)
  held := fun _ => rfl

variable {s : Following}

/-- What one change keeps. -/
theorem Sound.step (h : s.Sound) (change : Change) : (s.step change).Sound := by
  cases change with
  | applied queue =>
    refine ⟨h.place, fun hmem => ?_⟩
    exact if_pos hmem
  | rendered =>
    refine ⟨?_, h.held⟩
    change s.place.refresh s.queue.items (some s.itemId) = _
    by_cases hmem : s.itemId ∈ s.queue.ids
    · simp only [Place.refresh, Option.getD_some, findIndex_of_mem hmem, Following.step,
        if_pos hmem]
    · simp only [Place.refresh, Option.getD_some, findIndex_of_notMem hmem, Following.step,
        if_neg hmem, h.place]

theorem Sound.run (h : s.Sound) (changes : List Change) :
    (changes.foldl Following.step s).Sound := by
  induction changes generalizing s with
  | nil => exact h
  | cons change changes ih => exact ih (h.step change)

/-- A place in a Queue is the one of the item that stands there. -/
theorem getElem?_ids_eq_some_iff {queue : Queue} {id : String} {n : ℕ} (h : id ∈ queue.ids) :
    queue.ids[n]? = some id ↔ queue.ids.idxOf id = n := by
  constructor
  · intro hid
    obtain ⟨hn, rfl⟩ := List.getElem?_eq_some_iff.mp hid
    exact queue.nodup.idxOf_getElem n hn
  · rintro rfl
    exact List.getElem?_idxOf h

/-- Where the item is still in the Queue, the one after it is played. -/
theorem Sound.next_of_mem (h : s.Sound) (hmem : s.itemId ∈ s.queue.ids) :
    s.next = s.survivor := by
  have hnext : s.next = s.queue.ids[s.queue.ids.idxOf s.itemId + 1]? := by
    rw [next, Place.advanceToNextQueueItem, h.place, findIndex_of_mem hmem, Queue.ids,
      List.getElem?_map]
  have hall : ∀ id ∈ s.queue.ids.drop (s.queue.ids.idxOf s.itemId + 1), id ∈ s.queue.ids :=
    fun id hid => List.mem_of_mem_drop hid
  rw [hnext, survivor, h.held hmem, ← List.head?_drop]
  cases hrest : s.queue.ids.drop (s.queue.ids.idxOf s.itemId + 1) with
  | nil => rfl
  | cons id rest =>
    rw [hrest] at hall
    have hid : decide (id ∈ s.queue.ids) = true := decide_eq_true (hall id List.mem_cons_self)
    rw [List.head?_cons, List.find?_cons, hid]

/-- Where it is not, the item at the remembered index is played. -/
theorem Sound.next_of_notMem (h : s.Sound) (hmem : s.itemId ∉ s.queue.ids) :
    s.next = s.queue.ids[s.seen.ids.idxOf s.itemId]? := by
  rw [next, Place.advanceToNextQueueItem, h.place, findIndex_of_notMem hmem]
  exact List.getElem?_map.symm

end Following

open Following

/-- After any changes of the Queue the provider goes on with what followed where the item is
still in the Queue, and otherwise just where the survivor stands at the remembered place. -/
theorem next_eq_survivor_iff (queue : Queue) (index : Fin queue.items.length)
    (changes : List Change) :
    (changes.foldl Following.step (start queue index)).next =
        (changes.foldl Following.step (start queue index)).survivor ↔
      (changes.foldl Following.step (start queue index)).itemId ∈
          (changes.foldl Following.step (start queue index)).queue.ids ∨
        (changes.foldl Following.step (start queue index)).Aligned := by
  have hsound := (sound_start queue index).run changes
  generalize changes.foldl Following.step (start queue index) = s at hsound ⊢
  by_cases hmem : s.itemId ∈ s.queue.ids
  · exact iff_of_true (hsound.next_of_mem hmem) (.inl hmem)
  · rw [hsound.next_of_notMem hmem, or_iff_right hmem, Aligned]
    cases hsurvivor : s.survivor with
    | none => exact List.getElem?_eq_none_iff
    | some id =>
      rw [survivor] at hsurvivor
      have hstays := List.find?_some hsurvivor
      exact getElem?_ids_eq_some_iff (of_decide_eq_true hstays)

/-! ### A Queue that moves up twice -/

def entry (id : String) : QueueItem := ⟨id, id, ⟨id, "album"⟩⟩

def fourItems : Queue := ⟨["a", "b", "c", "d"].map entry, by decide⟩

/-- The playing item is removed, and then the one before it. -/
def removals : List Change :=
  [.applied ⟨["a", "c", "d"].map entry, by decide⟩, .rendered,
    .applied ⟨["c", "d"].map entry, by decide⟩, .rendered]

/-- The item that followed is passed over. -/
theorem removals_pass_over : ¬ ∀ queue index, ∀ changes : List Change,
    (changes.foldl Following.step (start queue index)).next =
      (changes.foldl Following.step (start queue index)).survivor := by
  intro h
  have hremovals := h fourItems ⟨1, by decide⟩ removals
  revert hremovals
  decide

end Harmony.PlaybackProvider
