/-
# Queue mutations as list operations

What a queue is for: a list of items, replaced, extended, cut and reordered. The
list knows no positions. Each transaction on the tables computes the list
operation of its mutation, fails only with the error of that operation, a stale
revision, a UUID in use or a Track that is gone, and touches no other user.
-/

import Mathlib.Data.List.Perm.Basic
import Harmony.Playback.Positions

namespace Harmony.Playback

open Transaction

/-! ### The list -/

/-- A queue item without its position. -/
structure Content where
  id : String
  trackId : String
  source : String

def ItemRow.content (item : ItemRow) : Content := ⟨item.id, item.trackId, item.source⟩

/-- The user's queue as a list. -/
def QueueTable.contents (queue : QueueTable) (userId : String) : List Content :=
  (queue.items userId).map ItemRow.content

variable {queue : QueueTable} {itemId : String} {E : QueueError → Prop}

theorem contents_eq {userId : String} {items : List ItemRow} (h : queue.items userId = items) :
    queue.contents userId = items.map ItemRow.content :=
  congrArg (List.map ItemRow.content) h

/-- The operation of a mutation on the list. -/
def Mutation.onList (uuids : ℕ → String) :
    Mutation → List Content → Except QueueError (List Content)
  | replace trackIds source, _ =>
    .ok (trackIds.zipIdx.map fun entry => ⟨uuids entry.2, entry.1, source⟩)
  | append trackId source, queue =>
    if queue.length < maxQueueItems then .ok (queue ++ [⟨uuids 0, trackId, source⟩])
    else .error .limitExceeded
  | remove itemId, queue =>
    if itemId ∈ queue.map Content.id then .ok (queue.filter fun item => item.id ≠ itemId)
    else .error .notFound
  | clear afterItemId, queue =>
    if afterItemId = "" then .ok []
    else
      match queue.findIdx? fun item => item.id == afterItemId with
      | some index => .ok (queue.take (index + 1))
      | none => .error .notFound
  | reorder itemIds, queue =>
    if itemIds.Perm (queue.map Content.id) then
      .ok (itemIds.filterMap fun itemId => queue.find? fun item => item.id == itemId)
    else .error .invalidOrder

/-! ### The service's check of a new order -/

theorem removeEach_eq_some {seen requested rest : List String}
    (h : removeEach seen requested = some rest) : seen.Perm (requested ++ rest) := by
  induction requested generalizing seen with
  | nil =>
    cases h
    exact .refl _
  | cons itemId requested ih =>
    rw [removeEach] at h
    split_ifs at h with hmem
    exact (List.perm_cons_erase hmem).trans ((ih h).cons itemId)

theorem removeEach_of_perm {seen requested : List String} (h : requested.Perm seen) :
    removeEach seen requested = some [] := by
  induction requested generalizing seen with
  | nil => rw [List.nil_perm.mp h, removeEach]
  | cons itemId requested ih =>
    have hmem : itemId ∈ seen := h.mem_iff.mp List.mem_cons_self
    rw [removeEach, if_pos hmem]
    exact ih ((List.cons_perm_iff_perm_erase.mp h).2)

/-- The check accepts exactly the permutations of distinct IDs. -/
theorem sameItems_eq_true {current requested : List String} (hnodup : current.Nodup) :
    sameItems current requested = true ↔ requested.Perm current := by
  rw [sameItems, List.dedup_eq_self.mpr hnodup]
  constructor
  · intro h
    split_ifs at h with hlength
    rw [beq_iff_eq] at h
    simpa using (removeEach_eq_some h).symm
  · intro h
    rw [if_neg (by simp [h.length_eq]), removeEach_of_perm h]
    rfl

/-! ### What the statements do to the list -/

/-- The statements since the first store wrote only the user's rows. -/
structure Writes (userId : String) (s t : Store) : Prop where
  tracks : t.tracks = s.tracks
  states : t.states = s.states
  others : KeepsOthers userId s.queue t.queue

instance (userId : String) : IsPreorder Store (Writes userId) where
  refl _ := ⟨rfl, rfl, refl _⟩
  trans _ _ _ hfirst hsecond :=
    ⟨hsecond.tracks.trans hfirst.tracks, hsecond.states.trans hfirst.states,
      trans_of (KeepsOthers userId) hfirst.others hsecond.others⟩

/-- The errors of an insertion that is not to blame: its UUID is in use or its
Track is gone. -/
def isInsertFault (e : QueueError) : Prop :=
  e = .database (.unique .key) ∨ e = .database .foreignKey

section Statements

variable {s : Store} {userId : String} {items : List ItemRow}

/-- An insertion into a free position adds the item. -/
theorem insertItem_meets {id trackId source : String} {position : ℤ}
    (h : Lists s.queue userId items) (hfree : ∀ item ∈ items, item.position ≠ position) :
    Meets isInsertFault
      (fun _ t => Lists t.queue userId (items ++ [⟨id, trackId, position, source⟩]) ∧
        Writes userId s t)
      (insertItem id userId position trackId source) s := by
  have hplace : s.queue.occupied id (userId, position) = false := by
    rw [UniqueTable.occupied_eq_false]
    rintro id' ⟨user, place, track, origin⟩ hrow ⟨⟩
    exact absurd rfl (hfree ⟨id', track, place, origin⟩ ((h _).mpr hrow))
  rw [insertItem, meets_bind]
  cases hinsert : s.queue.insert id ⟨userId, position, trackId, source⟩ with
  | error violation =>
    have hkey : violation = .key := by
      cases violation with
      | key => rfl
      | slot => exact absurd hinsert (UniqueTable.insert_slot_free hplace)
    simp [writeQueue, hinsert, hkey, isInsertFault]
  | ok queue =>
    obtain ⟨hnew, -, hrows⟩ := UniqueTable.insert_eq_ok.mp hinsert
    rw [← AList.lookup_eq_none] at hnew
    refine Meets.of_ok (writeQueue_ok hinsert) ?_
    simp only [meets_bind, meets_get, meets_require]
    refine ⟨fun _ => ⟨?_, rfl, rfl, ?_⟩, fun _ => Or.inr rfl⟩
    · intro item
      rw [hrows, Table.lookup_insert_eq, List.mem_append, List.mem_singleton]
      split_ifs with hid
      · have hold : item ∉ items := by rw [h, hid, hnew]; simp
        simp only [hold, false_or, Option.some.injEq]
        constructor
        · rintro rfl
          rfl
        · intro hrow
          cases item
          simp only [ItemRow.row, QueueRow.mk.injEq] at hrow hid
          simp [hid, hrow]
      · rw [← h item]
        constructor
        · rintro (hold | rfl)
          · exact hold
          · exact absurd rfl hid
        · exact Or.inl
    · intro id' row huser
      rw [hrows, Table.lookup_insert_eq]
      split_ifs with hid
      · rw [hid, hnew]
        constructor
        · rintro ⟨⟩
          exact absurd rfl huser
        · rintro ⟨⟩
      · exact Iff.rfl

/-- Deleting rows of the user by a test on the items leaves the others in
order. -/
theorem items_deleteWhere {p : String → QueueRow → Bool} {q : ItemRow → Bool}
    (h : ∀ item : ItemRow, p item.id (item.row userId) = q item) :
    QueueTable.items (queue.deleteWhere p) userId =
      (queue.items userId).filter fun item => !q item := by
  refine Lists.items_eq (fun item => ?_) (sorted_items.sublist List.filter_sublist)
  rw [UniqueTable.lookup_deleteWhere, h, List.mem_filter, lists_items item, Bool.not_eq_true']

theorem keepsOthers_deleteWhere {p : String → QueueRow → Bool}
    (h : ∀ id row, p id row = true → row.userId = userId) :
    KeepsOthers userId queue (queue.deleteWhere p) := by
  intro id row huser
  rw [UniqueTable.lookup_deleteWhere]
  have hkept : p id row = false := by
    rw [← Bool.not_eq_true]
    exact fun hp => huser (h id row hp)
  simp [hkept]

theorem isItemOf_row (item : ItemRow) :
    isItemOf userId itemId item.id (item.row userId) = decide (item.id = itemId) := by
  simp [isItemOf, ItemRow.row]

theorem isItemOf_userId {itemId id : String} {row : QueueRow}
    (h : isItemOf userId itemId id row = true) : row.userId = userId := by
  simp only [isItemOf, Bool.and_eq_true, decide_eq_true_eq] at h
  exact h.2

/-- The store after `deleteItem`. -/
def Store.withoutItem (s : Store) (userId itemId : String) : Store :=
  { s with queue := s.queue.deleteWhere (isItemOf userId itemId) }

theorem items_withoutItem :
    (s.withoutItem userId itemId).queue.items userId =
      (s.queue.items userId).filter fun item => item.id ≠ itemId := by
  rw [Store.withoutItem, items_deleteWhere isItemOf_row]
  congr 1
  funext item
  simp

theorem writes_withoutItem : Writes userId s (s.withoutItem userId itemId) :=
  ⟨rfl, rfl, keepsOthers_deleteWhere fun _ _ => isItemOf_userId⟩

theorem any_isItemOf :
    queue.rows.any (isItemOf userId itemId) = true ↔
      itemId ∈ (queue.items userId).map ItemRow.id := by
  rw [Table.any_eq_true, List.mem_map]
  constructor
  · rintro ⟨id, row, hrow, his⟩
    simp only [isItemOf, Bool.and_eq_true, decide_eq_true_eq] at his
    obtain ⟨rfl, rfl⟩ := his
    exact ⟨⟨id, row.trackId, row.position, row.source⟩, (lists_items _).mpr hrow, rfl⟩
  · rintro ⟨item, hitem, rfl⟩
    exact ⟨item.id, item.row userId, (lists_items item).mp hitem, by simp [isItemOf_row]⟩

theorem deleteItem_meets {Q : ℕ → Store → Prop}
    (h : Q (if itemId ∈ (s.queue.items userId).map ItemRow.id then 1 else 0)
      (s.withoutItem userId itemId)) :
    Meets E Q (deleteItem userId itemId) s := by
  simp only [deleteItem, meets_bind, meets_get, meets_set, meets_pure, any_isItemOf]
  exact h

theorem clear_meets :
    Meets E (fun _ t => t.queue.items userId = [] ∧ Writes userId s t) (clear userId) s := by
  rw [clear, meets_modify]
  refine ⟨?_, rfl, rfl, ?_⟩
  · rw [items_deleteWhere fun item => decide_eq_true rfl]
    simp
  · exact keepsOthers_deleteWhere fun _ _ h => of_decide_eq_true h

theorem itemIds_meets {Q : List String → Store → Prop} :
    Meets E Q (itemIds userId) s ↔ Q ((s.queue.items userId).map ItemRow.id) s := by
  simp [itemIds]

end Statements

/-! ### Mutations -/

/-- The store after `beginMutation`. -/
def Store.advanced (s : Store) (userId : String) : Store :=
  let state := s.state userId
  { s with states := s.states.insert userId ⟨state.revision + 1, state.eventSequence + 1⟩ }

/-- The request names the queue's revision. -/
def Store.isCurrent (s : Store) (userId expectedRevision : String) : Prop :=
  toString (s.state userId).revision = expectedRevision

/-- No item has a position below zero. -/
def NonNegative (queue : QueueTable) (userId : String) : Prop :=
  ∀ item ∈ queue.items userId, 0 ≤ item.position

/-- What a mutation that commits does: the operation on the list of the user, and
one more revision. -/
structure Committed (uuids : ℕ → String) (userId : String) (m : Mutation) (s t : Store) : Prop where
  contents : m.onList uuids (s.queue.contents userId) = .ok (t.queue.contents userId)
  writes : Writes userId (s.advanced userId) t
  nonNegative : NonNegative t.queue userId

/-- Why a mutation fails. -/
inductive Refused (uuids : ℕ → String) (userId expectedRevision : String) (m : Mutation)
    (s : Store) :
    QueueError → Prop
  | stale (h : ¬s.isCurrent userId expectedRevision) :
    Refused uuids userId expectedRevision m s .revisionConflict
  | onList {e : QueueError} (h : s.isCurrent userId expectedRevision)
    (herror : m.onList uuids (s.queue.contents userId) = .error e) :
    Refused uuids userId expectedRevision m s e
  | insert {e : QueueError} (h : s.isCurrent userId expectedRevision) (hfault : isInsertFault e) :
    Refused uuids userId expectedRevision m s e

section Mutations

variable {s : Store} {userId expectedRevision : String} {uuids : ℕ → String}

/-- After `beginMutation` the rest runs, unless the request names another
revision. -/
theorem beginMutation_spec {Q : Unit → Store → Prop} {body : Tx Unit}
    (hstale : ¬s.isCurrent userId expectedRevision → E .revisionConflict)
    (h : s.isCurrent userId expectedRevision → Meets E Q body (s.advanced userId)) :
    Meets E Q (do Repository.beginMutation userId expectedRevision; body) s := by
  simp only [Repository.beginMutation, bind_assoc, meets_bind, meets_get, meets_require,
    decide_eq_true_eq, decide_eq_false_iff_not, meets_set]
  exact ⟨h, hstale⟩

/-- A mutation does after `beginMutation` what it does to the list. -/
theorem beginMutation_meets {m : Mutation} {body : Tx Unit}
    (h : Meets
      (fun e => m.onList uuids (s.queue.contents userId) = .error e ∨ isInsertFault e)
      (fun _ t => m.onList uuids (s.queue.contents userId) = .ok (t.queue.contents userId) ∧
        Writes userId (s.advanced userId) t ∧ NonNegative t.queue userId)
      body (s.advanced userId)) :
    Meets (Refused uuids userId expectedRevision m s)
      (fun _ t => s.isCurrent userId expectedRevision ∧ Committed uuids userId m s t)
      (do Repository.beginMutation userId expectedRevision; body) s := by
  refine beginMutation_spec .stale fun hcurrent => h.mono ?_ ?_
  · rintro e (herror | hfault)
    · exact .onList hcurrent herror
    · exact .insert hcurrent hfault
  · rintro _ t ⟨hcontents, hwrites, hpositions⟩
    exact ⟨hcurrent, hcontents, hwrites, hpositions⟩

theorem replace_meets {trackIds : List String} {source : String} :
    Meets (Refused uuids userId expectedRevision (.replace trackIds source) s)
      (fun _ t => s.isCurrent userId expectedRevision ∧
        Committed uuids userId (.replace trackIds source) s t)
      (Repository.replace uuids userId expectedRevision trackIds source) s := by
  refine beginMutation_meets ?_
  let item (entry : String × ℕ) : ItemRow := ⟨uuids entry.2, entry.1, entry.2, source⟩
  have hloop : ∀ u, u.queue.items userId = [] → Writes userId (s.advanced userId) u →
      Meets isInsertFault
        (fun _ t => Lists t.queue userId (trackIds.zipIdx.map item) ∧
          Writes userId (s.advanced userId) t)
        (forEach (fun entry => insertItem (uuids entry.2) userId entry.2 entry.1 source)
          trackIds.zipIdx) u := by
    intro u hempty hwrites
    refine Meets.forEach (I := fun seen t => Lists t.queue userId (seen.map item) ∧
      Writes userId (s.advanced userId) t) ?_ ⟨?_, hwrites⟩
    · rintro seen entry rest v hsplit ⟨hlists, hv⟩
      -- The items before this one have the smaller positions.
      have hfree : ∀ other ∈ seen.map item, other.position ≠ entry.2 := by
        intro other hother
        obtain ⟨before, hbefore, rfl⟩ := List.mem_map.mp hother
        have hsorted := pairwise_zipIdx trackIds
        rw [hsplit] at hsorted
        have hlt : before.2 < entry.2 :=
          (List.pairwise_append.mp hsorted).2.2 before hbefore entry List.mem_cons_self
        simp only [item]
        omega
      refine (insertItem_meets hlists hfree).mono (fun _ h => h) ?_
      rintro _ t ⟨hlists', ht⟩
      exact ⟨by simpa [item] using hlists', trans_of (Writes userId) hv ht⟩
    · rw [List.map_nil, ← hempty]
      exact lists_items
  rw [meets_bind]
  refine clear_meets.mono (fun _ h => h) ?_
  rintro _ u ⟨hempty, hwrites⟩
  refine (hloop u hempty hwrites).mono (fun _ h => Or.inr h) ?_
  rintro _ t ⟨hlists, ht⟩
  have hitems : t.queue.items userId = trackIds.zipIdx.map item := by
    refine hlists.items_eq ?_
    rw [List.pairwise_map]
    exact (pairwise_zipIdx trackIds).imp fun h => Int.ofNat_lt.mpr h
  refine ⟨?_, ht, ?_⟩
  · rw [contents_eq hitems, List.map_map]
    rfl
  · rw [NonNegative, hitems, List.forall_mem_map]
    intro entry _
    exact Int.natCast_nonneg entry.2

theorem nextPosition_spec {items : List ItemRow} (hpositions : ∀ item ∈ items, 0 ≤ item.position) :
    0 ≤ Repository.nextPosition items ∧
      ∀ item ∈ items, item.position < Repository.nextPosition items := by
  rw [Repository.nextPosition]
  cases hmax : (items.map ItemRow.position).max? with
  | none =>
    rw [List.max?_eq_none_iff, List.map_eq_nil_iff] at hmax
    simp [hmax]
  | some last =>
    rw [List.max?_eq_some_iff, List.mem_map] at hmax
    obtain ⟨⟨item, hitem, rfl⟩, hle⟩ := hmax
    have hnonneg := hpositions item hitem
    refine ⟨Int.le_add_one hnonneg, fun other hother => ?_⟩
    exact Int.lt_add_one_of_le (hle other.position (List.mem_map_of_mem hother))

theorem append_meets {trackId source : String} (hpositions : NonNegative s.queue userId) :
    Meets (Refused uuids userId expectedRevision (.append trackId source) s)
      (fun _ t => s.isCurrent userId expectedRevision ∧
        Committed uuids userId (.append trackId source) s t)
      (Repository.append (uuids 0) userId expectedRevision trackId source) s := by
  refine beginMutation_meets ?_
  have hrows : ∀ item ∈ s.queue.userRows userId, 0 ≤ item.position :=
    fun item hitem => hpositions item (items_perm.mem_iff.mpr hitem)
  obtain ⟨hnonneg, hlast⟩ := nextPosition_spec hrows
  have hlength : (s.queue.userRows userId).length = (s.queue.contents userId).length := by
    rw [QueueTable.contents, List.length_map, items_perm.length_eq]
  simp only [meets_bind, meets_get, meets_require, decide_eq_true_eq, decide_eq_false_iff_not]
  refine ⟨fun hroom => ?_, fun hfull => ?_⟩
  · have hlast' : ∀ item ∈ (s.advanced userId).queue.items userId,
        item.position < Repository.nextPosition (s.queue.userRows userId) :=
      fun item hitem => hlast item (items_perm.mem_iff.mp hitem)
    refine (insertItem_meets lists_items fun item hitem => (hlast' item hitem).ne).mono
      (fun _ h => Or.inr h) ?_
    rintro _ t ⟨hlists, ht⟩
    have hitems := hlists.items_eq
      (List.pairwise_append.mpr ⟨sorted_items, by simp, by simpa using hlast'⟩)
    refine ⟨?_, ht, ?_⟩
    · rw [Mutation.onList, if_pos (hlength ▸ hroom), contents_eq hitems, List.map_append]
      rfl
    · rw [NonNegative, hitems]
      rintro item hitem
      rcases List.mem_append.mp hitem with hold | hnew
      · exact hpositions item hold
      · rw [List.mem_singleton.mp hnew]
        exact hnonneg
  · left
    rw [Mutation.onList, if_neg (hlength ▸ hfull)]

theorem renumbered_contents (order : List ItemRow) :
    (renumbered order).map ItemRow.content = order.map ItemRow.content := by
  calc (renumbered order).map ItemRow.content
      = (order.zipIdx.map Prod.fst).map ItemRow.content := by
        rw [renumbered, List.map_map, List.map_map]
        rfl
    _ = order.map ItemRow.content := by rw [List.zipIdx_map_fst]

theorem ids_contents :
    (queue.contents userId).map Content.id = (queue.items userId).map ItemRow.id := by
  rw [QueueTable.contents, List.map_map]
  rfl

theorem remove_meets (hpositions : NonNegative s.queue userId) :
    Meets (Refused uuids userId expectedRevision (.remove itemId) s)
      (fun _ t => s.isCurrent userId expectedRevision ∧
        Committed uuids userId (.remove itemId) s t)
      (Repository.remove userId expectedRevision itemId) s := by
  refine beginMutation_meets ?_
  rw [meets_bind]
  refine deleteItem_meets ?_
  simp only [meets_bind, meets_require, itemIds_meets, decide_eq_true_eq, decide_eq_false_iff_not]
  have hadvanced : (s.advanced userId).queue = s.queue := rfl
  rw [hadvanced]
  refine ⟨fun hmem => ?_, fun hmem => ?_⟩
  · let remaining := (s.queue.items userId).filter fun item => item.id ≠ itemId
    let t := (s.advanced userId).withoutItem userId itemId
    have hremaining : t.queue.items userId = remaining := items_withoutItem
    have hkept : ∀ item ∈ remaining, 0 ≤ item.position :=
      fun item hitem => hpositions item (List.mem_of_mem_filter hitem)
    have hlists : Lists t.queue userId remaining := hremaining ▸ lists_items
    obtain ⟨queue, hrun, hitems, hothers⟩ := setPositions_ok hlists
      (hlists.nodup_ids (nodup_items.filter _))
      (fun j hj => Or.inr (index_le_position (sorted_items.filter _) hkept j hj))
    rw [hremaining]
    refine Meets.of_ok hrun ⟨?_, ?_, ?_⟩
    · have hin : itemId ∈ (s.queue.contents userId).map Content.id := by
        rw [ids_contents]
        by_contra hnot
        simp [hnot] at hmem
      rw [Mutation.onList, if_pos hin, contents_eq hitems, renumbered_contents,
        QueueTable.contents, List.filter_map]
      rfl
    · have hwritten : Writes userId t { t with queue } := ⟨rfl, rfl, hothers⟩
      exact trans_of (Writes userId) writes_withoutItem hwritten
    · intro item hitem
      exact renumbered_nonneg (hitems ▸ hitem)
  · left
    rw [Mutation.onList, if_neg]
    rw [ids_contents]
    intro hin
    simp [hin] at hmem

theorem items_take_eq (items : List ItemRow) (hids : (items.map ItemRow.id).Nodup) (n : ℕ) :
    items.filter (fun item => item.id ∉ (items.map ItemRow.id).drop n) = items.take n := by
  let kept (item : ItemRow) : Bool := item.id ∉ (items.map ItemRow.id).drop n
  have htake : (items.take n).filter kept = items.take n := by
    refine List.filter_eq_self.mpr fun item hitem => ?_
    have hdisjoint := List.disjoint_take_drop hids (le_refl n)
    rw [← List.map_take] at hdisjoint
    simpa [kept] using hdisjoint (List.mem_map_of_mem hitem)
  have hdrop : (items.drop n).filter kept = [] := by
    refine List.filter_eq_nil_iff.mpr fun item hitem => ?_
    have hmem : item.id ∈ (items.drop n).map ItemRow.id := List.mem_map_of_mem hitem
    rw [List.map_drop] at hmem
    simpa [kept] using hmem
  calc items.filter kept
      = (items.take n).filter kept ++ (items.drop n).filter kept := by
        rw [← List.filter_append, List.take_append_drop]
    _ = items.take n := by rw [htake, hdrop, List.append_nil]

theorem clearAfter_meets {afterItemId : String} (hpositions : NonNegative s.queue userId) :
    Meets (Refused uuids userId expectedRevision (.clear afterItemId) s)
      (fun _ t => s.isCurrent userId expectedRevision ∧
        Committed uuids userId (.clear afterItemId) s t)
      (Repository.clear userId expectedRevision afterItemId) s := by
  refine beginMutation_meets ?_
  split_ifs with hempty
  · refine clear_meets.mono (fun _ h => False.elim h) ?_
    rintro _ t ⟨hitems, ht⟩
    refine ⟨?_, ht, ?_⟩
    · rw [Mutation.onList, if_pos hempty, contents_eq hitems]
      rfl
    · rw [NonNegative, hitems]
      simp
  simp only [meets_bind, itemIds_meets, meets_fromOption]
  have hadvanced : (s.advanced userId).queue = s.queue := rfl
  have hindex : (s.queue.contents userId).findIdx? (fun item => item.id == afterItemId) =
      ((s.queue.items userId).map ItemRow.id).findIdx? fun id => id == afterItemId := by
    rw [← ids_contents, List.findIdx?_map]
    rfl
  rw [hadvanced]
  refine ⟨fun index hfound => ?_, fun hmissing => ?_⟩
  · let dropped := ((s.queue.items userId).map ItemRow.id).drop (index + 1)
    have hloop : Meets (fun _ => False)
        (fun _ t => t.queue.items userId =
            (s.queue.items userId).filter (fun item => item.id ∉ dropped) ∧
          Writes userId (s.advanced userId) t)
        (forEach (fun itemId => do let _ ← deleteItem userId itemId) dropped)
        (s.advanced userId) := by
      refine Meets.forEach (I := fun seen t => t.queue.items userId =
            (s.queue.items userId).filter (fun item => item.id ∉ seen) ∧
          Writes userId (s.advanced userId) t) ?_ ⟨by simp [hadvanced], refl _⟩
      rintro seen itemId rest u - ⟨hitems, hu⟩
      rw [meets_bind]
      refine deleteItem_meets ⟨?_, trans_of (Writes userId) hu writes_withoutItem⟩
      rw [items_withoutItem, hitems, List.filter_filter]
      congr 1
      funext item
      simp [and_comm]
    refine hloop.mono (fun _ h => h.elim) ?_
    rintro _ t ⟨hitems, ht⟩
    rw [items_take_eq _ (lists_items.nodup_ids nodup_items)] at hitems
    refine ⟨?_, ht, ?_⟩
    · simp only [Mutation.onList, if_neg hempty, hindex, hfound]
      rw [contents_eq hitems, QueueTable.contents, List.map_take]
    · intro item hitem
      exact hpositions item (List.mem_of_mem_take (hitems ▸ hitem))
  · left
    simp only [Mutation.onList, if_neg hempty, hindex, hmissing]

theorem find?_id {queue : List Content} (hids : (queue.map Content.id).Nodup) {item : Content}
    (hitem : item ∈ queue) : queue.find? (fun other => other.id == item.id) = some item := by
  cases hfind : queue.find? fun other => other.id == item.id with
  | none => simpa using List.find?_eq_none.mp hfind item hitem
  | some other =>
    have hid : other.id = item.id := by simpa using List.find?_some hfind
    rw [List.inj_on_of_nodup_map hids (List.mem_of_find?_eq_some hfind) hitem hid]

/-- Looking up the IDs of some items returns them. -/
theorem filterMap_find? {queue order : List Content} (hids : (queue.map Content.id).Nodup)
    (horder : order ⊆ queue) :
    ((order.map Content.id).filterMap fun id => queue.find? fun item => item.id == id) =
      order := by
  rw [List.filterMap_map]
  induction order with
  | nil => rfl
  | cons item order ih =>
    have hfind := find?_id hids (horder List.mem_cons_self)
    rw [List.filterMap_cons]
    simp only [Function.comp_apply, hfind]
    exact congrArg (List.cons item) (ih (List.subset_of_cons_subset horder))

/-- A reorder fails on a stale revision and on IDs that are not the queue's, and
on nothing else. -/
theorem reorder_spec {itemIds : List String} (hpositions : NonNegative s.queue userId) :
    Meets
      (fun e => ¬s.isCurrent userId expectedRevision ∧ e = .revisionConflict ∨
        s.isCurrent userId expectedRevision ∧
          (Mutation.reorder itemIds).onList uuids (s.queue.contents userId) = .error e)
      (fun _ t => s.isCurrent userId expectedRevision ∧
        Committed uuids userId (.reorder itemIds) s t)
      (Repository.reorder userId expectedRevision itemIds fun current =>
        sameItems current itemIds) s := by
  refine beginMutation_spec (fun hstale => .inl ⟨hstale, rfl⟩) fun hcurrent => ?_
  have hlisted : Lists s.queue userId (s.queue.items userId) := lists_items
  have hids := hlisted.nodup_ids nodup_items
  have hadvanced : (s.advanced userId).queue = s.queue := rfl
  simp only [meets_bind, itemIds_meets, meets_require, hadvanced]
  refine ⟨fun haccepted => ?_, fun hrejected => ?_⟩
  · have hperm := (sameItems_eq_true hids).mp haccepted
    let lower (item : ItemRow) : ItemRow := item.moveTo (-item.position - 1)
    obtain ⟨lowered, hrunLowered, hlowered, hkeepsLowered⟩ :=
      negatePositions_ok (s := s.advanced userId) hpositions
    -- The requested IDs are those of some order of the lowered items.
    obtain ⟨order, rfl, horder⟩ : ∃ order : List ItemRow, itemIds = order.map ItemRow.id ∧
        order.Perm ((s.queue.items userId).map lower) := by
      have hlift : Relation.Comp (fun ids order => ids = List.map ItemRow.id order) List.Perm
          itemIds ((s.queue.items userId).map lower) := by
        rw [List.eq_map_comp_perm]
        simp only [List.map_map]
        exact hperm
      exact hlift
    refine Meets.of_ok hrunLowered ?_
    let t : Store := { s.advanced userId with queue := lowered }
    have hlists : Lists t.queue userId order := hlowered.congr fun item => horder.mem_iff
    have hnegative : ∀ item ∈ order, item.position < 0 := by
      intro item hitem
      obtain ⟨old, hold, rfl⟩ := List.mem_map.mp (horder.mem_iff.mp hitem)
      have hnonneg := hpositions old hold
      simp only [lower, ItemRow.moveTo]
      omega
    have hnodup : (order.map ItemRow.id).Nodup := hperm.nodup_iff.mpr hids
    obtain ⟨queue, hrun, hitems, hkeeps⟩ := setPositions_ok hlists hnodup
      (fun j hj => Or.inl (hnegative _ (List.getElem_mem hj)))
    refine Meets.of_ok hrun ⟨hcurrent, ?_, ?_, ?_⟩
    · have hcontents : (order.map ItemRow.content).Perm (s.queue.contents userId) := by
        refine (horder.map ItemRow.content).trans ?_
        rw [List.map_map]
        exact List.Perm.refl _
      have hcontentIds : (order.map ItemRow.content).map Content.id = order.map ItemRow.id := by
        rw [List.map_map]
        rfl
      rw [Mutation.onList, if_pos (ids_contents ▸ hperm), contents_eq hitems, renumbered_contents,
        ← hcontentIds, filterMap_find? (ids_contents ▸ hids) hcontents.subset]
    · have hloweredWrites : Writes userId (s.advanced userId) t := ⟨rfl, rfl, hkeepsLowered⟩
      have hwritten : Writes userId t { t with queue } := ⟨rfl, rfl, hkeeps⟩
      exact trans_of (Writes userId) hloweredWrites hwritten
    · intro item hitem
      exact renumbered_nonneg (hitems ▸ hitem)
  · refine Or.inr ⟨hcurrent, ?_⟩
    rw [Mutation.onList, if_neg]
    rw [ids_contents, ← sameItems_eq_true hids]
    simp [hrejected]

theorem reorder_meets {itemIds : List String} (hpositions : NonNegative s.queue userId) :
    Meets (Refused uuids userId expectedRevision (.reorder itemIds) s)
      (fun _ t => s.isCurrent userId expectedRevision ∧
        Committed uuids userId (.reorder itemIds) s t)
      (Repository.reorder userId expectedRevision itemIds fun current =>
        sameItems current itemIds) s := by
  refine (reorder_spec hpositions).mono ?_ fun _ _ h => h
  rintro e (⟨hstale, rfl⟩ | ⟨hcurrent, herror⟩)
  · exact .stale hstale
  · exact .onList hcurrent herror

/-- Each mutation computes its list operation. -/
theorem run_meets (m : Mutation) (hpositions : NonNegative s.queue userId) :
    Meets (Refused uuids userId expectedRevision m s)
      (fun _ t => s.isCurrent userId expectedRevision ∧ Committed uuids userId m s t)
      (m.run uuids userId expectedRevision) s := by
  cases m with
  | replace trackIds source => exact replace_meets
  | append trackId source => exact append_meets hpositions
  | remove itemId => exact remove_meets hpositions
  | clear afterItemId => exact clearAfter_meets hpositions
  | reorder itemIds => exact reorder_meets hpositions

theorem onList_ne_slot {m : Mutation} {queue : List Content} :
    m.onList uuids queue ≠ .error (.database (.unique .slot)) := by
  cases m with
  | replace => simp [Mutation.onList]
  | append => rw [Mutation.onList]; split_ifs <;> simp
  | remove => rw [Mutation.onList]; split_ifs <;> simp
  | clear => rw [Mutation.onList]; split_ifs <;> [simp; split <;> simp]
  | reorder => rw [Mutation.onList]; split_ifs <;> simp

theorem Refused.ne_slot {m : Mutation} {e : QueueError}
    (h : Refused uuids userId expectedRevision m s e) : e ≠ .database (.unique .slot) := by
  cases h with
  | stale => simp
  | onList _ herror =>
    rintro rfl
    exact onList_ne_slot herror
  | insert _ hfault => rcases hfault with rfl | rfl <;> simp

end Mutations

/-! ### Reachable tables -/

/-- What changes the queue tables. A transaction that fails changes nothing. -/
inductive Event
  | mutate (userId expectedRevision : String) (uuids : ℕ → String) (m : Mutation)
  | finalizeTrackDeletion (trackId : String)
  | changeTracks (tracks : Table String TrackRow)

def Event.perform (s : Store) : Event → Except QueueError Store
  | mutate userId expectedRevision uuids m =>
    outcome (m.run uuids userId expectedRevision) s
  | finalizeTrackDeletion trackId => outcome (Playback.finalizeTrackDeletion trackId) s
  | changeTracks tracks => .ok (Playback.changeTracks tracks s)

def Store.empty : Store := ⟨∅, ∅, ∅⟩

/-- The tables a run of transactions leads to. -/
def Reachable (s : Store) : Prop :=
  Transition.Reachable (fun s => s = Store.empty) (fun s (e : Event) t => e.perform s = .ok t) s

theorem NonNegative.deleteWhere {userId : String} (p : String → QueueRow → Bool)
    (h : NonNegative queue userId) : NonNegative (queue.deleteWhere p) userId := by
  intro item hitem
  have hrow := (UniqueTable.lookup_deleteWhere.mp ((lists_items item).mp hitem)).1
  exact h item ((lists_items item).mpr hrow)

theorem advanceQueues_keepsQueue (userIds : List String) :
    Moves (Keeps Store.queue) (advanceQueues userIds) := by
  refine Moves.forEach (fun userId => Moves.modify fun s => ?_) userIds
  rfl

/-- Every statement moves an item to a position that is not below zero, or
deletes rows. -/
theorem Event.perform_nonNegative {s t : Store} {e : Event}
    (hs : ∀ userId, NonNegative s.queue userId) (hstep : e.perform s = .ok t) (userId : String) :
    NonNegative t.queue userId := by
  cases e with
  | mutate user expectedRevision uuids m =>
    obtain ⟨⟨⟩, hrun⟩ := outcome_eq_ok.mp hstep
    obtain ⟨-, hcommitted⟩ := (run_meets m (hs user)).committed hrun
    by_cases huser : userId = user
    · exact huser ▸ hcommitted.nonNegative
    · rw [NonNegative, hcommitted.writes.others.items_eq huser]
      exact hs userId
  | finalizeTrackDeletion trackId =>
    obtain ⟨⟨⟩, hrun⟩ := outcome_eq_ok.mp hstep
    simp only [Playback.finalizeTrackDeletion, run_bind_ok, run_get_ok, run_modify_ok] at hrun
    obtain ⟨_, _, ⟨rfl, rfl⟩, _, u, hadvance, rfl⟩ := hrun
    have hqueue : u.queue = s.queue := advanceQueues_keepsQueue _ s _ u hadvance
    exact (hqueue ▸ hs userId).deleteWhere _
  | changeTracks tracks =>
    cases hstep
    exact (hs userId).deleteWhere _

theorem Reachable.nonNegative {s : Store} (h : Reachable s) :
    ∀ userId, NonNegative s.queue userId := by
  refine Transition.Reachable.invariant ?_ (fun s e t hs hstep => e.perform_nonNegative hs hstep) h
  rintro s rfl userId item hitem
  have hrow := (lists_items item).mp hitem
  simp [Store.empty, EmptyCollection.emptyCollection, AList.lookup] at hrow

/-- From any reachable tables, with whatever gaps deleted Tracks left in the
positions, a mutation that commits does to the user's items exactly what it does
to a list, keeps the positions in order and distinct and every other queue as it
was; and no statement of a mutation breaks the unique key on positions. -/
theorem mutation_refines_list {s : Store} (h : Reachable s) (m : Mutation)
    (uuids : ℕ → String) (userId expectedRevision : String) :
    (∀ t, m.run uuids userId expectedRevision s = .ok ((), t) →
      m.onList uuids (s.queue.contents userId) = .ok (t.queue.contents userId) ∧
      ((t.queue.items userId).Pairwise fun a b => a.position < b.position) ∧
      ∀ other ≠ userId, t.queue.items other = s.queue.items other) ∧
    m.run uuids userId expectedRevision s ≠ .error (.database (.unique .slot)) := by
  have hmeets : Meets (Refused uuids userId expectedRevision m s) _ _ s :=
    run_meets m (h.nonNegative userId)
  constructor
  · intro t hrun
    obtain ⟨-, hcommitted⟩ := hmeets.committed hrun
    exact ⟨hcommitted.contents, sorted_items, fun other hother =>
      hcommitted.writes.others.items_eq hother⟩
  · intro hrun
    exact (hmeets.failed hrun).ne_slot rfl

/-- Three items, of which the second one's Track was deleted. -/
def gappedEvents : List Event :=
  [.changeTracks (AList.insert "a" ⟨true⟩ (AList.insert "b" ⟨true⟩ ∅)),
    .mutate "user" "0" (fun i => toString i) (.replace ["a", "b", "a"] "album"),
    .finalizeTrackDeletion "b"]

def gappedStore : Store :=
  match gappedEvents.foldlM Event.perform .empty with
  | .ok s => s
  | .error _ => .empty

theorem gappedStore_reachable : Reachable gappedStore := by
  have hok : (gappedEvents.foldlM Event.perform .empty).isOk = true := by decide +kernel
  refine ⟨.empty, gappedEvents, rfl, .of_except ?_⟩
  rw [gappedStore]
  cases hrun : gappedEvents.foldlM Event.perform .empty with
  | ok s => rfl
  | error e => simp [hrun, Except.isOk, Except.toBool] at hok

/-- An item is appended after a gap. -/
theorem gapped_append_refines_list :
    (gappedStore.queue.items "user").map ItemRow.position = [0, 2] ∧
    (∀ t, (Mutation.append "a" "user").run (fun _ => "new") "user" "2" gappedStore = .ok ((), t) →
      (Mutation.append "a" "user").onList (fun _ => "new") (gappedStore.queue.contents "user") =
        .ok (t.queue.contents "user") ∧
      ((t.queue.items "user").Pairwise fun a b => a.position < b.position) ∧
      ∀ other ≠ "user", t.queue.items other = gappedStore.queue.items other) ∧
    (Mutation.append "a" "user").run (fun _ => "new") "user" "2" gappedStore ≠
      .error (.database (.unique .slot)) :=
  ⟨by decide +kernel, mutation_refines_list gappedStore_reachable (.append "a" "user") _ _ _⟩

end Harmony.Playback
