/-
# Queue positions refine a list

Read in the order of their positions, a user's rows are a list. Five mutations
compute positions in five ways, from positions with gaps in them; each is one
operation on the list, and none breaks the unique key on the way.
-/

import Harmony.Library.Transition
import Harmony.Playback.Queue

namespace Harmony.Playback

open Transaction

/-! ### The items of a table -/

/-- The list holds exactly the user's items. -/
def Lists (queue : QueueTable) (userId : String) (items : List ItemRow) : Prop :=
  ∀ item, item ∈ items ↔ queue.rows.lookup item.id = some (item.row userId)

variable {item : ItemRow}

section Items

variable {queue : QueueTable} {userId : String} {items : List ItemRow}

theorem itemOf_eq_some {entry : (_ : String) × QueueRow} :
    itemOf userId entry = some item ↔ entry = ⟨item.id, item.row userId⟩ := by
  obtain ⟨id, row⟩ := entry
  rw [itemOf]
  constructor
  · intro hitem
    split_ifs at hitem with huser
    cases hitem
    subst huser
    rfl
  · rintro ⟨⟩
    simp [ItemRow.row]

theorem mem_userRows :
    item ∈ queue.userRows userId ↔ queue.rows.lookup item.id = some (item.row userId) := by
  rw [QueueTable.userRows, List.mem_filterMap, ← Option.mem_def, AList.mem_lookup_iff]
  simp only [itemOf_eq_some, exists_eq_right]

theorem lists_userRows : Lists queue userId (queue.userRows userId) :=
  fun _ => mem_userRows

theorem items_perm : (queue.items userId).Perm (queue.userRows userId) :=
  List.perm_insertionSort _ _

theorem lists_items : Lists queue userId (queue.items userId) :=
  fun item => items_perm.mem_iff.trans (lists_userRows item)

/-- Two items of the user under one ID are one item. -/
theorem Lists.eq_of_id (h : Lists queue userId items) {a b : ItemRow} (ha : a ∈ items)
    (hb : b ∈ items) (hid : a.id = b.id) : a = b := by
  have hrow := (h a).mp ha
  rw [hid, (h b).mp hb] at hrow
  cases a
  cases b
  simp_all [ItemRow.row]

theorem Lists.nodup_ids (h : Lists queue userId items) (hnodup : items.Nodup) :
    (items.map ItemRow.id).Nodup :=
  hnodup.map_on fun _ ha _ hb hid => h.eq_of_id ha hb hid

/-- Two items of the user in one position are one item. -/
theorem Lists.eq_of_position (h : Lists queue userId items) {a b : ItemRow} (ha : a ∈ items)
    (hb : b ∈ items) (hposition : a.position = b.position) : a = b :=
  h.eq_of_id ha hb (queue.slot_injective ((h a).mp ha) ((h b).mp hb)
    (by simp [QueueRow.slot, ItemRow.row, hposition]))

theorem nodup_userRows : (queue.userRows userId).Nodup := by
  refine List.Nodup.filterMap ?_ queue.rows.nodupKeys.nodup
  intro entry entry' item hitem hitem'
  rw [Option.mem_def, itemOf_eq_some] at hitem hitem'
  rw [hitem, hitem']

theorem nodup_items : (queue.items userId).Nodup :=
  items_perm.nodup_iff.mpr nodup_userRows

/-- The items come in the order of their positions, each in its own. -/
theorem sorted_items : (queue.items userId).Pairwise fun a b => a.position < b.position := by
  have : Std.Total fun a b : ItemRow => a.position ≤ b.position := ⟨fun a b => by omega⟩
  have : IsTrans ItemRow fun a b => a.position ≤ b.position := ⟨fun a b c => by omega⟩
  have hle : (queue.items userId).Pairwise fun a b => a.position ≤ b.position :=
    List.pairwise_insertionSort _ _
  refine ((List.Pairwise.and_mem.mp hle).and nodup_items).imp ?_
  rintro a b ⟨⟨ha, hb, hposition⟩, hne⟩
  exact lt_of_le_of_ne hposition fun heq => hne (lists_items.eq_of_position ha hb heq)

/-- A list of the user's items in the order of their positions is what a read
returns. -/
theorem Lists.items_eq (h : Lists queue userId items)
    (hsorted : items.Pairwise fun a b => a.position < b.position) : queue.items userId = items := by
  have : Std.Irrefl fun a b : ItemRow => a.position < b.position := ⟨fun a => lt_irrefl _⟩
  have : Std.Antisymm fun a b : ItemRow => a.position < b.position :=
    ⟨fun a b hab hba => absurd hab (not_lt_of_gt hba)⟩
  exact List.Pairwise.eq_of_mem_iff sorted_items hsorted fun item =>
    (lists_items item).trans (h item).symm

theorem Lists.congr (h : Lists queue userId items) {items' : List ItemRow}
    (hmem : ∀ item, item ∈ items' ↔ item ∈ items) : Lists queue userId items' :=
  fun item => (hmem item).trans (h item)

end Items

/-! ### Moving items -/

/-- The rows of every other user are the same. -/
def KeepsOthers (userId : String) (queue queue' : QueueTable) : Prop :=
  ∀ id row, row.userId ≠ userId →
    (queue'.rows.lookup id = some row ↔ queue.rows.lookup id = some row)

instance (userId : String) : IsPreorder QueueTable (KeepsOthers userId) where
  refl _ := fun _ _ _ => Iff.rfl
  trans _ _ _ hfirst hsecond := fun id row hrow => (hsecond id row hrow).trans (hfirst id row hrow)

theorem KeepsOthers.items_eq {userId other : String} {queue queue' : QueueTable}
    (h : KeepsOthers userId queue queue') (hother : other ≠ userId) :
    queue'.items other = queue.items other :=
  Lists.items_eq (fun item => (lists_items item).trans (h item.id (item.row other) hother).symm)
    sorted_items

def ItemRow.moveTo (item : ItemRow) (position : ℤ) : ItemRow := { item with position }

section Move

variable {s : Store} {userId : String} {order : List ItemRow}

theorem writeQueue_ok {result : QueueTable → Except UniqueViolation QueueTable}
    {queue : QueueTable} (h : result s.queue = .ok queue) :
    writeQueue result s = .ok ((), { s with queue }) := by
  rw [writeQueue, run_bind_of_ok (run_get_ok.mpr ⟨rfl, rfl⟩), h]
  rfl

/-- An item moves when no other item of the user is where it goes. -/
theorem updatePosition_ok {rest : List ItemRow} {position : ℤ → ℤ}
    (h : Lists s.queue userId (item :: rest)) (hids : ∀ other ∈ rest, other.id ≠ item.id)
    (hfree : ∀ other ∈ rest, other.position ≠ position item.position) :
    ∃ queue, updatePosition userId item.id position s = .ok ((), { s with queue }) ∧
      Lists queue userId (item.moveTo (position item.position) :: rest) ∧
      KeepsOthers userId s.queue queue := by
  have hrow : s.queue.rows.lookup item.id = some (item.row userId) :=
    (h item).mp List.mem_cons_self
  have hplace : s.queue.occupied item.id
      (QueueRow.slot ((item.moveTo (position item.position)).row userId)) = false := by
    rw [UniqueTable.occupied_eq_false]
    intro id row hlookup hslot
    simp only [QueueRow.slot, ItemRow.row, ItemRow.moveTo, Prod.mk.injEq] at hslot
    obtain ⟨huser, hposition⟩ := hslot
    have hmem : (⟨id, row.trackId, row.position, row.source⟩ : ItemRow) ∈ item :: rest := by
      rw [h]
      cases row
      simp_all [ItemRow.row]
    rcases List.mem_cons.mp hmem with heq | hrest
    · rw [← heq]
    · exact absurd hposition (hfree _ hrest)
  obtain ⟨queue, hput⟩ : ∃ queue, s.queue.put item.id
      ((item.moveTo (position item.position)).row userId) = .ok queue := by
    rw [UniqueTable.put]
    simp [hplace]
  have hrows := (UniqueTable.put_eq_ok.mp hput).2
  refine ⟨queue, writeQueue_ok ?_, ?_, ?_⟩
  · simp only [hrow]
    simpa [ItemRow.row, ItemRow.moveTo] using hput
  · intro other
    rw [hrows, Table.lookup_modify, List.mem_cons]
    split_ifs with hid
    · rw [hid, hrow]
      constructor
      · rintro (rfl | hrest)
        · rfl
        · exact absurd hid (hids other hrest)
      · intro heq
        left
        cases other
        simp_all [ItemRow.row, ItemRow.moveTo]
    · rw [← h other, List.mem_cons]
      constructor
      · rintro (rfl | hrest)
        · exact absurd rfl hid
        · exact Or.inr hrest
      · rintro (rfl | hrest)
        · exact absurd rfl hid
        · exact Or.inr hrest
  · intro id row huser
    rw [hrows, Table.lookup_modify]
    split_ifs with hid
    · rw [hid, hrow]
      constructor
      · rintro ⟨⟩
        exact absurd rfl huser
      · rintro ⟨⟩
        exact absurd rfl huser
    · exact Iff.rfl

/-- An item and where it is to go from its position. -/
abbrev Move := ItemRow × (ℤ → ℤ)

def Move.target (move : Move) : ℤ := move.2 move.1.position

def Move.moved (move : Move) : ItemRow := move.1.moveTo move.target

/-- Moves made one after another succeed when none goes where an item still is or
already went. -/
theorem updatePositions_ok {moves : List Move} {others : List ItemRow}
    (h : Lists s.queue userId (moves.map Prod.fst ++ others))
    (hids : ((moves.map Prod.fst ++ others).map ItemRow.id).Nodup)
    (hmoves : moves.Pairwise fun m m' => m.target ≠ m'.target ∧ m'.1.position ≠ m.target)
    (hothers : ∀ m ∈ moves, ∀ other ∈ others, other.position ≠ m.target) :
    ∃ queue, forEach (fun m : Move => updatePosition userId m.1.id m.2) moves s
        = .ok ((), { s with queue }) ∧
      Lists queue userId (moves.map Move.moved ++ others) ∧
      KeepsOthers userId s.queue queue := by
  induction moves generalizing s others with
  | nil => exact ⟨s.queue, rfl, h, refl s.queue⟩
  | cons m moves ih =>
    obtain ⟨hfirst, hrest⟩ := List.pairwise_cons.mp hmoves
    rw [List.map_cons, List.cons_append, List.map_cons, List.nodup_cons] at hids
    -- The items still to be moved and those already moved are out of the way.
    have hfree : ∀ other ∈ moves.map Prod.fst ++ others, other.position ≠ m.target := by
      intro other hother
      rcases List.mem_append.mp hother with hlater | hdone
      · obtain ⟨m', hm', rfl⟩ := List.mem_map.mp hlater
        exact (hfirst m' hm').2
      · exact hothers m List.mem_cons_self other hdone
    obtain ⟨queue, hrun, hlists, hkeeps⟩ :
        ∃ queue, updatePosition userId m.1.id m.2 s = .ok ((), { s with queue }) ∧
          Lists queue userId (m.moved :: (moves.map Prod.fst ++ others)) ∧
          KeepsOthers userId s.queue queue :=
      updatePosition_ok h (fun other hother hid => hids.1 (hid ▸ List.mem_map_of_mem hother)) hfree
    let next : Store := { s with queue }
    have hnext : Lists next.queue userId (moves.map Prod.fst ++ m.moved :: others) :=
      hlists.congr fun item => List.perm_middle.mem_iff
    have hids' : ((moves.map Prod.fst ++ m.moved :: others).map ItemRow.id).Nodup := by
      have hperm : (moves.map Prod.fst ++ m.moved :: others).Perm
          (m.moved :: (moves.map Prod.fst ++ others)) := List.perm_middle
      rw [(hperm.map ItemRow.id).nodup_iff, List.map_cons, List.nodup_cons]
      exact hids
    obtain ⟨queue', hrun', hlists', hkeeps'⟩ := ih hnext hids' hrest <| by
      intro m' hm' other hother
      rcases List.mem_cons.mp hother with rfl | hold
      · exact (hfirst m' hm').1
      · exact hothers m' (List.mem_cons_of_mem m hm') other hold
    refine ⟨queue', ?_, ?_, trans_of (KeepsOthers userId) hkeeps hkeeps'⟩
    · rw [forEach, run_bind_of_ok hrun, hrun']
    · exact hlists'.congr fun item => List.perm_middle.symm.mem_iff

/-- The items in order, each in the position of its place in the list. -/
def renumbered (order : List ItemRow) : List ItemRow :=
  order.zipIdx.map fun entry => entry.1.moveTo entry.2

theorem pairwise_zipIdx {α : Type} (l : List α) : l.zipIdx.Pairwise fun a b => a.2 < b.2 := by
  rw [List.pairwise_iff_getElem]
  intro i j hi hj hij
  simpa using hij

theorem renumbered_sorted (order : List ItemRow) :
    (renumbered order).Pairwise fun a b => a.position < b.position := by
  rw [renumbered, List.pairwise_map]
  exact (pairwise_zipIdx order).imp fun h => Int.ofNat_lt.mpr h

theorem renumbered_nonneg (h : item ∈ renumbered order) :
    0 ≤ item.position := by
  obtain ⟨entry, -, rfl⟩ := List.mem_map.mp h
  exact Int.natCast_nonneg entry.2

/-- Distinct positions that are not below zero are no smaller than the places
they take in order. -/
theorem index_le_position (hsorted : order.Pairwise fun a b => a.position < b.position)
    (hpositions : ∀ item ∈ order, 0 ≤ item.position) (j : ℕ) (hj : j < order.length) :
    (j : ℤ) ≤ order[j].position := by
  induction j with
  | zero => exact hpositions _ (List.getElem_mem hj)
  | succ j ih =>
    have hlt := List.pairwise_iff_getElem.mp hsorted j (j + 1) (by omega) hj (by omega)
    have hle := ih (by omega)
    push_cast
    omega

/-- Renumbering succeeds when no item is in a position that is given out before
its own turn. -/
theorem setPositions_ok (h : Lists s.queue userId order) (hids : (order.map ItemRow.id).Nodup)
    (hroom : ∀ (j : ℕ) (hj : j < order.length), order[j].position < 0 ∨ (j : ℤ) ≤ order[j].position)
    :
    ∃ queue, setPositions userId (order.map ItemRow.id) s = .ok ((), { s with queue }) ∧
      queue.items userId = renumbered order ∧ KeepsOthers userId s.queue queue := by
  let moves : List Move := order.zipIdx.map fun entry => (entry.1, fun _ => (entry.2 : ℤ))
  have hfst : moves.map Prod.fst = order := by
    simp only [moves, List.map_map, Function.comp_def]
    exact List.zipIdx_map_fst 0 order
  have hmoved : moves.map Move.moved = renumbered order := by
    simp only [moves, List.map_map]
    rfl
  have hmoves : moves.Pairwise fun m m' => m.target ≠ m'.target ∧ m'.1.position ≠ m.target := by
    rw [List.pairwise_iff_getElem]
    intro i j hi hj hij
    have hj' : j < order.length := by simpa [moves] using hj
    have := hroom j hj'
    simp only [moves, List.getElem_map, List.getElem_zipIdx, Move.target]
    omega
  have hall : Lists s.queue userId (moves.map Prod.fst ++ []) := by simpa [hfst] using h
  obtain ⟨queue, hrun, hlists, hkeeps⟩ :=
    updatePositions_ok hall (by simpa [hfst] using hids) hmoves (by simp)
  refine ⟨queue, ?_, ?_, hkeeps⟩
  · rw [setPositions, List.zipIdx_map, forEach_map]
    rwa [forEach_map] at hrun
  · rw [List.append_nil, hmoved] at hlists
    exact hlists.items_eq (renumbered_sorted order)

/-- The first half of a reorder moves every item below zero. -/
theorem negatePositions_ok (hpositions : ∀ item ∈ s.queue.items userId, 0 ≤ item.position) :
    ∃ queue, negatePositions userId s = .ok ((), { s with queue }) ∧
      Lists queue userId ((s.queue.items userId).map fun item => item.moveTo (-item.position - 1)) ∧
      KeepsOthers userId s.queue queue := by
  let moves : List Move :=
    (s.queue.userRows userId).map fun item => (item, fun position => -position - 1)
  have hfst : moves.map Prod.fst = s.queue.userRows userId := by
    simp [moves, Function.comp_def]
  have hmoves : moves.Pairwise fun m m' => m.target ≠ m'.target ∧ m'.1.position ≠ m.target := by
    rw [List.pairwise_map]
    refine (List.Pairwise.and_mem.mp nodup_userRows).imp ?_
    rintro a b ⟨ha, hb, hne⟩
    have hdistinct : a.position ≠ b.position :=
      fun heq => hne (lists_userRows.eq_of_position ha hb heq)
    have hnonneg := hpositions a (items_perm.mem_iff.mpr ha)
    have hnonneg' := hpositions b (items_perm.mem_iff.mpr hb)
    simp only [Move.target]
    omega
  have hall : Lists s.queue userId (moves.map Prod.fst ++ []) := by
    simpa [hfst] using lists_userRows
  obtain ⟨queue, hrun, hlists, hkeeps⟩ := updatePositions_ok hall
    (by simpa [hfst] using lists_userRows.nodup_ids nodup_userRows) hmoves (by simp)
  refine ⟨queue, ?_, ?_, hkeeps⟩
  · rwa [forEach_map] at hrun
  · refine hlists.congr fun item => ?_
    rw [List.append_nil, (items_perm.map _).mem_iff, List.map_map]
    rfl

end Move

end Harmony.Playback
