/-
# Rows listed page by page

A database answers a query with an ORDER BY in any order that sorts its rows, and
may choose another such order each time it is asked. Pages cut out of the answers
hold every row once exactly where no group of rows with equal keys lies across a
page boundary.
-/

import Mathlib.Data.List.Sort
import Mathlib.Data.List.Perm.Lattice

namespace Paging

variable {ρ κ : Type*} [LinearOrder κ] {key : ρ → κ} {rows : List ρ} {limit : ℕ}

/-! ### Sorting -/

/-- One way to order rows by a key: rows with equal keys stand in any order. -/
structure Sorter (key : ρ → κ) where
  sort : List ρ → List ρ
  perm : ∀ rows, (sort rows).Perm rows
  sorted : ∀ rows, (sort rows).Pairwise fun a b => key a ≤ key b

/-- Rows with equal keys keep the order they have. -/
def Sorter.stable (key : ρ → κ) : Sorter key where
  sort rows := rows.insertionSort fun a b => key a ≤ key b
  perm rows := List.perm_insertionSort _ rows
  sorted rows := by
    have : Std.Total fun a b : ρ => key a ≤ key b := ⟨fun a b => le_total _ _⟩
    have : IsTrans ρ fun a b => key a ≤ key b := ⟨fun _ _ _ => le_trans⟩
    exact List.pairwise_insertionSort _ rows

theorem filter_orderedInsert (hsorted : rows.Pairwise fun a b => key a ≤ key b) (p : ρ → Bool)
    (r : ρ) : (rows.orderedInsert (fun a b => key a ≤ key b) r).filter p =
      if p r then (rows.filter p).orderedInsert (fun a b => key a ≤ key b) r
      else rows.filter p := by
  induction rows with
  | nil => exact List.filter_cons
  | cons first rows ih =>
    obtain ⟨hfirst, hrest⟩ := List.pairwise_cons.mp hsorted
    rw [List.orderedInsert_cons]
    split_ifs with hle hr hr
    · -- the row stands before all others, also before those that are kept
      rw [List.filter_cons_of_pos hr]
      cases hkept : (first :: rows).filter p with
      | nil => rfl
      | cons next kept =>
        have hnext : key r ≤ key next := by
          have hmem : next ∈ first :: rows :=
            (List.mem_filter.mp (hkept ▸ List.mem_cons_self)).1
          rcases List.mem_cons.mp hmem with rfl | hmem
          · exact hle
          · exact hle.trans (hfirst next hmem)
        rw [List.orderedInsert_cons, if_pos hnext]
    · rw [List.filter_cons_of_neg hr]
    · rw [List.filter_cons, List.filter_cons, ih hrest, if_pos hr]
      split_ifs
      · rw [List.orderedInsert_cons, if_neg hle]
      · rfl
    · rw [List.filter_cons, List.filter_cons, ih hrest, if_neg hr]

/-- Sorting the rows that are kept, or keeping rows of those that are sorted. -/
theorem Sorter.stable_filter (p : ρ → Bool) (rows : List ρ) :
    (Sorter.stable key).sort (rows.filter p) = ((Sorter.stable key).sort rows).filter p := by
  induction rows with
  | nil => rfl
  | cons r rows ih =>
    have hinsert := filter_orderedInsert ((Sorter.stable key).sorted rows) p r
    change _ = (((Sorter.stable key).sort rows).orderedInsert _ r).filter p
    rw [hinsert, ← ih, List.filter_cons]
    split_ifs
    · rfl
    · rfl

/-- Another order for one list of rows. -/
def Sorter.override [DecidableEq ρ] (sorter : Sorter key) (rows other : List ρ)
    (hperm : other.Perm rows) (hsorted : other.Pairwise fun a b => key a ≤ key b) :
    Sorter key where
  sort asked := if asked = rows then other else sorter.sort asked
  perm asked := by
    by_cases hasked : asked = rows
    · rw [if_pos hasked, hasked]
      exact hperm
    · rw [if_neg hasked]
      exact sorter.perm asked
  sorted asked := by
    by_cases hasked : asked = rows
    · rw [if_pos hasked]
      exact hsorted
    · rw [if_neg hasked]
      exact sorter.sorted asked

/-- The keys before a position of a sorted list are at most the key there, the keys
after it at least that. -/
theorem position_bounds {keys : List κ} (hsorted : keys.Pairwise (· ≤ ·)) {p : ℕ} {k : κ}
    (hp : keys[p]? = some k) : keys.countP (· < k) ≤ p ∧ p < keys.countP (· ≤ k) := by
  obtain ⟨hlt, hk⟩ := List.getElem?_eq_some_iff.mp hp
  have hkeys : keys = keys.take p ++ k :: keys.drop (p + 1) := by
    rw [← hk, List.getElem_cons_drop hlt, List.take_append_drop]
  have hlength : (keys.take p).length = p := List.length_take_of_le hlt.le
  rw [hkeys, List.pairwise_append, List.pairwise_cons] at hsorted
  obtain ⟨-, ⟨hafter, -⟩, hbefore⟩ := hsorted
  constructor
  · -- from the position on no key is smaller
    have hrest : (k :: keys.drop (p + 1)).countP (· < k) = 0 := by
      rw [List.countP_eq_zero]
      rintro k' hk' hsmall
      rcases List.mem_cons.mp hk' with rfl | hmem
      · exact absurd (of_decide_eq_true hsmall) (lt_irrefl _)
      · exact absurd (of_decide_eq_true hsmall) (hafter k' hmem).not_gt
    rw [hkeys, List.countP_append, hrest]
    exact List.countP_le_length.trans hlength.le
  · -- up to the position every key counts
    have hfirst : (keys.take p).countP (· ≤ k) = p := by
      rw [List.countP_eq_length.mpr, hlength]
      intro k' hmem
      exact decide_eq_true (hbefore k' hmem k List.mem_cons_self)
    have hat : decide (k ≤ k) = true := decide_eq_true le_rfl
    rw [hkeys, List.countP_append, List.countP_cons, hfirst, if_pos hat]
    omega

/-- In a sorted list a key stands at every position between the keys below it and
the keys above it. -/
theorem key_at {keys : List κ} (hsorted : keys.Pairwise (· ≤ ·)) {p : ℕ} {k : κ}
    (hbelow : keys.countP (· < k) ≤ p) (hupto : p < keys.countP (· ≤ k)) :
    keys[p]? = some k := by
  have hlt : p < keys.length := hupto.trans_le List.countP_le_length
  have hp : keys[p]? = some keys[p] := List.getElem?_eq_getElem hlt
  obtain ⟨hlow, hhigh⟩ := position_bounds hsorted hp
  rcases lt_trichotomy keys[p] k with hlt' | heq | hgt
  · have : keys.countP (· ≤ keys[p]) ≤ keys.countP (· < k) :=
      List.countP_mono_left fun k' _ hk' =>
        decide_eq_true ((of_decide_eq_true hk').trans_lt hlt')
    omega
  · rw [hp, heq]
  · have : keys.countP (· ≤ k) ≤ keys.countP (· < keys[p]) :=
      List.countP_mono_left fun k' _ hk' =>
        decide_eq_true ((of_decide_eq_true hk').trans_lt hgt)
    omega

/-! ### Pages -/

/-- The rows a query with this LIMIT and OFFSET answers. -/
def page (limit offset : ℕ) (rows : List ρ) : List ρ :=
  (rows.drop offset).take limit

theorem mem_page {limit offset : ℕ} {r : ρ} :
    r ∈ page limit offset rows ↔
      ∃ p, offset ≤ p ∧ p < offset + limit ∧ rows[p]? = some r := by
  rw [page, List.mem_iff_getElem?]
  constructor
  · rintro ⟨i, hi⟩
    rw [List.getElem?_take, List.getElem?_drop] at hi
    split at hi
    · exact ⟨offset + i, by omega, by omega, hi⟩
    · cases hi
  · rintro ⟨p, hlow, hhigh, hp⟩
    refine ⟨p - offset, ?_⟩
    rw [List.getElem?_take, if_pos (by omega), List.getElem?_drop, Nat.add_sub_cancel' hlow, hp]

/-- The rows of the first pages, each asked for on its own. -/
def pages (sorts : ℕ → Sorter key) (limit : ℕ) (rows : List ρ) (count : ℕ) : List ρ :=
  (List.range count).flatMap fun i => page limit (i * limit) ((sorts i).sort rows)

/-- However the database orders its answers, the pages up to the last hold every
entity once. -/
def Partition {ι : Type*} (key : ρ → κ) (limit : ℕ) (rows : List ρ) (id : ρ → ι)
    (entities : List ι) : Prop :=
  ∀ (sorts : ℕ → Sorter key) (count : ℕ), entities.length ≤ count * limit →
    ((pages sorts limit rows count).map id).Perm entities

/-- No group of equal keys lies across a page boundary: the first and the last place
it can take are on one page. -/
def TiesFit (limit : ℕ) (keys : List κ) : Prop :=
  ∀ k ∈ keys, keys.countP (· < k) / limit = (keys.countP (· ≤ k) - 1) / limit

instance (limit : ℕ) (keys : List κ) : Decidable (TiesFit limit keys) :=
  inferInstanceAs (Decidable (∀ k ∈ keys, _))

theorem TiesFit.perm {keys keys' : List κ} (hperm : keys.Perm keys') (h : TiesFit limit keys) :
    TiesFit limit keys' := by
  intro k hk
  rw [← hperm.countP_eq, ← hperm.countP_eq]
  exact h k (hperm.mem_iff.mpr hk)

theorem tiesFit_perm {keys keys' : List κ} (hperm : keys.Perm keys') :
    TiesFit limit keys ↔ TiesFit limit keys' :=
  ⟨.perm hperm, .perm hperm.symm⟩

/-- Different keys have no groups to cut. -/
theorem tiesFit_of_nodup {keys : List κ} (hkeys : keys.Nodup) :
    TiesFit limit keys := by
  intro k hk
  have hsplit : keys.countP (· ≤ k) = keys.countP (· < k) + keys.countP (· = k) := by
    rw [List.countP_eq_countP_filter_add keys (· ≤ k) (· < k), List.countP_filter,
      List.countP_filter]
    congr 1
    · apply List.countP_congr
      intro k' _
      have := @le_of_lt κ _ k' k
      simpa using this
    · apply List.countP_congr
      intro k' _
      simpa using (eq_iff_le_not_lt (a := k') (b := k)).symm
  have hone : keys.countP (· = k) = 1 := by
    rw [← List.count_eq_one_of_mem hkeys hk, List.count]
    apply List.countP_congr
    intro k' _
    simp
  rw [hsplit, hone, Nat.add_sub_cancel]

/-- Where ties fit, a row is on the same page in every order. -/
theorem mem_page_sort (hlimit : 0 < limit) (hfit : TiesFit limit (rows.map key))
    (sorter : Sorter key) (i : ℕ) (r : ρ) :
    r ∈ page limit (i * limit) (sorter.sort rows) ↔
      r ∈ rows ∧ (rows.map key).countP (· < key r) / limit = i := by
  have hperm := (sorter.perm rows).map key
  have hsorted : ((sorter.sort rows).map key).Pairwise (· ≤ ·) :=
    List.pairwise_map.mpr (sorter.sorted rows)
  -- a place in the sorted rows is on the page that the keys below say
  have hplace : ∀ p, (sorter.sort rows)[p]? = some r →
      p / limit = (rows.map key).countP (· < key r) / limit := by
    intro p hp
    have hkey : ((sorter.sort rows).map key)[p]? = some (key r) := by
      rw [List.getElem?_map, hp, Option.map_some]
    obtain ⟨hlow, hhigh⟩ := position_bounds hsorted hkey
    rw [hperm.countP_eq] at hlow hhigh
    have hmem : key r ∈ rows.map key := hperm.mem_iff.mp (List.mem_of_getElem? hkey)
    have hends := hfit (key r) hmem
    have h1 := Nat.div_le_div_right (c := limit) hlow
    have h2 :=
      Nat.div_le_div_right (c := limit) (show p ≤ _ - 1 by exact Nat.le_sub_one_of_lt hhigh)
    omega
  rw [mem_page]
  constructor
  · rintro ⟨p, hlow, hhigh, hp⟩
    refine ⟨(sorter.perm rows).mem_iff.mp (List.mem_of_getElem? hp), ?_⟩
    rw [← hplace p hp, Nat.div_eq_iff hlimit]
    omega
  · rintro ⟨hr, rfl⟩
    obtain ⟨p, hp⟩ := List.mem_iff_getElem?.mp ((sorter.perm rows).mem_iff.mpr hr)
    rw [← hplace p hp]
    refine ⟨p, Nat.div_mul_le_self p limit, ?_, hp⟩
    have := Nat.lt_div_mul_add hlimit (a := p)
    omega

theorem nodup_page {limit offset : ℕ} (h : rows.Nodup) :
    (page limit offset rows).Nodup :=
  (h.sublist (List.drop_sublist _ _)).sublist (List.take_sublist _ _)

/-- Where ties fit, pages partition the rows. -/
theorem pages_perm (hlimit : 0 < limit) (hrows : rows.Nodup) (hfit : TiesFit limit (rows.map key))
    (sorts : ℕ → Sorter key) {count : ℕ} (hcount : rows.length ≤ count * limit) :
    (pages sorts limit rows count).Perm rows := by
  have hmem := fun i => mem_page_sort hlimit hfit (sorts i) i
  have hnodup : (pages sorts limit rows count).Nodup := by
    rw [pages, List.nodup_flatMap]
    constructor
    · intro i _
      exact nodup_page ((sorts i).perm rows |>.nodup_iff.mpr hrows)
    · refine List.nodup_range.imp_of_mem ?_
      intro i j _ _ hij r hi hj
      exact hij (((hmem i r).mp hi).2.symm.trans ((hmem j r).mp hj).2)
  rw [List.perm_ext_iff_of_nodup hnodup hrows]
  intro r
  rw [pages, List.mem_flatMap]
  constructor
  · rintro ⟨i, _, hr⟩
    exact ((hmem i r).mp hr).1
  · intro hr
    -- fewer keys are below a row than there are rows
    have hbelow : (rows.map key).countP (· < key r) < count * limit := by
      refine lt_of_lt_of_le ?_ hcount
      rw [← List.length_map (f := key)]
      refine lt_of_le_of_ne List.countP_le_length ?_
      intro hall
      have := List.countP_eq_length.mp hall (key r) (List.mem_map_of_mem hr)
      exact lt_irrefl _ (of_decide_eq_true this)
    exact ⟨_, List.mem_range.mpr ((Nat.div_lt_iff_lt_mul hlimit).mpr hbelow),
      (hmem _ r).mpr ⟨hr, rfl⟩⟩

theorem eq_split_neighbours {p : ℕ} {x y : ρ} (hx : rows[p]? = some x) (hy : rows[p + 1]? = some y)
    :
    rows = rows.take p ++ x :: y :: rows.drop (p + 2) := by
  obtain ⟨hxlt, rfl⟩ := List.getElem?_eq_some_iff.mp hx
  obtain ⟨hylt, rfl⟩ := List.getElem?_eq_some_iff.mp hy
  rw [List.getElem_cons_drop hylt, List.getElem_cons_drop hxlt, List.take_append_drop]

/-- Two neighbours with equal keys may change places. -/
theorem exists_swapped [DecidableEq ρ] (sorter : Sorter key) {rows before after : List ρ}
    {x y : ρ} (hsort : sorter.sort rows = before ++ x :: y :: after) (hkey : key x = key y) :
    ∃ swapped : Sorter key, swapped.sort rows = before ++ y :: x :: after := by
  have hperm : (before ++ y :: x :: after).Perm rows := by
    refine (List.Perm.append_left before (List.Perm.swap x y after)).trans ?_
    rw [← hsort]
    exact sorter.perm rows
  have hsorted : (before ++ y :: x :: after).Pairwise fun a b => key a ≤ key b := by
    have h := List.pairwise_map.mpr (sorter.sorted rows)
    rw [hsort] at h
    refine (List.pairwise_map (f := key) (R := (· ≤ ·))).mp ?_
    simpa only [List.map_append, List.map_cons, hkey] using h
  exact ⟨sorter.override rows _ hperm hsorted, if_pos rfl⟩

/-- A group of equal keys that lies across a page boundary lets the row before the
boundary come again after it. -/
theorem tiesFit_of_nodup_pages [DecidableEq ρ] (hlimit : 0 < limit)
    (h : ∀ (sorts : ℕ → Sorter key) (count : ℕ),
      rows.length ≤ count * limit → (pages sorts limit rows count).Nodup) :
    TiesFit limit (rows.map key) := by
  intro k hk
  by_contra hends
  let sorter := Sorter.stable key
  have hsorted : ((sorter.sort rows).map key).Pairwise (· ≤ ·) :=
    List.pairwise_map.mpr (sorter.sorted rows)
  have hperm := (sorter.perm rows).map key
  have hkeyAt := fun p => key_at hsorted (p := p) (k := k)
  rw [hperm.countP_eq, hperm.countP_eq] at hkeyAt
  have hle : (rows.map key).countP (· ≤ k) ≤ rows.length := by
    rw [← List.length_map (f := key)]
    exact List.countP_le_length
  have hmono : (rows.map key).countP (· < k) ≤ (rows.map key).countP (· ≤ k) - 1 := by
    obtain ⟨p, hp⟩ := List.mem_iff_getElem?.mp (hperm.mem_iff.mpr hk)
    obtain ⟨hlow, hhigh⟩ := position_bounds hsorted hp
    rw [hperm.countP_eq] at hlow hhigh
    omega
  generalize (rows.map key).countP (· < k) = below at hends hkeyAt hmono
  generalize (rows.map key).countP (· ≤ k) = upto at hends hkeyAt hle hmono
  -- the boundary after the page of the group's first row
  let b := below / limit
  let m := (b + 1) * limit
  have hbelow : below < m := Nat.lt_mul_of_div_lt (Nat.lt_succ_self b) hlimit
  have hupto : m ≤ upto - 1 := by
    have hdiv := Nat.div_le_div_right (c := limit) hmono
    exact (Nat.le_div_iff_mul_le hlimit).mp (Nat.lt_of_le_of_ne hdiv hends)
  have hm : m < (sorter.sort rows).length := by
    rw [(sorter.perm rows).length_eq]
    omega
  -- the rows on both sides of it have the key
  have hx := hkeyAt (m - 1) (by omega) (by omega)
  have hy := hkeyAt m (by omega) (by omega)
  rw [List.getElem?_map, Option.map_eq_some_iff] at hx hy
  obtain ⟨x, hx, hxkey⟩ := hx
  obtain ⟨y, hy, hykey⟩ := hy
  have hnext : m - 1 + 1 = m := by omega
  have hsplit := eq_split_neighbours hx (by rw [hnext]; exact hy)
  obtain ⟨swapped, hswapped⟩ := exists_swapped sorter hsplit (hxkey.trans hykey.symm)
  -- the database swaps them between the two pages
  let sorts := fun i => if i = b + 1 then swapped else sorter
  have hcover : rows.length ≤ rows.length * limit := Nat.le_mul_of_pos_right _ hlimit
  have hpages := h sorts rows.length hcover
  have hmul : m = b * limit + limit := Nat.succ_mul b limit
  have hrange : b + 1 < rows.length := by
    have := Nat.le_mul_of_pos_right (b + 1) hlimit
    omega
  have hfirst : x ∈ page limit (b * limit) ((sorts b).sort rows) := by
    rw [show sorts b = sorter from if_neg (by omega)]
    exact mem_page.mpr ⟨m - 1, by omega, by omega, hx⟩
  have hsecond : x ∈ page limit ((b + 1) * limit) ((sorts (b + 1)).sort rows) := by
    rw [show sorts (b + 1) = swapped from if_pos rfl, hswapped]
    refine mem_page.mpr ⟨m, le_rfl, by omega, ?_⟩
    have hlength : ((sorter.sort rows).take (m - 1)).length = m - 1 :=
      List.length_take_of_le (by omega)
    rw [List.getElem?_append_right (by omega), hlength, show m - (m - 1) = 1 by omega]
    rfl
  rw [pages, List.nodup_flatMap] at hpages
  have hdisjoint := List.pairwise_iff_getElem.mp hpages.2 b (b + 1)
    (by rw [List.length_range]; omega) (by rw [List.length_range]; omega) (Nat.lt_succ_self b)
  rw [List.getElem_range, List.getElem_range] at hdisjoint
  exact hdisjoint hfirst hsecond

/-- Rows that stand for the entities one by one are paged without a loss or a double
exactly where ties fit. -/
theorem partition_iff_tiesFit {ι : Type*} (hlimit : 0 < limit) {id : ρ → ι} {entities : List ι}
    (hentities : entities.Nodup) (hrows : (rows.map id).Perm entities) :
    Partition key limit rows id entities ↔ TiesFit limit (rows.map key) := by
  classical
  have hlength : rows.length = entities.length := by
    rw [← hrows.length_eq, List.length_map]
  constructor
  · intro h
    refine tiesFit_of_nodup_pages hlimit fun sorts count hcount => ?_
    rw [hlength] at hcount
    exact ((h sorts count hcount).nodup_iff.mpr hentities).of_map
  · intro hfit sorts count hcount
    rw [← hlength] at hcount
    have hnodup : rows.Nodup := (hrows.nodup_iff.mpr hentities).of_map
    exact ((pages_perm hlimit hnodup hfit sorts hcount).map id).trans hrows

end Paging
