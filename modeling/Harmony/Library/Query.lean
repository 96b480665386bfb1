/-
# Joins and groups of rows

What SELECT answers over lists of rows: joins list every combination that meets the
ON condition, GROUP BY keeps one row for each key. A join with a table in which at
most one row fits multiplies nothing.
-/

import Mathlib.Data.List.Dedup
import Mathlib.Data.List.Pairwise

namespace Query

variable {α β ι κ : Type*} {on : α → β → Bool} {bs : List β} {as : List α}

/-! ### Joins -/

def innerJoin (as : List α) (bs : List β) (on : α → β → Bool) : List (α × β) :=
  as.flatMap fun a => (bs.filter (on a)).map fun b => (a, b)

/-- A row without a partner stays, with NULL for the partner. -/
def leftJoin (as : List α) (bs : List β) (on : α → β → Bool) : List (α × Option β) :=
  as.flatMap fun a =>
    match bs.filter (on a) with
    | [] => [(a, none)]
    | b :: found => (b :: found).map fun b => (a, some b)

theorem mem_innerJoin {row : α × β} :
    row ∈ innerJoin as bs on ↔ row.1 ∈ as ∧ row.2 ∈ bs ∧ on row.1 row.2 = true := by
  obtain ⟨a, b⟩ := row
  simp only [innerJoin, List.mem_flatMap, List.mem_map, List.mem_filter, Prod.mk.injEq]
  constructor
  · rintro ⟨a, ha, b, hb, rfl, rfl⟩
    exact ⟨ha, hb⟩
  · rintro ⟨ha, hb⟩
    exact ⟨a, ha, b, hb, rfl, rfl⟩

theorem exists_mem_leftJoin (bs : List β) (on : α → β → Bool) {a : α} (ha : a ∈ as) :
    ∃ partner, (a, partner) ∈ leftJoin as bs on := by
  simp only [leftJoin, List.mem_flatMap]
  cases hfound : bs.filter (on a) with
  | nil =>
    refine ⟨none, a, ha, ?_⟩
    rw [hfound]
    exact List.mem_singleton.mpr rfl
  | cons b found =>
    refine ⟨some b, a, ha, ?_⟩
    rw [hfound]
    exact List.mem_map_of_mem List.mem_cons_self

theorem fst_of_mem_leftJoin {row : α × Option β} (h : row ∈ leftJoin as bs on) :
    row.1 ∈ as := by
  obtain ⟨a, ha, hrow⟩ := List.mem_flatMap.mp h
  cases hfound : bs.filter (on a) with
  | nil =>
    rw [hfound] at hrow
    obtain rfl := List.mem_singleton.mp hrow
    exact ha
  | cons b found =>
    rw [hfound] at hrow
    obtain ⟨b', -, rfl⟩ := List.mem_map.mp hrow
    exact ha

/-- Where at most one partner fits, the row's partner is the one. -/
theorem snd_of_mem_leftJoin {row : α × Option β} (h : row ∈ leftJoin as bs on)
    (hone : (bs.filter (on row.1)).length ≤ 1) :
    row.2 = (bs.filter (on row.1)).head? := by
  obtain ⟨a, ha, hrow⟩ := List.mem_flatMap.mp h
  cases hfound : bs.filter (on a) with
  | nil =>
    rw [hfound] at hrow
    obtain rfl := List.mem_singleton.mp hrow
    rw [hfound]
    rfl
  | cons b found =>
    rw [hfound] at hrow
    obtain ⟨b', hb', rfl⟩ := List.mem_map.mp hrow
    rw [hfound, List.length_cons] at hone
    rw [List.eq_nil_of_length_eq_zero (show found.length = 0 by omega)] at hb' hfound
    rw [hfound, List.mem_singleton.mp hb']
    rfl

/-- A key that no two rows share picks at most one. -/
theorem filter_key_eq [BEq κ] [LawfulBEq κ] {key : β → κ} (hbs : (bs.map key).Nodup) {b : β}
    (hb : b ∈ bs) : bs.filter (fun b' => key b' == key b) = [b] := by
  induction bs with
  | nil => cases hb
  | cons c bs ih =>
    rw [List.map_cons, List.nodup_cons] at hbs
    rcases List.mem_cons.mp hb with rfl | hb
    · have hrest : bs.filter (fun b' => key b' == key b) = [] := by
        rw [List.filter_eq_nil_iff]
        intro b' hb' heq
        exact hbs.1 (eq_of_beq heq ▸ List.mem_map_of_mem hb')
      rw [List.filter_cons, hrest, if_pos (beq_self_eq_true _)]
    · have hne : ¬(key c == key b) = true := by
        intro heq
        exact hbs.1 (eq_of_beq heq ▸ List.mem_map_of_mem hb)
      rw [List.filter_cons, if_neg hne, ih hbs.2 hb]

theorem length_filter_key_le_one [BEq κ] [LawfulBEq κ] {key : β → κ} (hbs : (bs.map key).Nodup)
    (k : κ) : (bs.filter fun b => key b == k).length ≤ 1 := by
  by_cases hk : ∃ b ∈ bs, key b = k
  · obtain ⟨b, hb, rfl⟩ := hk
    rw [filter_key_eq hbs hb]
    exact Nat.le_refl 1
  · have hnil : (bs.filter fun b => key b == k) = [] := by
      rw [List.filter_eq_nil_iff]
      intro b hb heq
      exact hk ⟨b, hb, eq_of_beq heq⟩
    rw [hnil]
    exact Nat.zero_le 1

/-- A join with exactly one partner for every row keeps the rows. -/
theorem innerJoin_map_fst (hone : ∀ a ∈ as, ∃ b, bs.filter (on a) = [b]) :
    (innerJoin as bs on).map Prod.fst = as := by
  induction as with
  | nil => rfl
  | cons a as ih =>
    obtain ⟨b, hb⟩ := hone a List.mem_cons_self
    have hrest := ih fun a ha => hone a (List.mem_cons_of_mem _ ha)
    rw [innerJoin] at hrest ⊢
    rw [List.flatMap_cons, List.map_append, hrest, hb]
    rfl

/-- A left join with at most one partner for every row keeps the rows. -/
theorem leftJoin_map_fst (hone : ∀ a ∈ as, (bs.filter (on a)).length ≤ 1) :
    (leftJoin as bs on).map Prod.fst = as := by
  induction as with
  | nil => rfl
  | cons a as ih =>
    have hfirst := hone a List.mem_cons_self
    have hrest := ih fun a ha => hone a (List.mem_cons_of_mem _ ha)
    rw [leftJoin] at hrest ⊢
    rw [List.flatMap_cons, List.map_append, hrest]
    cases hfound : bs.filter (on a) with
    | nil => rfl
    | cons b found =>
      rw [hfound, List.length_cons] at hfirst
      rw [List.eq_nil_of_length_eq_zero (show found.length = 0 by omega)]
      rfl

/-! ### Groups -/

/-- GROUP BY: for each key one of its rows, which the bare columns come from, and
all of them, for the aggregates. -/
def groupBy [DecidableEq κ] (key : α → κ) (rows : List α) : List (α × List α) :=
  (rows.pwFilter fun a b => key a ≠ key b).map fun a => (a, rows.filter fun b => key b = key a)

/-- COUNT(DISTINCT ...). -/
def countDistinct [DecidableEq κ] (key : α → κ) (rows : List α) : ℕ :=
  (rows.map key).dedup.length

theorem mem_groupBy [DecidableEq κ] {key : α → κ} {rows : List α} {group : α × List α}
    (h : group ∈ groupBy key rows) :
    group.1 ∈ rows ∧ group.2 = rows.filter fun b => key b = key group.1 := by
  obtain ⟨a, ha, rfl⟩ := List.mem_map.mp h
  exact ⟨List.pwFilter_subset _ ha, rfl⟩

theorem exists_mem_groupBy [DecidableEq κ] (key : α → κ) {rows : List α} {a : α}
    (ha : a ∈ rows) : ∃ group ∈ groupBy key rows, key group.1 = key a := by
  by_contra hnone
  have hall : ∀ b ∈ rows.pwFilter fun a b => key a ≠ key b, key a ≠ key b := by
    intro b hb heq
    exact hnone ⟨_, List.mem_map_of_mem hb, heq.symm⟩
  have htrans : ∀ {x y z : α}, key x ≠ key z → key x ≠ key y ∨ key y ≠ key z := by
    intro x y z hxz
    by_cases hxy : key x = key y
    · exact Or.inr (hxy ▸ hxz)
    · exact Or.inl hxy
  exact (List.forall_mem_pwFilter (R := fun a b => key a ≠ key b) htrans a rows).mp hall a ha rfl

/-- Where the key says no more than an id, there is one group for each id. -/
theorem groupBy_map_perm [DecidableEq κ] [DecidableEq ι] {key : α → κ} {id : α → ι}
    {rows : List α} (hkey : ∀ a ∈ rows, ∀ b ∈ rows, key a = key b ↔ id a = id b) :
    ((groupBy key rows).map fun group => id group.1).Perm (rows.map id).dedup := by
  have hnodup : ((groupBy key rows).map fun group => id group.1).Nodup := by
    rw [groupBy, List.map_map, List.Nodup, List.pairwise_map]
    refine (List.pairwise_pwFilter (R := fun a b => key a ≠ key b) rows).imp_of_mem ?_
    intro a b ha hb hne heq
    exact hne ((hkey a (List.pwFilter_subset _ ha) b (List.pwFilter_subset _ hb)).mpr heq)
  rw [List.perm_ext_iff_of_nodup hnodup (List.nodup_dedup _)]
  intro i
  rw [List.mem_dedup, List.mem_map, List.mem_map]
  constructor
  · rintro ⟨group, hgroup, rfl⟩
    exact ⟨group.1, (mem_groupBy hgroup).1, rfl⟩
  · rintro ⟨a, ha, rfl⟩
    obtain ⟨group, hgroup, heq⟩ := exists_mem_groupBy key ha
    exact ⟨group, hgroup, (hkey _ (mem_groupBy hgroup).1 a ha).mp heq⟩

/-- The different values of a column, where these are known. -/
theorem dedup_perm_of_mem_iff [DecidableEq ι] {is entities : List ι} (hentities : entities.Nodup)
    (hmem : ∀ i, i ∈ is ↔ i ∈ entities) : is.dedup.Perm entities := by
  rw [List.perm_ext_iff_of_nodup (List.nodup_dedup _) hentities]
  intro i
  rw [List.mem_dedup, hmem]

/-- Rows of one table with the same keys are the same rows. -/
theorem perm_of_map_perm {key : α → κ} {table rows rows' : List α} (htable : (table.map key).Nodup)
    (hrows : ∀ a ∈ rows, a ∈ table) (hrows' : ∀ a ∈ rows', a ∈ table)
    (hnodup : (rows'.map key).Nodup) (h : (rows.map key).Perm (rows'.map key)) :
    rows.Perm rows' := by
  rw [List.perm_ext_iff_of_nodup (h.nodup_iff.mpr hnodup).of_map hnodup.of_map]
  intro a
  constructor
  · intro ha
    obtain ⟨b, hb, hkey⟩ := List.mem_map.mp (h.mem_iff.mp (List.mem_map_of_mem ha))
    rwa [← List.inj_on_of_nodup_map htable (hrows' b hb) (hrows a ha) hkey]
  · intro ha
    obtain ⟨b, hb, hkey⟩ := List.mem_map.mp (h.mem_iff.mpr (List.mem_map_of_mem ha))
    rwa [← List.inj_on_of_nodup_map htable (hrows b hb) (hrows' a ha) hkey]

end Query
