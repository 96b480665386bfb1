/-
# Ranking is a function of the library's contents

The order of the candidates compares nine keys, some of them the other way round, and
leaves no ties between entities. So the order in which an index was loaded does not show,
and a short list of results is the beginning of the long one.
-/

import Harmony.Search.Rank
import Mathlib.Data.Prod.Lex
import Mathlib.Data.String.Basic

namespace Harmony.Search

/-! ### The order of the candidates -/

namespace Candidate

/-- The keys in the order in which they are compared; more faithful words come first. -/
abbrev Key : Type :=
  ℕ ×ₗ ℕ ×ₗ Bool ×ₗ ℕᵒᵈ ×ₗ ℕ ×ₗ String ×ₗ String ×ₗ String ×ₗ String

def key (candidate : Candidate) : Key :=
  toLex (candidate.relevance, toLex (candidate.edits, toLex (candidate.prefixDependent,
    toLex (OrderDual.toDual candidate.faithful, toLex (candidate.versionRank,
      toLex (candidate.name, toLex (candidate.secondary,
        toLex (candidate.entity.id, candidate.entity.kind.name))))))))

/-- One key decides, or the comparison goes on with those after it. -/
theorem ite_lt_iff {α β : Type*} [LinearOrder α] [LT β] (a a' : α) (b b' : β) {first rest : Bool}
    (hfirst : a ≠ a' → (first = true ↔ a < a')) (hrest : rest = true ↔ b < b') :
    (if a ≠ a' then first else rest) = true ↔ toLex (a, b) < toLex (a', b') := by
  rw [Prod.Lex.toLex_lt_toLex]
  by_cases hsame : a = a'
  · rw [if_neg (not_not.mpr hsame), hrest]
    constructor
    · intro h
      exact .inr ⟨hsame, h⟩
    · rintro (h | h)
      · exact absurd hsame h.ne
      · exact h.2
  · rw [if_pos hsame, hfirst hsame]
    constructor
    · intro h
      exact .inl h
    · rintro (h | h)
      · exact h
      · exact absurd h.1 hsame

/-- The comparison is that of the keys. -/
theorem less_iff (a b : Candidate) : a.less b = true ↔ a.key < b.key := by
  rw [less, key, key]
  refine ite_lt_iff _ _ _ _ (fun _ => decide_eq_true_iff) ?_
  refine ite_lt_iff _ _ _ _ (fun _ => decide_eq_true_iff) ?_
  refine ite_lt_iff _ _ _ _ (fun hdiffer => ?_) ?_
  · revert hdiffer
    cases a.prefixDependent <;> cases b.prefixDependent <;> decide
  refine ite_lt_iff (OrderDual.toDual a.faithful) (OrderDual.toDual b.faithful) _ _
    (fun _ => decide_eq_true_iff) ?_
  refine ite_lt_iff _ _ _ _ (fun _ => decide_eq_true_iff) ?_
  refine ite_lt_iff _ _ _ _ (fun _ => decide_eq_true_iff) ?_
  refine ite_lt_iff _ _ _ _ (fun _ => decide_eq_true_iff) ?_
  exact ite_lt_iff _ _ _ _ (fun _ => decide_eq_true_iff) decide_eq_true_iff

theorem sortsBefore_iff (a b : Candidate) : a.sortsBefore b = true ↔ a.key ≤ b.key := by
  rw [sortsBefore, Bool.not_eq_true', ← Bool.not_eq_true, less_iff, not_lt]

/-- Candidates of different entities are never equal in the order. -/
theorem entity_of_key {a b : Candidate} (h : a.key = b.key) :
    a.entity.kind = b.entity.kind ∧ a.entity.id = b.entity.id := by
  simp only [key, EmbeddingLike.apply_eq_iff_eq, Prod.mk.injEq] at h
  obtain ⟨-, -, -, -, -, -, -, hid, hkind⟩ := h
  refine ⟨?_, hid⟩
  revert hkind
  cases a.entity.kind <;> cases b.entity.kind <;> decide

/-- A strict order, with the class as the outermost key, that tells any two entities
apart. -/
structure IsRankOrder (less : Candidate → Candidate → Bool) : Prop where
  irrefl : ∀ a, less a a = false
  trans : ∀ a b c, less a b = true → less b c = true → less a c = true
  total : ∀ a b, (a.entity.kind, a.entity.id) ≠ (b.entity.kind, b.entity.id) →
    less a b = true ∨ less b a = true
  outermost : ∀ a b, a.relevance < b.relevance → less a b = true

theorem less_isRankOrder : IsRankOrder less where
  irrefl a := by
    rw [← Bool.not_eq_true, less_iff]
    exact lt_irrefl a.key
  trans a b c hab hbc := by
    rw [less_iff] at hab hbc ⊢
    exact hab.trans hbc
  total a b hdiffer := by
    rw [less_iff, less_iff]
    refine lt_or_gt_of_ne fun hsame => hdiffer ?_
    obtain ⟨hkind, hid⟩ := entity_of_key hsame
    rw [hkind, hid]
  outermost a b hclass := by
    rw [less_iff]
    exact Prod.Lex.toLex_lt_toLex.mpr (.inl hclass)

end Candidate

/-! ### The candidates of an index -/

section Index

variable {query : Query} {fuzzy : Bool} {item : Entity} {result : Candidate}

theorem evaluateVariant_entity {words : List String}
    (h : evaluateVariant item words query fuzzy = some result) : result.entity = item := by
  rw [evaluateVariant] at h
  by_cases hsingle : query.single = true
  · rw [if_pos hsingle] at h
    split_ifs at h
    cases h
    rfl
  · rw [if_neg hsingle] at h
    cases hedits : alignedEdits words item.primary (typoLimits words fuzzy) with
    | some edits =>
      rw [hedits] at h
      cases h
      rfl
    | none =>
      rw [hedits] at h
      obtain ⟨found, -, h⟩ := Option.bind_eq_some_iff.mp h
      obtain ⟨choice, -, h⟩ := Option.bind_eq_some_iff.mp h
      obtain ⟨relevance, -, h⟩ := Option.bind_eq_some_iff.mp h
      cases h
      rfl

/-- What each better variant keeps, the best of them has, by induction on the variants. -/
theorem foldl_betterVariant (P : Option Candidate → Prop) {variants : List (List String)}
    {start : Option Candidate} (hstart : P start)
    (hstep : ∀ words result best, evaluateVariant item words query fuzzy = some result →
      P best → (best.all fun best => result.less best) = true → P (some result)) :
    P (variants.foldl (betterVariant item query fuzzy) start) := by
  induction variants generalizing start with
  | nil => exact hstart
  | cons words variants ih =>
    rw [List.foldl_cons]
    apply ih
    rw [betterVariant]
    cases hvariant : evaluateVariant item words query fuzzy with
    | none => exact hstart
    | some found =>
      dsimp only
      by_cases hbetter : (start.all fun best => found.less best) = true
      · rw [if_pos hbetter]
        exact hstep words found start hvariant hstart hbetter
      · rw [if_neg hbetter]
        exact hstart

theorem evaluate_entity (h : evaluate item query fuzzy = some result) : result.entity = item := by
  rw [evaluate] at h
  obtain ⟨best, hbest, rfl⟩ := Option.map_eq_some_iff.mp h
  have hentity : ∀ candidate, query.variants.foldl (betterVariant item query fuzzy) none =
      some candidate → candidate.entity = item := by
    refine foldl_betterVariant
      (fun best => ∀ candidate, best = some candidate → candidate.entity = item) ?_ ?_
    · intro candidate hnone
      cases hnone
    · intro words result _ hvariant _ _ candidate hcandidate
      cases hcandidate
      exact evaluateVariant_entity hvariant
  exact hentity best hbest

/-- The entities are distinct by kind and ID. -/
def Index.Distinct (index : Index) : Prop :=
  (index.entities.map fun item => (item.kind, item.id)).Nodup

/-- Two candidates that neither come before the other are one and the same. -/
theorem candidate_unique {index : Index} (hdistinct : index.Distinct) {a b : Candidate}
    {first second : Entity} (hfirst : first ∈ index.entities) (hsecond : second ∈ index.entities)
    (ha : evaluate first query fuzzy = some a) (hb : evaluate second query fuzzy = some b)
    (hkey : a.key = b.key) : a = b := by
  obtain ⟨hkind, hid⟩ := Candidate.entity_of_key hkey
  rw [evaluate_entity ha, evaluate_entity hb] at hkind hid
  have hsame : first = second :=
    List.inj_on_of_nodup_map hdistinct hfirst hsecond (Prod.ext hkind hid)
  rw [hsame, hb] at ha
  exact (Option.some.inj ha).symm

theorem pairwise_sorted (candidates : List Candidate) :
    (candidates.mergeSort Candidate.sortsBefore).Pairwise fun a b => a.sortsBefore b = true := by
  apply List.pairwise_mergeSort
  · intro a b c hab hbc
    rw [Candidate.sortsBefore_iff] at hab hbc ⊢
    exact hab.trans hbc
  · intro a b
    rw [Bool.or_eq_true, Candidate.sortsBefore_iff, Candidate.sortsBefore_iff]
    exact le_total _ _

/-- The sorted candidates do not depend on the order of the index. -/
theorem evaluateAll_perm {index other : Index} (hdistinct : index.Distinct)
    (hperm : index.entities.Perm other.entities) (query : Query) (fuzzy : Bool)
    (hiddenKind : Option Kind) :
    evaluateAll index query fuzzy hiddenKind = evaluateAll other query fuzzy hiddenKind := by
  have hcandidates := (hperm.filter fun item => hiddenKind ≠ some item.kind).filterMap
    fun item => evaluate item query fuzzy
  refine List.Perm.eq_of_pairwise ?_ (pairwise_sorted _) (pairwise_sorted _) ?_
  · intro a b ha hb hab hba
    rw [Candidate.sortsBefore_iff] at hab hba
    obtain ⟨first, hfirst, ha⟩ := List.mem_filterMap.mp (List.mem_mergeSort.mp ha)
    obtain ⟨second, hsecond, hb⟩ := List.mem_filterMap.mp (List.mem_mergeSort.mp hb)
    exact candidate_unique hdistinct (List.mem_filter.mp hfirst).1
      (hperm.mem_iff.mpr (List.mem_filter.mp hsecond).1) ha hb (le_antisymm hab hba)
  · exact (List.mergeSort_perm _ _).trans (hcandidates.trans (List.mergeSort_perm _ _).symm)

theorem rank_perm {index other : Index} (hdistinct : index.Distinct)
    (hperm : index.entities.Perm other.entities) (query : Query) (all : Bool)
    (hiddenKind : Option Kind) :
    rank index query all hiddenKind = rank other query all hiddenKind := by
  rw [rank, rank, evaluateAll_perm hdistinct hperm query false,
    evaluateAll_perm hdistinct hperm query true]

end Index

/-! ### Short and long groups -/

/-- One more result: the short group is still the beginning of the long one. -/
theorem addToGroup_take {short long : Table Kind (List Entity)}
    (h : ∀ kind, short.lookup kind = (long.lookup kind).map (List.take groupLimit))
    (entity : Entity) (kind : Kind) :
    (addToGroup false short entity).lookup kind =
      ((addToGroup true long entity).lookup kind).map (List.take groupLimit) := by
  rw [addToGroup, addToGroup, Table.lookup_insert_eq, Table.lookup_insert_eq]
  by_cases hkind : kind = entity.kind
  · rw [if_pos hkind, if_pos hkind, Option.map_some, h entity.kind]
    refine congrArg some ?_
    have hgroup : ((long.lookup entity.kind).map (List.take groupLimit)).getD [] =
        ((long.lookup entity.kind).getD []).take groupLimit := by
      cases long.lookup entity.kind with
      | none => rfl
      | some group => rfl
    rw [hgroup, Bool.true_or, if_pos rfl, Bool.false_or, List.length_take]
    generalize (long.lookup entity.kind).getD [] = group
    by_cases hfull : group.length < groupLimit
    · rw [if_pos (decide_eq_true (by omega)), List.take_of_length_le hfull.le,
        List.take_of_length_le (by rw [List.length_append, List.length_singleton]; omega)]
    · rw [if_neg (by simpa using hfull), List.take_append_of_le_length (not_lt.mp hfull)]
  · rw [if_neg hkind, if_neg hkind]
    exact h kind

theorem groups_take (entities : List Entity) (kind : Kind) :
    (entities.foldl (addToGroup false) ∅).lookup kind =
      ((entities.foldl (addToGroup true) ∅).lookup kind).map (List.take groupLimit) := by
  have hfold : ∀ (entities : List Entity) (short long : Table Kind (List Entity)),
      (∀ kind, short.lookup kind = (long.lookup kind).map (List.take groupLimit)) →
      ∀ kind, (entities.foldl (addToGroup false) short).lookup kind =
        ((entities.foldl (addToGroup true) long).lookup kind).map (List.take groupLimit) := by
    intro entities
    induction entities with
    | nil => exact fun short long h => h
    | cons entity entities ih =>
      intro short long h
      exact ih _ _ (addToGroup_take h entity)
  exact hfold entities ∅ ∅ (fun kind => rfl) kind

/-- The same candidates, in short and in long groups. -/
theorem rank_take (index : Index) (query : Query) (hiddenKind : Option Kind) (kind : Kind) :
    ((rank index query false hiddenKind).groups.lookup kind =
        ((rank index query true hiddenKind).groups.lookup kind).map (List.take groupLimit)) ∧
      (rank index query false hiddenKind).bestMatch = (rank index query true hiddenKind).bestMatch ∧
      (rank index query false hiddenKind).total = (rank index query true hiddenKind).total := by
  rw [rank, rank]
  cases evaluateAll index query false hiddenKind with
  | nil => exact ⟨groups_take _ kind, rfl, rfl⟩
  | cons best rest => exact ⟨groups_take _ kind, rfl, rfl⟩

/-- The order leaves no ties, the order of the index does not show, and a short group is
the beginning of the long one. -/
theorem ranking_of_contents :
    Candidate.IsRankOrder Candidate.less ∧
    (∀ (index other : Index), index.Distinct → index.entities.Perm other.entities →
      ∀ (query : Query) (all : Bool) (hiddenKind : Option Kind),
        rank index query all hiddenKind = rank other query all hiddenKind) ∧
    ∀ (index : Index) (query : Query) (hiddenKind : Option Kind) (kind : Kind),
      (rank index query false hiddenKind).groups.lookup kind =
        ((rank index query true hiddenKind).groups.lookup kind).map (List.take groupLimit) ∧
      (rank index query false hiddenKind).bestMatch = (rank index query true hiddenKind).bestMatch ∧
      (rank index query false hiddenKind).total = (rank index query true hiddenKind).total := by
  refine ⟨Candidate.less_isRankOrder, ?_, rank_take⟩
  intro index other hdistinct hperm query all hiddenKind
  exact rank_perm hdistinct hperm query all hiddenKind

/-- Two Tracks of one name. -/
def namesakes : List Entity :=
  ["t1", "t2"].map fun id =>
    ⟨.track, id, ⟨⟨"Halo", "halo", "halo", "halo", []⟩, ["halo"], ["halo"], ["halo"]⟩, []⟩

theorem ranking_of_contents_namesakes :
    rank ⟨namesakes⟩ ⟨[["halo"]], ["halo"], [], false⟩ false none =
      rank ⟨namesakes.reverse⟩ ⟨[["halo"]], ["halo"], [], false⟩ false none :=
  ranking_of_contents.2.1 ⟨namesakes⟩ ⟨namesakes.reverse⟩
    (show (namesakes.map fun item => (item.kind, item.id)).Nodup by decide)
    namesakes.reverse_perm.symm ⟨[["halo"]], ["halo"], [], false⟩ false none

end Harmony.Search
