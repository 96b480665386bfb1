/-
# Matching is sound and complete

What an entity has to offer to a query, said without the order in which it is looked for:
its whole name, or an assignment of every query word to the name or to a related field.
A word collapses all its readings in a text into the best one, and the words are then
assigned greedily, in two passes. Nothing within the budget is missed by it, and the
class is the best that any assignment allows.
-/

import Harmony.Search.Rank
import Mathlib.Algebra.BigOperators.Group.List.Lemmas
import Mathlib.Data.List.GetD

namespace Harmony.Search

/-! ### What matches -/

/-- One word of a text read as the query word, with so many edits. -/
inductive ReadsAs (query : QueryWord) (candidate : String) : ℕ → Prop
  | same : candidate = query.word → ReadsAs query candidate 0
  | completed : query.isLast = true → query.word.toList <+: candidate.toList →
      ReadsAs query candidate 0
  | typo : wordDistance query.word candidate ≤ query.limit →
      ReadsAs query candidate (wordDistance query.word candidate)

/-- Some word of the text reads as the query word. -/
def Fits (query : QueryWord) (text : PreparedText) (edits : ℕ) : Prop :=
  ∃ candidate ∈ text.spellings.flatten, ReadsAs query candidate edits

def FitsRelated (item : Entity) (query : QueryWord) (edits : ℕ) : Prop :=
  ∃ field ∈ item.related, Fits query field.text edits

/-- The query word is read in the primary name, or in a related field. -/
def Places (item : Entity) (query : QueryWord) (place : Bool × ℕ) : Prop :=
  if place.1 then Fits query item.primary place.2 else FitsRelated item query place.2

/-- Every query word has a place, the edits of all are within the budget. -/
structure Assigned (item : Entity) (queries : List QueryWord)
    (places : List (Bool × ℕ)) : Prop where
  placed : List.Forall₂ (Places item) queries places
  budget : (places.map (·.2)).sum ≤ maxTotalEdits

/-- Each word is within its limit of the word of the name at its place. -/
def Within (words names : List String) (limits : List ℕ) : Prop :=
  ∀ (i : ℕ) (word name : String) (limit : ℕ), words[i]? = some word → names[i]? = some name →
    limits[i]? = some limit → wordDistance word name ≤ limit

/-- A spelling of the name is the query, word for word. -/
structure Aligned (words names : List String) (limits : List ℕ) : Prop where
  length : names.length = words.length
  within : Within words names limits
  budget : (List.zipWith wordDistance words names).sum ≤ maxTotalEdits

/-- The classes that an entity may be given. -/
inductive Allows (item : Entity) (words : List String) (limits : List ℕ) : ℕ → Prop
  | fullName (names : List String) (hnames : names ∈ item.primary.spellings)
      (haligned : Aligned words names limits) : Allows item words limits classFullName
  | primaryOnly (places : List (Bool × ℕ))
      (hplaces : Assigned item (queryWords words limits) places)
      (hall : ∀ place ∈ places, place.1 = true) : Allows item words limits classPrimaryOnly
  | primaryRelated (places : List (Bool × ℕ))
      (hplaces : Assigned item (queryWords words limits) places)
      (hsome : ∃ place ∈ places, place.1 = true) : Allows item words limits classPrimaryRelated

/-! ### The best reading of a word -/

/-- A match stands for the readings that are possible: for none, or for one with the
fewest edits. -/
structure Best (possible : ℕ → Prop) (found : WordMatch) : Prop where
  none : found.kind = .none → ∀ edits, ¬ possible edits
  some : found.kind ≠ .none → possible found.edits
  least : found.kind ≠ .none → ∀ edits, possible edits → found.edits ≤ edits
  completed : found.kind = .prefixed → found.edits = 0

section Best

variable {possible other : ℕ → Prop} {found best : WordMatch} {query : QueryWord}
  {candidate : String}

theorem Best.congr (h : Best possible found) (hsame : ∀ edits, possible edits ↔ other edits) :
    Best other found where
  none hkind edits hother := h.none hkind edits ((hsame edits).mpr hother)
  some hkind := (hsame _).mp (h.some hkind)
  least hkind edits hother := h.least hkind edits ((hsame edits).mpr hother)
  completed := h.completed

theorem best_noMatch : Best (fun _ => False) noMatch where
  none _ _ h := h
  some h := absurd rfl h
  least h := absurd rfl h
  completed h := by cases h

/-- A reading without edits is the best. -/
theorem best_zero {kind : MatchKind} (hkind : kind ≠ .none) (hpossible : possible 0) :
    Best possible ⟨kind, 0⟩ where
  none h := absurd h hkind
  some _ := hpossible
  least _ edits _ := Nat.zero_le edits
  completed _ := rfl

/-- What a word that is not the query word adds: completion, else a typo. -/
theorem readsAs_of_ne (hne : candidate ≠ query.word)
    (hcompletes : ¬ (query.isLast && query.word.toList.isPrefixOf candidate.toList) = true)
    {edits : ℕ} (hreads : ReadsAs query candidate edits) :
    edits = wordDistance query.word candidate ∧ 0 < edits ∧ edits ≤ query.limit := by
  cases hreads with
  | same hsame => exact absurd hsame hne
  | completed hlast hstarts =>
    rw [hlast, Bool.true_and, List.isPrefixOf_iff_prefix] at hcompletes
    exact absurd hstarts hcompletes
  | typo hlimit =>
    refine ⟨rfl, Nat.pos_of_ne_zero fun hzero => ?_, hlimit⟩
    exact hne (wordDistance_eq_zero.mp hzero).symm

theorem matchCandidate_completes
    (h : (query.isLast && query.word.toList.isPrefixOf candidate.toList) = true) :
    matchCandidate query best candidate = ⟨.prefixed, 0⟩ := by
  rw [matchCandidate, if_pos h]
  simp

theorem matchCandidate_typo
    (h : ¬ (query.isLast && query.word.toList.isPrefixOf candidate.toList) = true) :
    matchCandidate query best candidate =
      if query.limit > 0 ∧ best.kind ≠ .prefixed then
        if editDistance query.word candidate query.limit ≤ query.limit ∧
            (best.kind = .none ∨ editDistance query.word candidate query.limit < best.edits) then
          ⟨.fuzzy, editDistance query.word candidate query.limit⟩
        else best
      else best := by
  rw [matchCandidate, if_neg h]

theorem Best.next (h : Best possible best) (hne : candidate ≠ query.word) :
    Best (fun edits => possible edits ∨ ReadsAs query candidate edits)
      (matchCandidate query best candidate) := by
  by_cases hcompletes : (query.isLast && query.word.toList.isPrefixOf candidate.toList) = true
  · rw [matchCandidate_completes hcompletes]
    obtain ⟨hlast, hstarts⟩ := Bool.and_eq_true_iff.mp hcompletes
    exact best_zero (by decide) (.inr (.completed hlast (List.isPrefixOf_iff_prefix.mp hstarts)))
  rw [matchCandidate_typo hcompletes]
  by_cases hcompare : query.limit > 0 ∧ best.kind ≠ .prefixed
  · rw [if_pos hcompare]
    by_cases hbetter : editDistance query.word candidate query.limit ≤ query.limit ∧
        (best.kind = .none ∨ editDistance query.word candidate query.limit < best.edits)
    · rw [if_pos hbetter]
      have hnear := editDistance_le_iff.mp hbetter.1
      rw [editDistance_eq hnear] at hbetter ⊢
      constructor
      · intro hkind
        cases hkind
      · intro _
        exact .inr (.typo hnear)
      · rintro - edits (hbefore | hreads)
        · rcases hbetter.2 with hnone | hless
          · exact absurd hbefore (h.none hnone edits)
          · by_cases hnone : best.kind = .none
            · exact absurd hbefore (h.none hnone edits)
            · exact hless.le.trans (h.least hnone edits hbefore)
        · exact (readsAs_of_ne hne hcompletes hreads).1.ge
      · intro hkind
        cases hkind
    · rw [if_neg hbetter]
      -- The typo is beyond the limit or no better than what was found before.
      have hless : ∀ edits, ReadsAs query candidate edits →
          best.kind ≠ .none ∧ best.edits ≤ edits := by
        intro edits hreads
        obtain ⟨hequal, -, hlimit⟩ := readsAs_of_ne hne hcompletes hreads
        rw [hequal] at hlimit ⊢
        have hcomputed := editDistance_eq hlimit
        rw [hcomputed] at hbetter
        obtain ⟨hsome, hmore⟩ := not_or.mp fun h => hbetter ⟨hlimit, h⟩
        exact ⟨hsome, not_lt.mp hmore⟩
      refine ⟨?_, fun hkind => .inl (h.some hkind), ?_, h.completed⟩
      · rintro hkind edits (hbefore | hreads)
        · exact h.none hkind edits hbefore
        · exact (hless edits hreads).1 hkind
      · rintro hkind edits (hbefore | hreads)
        · exact h.least hkind edits hbefore
        · exact (hless edits hreads).2
  · rw [if_neg hcompare]
    by_cases hlimit : query.limit > 0
    · have hkind : best.kind = .prefixed := by
        by_contra hother
        exact hcompare ⟨hlimit, hother⟩
      have hsome : best.kind ≠ .none := by
        rw [hkind]
        decide
      refine ⟨fun hnone => absurd hnone hsome, fun _ => .inl (h.some hsome), ?_, h.completed⟩
      intro _ edits _
      rw [h.completed hkind]
      exact Nat.zero_le edits
    · -- Without a typo limit there is nothing new to read.
      refine h.congr fun edits => ⟨.inl, ?_⟩
      rintro (hbefore | hreads)
      · exact hbefore
      · obtain ⟨-, hpos, hmost⟩ := readsAs_of_ne hne hcompletes hreads
        omega

/-- By induction on the words that are left; the query word itself ends the loop. -/
theorem Best.matchWords (h : Best possible best) (candidates : List String) :
    Best (fun edits => possible edits ∨ ∃ candidate ∈ candidates, ReadsAs query candidate edits)
      (matchWords query candidates best) := by
  induction candidates generalizing possible best with
  | nil => exact h.congr fun edits => by simp
  | cons candidate candidates ih =>
    rw [Search.matchWords]
    by_cases hsame : candidate = query.word
    · rw [if_pos hsame]
      exact best_zero (by decide) (.inr ⟨candidate, List.mem_cons_self, .same hsame⟩)
    · rw [if_neg hsame]
      refine (ih (h.next hsame)).congr fun edits => ?_
      rw [List.exists_mem_cons_iff, or_assoc]

/-- A word's match in a text stands for all words of all its spellings. -/
theorem best_matchWord (query : QueryWord) (text : PreparedText) :
    Best (Fits query text) (matchWord query text) :=
  (best_noMatch.matchWords text.spellings.flatten).congr fun edits => by simp [Fits]

theorem Best.better (h : Best possible best) (h' : Best other found) :
    Best (fun edits => possible edits ∨ other edits)
      (if found.better best then found else best) := by
  by_cases hbest : best.kind = .none
  · -- Nothing found so far: the new match stands, also when it is none.
    have hchosen : (if found.better best then found else best).kind = found.kind ∧
        (found.kind ≠ .none → (if found.better best then found else best) = found) := by
      have hbetter : found.better best = decide (found.kind ≠ .none) := by
        rw [WordMatch.better, if_pos (Or.inr hbest)]
      rw [hbetter]
      by_cases hfound : found.kind = .none
      · simp [hfound, hbest]
      · simp [hfound]
    by_cases hfound : found.kind = .none
    · have hkind := hchosen.1.trans hfound
      refine ⟨?_, fun hother => absurd hkind hother, fun hother => absurd hkind hother, ?_⟩
      · rintro - edits (hpossible | hpossible)
        · exact h.none hbest edits hpossible
        · exact h'.none hfound edits hpossible
      · intro hprefixed
        rw [hkind] at hprefixed
        cases hprefixed
    · rw [hchosen.2 hfound]
      refine h'.congr fun edits => ⟨.inr, ?_⟩
      rintro (hpossible | hpossible)
      · exact absurd hpossible (h.none hbest edits)
      · exact hpossible
  by_cases hfound : found.kind = .none
  · have hkeeps : found.better best = false := by
      rw [WordMatch.better, if_pos (.inl hfound)]
      simp [hfound]
    rw [hkeeps, if_neg Bool.false_ne_true]
    refine h.congr fun edits => ⟨.inl, ?_⟩
    rintro (hpossible | hpossible)
    · exact hpossible
    · exact absurd hpossible (h'.none hfound edits)
  · have hedits : found.better best = true → found.edits ≤ best.edits := by
      rw [WordMatch.better, if_neg (not_or.mpr ⟨hfound, hbest⟩)]
      split_ifs with hdiffer
      · intro hless
        exact (of_decide_eq_true hless).le
      · intro _
        exact (not_not.mp hdiffer).le
    have hkeeps : ¬ found.better best = true → best.edits ≤ found.edits := by
      rw [WordMatch.better, if_neg (not_or.mpr ⟨hfound, hbest⟩)]
      split_ifs with hdiffer
      · intro hless
        exact not_lt.mp fun h => hless (decide_eq_true h)
      · intro _
        exact (not_not.mp hdiffer).ge
    by_cases hbetter : found.better best = true
    · rw [if_pos hbetter]
      refine ⟨fun hnone => absurd hnone hfound, fun _ => .inr (h'.some hfound), ?_, h'.completed⟩
      rintro - edits (hpossible | hpossible)
      · exact (hedits hbetter).trans (h.least hbest edits hpossible)
      · exact h'.least hfound edits hpossible
    · rw [if_neg hbetter]
      refine ⟨fun hnone => absurd hnone hbest, fun _ => .inl (h.some hbest), ?_, h.completed⟩
      rintro - edits (hpossible | hpossible)
      · exact h.least hbest edits hpossible
      · exact (hkeeps hbetter).trans (h'.least hfound edits hpossible)

theorem best_fields (query : QueryWord) (related : List FieldRef) (h : Best possible best) :
    Best (fun edits => possible edits ∨ ∃ field ∈ related, Fits query field.text edits)
      (related.foldl (fun best field =>
        let candidate := matchWord query field.text
        if candidate.better best then candidate else best) best) := by
  induction related generalizing possible best with
  | nil => exact h.congr fun edits => by simp
  | cons field related ih =>
    rw [List.foldl_cons]
    refine (ih (h.better (best_matchWord query field.text))).congr fun edits => ?_
    rw [List.exists_mem_cons_iff, or_assoc]

end Best

/-! ### The assignment -/

/-- The matches of one word, in the name and in the best related field. -/
structure Found (item : Entity) (query : QueryWord) (found : WordMatch × WordMatch) : Prop where
  primary : Best (Fits query item.primary) found.1
  related : Best (FitsRelated item query) found.2
  some : found.1.kind ≠ .none ∨ found.2.kind ≠ .none

theorem matchFields_cases (item : Entity) (query : QueryWord) :
    (matchFields item query = none ∧ ∀ place, ¬ Places item query place) ∨
      ∃ found, matchFields item query = some found ∧ Found item query found := by
  have hprimary := best_matchWord query item.primary
  have hrelated : Best (FitsRelated item query) (item.related.foldl (fun best field =>
      let candidate := matchWord query field.text
      if candidate.better best then candidate else best) noMatch) :=
    (best_fields query item.related best_noMatch).congr fun edits => by simp [FitsRelated]
  rw [matchFields]
  by_cases hneither : (matchWord query item.primary).kind = .none ∧
      (item.related.foldl (fun best field =>
        let candidate := matchWord query field.text
        if candidate.better best then candidate else best) noMatch).kind = .none
  · rw [if_pos hneither]
    refine .inl ⟨rfl, ?_⟩
    rintro ⟨inPrimary, edits⟩ hplace
    cases inPrimary with
    | true => exact hprimary.none hneither.1 edits hplace
    | false => exact hrelated.none hneither.2 edits hplace
  · rw [if_neg hneither]
    exact .inr ⟨_, rfl, hprimary, hrelated, not_and_or.mp hneither⟩

/-- The words are looked up one after the other; one without a place ends it. -/
theorem mapM_matchFields (item : Entity) (queries : List QueryWord) :
    (queries.mapM (matchFields item) = none ∧
        ∀ places, ¬ List.Forall₂ (Places item) queries places) ∨
      ∃ found, queries.mapM (matchFields item) = some found ∧
        List.Forall₂ (Found item) queries found := by
  induction queries with
  | nil => exact .inr ⟨[], rfl, .nil⟩
  | cons query queries ih =>
    rw [List.mapM_cons]
    rcases matchFields_cases item query with ⟨hnone, hplaces⟩ | ⟨found, hfound, hword⟩
    · rw [hnone]
      refine .inl ⟨rfl, fun places hall => ?_⟩
      cases hall with
      | cons hplace _ => exact hplaces _ hplace
    · rw [hfound]
      rcases ih with ⟨hnone, hplaces⟩ | ⟨rest, hrest, hwords⟩
      · rw [hnone]
        refine .inl ⟨rfl, fun places hall => ?_⟩
        cases hall with
        | cons _ hothers => exact hplaces _ hothers
      · rw [hrest]
        exact .inr ⟨found :: rest, rfl, .cons hword hwords⟩

/-- A place that the matches of a word allow. -/
def Affords (found : WordMatch × WordMatch) (place : Bool × ℕ) : Prop :=
  if place.1 then found.1.kind ≠ .none ∧ found.1.edits ≤ place.2
  else found.2.kind ≠ .none ∧ found.2.edits ≤ place.2

/-- A place that is one of the two matches. -/
def Picks (found : WordMatch × WordMatch) (place : Bool × ℕ) : Prop :=
  if place.1 then found.1.kind ≠ .none ∧ place.2 = found.1.edits
  else found.2.kind ≠ .none ∧ place.2 = found.2.edits

section Places

variable {item : Entity} {query : QueryWord} {queries : List QueryWord}
  {found : WordMatch × WordMatch} {all : List (WordMatch × WordMatch)} {place : Bool × ℕ}
  {places : List (Bool × ℕ)}

theorem Found.affords (h : Found item query found) (hplace : Places item query place) :
    Affords found place := by
  obtain ⟨inPrimary, edits⟩ := place
  cases inPrimary with
  | true =>
    have hkind : found.1.kind ≠ .none := fun hnone => h.primary.none hnone edits hplace
    exact ⟨hkind, h.primary.least hkind edits hplace⟩
  | false =>
    have hkind : found.2.kind ≠ .none := fun hnone => h.related.none hnone edits hplace
    exact ⟨hkind, h.related.least hkind edits hplace⟩

theorem Found.of_picks (h : Found item query found) (hpicks : Picks found place) :
    Places item query place := by
  obtain ⟨inPrimary, edits⟩ := place
  cases inPrimary with
  | true =>
    obtain ⟨hkind, hedits⟩ : found.1.kind ≠ .none ∧ edits = found.1.edits := hpicks
    rw [hedits]
    exact h.primary.some hkind
  | false =>
    obtain ⟨hkind, hedits⟩ : found.2.kind ≠ .none ∧ edits = found.2.edits := hpicks
    rw [hedits]
    exact h.related.some hkind

theorem affords_of_places (hfound : List.Forall₂ (Found item) queries all)
    (hplaces : List.Forall₂ (Places item) queries places) : List.Forall₂ Affords all places := by
  induction hfound generalizing places with
  | nil =>
    cases hplaces
    exact .nil
  | cons hword _ ih =>
    cases hplaces with
    | cons hplace hrest => exact .cons (hword.affords hplace) (ih hrest)

theorem places_of_picks (hfound : List.Forall₂ (Found item) queries all)
    (hpicks : List.Forall₂ Picks all places) : List.Forall₂ (Places item) queries places := by
  induction hfound generalizing places with
  | nil =>
    cases hpicks
    exact .nil
  | cons hword _ ih =>
    cases hpicks with
    | cons hpick hrest => exact .cons (hword.of_picks hpick) (ih hrest)

end Places

/-! ### The greedy choice -/

section Choice

variable {all : List (WordMatch × WordMatch)} {found : WordMatch × WordMatch}
  {minimizeEdits : Bool} {places : List (Bool × ℕ)} {place : Bool × ℕ}

/-- What is taken for one word before anything is put back. -/
def picked (minimizeEdits : Bool) (found : WordMatch × WordMatch) : WordMatch :=
  if usesPrimary minimizeEdits found then found.1 else found.2

def pickedEdits (minimizeEdits : Bool) (all : List (WordMatch × WordMatch)) : ℕ :=
  (all.map fun found => (picked minimizeEdits found).edits).sum

theorem pickedEdits_cons : pickedEdits minimizeEdits (found :: all) =
    (picked minimizeEdits found).edits + pickedEdits minimizeEdits all := by
  rw [pickedEdits, List.map_cons, List.sum_cons, pickedEdits]

theorem picked_picks (hsome : found.1.kind ≠ .none ∨ found.2.kind ≠ .none) :
    Picks found (usesPrimary minimizeEdits found, (picked minimizeEdits found).edits) := by
  by_cases huse : usesPrimary minimizeEdits found = true
  · rw [picked, if_pos huse, huse]
    exact ⟨of_decide_eq_true (Bool.and_eq_true_iff.mp huse).1, rfl⟩
  · rw [picked, if_neg huse, Bool.eq_false_iff.mpr huse]
    refine ⟨hsome.elim (fun hprimary => ?_) id, rfl⟩
    rw [usesPrimary, decide_eq_true hprimary, Bool.true_and, Bool.not_eq_true', Bool.not_eq_false,
      Bool.and_eq_true_iff, Bool.and_eq_true_iff] at huse
    exact of_decide_eq_true huse.1.2

/-- With fewer edits preferred, no place has fewer. -/
theorem picked_le (h : Affords found place) : (picked true found).edits ≤ place.2 := by
  obtain ⟨inPrimary, edits⟩ := place
  have hkeeps : usesPrimary true found = false → found.1.kind ≠ .none →
      found.2.edits < found.1.edits := by
    intro huse hprimary
    rw [usesPrimary, decide_eq_true hprimary, Bool.true_and, Bool.not_eq_false',
      Bool.and_eq_true_iff] at huse
    exact of_decide_eq_true huse.2
  have htakes : usesPrimary true found = true → found.2.kind ≠ .none →
      found.1.edits ≤ found.2.edits := by
    intro huse hrelated
    by_contra hless
    rw [usesPrimary, decide_eq_true hrelated, decide_eq_true (not_le.mp hless)] at huse
    simp at huse
  rw [picked]
  cases inPrimary with
  | true =>
    obtain ⟨hkind, hedits⟩ : found.1.kind ≠ .none ∧ found.1.edits ≤ edits := h
    by_cases huse : usesPrimary true found = true
    · rw [if_pos huse]
      exact hedits
    · rw [if_neg huse]
      exact (hkeeps (Bool.eq_false_iff.mpr huse) hkind).le.trans hedits
  | false =>
    obtain ⟨hkind, hedits⟩ : found.2.kind ≠ .none ∧ found.2.edits ≤ edits := h
    by_cases huse : usesPrimary true found = true
    · rw [if_pos huse]
      exact (htakes huse hkind).trans hedits
    · rw [if_neg huse]
      exact hedits

theorem usesPrimary_false : usesPrimary false found = decide (found.1.kind ≠ .none) := by
  simp [usesPrimary]

/-- All words in the name: no such assignment has fewer edits than the first pass. -/
theorem pickedEdits_le_of_all (h : List.Forall₂ Affords all places)
    (hall : ∀ place ∈ places, place.1 = true) :
    pickedEdits false all ≤ (places.map (·.2)).sum ∧ ∀ found ∈ all, found.1.kind ≠ .none := by
  induction h with
  | nil => exact ⟨le_rfl, fun found hfound => by cases hfound⟩
  | @cons found place all places hplace _ ih =>
    obtain ⟨hrest, hkinds⟩ := ih fun place hmem => hall place (List.mem_cons_of_mem _ hmem)
    rw [Affords, if_pos (hall place List.mem_cons_self)] at hplace
    have hpicked : picked false found = found.1 := by
      rw [picked, usesPrimary_false, decide_eq_true hplace.1, if_pos rfl]
    constructor
    · rw [pickedEdits_cons, hpicked, List.map_cons, List.sum_cons]
      exact Nat.add_le_add hplace.2 hrest
    · intro other hother
      rcases List.mem_cons.mp hother with rfl | hmem
      · exact hplace.1
      · exact hkinds other hmem

/-- No assignment at all has fewer edits than the second pass before it puts a word back. -/
theorem pickedEdits_le (h : List.Forall₂ Affords all places) :
    pickedEdits true all ≤ (places.map (·.2)).sum := by
  induction h with
  | nil => exact le_rfl
  | cons hplace _ ih =>
    rw [pickedEdits_cons, List.map_cons, List.sum_cons]
    exact Nat.add_le_add (picked_le hplace) ih

/-- What it costs to take the word at this place from the name. -/
def putBack (all : List (WordMatch × WordMatch)) (i : ℕ) : ℤ :=
  ((all.getD i (noMatch, noMatch)).1.edits : ℤ) -
    (picked true (all.getD i (noMatch, noMatch))).edits

/-- An assignment with a word in the name has at least the edits of the second pass and
what it costs to put that word back. -/
theorem putBack_le (h : List.Forall₂ Affords all places)
    (hsome : ∃ place ∈ places, place.1 = true) :
    ∃ i < all.length, (all.getD i (noMatch, noMatch)).1.kind ≠ .none ∧
      (pickedEdits true all : ℤ) + putBack all i ≤ ((places.map (·.2)).sum : ℕ) := by
  induction h with
  | nil =>
    obtain ⟨place, hmem, -⟩ := hsome
    cases hmem
  | @cons found place all places hplace hrest ih =>
    rw [List.map_cons, List.sum_cons, pickedEdits_cons]
    by_cases hhere : place.1 = true
    · have hbefore := pickedEdits_le hrest
      rw [Affords, if_pos hhere] at hplace
      refine ⟨0, Nat.succ_pos _, hplace.1, ?_⟩
      rw [putBack, List.getD_cons_zero]
      have hedits := hplace.2
      omega
    · obtain ⟨other, hmem, hother⟩ := hsome
      have hlater : other ∈ places := by
        rcases List.mem_cons.mp hmem with rfl | hlater
        · exact absurd hother hhere
        · exact hlater
      obtain ⟨i, hi, hkind, hcost⟩ := ih ⟨other, hlater, hother⟩
      have hfirst := picked_le hplace
      refine ⟨i + 1, Nat.succ_lt_succ hi, hkind, ?_⟩
      have hshift : putBack (found :: all) (i + 1) = putBack all i := rfl
      rw [hshift]
      omega

/-- The cheapest index that is eligible, by induction on the indexes looked at. -/
theorem cheapest_cases (eligible : ℕ → Bool) (cost : ℕ → ℤ) (n : ℕ) :
    (cheapest eligible cost n = none ∧ ∀ i < n, eligible i = false) ∨
      ∃ best < n, cheapest eligible cost n = some best ∧ eligible best = true ∧
        ∀ i < n, eligible i = true → cost best ≤ cost i := by
  induction n with
  | zero => exact .inl ⟨rfl, fun i hi => absurd hi (Nat.not_lt_zero i)⟩
  | succ n ih =>
    have hnext : cheapest eligible cost (n + 1) =
        if eligible n && (cheapest eligible cost n).all fun best => decide (cost n < cost best) then
          some n
        else cheapest eligible cost n := by
      rw [cheapest, List.range_succ, List.foldl_append]
      rfl
    rw [hnext]
    by_cases heligible : eligible n = true
    · rcases ih with ⟨hnone, hothers⟩ | ⟨best, hbest, hsome, hchosen, hleast⟩
      · rw [hnone, heligible]
        refine .inr ⟨n, Nat.lt_succ_self n, rfl, heligible, fun i hi hother => ?_⟩
        rcases Nat.lt_succ_iff_lt_or_eq.mp hi with hless | rfl
        · rw [hothers i hless] at hother
          cases hother
        · exact le_rfl
      · rw [hsome, heligible, Bool.true_and, Option.all_some]
        by_cases hless : cost n < cost best
        · rw [if_pos (decide_eq_true hless)]
          refine .inr ⟨n, Nat.lt_succ_self n, rfl, heligible, fun i hi hother => ?_⟩
          rcases Nat.lt_succ_iff_lt_or_eq.mp hi with hbefore | rfl
          · exact hless.le.trans (hleast i hbefore hother)
          · exact le_rfl
        · rw [if_neg (by simpa using hless)]
          refine .inr ⟨best, Nat.lt_succ_of_lt hbest, rfl, hchosen, fun i hi hother => ?_⟩
          rcases Nat.lt_succ_iff_lt_or_eq.mp hi with hbefore | rfl
          · exact hleast i hbefore hother
          · exact not_lt.mp hless
    · rw [Bool.eq_false_iff.mpr heligible, Bool.false_and, if_neg Bool.false_ne_true]
      rcases ih with ⟨hnone, hothers⟩ | ⟨best, hbest, hsome, hchosen, hleast⟩
      · refine .inl ⟨hnone, fun i hi => ?_⟩
        rcases Nat.lt_succ_iff_lt_or_eq.mp hi with hless | rfl
        · exact hothers i hless
        · exact Bool.eq_false_iff.mpr heligible
      · refine .inr ⟨best, Nat.lt_succ_of_lt hbest, hsome, hchosen, fun i hi hother => ?_⟩
        rcases Nat.lt_succ_iff_lt_or_eq.mp hi with hbefore | rfl
        · exact hleast i hbefore hother
        · exact absurd hother heligible

theorem choose_false (all : List (WordMatch × WordMatch)) : choose all false =
    ⟨all.map (picked false), all.countP (usesPrimary false), pickedEdits false all⟩ := by
  rw [choose, Bool.false_and, if_neg Bool.false_ne_true, List.map_map]
  rfl

theorem getD_picked (i : ℕ) : (all.map (picked true)).getD i noMatch =
    picked true (all.getD i (noMatch, noMatch)) :=
  List.getD_map all (noMatch, noMatch) (picked true)

/-- The second pass: what it picks stands, or one word is put back into the name. -/
theorem choose_true_cases (all : List (WordMatch × WordMatch)) :
    (choose all true =
        ⟨all.map (picked true), all.countP (usesPrimary true), pickedEdits true all⟩ ∧
      (0 < all.countP (usesPrimary true) ∨
        ∀ i < all.length, (all.getD i (noMatch, noMatch)).1.kind = .none)) ∨
    (all.countP (usesPrimary true) = 0 ∧ ∃ best < all.length,
      (all.getD best (noMatch, noMatch)).1.kind ≠ .none ∧
      (∀ i < all.length, (all.getD i (noMatch, noMatch)).1.kind ≠ .none →
        putBack all best ≤ putBack all i) ∧
      choose all true =
        ⟨(all.map (picked true)).set best (all.getD best (noMatch, noMatch)).1, 1,
          (pickedEdits true all + putBack all best).toNat⟩) := by
  have hsum : ((all.map fun words =>
      if usesPrimary true words then words.1 else words.2).map (·.edits)).sum =
      pickedEdits true all := by
    rw [List.map_map]
    rfl
  have hcost : (fun i => (((all.getD i (noMatch, noMatch)).1.edits : ℤ) -
      ((all.map fun words => if usesPrimary true words then words.1 else words.2).getD i
        noMatch).edits)) = putBack all := by
    funext i
    rw [putBack, ← getD_picked]
    rfl
  by_cases hcount : all.countP (usesPrimary true) = 0
  · rcases cheapest_cases (fun i => (all.getD i (noMatch, noMatch)).1.kind ≠ .none) (putBack all)
      all.length with ⟨hnone, hothers⟩ | ⟨best, hbest, hsome, hkind, hleast⟩
    · -- No word has a match in the name.
      refine .inl ⟨?_, .inr fun i hi => by simpa using hothers i hi⟩
      rw [choose, Bool.true_and, if_pos (by simpa using hcount), hsum]
      dsimp only
      rw [hcost, hnone]
      rfl
    · refine .inr ⟨hcount, best, hbest, of_decide_eq_true hkind,
        fun i hi hother => hleast i hi (decide_eq_true hother), ?_⟩
      rw [choose, Bool.true_and, if_pos (by simpa using hcount), hsum]
      dsimp only
      rw [hcost, hsome]
      exact congrArg (Choice.mk _ 1) (congrArg Int.toNat (congrArg (_ + ·) (congrFun hcost best)))
  · refine .inl ⟨?_, .inl (Nat.pos_of_ne_zero hcount)⟩
    rw [choose, Bool.true_and, if_neg (by simpa using hcount), hsum]
    rfl

/-- What is taken word by word, as places. -/
def pickedPlaces (minimizeEdits : Bool) (all : List (WordMatch × WordMatch)) : List (Bool × ℕ) :=
  all.map fun found => (usesPrimary minimizeEdits found, (picked minimizeEdits found).edits)

theorem pickedPlaces_picks (hsome : ∀ found ∈ all, found.1.kind ≠ .none ∨ found.2.kind ≠ .none) :
    List.Forall₂ Picks all (pickedPlaces minimizeEdits all) :=
  List.forall₂_map_right_iff.mpr
    (List.forall₂_same.mpr fun found hfound => picked_picks (hsome found hfound))

theorem pickedPlaces_edits :
    ((pickedPlaces minimizeEdits all).map (·.2)).sum = pickedEdits minimizeEdits all := by
  rw [pickedPlaces, List.map_map]
  rfl

theorem pickedPlaces_count :
    (pickedPlaces minimizeEdits all).countP (·.1) = all.countP (usesPrimary minimizeEdits) := by
  rw [pickedPlaces, List.countP_map]
  rfl

theorem picks_set (h : List.Forall₂ Picks all places) {i : ℕ}
    (hplace : Picks (all.getD i (noMatch, noMatch)) place) :
    List.Forall₂ Picks all (places.set i place) := by
  induction h generalizing i with
  | nil => exact .nil
  | cons hfirst hrest ih =>
    cases i with
    | zero => exact .cons hplace hrest
    | succ i => exact .cons hfirst (ih hplace)

theorem sum_set_add (edits : List ℕ) {i : ℕ} (hi : i < edits.length) (value : ℕ) :
    (edits.set i value).sum + edits.getD i 0 = edits.sum + value := by
  induction edits generalizing i with
  | nil => exact absurd hi (Nat.not_lt_zero i)
  | cons first edits ih =>
    cases i with
    | zero =>
      rw [List.set_cons_zero, List.sum_cons, List.sum_cons, List.getD_cons_zero]
      omega
    | succ i =>
      have hrest := ih (Nat.lt_of_succ_lt_succ hi)
      rw [List.set_cons_succ, List.sum_cons, List.sum_cons, List.getD_cons_succ]
      omega

/-- The choice is an assignment: as many words in the name and as many edits. -/
theorem choose_picks (minimizeEdits : Bool)
    (hsome : ∀ found ∈ all, found.1.kind ≠ .none ∨ found.2.kind ≠ .none) :
    ∃ places, List.Forall₂ Picks all places ∧
      (places.map (·.2)).sum = (choose all minimizeEdits).total ∧
      places.countP (·.1) = (choose all minimizeEdits).inPrimary := by
  cases minimizeEdits with
  | false =>
    rw [choose_false]
    exact ⟨_, pickedPlaces_picks hsome, pickedPlaces_edits, pickedPlaces_count⟩
  | true =>
    rcases choose_true_cases all with ⟨hchoice, -⟩ | ⟨hcount, best, hbest, hkind, -, hchoice⟩
    · rw [hchoice]
      exact ⟨_, pickedPlaces_picks hsome, pickedPlaces_edits, pickedPlaces_count⟩
    · have hlength : best < (pickedPlaces true all).length := by
        rw [pickedPlaces, List.length_map]
        exact hbest
      rw [hchoice]
      refine ⟨(pickedPlaces true all).set best (true, (all.getD best (noMatch, noMatch)).1.edits),
        picks_set (pickedPlaces_picks hsome) ⟨hkind, rfl⟩, ?_, ?_⟩
      · have hsum := sum_set_add ((pickedPlaces true all).map (·.2))
          (i := best) (by rw [List.length_map]; exact hlength)
          (all.getD best (noMatch, noMatch)).1.edits
        have hold : ((pickedPlaces true all).map (·.2)).getD best 0 =
            (picked true (all.getD best (noMatch, noMatch))).edits := by
          rw [pickedPlaces, List.map_map, ← getD_picked]
          exact (List.getD_map all (noMatch, noMatch) _).trans (by rw [getD_picked]; rfl)
        rw [hold, pickedPlaces_edits] at hsum
        rw [List.map_set]
        dsimp only
        rw [putBack]
        omega
      · have hnone : (pickedPlaces true all).countP (·.1) = 0 := pickedPlaces_count.trans hcount
        have hfalse : (pickedPlaces true all)[best].1 = false := by
          have hall := List.countP_eq_zero.mp hnone _ (List.getElem_mem hlength)
          exact Bool.eq_false_iff.mpr hall
        rw [List.countP_set hlength, hnone, hfalse]
        rfl

/-- Both passes, when they are accepted, are assignments within the budget. -/
theorem chooseWithin_picks {choice : Choice}
    (hsome : ∀ found ∈ all, found.1.kind ≠ .none ∨ found.2.kind ≠ .none)
    (hchoice : chooseWithin all = some choice) :
    ∃ places, List.Forall₂ Picks all places ∧ (places.map (·.2)).sum = choice.total ∧
      choice.total ≤ maxTotalEdits ∧ places.countP (·.1) = choice.inPrimary := by
  rw [chooseWithin] at hchoice
  by_cases hfirst : (choose all false).total > maxTotalEdits
  · rw [if_pos hfirst] at hchoice
    dsimp only at hchoice
    split_ifs at hchoice with hsecond
    cases hchoice
    obtain ⟨places, hpicks, hsum, hcount⟩ := choose_picks true hsome
    exact ⟨places, hpicks, hsum, not_lt.mp hsecond, hcount⟩
  · rw [if_neg hfirst] at hchoice
    cases hchoice
    obtain ⟨places, hpicks, hsum, hcount⟩ := choose_picks false hsome
    exact ⟨places, hpicks, hsum, not_lt.mp hfirst, hcount⟩

/-- When all words fit into the name, the first pass says so. -/
theorem chooseWithin_all (h : List.Forall₂ Affords all places)
    (hbudget : (places.map (·.2)).sum ≤ maxTotalEdits) (hall : ∀ place ∈ places, place.1 = true) :
    ∃ choice, chooseWithin all = some choice ∧ choice.inPrimary = all.length := by
  obtain ⟨hedits, hkinds⟩ := pickedEdits_le_of_all h hall
  have hfirst : ¬ (choose all false).total > maxTotalEdits := by
    rw [choose_false]
    exact not_lt.mpr (hedits.trans hbudget)
  refine ⟨choose all false, ?_, ?_⟩
  · rw [chooseWithin, if_neg hfirst]
  · rw [choose_false]
    refine List.countP_eq_length.mpr fun found hfound => ?_
    rw [usesPrimary_false]
    exact decide_eq_true (hkinds found hfound)

/-- When some assignment with a word in the name is within the budget, one of the two
passes finds one. -/
theorem chooseWithin_some (h : List.Forall₂ Affords all places)
    (hbudget : (places.map (·.2)).sum ≤ maxTotalEdits) (hsome : ∃ place ∈ places, place.1 = true) :
    ∃ choice, chooseWithin all = some choice ∧ 0 < choice.inPrimary := by
  obtain ⟨i, hi, hkind, hcost⟩ := putBack_le h hsome
  by_cases hfirst : (choose all false).total > maxTotalEdits
  · have hsecond : (choose all true).total ≤ maxTotalEdits ∧ 0 < (choose all true).inPrimary := by
      rcases choose_true_cases all with ⟨hchoice, hcount⟩ | ⟨-, best, -, -, hleast, hchoice⟩
      · rw [hchoice]
        refine ⟨(pickedEdits_le h).trans hbudget, hcount.resolve_right fun hnone => ?_⟩
        exact hkind (hnone i hi)
      · rw [hchoice]
        have hbest := hleast i hi hkind
        dsimp only
        exact ⟨by omega, Nat.one_pos⟩
    refine ⟨choose all true, ?_, hsecond.2⟩
    rw [chooseWithin, if_pos hfirst]
    exact if_neg (not_lt.mpr hsecond.1)
  · refine ⟨choose all false, ?_, ?_⟩
    · rw [chooseWithin, if_neg hfirst]
    · rw [choose_false]
      refine List.countP_pos_iff.mpr ⟨all[i], List.getElem_mem hi, ?_⟩
      rw [List.getD_eq_getElem _ _ hi] at hkind
      rw [usesPrimary_false]
      exact decide_eq_true hkind

end Choice

/-! ### The whole name -/

section Aligned

variable {words names : List String} {limits : List ℕ}

theorem within_cons {word name : String} {limit : ℕ} :
    Within (word :: words) (name :: names) (limit :: limits) ↔
      wordDistance word name ≤ limit ∧ Within words names limits := by
  constructor
  · intro h
    exact ⟨h 0 word name limit rfl rfl rfl, fun i => h (i + 1)⟩
  · rintro ⟨hfirst, hrest⟩ i word' name' limit' hword hname hlimit
    cases i with
    | zero =>
      cases hword
      cases hname
      cases hlimit
      exact hfirst
    | succ i => exact hrest i word' name' limit' hword hname hlimit

/-- By induction on the words; one beyond its limit ends the loop. -/
theorem alignedTotal_cases (hnames : names.length = words.length)
    (hlimits : limits.length = words.length) :
    (alignedTotal words names limits = some (List.zipWith wordDistance words names).sum ∧
        Within words names limits) ∨
      (alignedTotal words names limits = none ∧ ¬ Within words names limits) := by
  induction words generalizing names limits with
  | nil =>
    refine .inl ⟨rfl, ?_⟩
    intro i word name limit hword
    cases hword
  | cons word words ih =>
    obtain ⟨name, names, rfl⟩ := List.exists_cons_of_length_eq_add_one hnames
    obtain ⟨limit, limits, rfl⟩ := List.exists_cons_of_length_eq_add_one hlimits
    have hrest := ih (Nat.succ.inj hnames) (Nat.succ.inj hlimits)
    rw [alignedTotal, within_cons, List.zipWith_cons_cons, List.sum_cons]
    by_cases hsame : word = name
    · rw [if_pos hsame, wordDistance_eq_zero.mpr hsame, Nat.zero_add]
      rcases hrest with ⟨hsome, hwithin⟩ | ⟨hnone, hbeyond⟩
      · exact .inl ⟨hsome, Nat.zero_le limit, hwithin⟩
      · exact .inr ⟨hnone, fun h => hbeyond h.2⟩
    · rw [if_neg hsame]
      dsimp only
      by_cases hfar : editDistance word name limit > limit
      · rw [if_pos hfar]
        refine .inr ⟨rfl, fun h => ?_⟩
        exact absurd (editDistance_le_iff.mpr h.1) (not_le.mpr hfar)
      · have hnear := editDistance_le_iff.mp (not_lt.mp hfar)
        rw [if_neg hfar, editDistance_eq hnear]
        rcases hrest with ⟨hsome, hwithin⟩ | ⟨hnone, hbeyond⟩
        · rw [hsome]
          exact .inl ⟨rfl, hnear, hwithin⟩
        · rw [hnone]
          exact .inr ⟨rfl, fun h => hbeyond h.2⟩

theorem alignedEdits_fold (hlimits : limits.length = words.length) (spellings : List (List String))
    (best : Option ℕ) :
    (spellings.foldl (alignSpelling words limits) best).isSome = true ↔
      best.isSome = true ∨ ∃ names ∈ spellings, Aligned words names limits := by
  induction spellings generalizing best with
  | nil => simp
  | cons names spellings ih =>
    rw [List.foldl_cons, ih, List.exists_mem_cons_iff, ← or_assoc]
    refine or_congr_left ?_
    rw [alignSpelling]
    by_cases hlength : names.length ≠ words.length
    · rw [if_pos hlength]
      exact ⟨.inl, fun h => h.resolve_right fun haligned => hlength haligned.length⟩
    · have hnames := not_not.mp hlength
      rw [if_neg hlength]
      rcases alignedTotal_cases hnames hlimits with ⟨hsome, hwithin⟩ | ⟨hnone, hbeyond⟩
      · rw [hsome]
        dsimp only
        by_cases hbudget : (List.zipWith wordDistance words names).sum ≤ maxTotalEdits
        · have haligned : Aligned words names limits := ⟨hnames, hwithin, hbudget⟩
          refine ⟨fun _ => .inr haligned, fun _ => ?_⟩
          cases best with
          | none => simp [hbudget]
          | some best => split_ifs <;> rfl
        · rw [if_neg fun h => hbudget h.1]
          exact ⟨.inl, fun h => h.resolve_right fun haligned => hbudget haligned.budget⟩
      · rw [hnone]
        exact ⟨.inl, fun h => h.resolve_right fun haligned => hbeyond haligned.within⟩

theorem alignedEdits_isSome (text : PreparedText) (hlimits : limits.length = words.length) :
    (alignedEdits words text limits).isSome = true ↔
      ∃ names ∈ text.spellings, Aligned words names limits := by
  rw [alignedEdits, alignedEdits_fold hlimits]
  simp

end Aligned

/-! ### One variant -/

section Variant

variable {item : Entity} {words : List String} {query : Query} {fuzzy : Bool}

theorem length_typoLimits (words : List String) (fuzzy : Bool) :
    (typoLimits words fuzzy).length = words.length := by
  cases fuzzy with
  | false => exact List.length_replicate
  | true => exact List.length_map _

theorem length_queryWords {limits : List ℕ} (h : limits.length = words.length) :
    (queryWords words limits).length = words.length := by
  rw [queryWords, List.length_map, List.length_zipIdx, List.length_zip, h, Nat.min_self]

theorem one_le_of_allows {limits : List ℕ} {relevance : ℕ}
    (h : Allows item words limits relevance) :
    classFullName ≤ relevance := by
  cases h <;> decide

/-- What is accepted has the best class that is allowed; what is not has none. -/
theorem evaluateVariant_cases (item : Entity) (query : Query) (fuzzy : Bool) (hwords : words ≠ [])
    (hsingle : query.single = false) :
    (evaluateVariant item words query fuzzy = none ∧
        ∀ relevance, ¬ Allows item words (typoLimits words fuzzy) relevance) ∨
      ∃ result, evaluateVariant item words query fuzzy = some result ∧
        Allows item words (typoLimits words fuzzy) result.relevance ∧
        ∀ relevance, Allows item words (typoLimits words fuzzy) relevance →
          result.relevance ≤ relevance := by
  have hlimits := length_typoLimits words fuzzy
  have haligned : (alignedEdits words item.primary (typoLimits words fuzzy)).isSome = true ↔
      ∃ names ∈ item.primary.spellings, Aligned words names (typoLimits words fuzzy) :=
    alignedEdits_isSome item.primary hlimits
  rw [evaluateVariant, if_neg (by rw [hsingle]; decide)]
  cases hedits : alignedEdits words item.primary (typoLimits words fuzzy) with
  | some edits =>
    rw [hedits] at haligned
    obtain ⟨names, hnames, hname⟩ := haligned.mp rfl
    exact .inr ⟨_, rfl, .fullName names hnames hname, fun _ h => one_le_of_allows h⟩
  | none =>
    rw [hedits] at haligned
    have hname : ¬ ∃ names ∈ item.primary.spellings, Aligned words names (typoLimits words fuzzy) :=
      fun h => absurd (haligned.mpr h) Bool.false_ne_true
    dsimp only
    -- Without the whole name, a class needs an assignment with a word in the name.
    have hneeds : ∀ relevance, Allows item words (typoLimits words fuzzy) relevance →
        ∃ places, Assigned item (queryWords words (typoLimits words fuzzy)) places ∧
          (∃ place ∈ places, place.1 = true) ∧
          (relevance = classPrimaryOnly ∧ (∀ place ∈ places, place.1 = true) ∨
            relevance = classPrimaryRelated) := by
      intro relevance hallows
      cases hallows with
      | fullName names hnames halign => exact absurd ⟨names, hnames, halign⟩ hname
      | primaryOnly places hplaces hall =>
        refine ⟨places, hplaces, ?_, .inl ⟨rfl, hall⟩⟩
        have hlength := hplaces.placed.length_eq
        rw [length_queryWords hlimits] at hlength
        have hne : places ≠ [] := by
          rintro rfl
          exact hwords (List.length_eq_zero_iff.mp hlength)
        exact ⟨places.head hne, List.head_mem hne, hall _ (List.head_mem hne)⟩
      | primaryRelated places hplaces hsome => exact ⟨places, hplaces, hsome, .inr rfl⟩
    rcases mapM_matchFields item (queryWords words (typoLimits words fuzzy)) with
      ⟨hnone, hplaces⟩ | ⟨found, hfound, hwordsFound⟩
    · rw [hnone]
      refine .inl ⟨rfl, fun relevance hallows => ?_⟩
      obtain ⟨places, hassigned, -⟩ := hneeds relevance hallows
      exact hplaces places hassigned.placed
    · rw [hfound]
      have hlength : found.length = words.length := by
        rw [← hwordsFound.length_eq, length_queryWords hlimits]
      have hfoundSome : ∀ words ∈ found, words.1.kind ≠ .none ∨ words.2.kind ≠ .none := by
        intro word hword
        obtain ⟨i, hi, rfl⟩ := List.getElem_of_mem hword
        exact (hwordsFound.get (by rw [hwordsFound.length_eq]; exact hi) hi).some
      have hgreedy : ∀ relevance, Allows item words (typoLimits words fuzzy) relevance →
          ∃ choice, chooseWithin found = some choice ∧ 0 < choice.inPrimary := by
        intro relevance hallows
        obtain ⟨places, hassigned, hsome, -⟩ := hneeds relevance hallows
        exact chooseWithin_some (affords_of_places hwordsFound hassigned.placed) hassigned.budget
          hsome
      cases hchoice : chooseWithin found with
      | none =>
        refine .inl ⟨by simp [hchoice], fun relevance hallows => ?_⟩
        obtain ⟨choice, hsome, -⟩ := hgreedy relevance hallows
        rw [hchoice] at hsome
        cases hsome
      | some choice =>
        obtain ⟨places, hpicks, hsum, hbudget, hcount⟩ := chooseWithin_picks hfoundSome hchoice
        have hassigned : Assigned item (queryWords words (typoLimits words fuzzy)) places :=
          ⟨places_of_picks hwordsFound hpicks, hsum ▸ hbudget⟩
        have hplaces : places.length = words.length := by
          rw [← hpicks.length_eq, hlength]
        by_cases hall : choice.inPrimary = words.length
        · refine .inr ⟨_, by simp [hchoice, Choice.relevance, hall]; rfl, ?_, ?_⟩
          · refine .primaryOnly places hassigned ?_
            exact List.countP_eq_length.mp (by rw [hcount, hall, hplaces])
          · intro relevance hallows
            obtain ⟨-, -, -, ⟨rfl, -⟩ | rfl⟩ := hneeds relevance hallows
            · exact le_rfl
            · change classPrimaryOnly ≤ classPrimaryRelated
              decide
        · by_cases hpositive : choice.inPrimary > 0
          · refine .inr ⟨_, by simp [hchoice, Choice.relevance, hall, hpositive]; rfl, ?_, ?_⟩
            · exact .primaryRelated places hassigned
                (List.countP_pos_iff.mp (by rw [hcount]; exact hpositive))
            · intro relevance hallows
              obtain ⟨others, hothers, -, ⟨-, hevery⟩ | rfl⟩ := hneeds relevance hallows
              · obtain ⟨other, hother, hinPrimary⟩ := chooseWithin_all
                  (affords_of_places hwordsFound hothers.placed) hothers.budget hevery
                rw [hchoice] at hother
                cases hother
                exact absurd (hinPrimary.trans hlength) hall
              · exact le_rfl
          · refine .inl
              ⟨by simp [hchoice, Choice.relevance, hall, hpositive], fun relevance hallows => ?_⟩
            obtain ⟨other, hother, hsome⟩ := hgreedy relevance hallows
            rw [hchoice] at hother
            cases hother
            exact hpositive hsome

/-- An entity is accepted exactly when its whole name or an assignment of the words
matches it, and with the best class that any of them allows. -/
theorem evaluateVariant_class (item : Entity) (words : List String) (query : Query) (fuzzy : Bool)
    (hwords : words ≠ []) (hsingle : query.single = false) :
    ((evaluateVariant item words query fuzzy).isSome = true ↔
        ∃ relevance, Allows item words (typoLimits words fuzzy) relevance) ∧
      ∀ relevance, (evaluateVariant item words query fuzzy).map (·.relevance) = some relevance ↔
        Allows item words (typoLimits words fuzzy) relevance ∧
          ∀ other, Allows item words (typoLimits words fuzzy) other → relevance ≤ other := by
  rcases evaluateVariant_cases item query fuzzy hwords hsingle with
    ⟨hnone, hallows⟩ | ⟨result, hsome, hallows, hleast⟩
  · rw [hnone]
    constructor
    · exact ⟨fun h => absurd h Bool.false_ne_true, fun ⟨relevance, h⟩ =>
        absurd h (hallows relevance)⟩
    · intro relevance
      exact ⟨fun h => (by cases h), fun h => absurd h.1 (hallows relevance)⟩
  · rw [hsome]
    constructor
    · exact ⟨fun _ => ⟨result.relevance, hallows⟩, fun _ => rfl⟩
    · intro relevance
      constructor
      · intro h
        cases h
        exact ⟨hallows, hleast⟩
      · rintro ⟨hother, hbest⟩
        exact congrArg some (le_antisymm (hleast relevance hother) (hbest _ hallows))

/-- A Track of one Album. -/
def sampleTrack : Entity where
  kind := .track
  id := "t1"
  primary := ⟨⟨"Halo", "halo", "halo", "halo", []⟩, ["halo"], ["halo"], ["halo"]⟩
  related := [⟨.trackArtist, "a1", ⟨⟨"Beyonce", "beyonce", "beyonce", "beyonce", []⟩, ["beyonce"],
    ["beyonce"], ["beyonce"]⟩⟩]

/-- Its name with a typo and the artist unfinished are found together. -/
theorem evaluateVariant_class_sample :
    Allows sampleTrack ["hallo", "beyo"] (typoLimits ["hallo", "beyo"] true) classPrimaryRelated :=
  (((evaluateVariant_class sampleTrack ["hallo", "beyo"] ⟨[], [], [], false⟩ true (by decide) rfl).2
    classPrimaryRelated).mp (by decide +kernel)).1

end Variant

end Harmony.Search
