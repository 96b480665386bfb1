/-
# An entity is found by its own name

A name goes two ways: stored as JSON by a trigger and read back by a load, and prepared
as a query. Both come to the same words, so an entity is a direct match of the best class
for its own name. It may still be missing from a short list: five others of the same name
fill it. The two spellings of a query have words in them or neither has, so a query that
is accepted has no variant without words.
-/

import Harmony.Search.Ranking
import Harmony.Search.Service
import Harmony.Search.StoredText

namespace Harmony.Search

open Chars (isWhitespace)

/-! ### Words in both spellings -/

section Spellings

variable {U : Unicode}

theorem fields_ne_nil {value : String} :
    fields value ≠ [] ↔ ∃ c ∈ value.toList, isWhitespace c = false := by
  rw [fields, Ne, List.map_eq_nil_iff]
  exact Chars.splitWhitespace_ne_nil

/-- What can be read of one character does not depend on the spelling. -/
theorem mem_foldCharacter {c d : Char} (hread : isWhitespace d = false) :
    d ∈ foldCharacter U true c ↔ d ∈ foldCharacter U false c := by
  have hspace : d ≠ ' ' := by
    rintro rfl
    revert hread
    decide
  rw [foldCharacter, foldCharacter]
  split_ifs <;> simp_all

theorem mem_foldWords {d : Char} (hread : isWhitespace d = false) (value : String)
    (compact : Bool) :
    d ∈ foldWords U value compact ↔ ∃ c ∈ (U.nfd value).toList, d ∈ foldCharacter U false c := by
  rw [foldWords, Chars.mem_joinWords hread, List.mem_flatMap]
  cases compact with
  | false => exact Iff.rfl
  | true => simp only [mem_foldCharacter hread]

/-- One spelling of a text has words exactly when the other has. -/
theorem compact_fields_ne_nil (value : String) :
    fields (prepareText U value).compact ≠ [] ↔ fields (prepareText U value).folded ≠ [] := by
  rw [fields_ne_nil, fields_ne_nil]
  simp only [prepareText, String.toList_ofList]
  refine exists_congr fun d => and_congr_left fun hread => ?_
  rw [mem_foldWords hread, mem_foldWords hread]

/-- A letter or digit in the normalized value, or the dotless letter that becomes one. -/
def Searchable (U : Unicode) (value : String) : Prop :=
  ∃ c ∈ (U.nfd (prepareText U value).faithful).toList,
    U.generalCategory c ≠ .nonspacingMark ∧ (c = dotlessI ∨ isLetterOrDigit U c = true) ∧
      isWhitespace c = false

theorem folded_ne_nil_of_searchable {value : String} (h : Searchable U value) :
    fields (prepareText U value).folded ≠ [] := by
  obtain ⟨c, hc, hmark, hletter, hread⟩ := h
  rw [fields_ne_nil]
  simp only [prepareText, String.toList_ofList] at hc ⊢
  by_cases hdotless : c = dotlessI
  · refine ⟨'i', (mem_foldWords (by decide) _ _).mpr ⟨c, hc, ?_⟩, by decide⟩
    rw [foldCharacter, if_neg hmark, if_pos hdotless]
    exact List.mem_cons_self
  · refine ⟨c, (mem_foldWords hread _ _).mpr ⟨c, hc, ?_⟩, hread⟩
    have hkept := hletter.resolve_left hdotless
    rw [isLetterOrDigit] at hkept
    rw [foldCharacter, if_neg hmark, if_neg hdotless, if_pos hkept]
    exact List.mem_cons_self

/-- The longest query the handler takes. -/
def maxQueryCharacters : ℕ := 200

/-- What the handler asks of a raw query before it is ranked. -/
def acceptsQuery (U : Unicode) (raw : String) : Bool :=
  !(Chars.trim raw.toList).isEmpty && decide (raw.length ≤ maxQueryCharacters) &&
    !(Query.new U (prepareQuery U raw)).isEmpty

theorem isEmpty_new (text : Text) :
    (Query.new U text).isEmpty = true ↔ fields text.folded = [] := by
  rw [Query.isEmpty, Query.new, List.headD_cons, List.isEmpty_iff]

theorem mem_variants_new {text : Text} {words : List String}
    (h : words ∈ (Query.new U text).variants) :
    words = fields text.folded ∨ words = fields text.compact := by
  rw [Query.new] at h
  rcases List.mem_cons.mp h with hfolded | hcompact
  · exact .inl hfolded
  · split_ifs at hcompact
    · exact .inr (List.mem_singleton.mp hcompact)
    · cases hcompact

theorem prepareQuery_spellings (U : Unicode) (value : String) :
    (prepareQuery U value).folded = (prepareText U value).folded ∧
      (prepareQuery U value).compact = (prepareText U value).compact :=
  ⟨rfl, rfl⟩

/-- No variant of a query that is accepted is without words. -/
theorem variants_ne_nil {raw : String} (h : acceptsQuery U raw = true) :
    ∀ words ∈ (Query.new U (prepareQuery U raw)).variants, words ≠ [] := by
  obtain ⟨hfoldedSame, hcompactSame⟩ := prepareQuery_spellings U raw
  have hfolded : fields (prepareQuery U raw).folded ≠ [] := by
    intro hnone
    have hempty := (isEmpty_new (U := U) (prepareQuery U raw)).mpr hnone
    simp [acceptsQuery, hempty] at h
  intro words hwords
  rcases mem_variants_new hwords with hword | hword
  · rw [hword]
    exact hfolded
  · rw [hword, hcompactSame, compact_fields_ne_nil, ← hfoldedSame]
    exact hfolded

end Spellings

/-! ### The own name -/

/-- The entity is a direct match of the full-name class, with nothing corrected. -/
def FoundByName (item : Entity) (query : Query) : Prop :=
  ∃ result, evaluate item query false = some result ∧ result.relevance = classFullName ∧
    result.edits = 0

section OwnName

variable {U : Unicode} {item : Entity} {name : String} {kind : Kind} {query : Query}
  {fuzzy : Bool}

theorem prepareStored_spellings (U : Unicode) (name : String) (kind : Kind) :
    (prepareStored U name kind).folded = (prepareText U name).folded ∧
      (prepareStored U name kind).compact = (prepareText U name).compact := by
  cases kind with
  | track => exact ⟨rfl, rfl⟩
  | album => exact ⟨rfl, rfl⟩
  | artist => exact ⟨rfl, rfl⟩
  | genre => exact ⟨rfl, rfl⟩
  | playlist => exact ⟨rfl, rfl⟩

theorem alignedTotal_self (words : List String) (limits : List ℕ) :
    alignedTotal words words limits = some 0 := by
  induction words generalizing limits with
  | nil => rfl
  | cons word words ih =>
    cases limits with
    | nil => rfl
    | cons limit limits =>
      rw [alignedTotal, if_pos rfl]
      exact ih limits

/-- A name aligns with its own words without an edit, and no other spelling is better. -/
theorem alignedEdits_self (text : PreparedText) (limits : List ℕ) :
    alignedEdits text.foldedWords text limits = some 0 := by
  have hfirst : alignSpelling text.foldedWords limits none text.foldedWords = some 0 := by
    rw [alignSpelling, if_neg (not_not.mpr rfl), alignedTotal_self]
    rfl
  have hkeeps : ∀ names, alignSpelling text.foldedWords limits (some 0) names = some 0 := by
    intro names
    rw [alignSpelling]
    split_ifs
    · rfl
    · cases alignedTotal text.foldedWords names limits with
      | none => rfl
      | some total => simp
  rw [alignedEdits, PreparedText.spellings]
  split_ifs
  · rw [List.foldl_cons, hfirst, List.foldl_nil]
  · rw [List.foldl_cons, hfirst, List.foldl_cons, hkeeps, List.foldl_nil]

/-- The folded words of the name: found as a whole, letter for letter. -/
theorem evaluateVariant_self (item : Entity) (query : Query) (fuzzy : Bool) :
    ∃ result, evaluateVariant item item.primary.foldedWords query fuzzy = some result ∧
      result.relevance = classFullName ∧ result.edits = 0 := by
  rw [evaluateVariant]
  by_cases hsingle : query.single = true
  · rw [if_pos hsingle, if_neg fun h => h.1 rfl]
    exact ⟨_, rfl, rfl, rfl⟩
  · rw [if_neg hsingle, alignedEdits_self]
    exact ⟨_, rfl, rfl, rfl⟩

theorem one_le_relevance {words : List String} {result : Candidate}
    (h : evaluateVariant item words query fuzzy = some result) :
    classFullName ≤ result.relevance := by
  rw [evaluateVariant] at h
  by_cases hsingle : query.single = true
  · rw [if_pos hsingle] at h
    split_ifs at h
    cases h
    exact le_rfl
  · rw [if_neg hsingle] at h
    cases hedits : alignedEdits words item.primary (typoLimits words fuzzy) with
    | some edits =>
      rw [hedits] at h
      cases h
      exact le_rfl
    | none =>
      rw [hedits] at h
      obtain ⟨found, -, h⟩ := Option.bind_eq_some_iff.mp h
      obtain ⟨choice, -, h⟩ := Option.bind_eq_some_iff.mp h
      obtain ⟨relevance, hrelevance, h⟩ := Option.bind_eq_some_iff.mp h
      cases h
      rw [Choice.relevance] at hrelevance
      split_ifs at hrelevance
      · cases hrelevance
        change classFullName ≤ classPrimaryOnly
        decide
      · cases hrelevance
        change classFullName ≤ classPrimaryRelated
        decide

/-- What comes before a direct match of the full name is one too. -/
theorem direct_of_key_le {a b : Candidate} (hclass : classFullName ≤ a.relevance)
    (h : a.key ≤ b.key) (hb : b.relevance = classFullName ∧ b.edits = 0) :
    a.relevance = classFullName ∧ a.edits = 0 := by
  rw [Candidate.key, Candidate.key, Prod.Lex.toLex_le_toLex] at h
  rcases h with hless | ⟨hsame, h⟩
  · exact absurd (hb.1 ▸ hless) (not_lt.mpr hclass)
  · rw [Prod.Lex.toLex_le_toLex, hb.2] at h
    rcases h with hless | ⟨hedits, -⟩
    · exact absurd hless (Nat.not_lt_zero _)
    · exact ⟨hsame.trans hb.1, hedits⟩

/-- However the other variant fares, the best of them is a direct match. -/
theorem foundByName_of_variants {variants : List (List String)}
    (hvariants : query.variants = item.primary.foldedWords :: variants) :
    FoundByName item query := by
  obtain ⟨first, hfirst, hdirect⟩ := evaluateVariant_self item query false
  have hstart : betterVariant item query false none item.primary.foldedWords = some first := by
    rw [betterVariant, hfirst]
    rfl
  have hdirectBest : ∃ best, variants.foldl (betterVariant item query false) (some first) =
      some best ∧ best.relevance = classFullName ∧ best.edits = 0 := by
    refine foldl_betterVariant (fun best => ∃ candidate, best = some candidate ∧
      candidate.relevance = classFullName ∧ candidate.edits = 0) ⟨first, rfl, hdirect⟩ ?_
    rintro words result _ hresult ⟨best, rfl, hbest⟩ hbetter
    refine ⟨result, rfl, ?_⟩
    rw [Option.all_some, Candidate.less_iff] at hbetter
    exact direct_of_key_le (one_le_relevance hresult) hbetter.le hbest
  obtain ⟨best, hbest, hdirectBest⟩ := hdirectBest
  refine ⟨{ best with secondary := secondaryText item }, ?_, hdirectBest⟩
  rw [evaluate, hvariants, List.foldl_cons, hstart, hbest]
  rfl

/-- No match of the query is better than one of the full name. -/
theorem relevance_of_evaluate {result : Candidate} (h : evaluate item query fuzzy = some result) :
    classFullName ≤ result.relevance := by
  rw [evaluate] at h
  obtain ⟨best, hbest, rfl⟩ := Option.map_eq_some_iff.mp h
  have hclass : ∀ candidate, query.variants.foldl (betterVariant item query fuzzy) none =
      some candidate → classFullName ≤ candidate.relevance := by
    refine foldl_betterVariant
      (fun best => ∀ candidate, best = some candidate → classFullName ≤ candidate.relevance) ?_ ?_
    · intro candidate hnone
      cases hnone
    · intro words result _ hvariant _ _ candidate hcandidate
      cases hcandidate
      exact one_le_relevance hvariant
  exact hclass best hbest

/-- The entity's primary name is the name, as a trigger stored it and a load read it. -/
def StoredUnder (U : Unicode) (serde : Serde) (item : Entity) (name : String) : Prop :=
  ∃ text, serde.fromStr (encode serde (prepareStored U name item.kind)) = some text ∧
    item.primary = PreparedText.new U text

/-- Both ways from the name come to the same words. -/
theorem foundByName_of_storedUnder {serde : Serde} (hserde : serde.Documented)
    (h : StoredUnder U serde item name) : FoundByName item (Query.new U (prepareQuery U name)) := by
  obtain ⟨text, htext, hprimary⟩ := h
  rw [fromStr_encode hserde] at htext
  cases htext
  have hwords : item.primary.foldedWords = fields (prepareQuery U name).folded := by
    rw [hprimary, PreparedText.new, (prepareStored_spellings U name item.kind).1,
      (prepareQuery_spellings U name).1]
  apply foundByName_of_variants
  rw [Query.new, hwords]

end OwnName

/-! ### The place among the results -/

/-- The results of one kind. -/
def Ranked.results (ranked : Ranked) (kind : Kind) : List Entity :=
  (ranked.groups.lookup kind).getD []

/-- The long group of a kind is all that there is of it, in the order of the candidates. -/
theorem groups_all (entities : List Entity) (kind : Kind) :
    ((entities.foldl (addToGroup true) ∅).lookup kind).getD [] =
      entities.filter fun entity => entity.kind = kind := by
  induction entities using List.reverseRecOn with
  | nil => rfl
  | append_singleton entities entity ih =>
    rw [List.foldl_append, List.foldl_cons, List.foldl_nil, addToGroup, Table.lookup_insert_eq,
      List.filter_append]
    by_cases hkind : kind = entity.kind
    · subst hkind
      rw [if_pos rfl, Option.getD_some, Bool.true_or, if_pos rfl, ih]
      simp
    · rw [if_neg hkind, ih]
      simp [Ne.symm hkind]

section Place

variable {index : Index} {query : Query} {hiddenKind : Option Kind} {item : Entity}

theorem mem_evaluateAll {candidate : Candidate} :
    candidate ∈ evaluateAll index query false hiddenKind ↔
      ∃ item ∈ index.entities, hiddenKind ≠ some item.kind ∧
        evaluate item query false = some candidate := by
  simp only [evaluateAll, List.mem_mergeSort, List.mem_filterMap, List.mem_filter,
    decide_eq_true_eq, and_assoc]

theorem evaluateAll_sorted :
    (evaluateAll index query false hiddenKind).Pairwise fun a b => a.key ≤ b.key :=
  (pairwise_sorted _).imp fun h => (Candidate.sortsBefore_iff _ _).mp h

/-- Of a sorted list, whatever is not among the first few has only what is not after it
before it, and they fill the few places. -/
theorem mem_take_or {α β : Type*} [Preorder β] {key : α → β} {l : List α} {a : α} (n : ℕ)
    (hsorted : l.Pairwise fun a b => key a ≤ key b) (ha : a ∈ l) :
    a ∈ l.take n ∨ (l.take n).length = n ∧ ∀ b ∈ l.take n, key b ≤ key a := by
  obtain ⟨front, back, rfl⟩ := List.append_of_mem ha
  rcases Nat.lt_or_ge front.length n with hshort | hlong
  · left
    obtain ⟨k, rfl⟩ := Nat.exists_eq_add_of_lt hshort
    rw [List.take_append, List.mem_append]
    right
    have hplace : front.length + k + 1 - front.length = k + 1 := by omega
    rw [hplace, List.take_succ_cons]
    exact List.mem_cons_self
  · right
    rw [List.take_append_of_le_length hlong, List.length_take, Nat.min_eq_left hlong]
    refine ⟨rfl, fun b hb => ?_⟩
    exact (List.pairwise_append.mp hsorted).2.2 b (List.mem_of_mem_take hb) a List.mem_cons_self

/-- A direct match makes the ranking one of direct matches. -/
theorem rank_direct {candidate : Candidate} (all : Bool)
    (h : candidate ∈ evaluateAll index query false hiddenKind) :
    (rank index query all hiddenKind).matched = .direct ∧
      ∀ kind, (rank index query all hiddenKind).results kind =
        ((((evaluateAll index query false hiddenKind).map (·.entity)).foldl (addToGroup all)
          ∅).lookup kind).getD [] := by
  rw [rank]
  cases hcandidates : evaluateAll index query false hiddenKind with
  | nil =>
    rw [hcandidates] at h
    cases h
  | cons best rest => exact ⟨rfl, fun kind => rfl⟩

/-- A direct match of the full name is among the results, or the short group is full of
such matches. -/
theorem results_of_foundByName (hitem : item ∈ index.entities)
    (hshown : hiddenKind ≠ some item.kind)
    (h : FoundByName item query) :
    (∀ all, (rank index query all hiddenKind).matched = .direct) ∧
      item ∈ (rank index query true hiddenKind).results item.kind ∧
      (item ∈ (rank index query false hiddenKind).results item.kind ∨
        ((rank index query false hiddenKind).results item.kind).length = groupLimit ∧
          ∀ other ∈ (rank index query false hiddenKind).results item.kind,
            FoundByName other query) := by
  obtain ⟨result, hresult, hclass, hedits⟩ := h
  have hcandidate : result ∈ evaluateAll index query false hiddenKind :=
    mem_evaluateAll.mpr ⟨item, hitem, hshown, hresult⟩
  have hentity := evaluate_entity hresult
  -- the candidates of the kind, in their order
  let ofKind := (evaluateAll index query false hiddenKind).filter (·.entity.kind = item.kind)
  have hlong : (rank index query true hiddenKind).results item.kind = ofKind.map (·.entity) := by
    rw [(rank_direct true hcandidate).2, groups_all, List.filter_map]
    rfl
  have hshort : (rank index query false hiddenKind).results item.kind =
      (ofKind.take groupLimit).map (·.entity) := by
    rw [List.map_take, ← hlong, Ranked.results, Ranked.results,
      (rank_take index query hiddenKind item.kind).1]
    cases (rank index query true hiddenKind).groups.lookup item.kind with
    | none => rfl
    | some group => rfl
  have hofKind : result ∈ ofKind :=
    List.mem_filter.mpr ⟨hcandidate, decide_eq_true (congrArg Entity.kind hentity)⟩
  refine ⟨fun all => (rank_direct all hcandidate).1, ?_, ?_⟩
  · rw [hlong]
    exact List.mem_map.mpr ⟨result, hofKind, hentity⟩
  · rw [hshort]
    rcases mem_take_or groupLimit (evaluateAll_sorted.filter _) hofKind with
      hfirst | ⟨hfull, hbefore⟩
    · exact .inl (List.mem_map.mpr ⟨result, hfirst, hentity⟩)
    · right
      refine ⟨by rw [List.length_map, hfull], ?_⟩
      intro other hother
      obtain ⟨candidate, hplace, rfl⟩ := List.mem_map.mp hother
      obtain ⟨source, -, -, hsource⟩ :=
        mem_evaluateAll.mp (List.mem_filter.mp (List.mem_of_mem_take hplace)).1
      rw [evaluate_entity hsource]
      exact ⟨candidate, hsource,
        direct_of_key_le (relevance_of_evaluate hsource) (hbefore candidate hplace)
          ⟨hclass, hedits⟩⟩

end Place

/-- A shown entity is a direct match of the full name for its own name, and is among the
results unless the short group of its kind is full of such matches. No variant of an
accepted query is without words. -/
theorem found_by_own_name (U : Unicode) (serde : Serde) (hserde : serde.Documented) :
    (∀ (name : String) (index : Index) (item : Entity) (hiddenKind : Option Kind),
      Searchable U name → item ∈ index.entities → StoredUnder U serde item name →
      hiddenKind ≠ some item.kind →
      (Query.new U (prepareQuery U name)).isEmpty = false ∧
      FoundByName item (Query.new U (prepareQuery U name)) ∧
      (∀ all, (rank index (Query.new U (prepareQuery U name)) all hiddenKind).matched = .direct) ∧
      item ∈ (rank index (Query.new U (prepareQuery U name)) true hiddenKind).results item.kind ∧
      (item ∈ (rank index (Query.new U (prepareQuery U name)) false hiddenKind).results item.kind ∨
        ((rank index (Query.new U (prepareQuery U name)) false hiddenKind).results item.kind).length
            = groupLimit ∧
          ∀ other ∈
            (rank index (Query.new U (prepareQuery U name)) false hiddenKind).results item.kind,
            FoundByName other (Query.new U (prepareQuery U name)))) ∧
    ∀ raw, acceptsQuery U raw = true →
      ∀ words ∈ (Query.new U (prepareQuery U raw)).variants, words ≠ [] := by
  refine ⟨?_, fun raw haccepted => variants_ne_nil haccepted⟩
  intro name index item hiddenKind hsearchable hitem hstored hshown
  have hfound := foundByName_of_storedUnder hserde hstored
  have hwords : (Query.new U (prepareQuery U name)).isEmpty = false := by
    rw [← Bool.not_eq_true, isEmpty_new, (prepareQuery_spellings U name).1]
    exact folded_ne_nil_of_searchable hsearchable
  exact ⟨hwords, hfound, results_of_foundByName hitem hshown hfound⟩

/-- A Track of the name `Halo`. -/
def namesake (id : String) : Entity :=
  ⟨.track, id, PreparedText.new plainLetters (prepareStored plainLetters "Halo" .track), []⟩

/-- Tracks of one name. -/
def sameName (ids : List String) : List Entity := ids.map namesake

theorem sameName_stored {ids : List String} {item : Entity} (h : item ∈ sameName ids) :
    StoredUnder plainLetters plainSerde item "Halo" := by
  obtain ⟨id, -, rfl⟩ := List.mem_map.mp h
  exact ⟨_, fromStr_encode plainSerde_documented _, rfl⟩

theorem halo_searchable : Searchable plainLetters "Halo" :=
  ⟨'H', by decide +kernel, by decide, .inr (by decide), by decide⟩

theorem found_by_own_name_halo :
    namesake "t2" ∈ (rank ⟨sameName ["t1", "t2"]⟩
      (Query.new plainLetters (prepareQuery plainLetters "Halo")) true none).results .track := by
  have hitem : namesake "t2" ∈ sameName ["t1", "t2"] := List.mem_map_of_mem (by simp)
  have hfound := (found_by_own_name plainLetters plainSerde plainSerde_documented).1 "Halo"
    ⟨sameName ["t1", "t2"]⟩ (namesake "t2") none halo_searchable hitem (sameName_stored hitem)
    (Option.some_ne_none _).symm
  exact hfound.2.2.2.1

/-- Of six Tracks of one name, one is not in the short group; of a hidden kind, none is in
any. -/
theorem namesake_left_out :
    (¬ ∀ (index : Index) (item : Entity), item ∈ index.entities →
      StoredUnder plainLetters plainSerde item "Halo" →
      item ∈ (rank index (Query.new plainLetters (prepareQuery plainLetters "Halo")) false
        none).results item.kind) ∧
    ¬ ∀ (index : Index) (item : Entity) (hiddenKind : Option Kind), item ∈ index.entities →
      StoredUnder plainLetters plainSerde item "Halo" →
      item ∈ (rank index (Query.new plainLetters (prepareQuery plainLetters "Halo")) true
        hiddenKind).results item.kind := by
  constructor
  · intro h
    let six := sameName ["t1", "t2", "t3", "t4", "t5", "t6"]
    let group := (rank ⟨six⟩ (Query.new plainLetters (prepareQuery plainLetters "Halo")) false
      none).results .track
    have hall : six ⊆ group := by
      intro item hitem
      have hplace := h ⟨six⟩ item hitem (sameName_stored hitem)
      obtain ⟨id, -, rfl⟩ := List.mem_map.mp hitem
      exact hplace
    have hdistinct : six.Nodup := by
      apply List.Nodup.of_map Entity.id
      exact (by decide : ["t1", "t2", "t3", "t4", "t5", "t6"].Nodup)
    have hcount : 6 ≤ group.length := (List.subperm_of_subset hdistinct hall).length_le
    have hfew : group.length ≤ groupLimit := by
      change (Ranked.results _ _).length ≤ _
      rw [Ranked.results, (rank_take _ _ _ _).1]
      cases (rank ⟨six⟩ (Query.new plainLetters (prepareQuery plainLetters "Halo")) true
        none).groups.lookup .track with
      | none => exact Nat.zero_le _
      | some all => exact List.length_take_le _ _
    exact absurd (hcount.trans hfew) (by decide)
  · intro h
    obtain ⟨item, hitem⟩ : ∃ item, item ∈ sameName ["t1"] := ⟨_, List.mem_cons_self⟩
    have hplace := h ⟨sameName ["t1"]⟩ item (some .track) hitem (sameName_stored hitem)
    have hnone : ∀ fuzzy, evaluateAll ⟨sameName ["t1"]⟩
        (Query.new plainLetters (prepareQuery plainLetters "Halo")) fuzzy (some .track) = [] := by
      intro fuzzy
      simp [evaluateAll, sameName, namesake]
    rw [rank, hnone, hnone] at hplace
    cases hplace

end Harmony.Search
