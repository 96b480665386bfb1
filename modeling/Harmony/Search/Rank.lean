/-
# Matching and ranking

How a query's words are matched with the prepared texts of an entity, what the match is
worth, and the order of the results. Typos are corrected only when nothing matches
directly. A query has a second variant when its punctuation can be read in two ways, and
so has every stored text.
-/

import Harmony.Search.EditDistance
import Harmony.Search.Index

namespace Harmony.Search

/-! ### The query -/

/-- Relevance classes. No boost crosses a class boundary. -/
def classFullName : ℕ := 1

def classPrimaryOnly : ℕ := 2

def classPrimaryRelated : ℕ := 3

def maxTotalEdits : ℕ := 2

def groupLimit : ℕ := 5

/-- Credit fields that break otherwise equal name matches. -/
def relatedKinds : List String := ["album", "track_artist", "album_artist"]

structure Query where
  /-- Folded words, plus the punctuation-joined alternative when it differs. -/
  variants : List (List String)
  faithful : List String
  versions : List String
  /-- A one-character query returns only exact primary-name matches. -/
  single : Bool

def Query.new (U : Unicode) (text : Text) : Query where
  variants := fields text.folded :: if text.compact ≠ text.folded then [fields text.compact] else []
  faithful := splitFaithful U text.faithful
  versions := text.versions
  single := text.folded.length = 1

def Query.isEmpty (query : Query) : Bool := (query.variants.headD []).isEmpty

/-- Prepares one incoming query; its version words may occur anywhere. -/
def prepareQuery (U : Unicode) (value : String) : Text :=
  let text := prepareText U value
  { text with versions := findVersions text.folded }

/-- Typo budget per normalized query word. -/
def maxEdits (word : String) : ℕ :=
  if word.length ≤ 3 then 0 else if word.length ≤ 7 then 1 else 2

/-! ### One word -/

inductive MatchKind
  | none
  | full
  | prefixed
  | fuzzy
  deriving DecidableEq

structure WordMatch where
  kind : MatchKind
  edits : ℕ

def noMatch : WordMatch := ⟨.none, 0⟩

/-- The order in which the kinds are declared. -/
def MatchKind.place : MatchKind → ℕ
  | none => 0
  | full => 1
  | prefixed => 2
  | fuzzy => 3

def WordMatch.better (self other : WordMatch) : Bool :=
  if self.kind = .none ∨ other.kind = .none then self.kind ≠ .none
  else if self.edits ≠ other.edits then self.edits < other.edits
  else self.kind.place < other.kind.place

/-- The spellings of a text; the second one only when it differs. -/
def PreparedText.spellings (text : PreparedText) : List (List String) :=
  if text.text.compact = text.text.folded then [text.foldedWords]
  else [text.foldedWords, text.compactWords]

/-- A word of the query with its typo limit. The last one may be unfinished. -/
structure QueryWord where
  word : String
  isLast : Bool
  limit : ℕ

/-- The best of a match and one more word of a text, other than the query word. -/
def matchCandidate (query : QueryWord) (best : WordMatch) (candidate : String) : WordMatch :=
  let best := if query.isLast && query.word.toList.isPrefixOf candidate.toList then ⟨.prefixed, 0⟩
    else best
  if query.limit > 0 ∧ best.kind ≠ .prefixed then
    let edits := editDistance query.word candidate query.limit
    if edits ≤ query.limit ∧ (best.kind = .none ∨ edits < best.edits) then ⟨.fuzzy, edits⟩
    else best
  else best

/-- The loop over the words of all spellings. The query word itself ends it. -/
def matchWords (query : QueryWord) : List String → WordMatch → WordMatch
  | [], best => best
  | candidate :: rest, best =>
    if candidate = query.word then ⟨.full, 0⟩
    else matchWords query rest (matchCandidate query best candidate)

/-- How one query word matches one prepared text. Completion and typo correction are
never combined within a word. -/
def matchWord (query : QueryWord) (text : PreparedText) : WordMatch :=
  matchWords query text.spellings.flatten noMatch

/-! ### One variant of the query -/

structure Candidate where
  entity : Entity
  relevance : ℕ
  edits : ℕ
  prefixDependent : Bool
  faithful : ℕ
  versionRank : ℕ
  name : String
  secondary : String

namespace Candidate

def new (entity : Entity) : Candidate where
  entity := entity
  relevance := 0
  edits := 0
  prefixDependent := false
  faithful := 0
  versionRank := 0
  name := entity.primary.text.folded
  secondary := ""

/-- The complete order within a class; the class stays the outer key. -/
def less (self other : Candidate) : Bool :=
  if self.relevance ≠ other.relevance then self.relevance < other.relevance
  else if self.edits ≠ other.edits then self.edits < other.edits
  else if self.prefixDependent ≠ other.prefixDependent then !self.prefixDependent
  else if self.faithful ≠ other.faithful then self.faithful > other.faithful
  else if self.versionRank ≠ other.versionRank then self.versionRank < other.versionRank
  else if self.name ≠ other.name then self.name < other.name
  else if self.secondary ≠ other.secondary then self.secondary < other.secondary
  else if self.entity.id ≠ other.entity.id then self.entity.id < other.entity.id
  else self.entity.kind.name < other.entity.kind.name

end Candidate

/-- Whether the words are the name word for word, and with how many edits. -/
def alignedTotal : List String → List String → List ℕ → Option ℕ
  | word :: words, name :: names, limit :: limits =>
    if word = name then alignedTotal words names limits
    else
      let edits := editDistance word name limit
      if edits > limit then none else (alignedTotal words names limits).map (edits + ·)
  | _, _, _ => some 0

/-- One spelling of the name against the best one so far. -/
def alignSpelling (words : List String) (limits : List ℕ) (best : Option ℕ)
    (names : List String) : Option ℕ :=
  if names.length ≠ words.length then best
  else
    match alignedTotal words names limits with
    | none => best
    | some total => if total ≤ maxTotalEdits ∧ best.all (total < ·) then some total else best

/-- Whether the query words are the whole primary name, word for word, within the limits
of each word and of all together. -/
def alignedEdits (words : List String) (text : PreparedText) (limits : List ℕ) : Option ℕ :=
  text.spellings.foldl (alignSpelling words limits) none

/-- How one word matches the primary name and the best of the related fields. -/
def matchFields (item : Entity) (query : QueryWord) : Option (WordMatch × WordMatch) :=
  let primaryMatch := matchWord query item.primary
  let relatedMatch := item.related.foldl (fun best field =>
    let candidate := matchWord query field.text
    if candidate.better best then candidate else best) noMatch
  if primaryMatch.kind = .none ∧ relatedMatch.kind = .none then none
  else some (primaryMatch, relatedMatch)

/-- Which words are chosen from the primary name, how many they are and all the edits. -/
structure Choice where
  chosen : List WordMatch
  inPrimary : ℕ
  total : ℕ

/-- Whether a word is taken from the primary name, its matches there and elsewhere being
known. -/
def usesPrimary (minimizeEdits : Bool) (found : WordMatch × WordMatch) : Bool :=
  decide (found.1.kind ≠ .none) &&
    !(minimizeEdits && decide (found.2.kind ≠ .none) && decide (found.2.edits < found.1.edits))

/-- The first of the cheapest indexes that are eligible. -/
def cheapest (eligible : ℕ → Bool) (cost : ℕ → ℤ) (n : ℕ) : Option ℕ :=
  (List.range n).foldl (fun best i =>
    if eligible i && best.all fun best => decide (cost i < cost best) then some i else best) none

/-- Assigns each word to the primary field when it can match there, which raises the
class; past the query's edit budget it minimizes edits. -/
def choose (found : List (WordMatch × WordMatch)) (minimizeEdits : Bool) : Choice :=
  let chosen := found.map fun words => if usesPrimary minimizeEdits words then words.1 else words.2
  let inPrimary := found.countP (usesPrimary minimizeEdits)
  let total := (chosen.map (·.edits)).sum
  if minimizeEdits && inPrimary == 0 then
    let primary := fun i => (found.getD i (noMatch, noMatch)).1
    let cost := fun i => ((primary i).edits : ℤ) - (chosen.getD i noMatch).edits
    -- Keep the cheapest name contribution; related words alone are not eligible.
    match cheapest (fun i => (primary i).kind ≠ .none) cost found.length with
    | some best => ⟨chosen.set best (primary best), 1, (total + cost best).toNat⟩
    | none => ⟨chosen, inPrimary, total⟩
  else ⟨chosen, inPrimary, total⟩

def hasFaithful (text : PreparedText) (word : String) (allowPrefix : Bool) : Bool :=
  text.faithfulWords.any fun candidate =>
    candidate == word || (allowPrefix && word.toList.isPrefixOf candidate.toList)

/-- Query words whose written form appears in the record's own fields. -/
def faithfulWords (queryWords : List String) (item : Entity) (allowPrefix : Bool) : ℕ :=
  queryWords.zipIdx.countP fun (word, i) =>
    let last := allowPrefix && i + 1 == queryWords.length
    hasFaithful item.primary word last || item.related.any fun field =>
      hasFaithful field.text word last

/-- Prefers the requested version, or the plain title when none is requested. -/
def versionRank (requested stored : List String) : ℕ :=
  if requested.isEmpty then (!stored.isEmpty).toNat
  else (requested.any fun version => !stored.contains version).toNat

def finish (result : Candidate) (query : Query) (item : Entity) (allowPrefix : Bool) : Candidate :=
  { result with
    faithful := faithfulWords query.faithful item allowPrefix
    versionRank := versionRank query.versions item.primary.text.versions }

def typoLimits (words : List String) (fuzzy : Bool) : List ℕ :=
  if fuzzy then words.map maxEdits else List.replicate words.length 0

/-- The words with their limits; only the last one completes. -/
def queryWords (words : List String) (limits : List ℕ) : List QueryWord :=
  (words.zip limits).zipIdx.map fun ((word, limit), i) => ⟨word, i + 1 == words.length, limit⟩

/-- Past the edit budget the words are assigned once more, with fewer edits. -/
def chooseWithin (found : List (WordMatch × WordMatch)) : Option Choice :=
  let first := choose found false
  if first.total > maxTotalEdits then
    let second := choose found true
    if second.total > maxTotalEdits then none else some second
  else some first

/-- The class of a choice; related words alone have none. -/
def Choice.relevance (choice : Choice) (words : List String) : Option ℕ :=
  if choice.inPrimary = words.length then some classPrimaryOnly
  else if choice.inPrimary > 0 then some classPrimaryRelated
  else none

def evaluateVariant (item : Entity) (words : List String) (query : Query) (fuzzy : Bool) :
    Option Candidate :=
  let limits := typoLimits words fuzzy
  let result := Candidate.new item
  if query.single then
    if words ≠ item.primary.foldedWords ∧ words ≠ item.primary.compactWords then none
    else some (finish { result with relevance := classFullName } query item false)
  else
    match alignedEdits words item.primary limits with
    | some edits => some (finish { result with relevance := classFullName, edits } query item false)
    | none => do
      let found ← (queryWords words limits).mapM (matchFields item)
      let choice ← chooseWithin found
      let relevance ← choice.relevance words
      let prefixDependent := choice.chosen.any fun word => word.kind = .prefixed
      return finish { result with relevance, edits := choice.total, prefixDependent }
        query item true

/-! ### All entities -/

/-- The text that separates equal names. -/
def secondaryText (item : Entity) : String :=
  " / ".intercalate
    ((item.related.filter fun field => relatedKinds.contains field.name.name).map
      fun field => field.text.text.folded)

/-- One variant of the query against the best one so far, which stays when they are
equal. -/
def betterVariant (item : Entity) (query : Query) (fuzzy : Bool) (best : Option Candidate)
    (words : List String) : Option Candidate :=
  match evaluateVariant item words query fuzzy with
  | none => best
  | some result => if best.all fun best => result.less best then some result else best

def evaluate (item : Entity) (query : Query) (fuzzy : Bool) : Option Candidate :=
  (query.variants.foldl (betterVariant item query fuzzy) none).map fun best =>
    { best with secondary := secondaryText item }

inductive Match
  | direct
  | corrected

structure Ranked where
  bestMatch : Option Entity
  groups : Table Kind (List Entity)
  matched : Match
  total : ℕ

/-- The order in which the candidates are sorted: equal ones keep their places. -/
def Candidate.sortsBefore (a b : Candidate) : Bool := !b.less a

def evaluateAll (index : Index) (query : Query) (fuzzy : Bool) (hiddenKind : Option Kind) :
    List Candidate :=
  let shown := index.entities.filter fun item => hiddenKind ≠ some item.kind
  (shown.filterMap fun item => evaluate item query fuzzy).mergeSort Candidate.sortsBefore

def addToGroup (all : Bool) (groups : Table Kind (List Entity)) (entity : Entity) :
    Table Kind (List Entity) :=
  let group := (groups.lookup entity.kind).getD []
  groups.insert entity.kind
    (if all || decide (group.length < groupLimit) then group ++ [entity] else group)

def assemble (candidates : List Candidate) (matched : Match) (all : Bool) : Ranked where
  bestMatch := none
  groups := (candidates.map (·.entity)).foldl (addToGroup all) ∅
  matched := matched
  total := candidates.length

/-- Strong direct matches first; typo correction only when no type has one. An entity of
the hidden kind is left out before ranking. -/
def rank (index : Index) (query : Query) (all : Bool) (hiddenKind : Option Kind) : Ranked :=
  match evaluateAll index query false hiddenKind with
  | best :: rest =>
    { assemble (best :: rest) .direct all with bestMatch := some best.entity }
  | [] => assemble (evaluateAll index query true hiddenKind) .corrected all

end Harmony.Search
