/-
# Names prepared for search

What the search triggers store for a name: its spelling, folded forms of it and
the version words of a title. The Unicode tables behind case folding,
normalization and categories are a parameter; everything else is computed here.
-/

import Harmony.Library.Chars

namespace Harmony.Search

open Chars (isWhitespace splitWhitespace joinWords splitOnce trimMatches)

/-- The kinds of searchable entities. -/
inductive Kind
  | track
  | album
  | artist
  | genre
  | playlist
  deriving DecidableEq

def Kind.name : Kind → String
  | track => "track"
  | album => "album"
  | artist => "artist"
  | genre => "genre"
  | playlist => "playlist"

/-- The general categories that matter here. -/
inductive GeneralCategory
  | uppercaseLetter
  | lowercaseLetter
  | titlecaseLetter
  | modifierLetter
  | otherLetter
  | decimalNumber
  | nonspacingMark
  | other
  deriving DecidableEq

/-- The Unicode tables. -/
structure Unicode where
  defaultCaseFold : String → String
  nfc : String → String
  nfd : String → String
  generalCategory : Char → GeneralCategory

def isLetter : GeneralCategory → Bool
  | .uppercaseLetter | .lowercaseLetter | .titlecaseLetter | .modifierLetter | .otherLetter => true
  | _ => false

def apostrophe : Char := Char.ofNat 0x27

def rightQuote : Char := Char.ofNat 0x2019

def dotlessI : Char := Char.ofNat 0x131

def versionWords : List String :=
  ["live", "remix", "acoustic", "instrumental", "demo", "remaster", "radio edit"]

/-- Spelling evidence and two punctuation alternatives. `compact` joins
punctuation within a word, never words with whitespace between them. -/
structure Text where
  original : String
  faithful : String
  folded : String
  compact : String
  versions : List String

section Prepare

variable (U : Unicode)

/-- What one character of the decomposed value becomes. -/
def foldCharacter (compact : Bool) (c : Char) : List Char :=
  let category := U.generalCategory c
  if category = .nonspacingMark then []
  else if c = dotlessI then ['i']
  else if isLetter category || decide (category = .decimalNumber) then [c]
  else if isWhitespace c then [' ']
  else if c = apostrophe ∨ c = rightQuote then []
  else if compact then []
  else [' ']

def foldWords (value : String) (compact : Bool) : List Char :=
  joinWords ((U.nfd value).toList.flatMap (foldCharacter U compact))

def prepareText (value : String) : Text :=
  let foldedCase := U.nfc (U.defaultCaseFold value)
  let faithful := String.ofList (joinWords foldedCase.toList)
  { original := value
    faithful
    folded := String.ofList (foldWords U faithful false)
    compact := String.ofList (foldWords U faithful true)
    versions := [] }

/-- Whether the words occur among the words of the value. -/
def containsWords (value : List Char) (words : String) : Bool :=
  decide (([' '] ++ words.toList ++ [' ']) <:+: ([' '] ++ value ++ [' ']))

def findVersions (value : String) : List String :=
  versionWords.filter fun version =>
    containsWords value.toList version ||
      (decide (version = "remaster") && containsWords value.toList "remastered")

/-- The captures of `\(([^()]*)\)` from left to right, inside a parenthesis that
has been read as far as `section?`. -/
def parenthesized : Option (List Char) → List Char → List (List Char)
  | _, [] => []
  | group, c :: rest =>
    if c = '(' then parenthesized (some []) rest
    else
      match group with
      | none => parenthesized none rest
      | some read =>
        if c = ')' then read.reverse :: parenthesized none rest
        else parenthesized (some (c :: read)) rest

/-- The version words of the parenthesized and ` - ` sections, each once. -/
def titleVersions (value : String) : List String :=
  let suffix := (splitOnce " - ".toList value.toList).map Prod.snd
  let sections := parenthesized none value.toList ++ suffix.toList
  let found := sections.flatMap fun words =>
    findVersions (prepareText U (String.ofList words)).folded
  found.foldl (fun versions version =>
    if version ∈ versions then versions else versions ++ [version]) []

/-- Prepares a stored name. Track and Album titles also record the version
qualifiers of their suffix sections. -/
def prepareStored (value : String) (kind : Kind) : Text :=
  let text := prepareText U value
  match kind with
  | .track | .album => { text with versions := titleVersions U value }
  | .artist | .genre | .playlist => text

/-! ### Word lists -/

/-- One stored text with its word lists. -/
structure PreparedText where
  text : Text
  faithfulWords : List String
  foldedWords : List String
  compactWords : List String

def isLetterOrDigit (c : Char) : Bool :=
  let category := U.generalCategory c
  isLetter category || decide (category = .decimalNumber)

def fields (value : String) : List String := (splitWhitespace value.toList).map String.ofList

/-- Keeps accents and inner punctuation as spelling evidence, and drops enclosing
punctuation. -/
def splitFaithful (faithful : String) : List String :=
  let words := (splitWhitespace faithful.toList).map (trimMatches fun c => !isLetterOrDigit U c)
  (words.filter fun word => !word.isEmpty).map String.ofList

def PreparedText.new (text : Text) : PreparedText where
  text
  faithfulWords := splitFaithful U text.faithful
  foldedWords := fields text.folded
  compactWords := fields text.compact

end Prepare

end Harmony.Search
