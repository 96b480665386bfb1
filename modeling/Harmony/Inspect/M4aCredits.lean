/-
# Credits in M4A files

The credits of an MP4 file are freeform atoms under its `moov` atom. The atoms are walked from
the sizes in their headers, a container being entered for the atoms in it; what is noted on the
way is each atom that is read, with the bounds of its parent.
-/

import Harmony.Inspect.Files
import Harmony.Inspect.Metadata
import Harmony.Library.ByteOrder
import Harmony.Library.Traced

namespace Harmony.Inspect.M4a

open Checked (sub addU64)
open ManagedImport (maxIdentityValueBytes)

def maxDepth : ℕ := 8

def moovName : List UInt8 := [0x6d, 0x6f, 0x6f, 0x76]

def udtaName : List UInt8 := [0x75, 0x64, 0x74, 0x61]

def metaName : List UInt8 := [0x6d, 0x65, 0x74, 0x61]

def ilstName : List UInt8 := [0x69, 0x6c, 0x73, 0x74]

def freeformName : List UInt8 := [0x2d, 0x2d, 0x2d, 0x2d]

def meanName : List UInt8 := [0x6d, 0x65, 0x61, 0x6e]

def nameName : List UInt8 := [0x6e, 0x61, 0x6d, 0x65]

def dataName : List UInt8 := [0x64, 0x61, 0x74, 0x61]

def containerNames : List (List UInt8) := [moovName, udtaName, metaName, ilstName]

structure Atom where
  name : List UInt8
  dataStart : ℕ
  stop : ℕ

/-- An atom that is read, with the bounds of its parent. The depth is the walk's, zero at the top
of the file; a child of a free-form atom has that of the atom itself. -/
structure Visit where
  depth : ℕ
  parentStart : ℕ
  parentStop : ℕ
  offset : ℕ
  atom : Atom

section Atoms

variable (file : File)

/-- The atom at an offset with so much room behind it, from the sizes of its header. -/
def sizedAtom (offset room : ℕ) (name : List UInt8) (size headerSize : ℕ) : Checked String Atom :=
  if size < headerSize ∨ room < size then Checked.fail "MP4 atom size is invalid"
  else do
    let dataStart ← addU64 offset headerSize
    let stop ← addU64 offset size
    .ok ⟨name, dataStart, stop⟩

/-- An atom with a size of eight bytes. -/
def extendedAtom (offset room : ℕ) (name : List UInt8) : Checked String Atom :=
  if room < 16 then Checked.fail "extended MP4 atom header is truncated"
  else do
    let start ← addU64 offset 8
    match file.readExactAt 8 start with
    | none => Checked.fail "read extended MP4 atom header: unexpected EOF"
    | some extended =>
      let size := ByteOrder.ofBe extended
      if room < size then Checked.fail "extended MP4 atom exceeds parent"
      else sizedAtom offset room name size 16

def readAtom (offset parentEnd : ℕ) : Checked String Atom := do
  let room ← sub parentEnd offset
  if room < 8 then Checked.fail "MP4 atom header is truncated"
  else
    match file.readExactAt 8 offset with
    | none => Checked.fail "read MP4 atom header: unexpected EOF"
    | some header =>
      let size := ByteOrder.ofBe (header.take 4)
      let name := header.drop 4
      if size = 1 then extendedAtom file offset room name
      else sizedAtom offset room name (if size = 0 then room else size) 8

/-- How many bytes stand before the value of an atom. -/
def valueOffset (name : List UInt8) : ℕ := if name = dataName then 8 else 4

def readAtomString (atom : Atom) : Checked String String := do
  let header := valueOffset atom.name
  let room ← sub atom.stop atom.dataStart
  if room < header ∨ maxIdentityValueBytes < room - header then
    Checked.fail "MP4 metadata value size is invalid"
  else
    let start ← addU64 atom.dataStart header
    match file.readExactAt (room - header) start with
    | none => Checked.fail "read MP4 metadata value: unexpected EOF"
    | some value => .ok (tagString value)

/-! ### Freeform atoms -/

/-- What a freeform atom has said so far. -/
structure Credit where
  mean : String
  name : String
  values : List String

def Credit.empty : Credit := ⟨"", "", []⟩

def Credit.isCredit (credit : Credit) : Bool :=
  credit.mean = "com.apple.iTunes" ∧ (credit.name = "ARTISTS" ∨ credit.name = "ALBUMARTISTS")

/-- Reads a child of a freeform atom. A value counts where the atom is known to be a credit. -/
def readChild (child : Atom) (credit : Credit) : Checked String Credit :=
  if child.name = meanName then do
    let mean ← readAtomString file child
    .ok { credit with mean }
  else if child.name = nameName then do
    let name ← readAtomString file child
    .ok { credit with name }
  else if child.name = dataName ∧ credit.isCredit then do
    let value ← readAtomString file child
    .ok { credit with values := credit.values ++ [value] }
  else .ok credit

/-- Reads the children of an atom from an offset on. -/
def childrenFrom (depth : ℕ) (atom : Atom) : ℕ → ℕ → Credit → Traced Visit String Credit
  | 0, _, _ => .lift (.error .unfinished)
  | fuel + 1, offset, credit =>
    if atom.stop ≤ offset then pure credit
    else do
      let child ← .lift (readAtom file offset atom.stop)
      Traced.note ⟨depth, atom.dataStart, atom.stop, offset, child⟩
      let credit ← .lift (readChild file child credit)
      childrenFrom depth atom fuel child.stop credit

def readFreeformCredit (depth : ℕ) (atom : Atom) (credits : Tags) : Traced Visit String Tags := do
  let credit ← childrenFrom file depth atom (file.size + 1) atom.dataStart .empty
  if credit.isCredit then pure (credits.extend credit.name credit.values) else pure credits

/-- Reads an atom for what it says itself. -/
def readCredit (depth : ℕ) (atom : Atom) (credits : Tags) : Traced Visit String Tags :=
  if atom.name = freeformName then readFreeformCredit file depth atom credits else pure credits

/-! ### The walk -/

/-- Where the children of a container begin. -/
def childStart (atom : Atom) : Checked String ℕ := do
  let start ← addU64 atom.dataStart (if atom.name = metaName then 4 else 0)
  if atom.stop < start then Checked.fail "MP4 metadata container is truncated" else .ok start

/-- Walks the atoms of a parent from an offset on. Every atom is shorter than what was left of its
parent, and what is in it is shorter than the atom. -/
def walkFrom : ℕ → ℕ → ℕ → ℕ → ℕ → Tags → Traced Visit String Tags
  | 0, _, _, _, _, _ => .lift (.error .unfinished)
  | fuel + 1, start, stop, depth, offset, credits =>
    if stop ≤ offset then pure credits
    else do
      let atom ← .lift (readAtom file offset stop)
      Traced.note ⟨depth, start, stop, offset, atom⟩
      let credits ← readCredit file depth atom credits
      if atom.name ∈ containerNames then do
        let inside ← .lift (childStart atom)
        -- The depth is checked before anything in the container is read.
        if maxDepth < depth + 1 then .fail "MP4 metadata nesting exceeds limit"
        else do
          let credits ← walkFrom fuel inside atom.stop (depth + 1) inside credits
          walkFrom fuel start stop depth atom.stop credits
      else walkFrom fuel start stop depth atom.stop credits

def walk (start stop depth : ℕ) (credits : Tags) : Traced Visit String Tags :=
  if maxDepth < depth then .fail "MP4 metadata nesting exceeds limit"
  else walkFrom file (file.size + 1) start stop depth start credits

/-- Looks for the metadata among the atoms of the file. -/
def topLevelFrom : ℕ → ℕ → Traced Visit String Tags
  | 0, _ => .lift (.error .unfinished)
  | fuel + 1, offset =>
    if file.size ≤ offset then .fail "MP4 metadata atom is missing"
    else do
      let atom ← .lift (readAtom file offset file.size)
      Traced.note ⟨0, 0, file.size, offset, atom⟩
      if atom.name = moovName then walk file atom.dataStart atom.stop 1 ∅
      else topLevelFrom fuel atom.stop

def readStructuredCredits : Traced Visit String Tags := topLevelFrom file (file.size + 1) 0

end Atoms

end Harmony.Inspect.M4a
