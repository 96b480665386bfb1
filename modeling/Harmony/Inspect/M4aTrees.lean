/-
# Trees of atoms

What an M4A file is written as: a tree of atoms, each with the size of one of the three forms
before it. Where the tree is within the limits of the reader, the walk finds the credits that
its freeform atoms state, in the order of the file.
-/

import Harmony.Inspect.M4aWalk

namespace Harmony.Inspect.M4a

open Checked (sub addU64)
open ManagedImport (maxIdentityValueBytes)

/-! ### Trees -/

/-- How the size of an atom is written. -/
inductive Form
  | short
  | long
  /-- The atom reaches to the end of its parent. -/
  | toEnd
  deriving DecidableEq

/-- The form has room for a body of such a length, or the atom is the last of its parent. -/
def Form.Allows (form : Form) (length : ℕ) (isLast : Prop) : Prop :=
  match form with
  | .short => 8 + length < 2 ^ 32
  | .long => 16 + length < 2 ^ 64
  | .toEnd => isLast

instance (form : Form) (length : ℕ) (isLast : Prop) [Decidable isLast] :
    Decidable (form.Allows length isLast) :=
  match form with
  | .short => inferInstanceAs (Decidable (8 + length < 2 ^ 32))
  | .long => inferInstanceAs (Decidable (16 + length < 2 ^ 64))
  | .toEnd => inferInstanceAs (Decidable isLast)

variable {form : Form}

theorem Form.Allows.mono {length : ℕ} {isLast isLast' : Prop} (h : form.Allows length isLast)
    (hlast : isLast → isLast') : form.Allows length isLast' := by
  cases form with
  | short => exact h
  | long => exact h
  | toEnd => exact hlast h

def header (form : Form) (name : List UInt8) (length : ℕ) : List UInt8 :=
  match form with
  | .short => ByteOrder.toBe 4 (8 + length) ++ name
  | .long => ByteOrder.toBe 4 1 ++ name ++ ByteOrder.toBe 8 (16 + length)
  | .toEnd => ByteOrder.toBe 4 0 ++ name

def headerSize (form : Form) : ℕ := if form = .long then 16 else 8

def atomBytes (form : Form) (name body : List UInt8) : List UInt8 :=
  header form name body.length ++ body

/-- An atom with bytes that are not atoms. -/
structure Leaf where
  form : Form
  name : List UInt8
  body : List UInt8
  deriving DecidableEq

namespace Leaf

def bytes (leaf : Leaf) : List UInt8 := atomBytes leaf.form leaf.name leaf.body

/-- The text behind the version and flags, and for a value behind its locale too. -/
def text (leaf : Leaf) : String := tagString (leaf.body.drop (valueOffset leaf.name))

def IsText (leaf : Leaf) : Prop := leaf.name = meanName ∨ leaf.name = nameName

instance : DecidablePred IsText := fun _ => inferInstanceAs (Decidable (_ ∨ _))

/-- The text is there, and is no longer than what is read. -/
def InRange (leaf : Leaf) : Prop :=
  valueOffset leaf.name ≤ leaf.body.length ∧
    leaf.body.length - valueOffset leaf.name ≤ maxIdentityValueBytes

instance : DecidablePred InRange := fun _ => inferInstanceAs (Decidable (_ ∧ _))

end Leaf

def encodeLeaves (leaves : List Leaf) : List UInt8 := leaves.flatMap Leaf.bytes

def AreLeaves : List Leaf → Prop
  | [] => True
  | leaf :: rest =>
    leaf.name.length = 4 ∧ leaf.form.Allows leaf.body.length (rest = []) ∧ AreLeaves rest

instance decidableAreLeaves : DecidablePred AreLeaves
  | [] => .isTrue trivial
  | _ :: rest =>
    have := decidableAreLeaves rest
    inferInstanceAs (Decidable (_ ∧ _ ∧ _))

/-- Atoms that stand one behind another. -/
inductive Forest
  | nil
  | container (form : Form) (name extra : List UInt8) (children next : Forest)
  | freeform (form : Form) (leaves : List Leaf) (next : Forest)
  | other (leaf : Leaf) (next : Forest)
  deriving DecidableEq

/-- The last text of a name among atoms, or the given one where there is none. -/
def textFrom (name : List UInt8) (text : String) (leaves : List Leaf) : String :=
  leaves.foldl (fun text leaf => if leaf.name = name then leaf.text else text) text

/-- The values of a freeform atom under its name, where it is a credit. -/
def creditOf (leaves : List Leaf) : List (String × List String) :=
  let name := textFrom nameName "" leaves
  let values := (leaves.filter fun leaf => leaf.name = dataName).map Leaf.text
  if (⟨textFrom meanName "" leaves, name, values⟩ : Credit).isCredit then [(name, values)] else []

namespace Forest

def encode : Forest → List UInt8
  | nil => []
  | container form name extra children next =>
    atomBytes form name (extra ++ children.encode) ++ next.encode
  | freeform form leaves next =>
    atomBytes form freeformName (encodeLeaves leaves) ++ next.encode
  | other leaf next => leaf.bytes ++ next.encode

/-- Every atom can be written as it says. Four bytes stand before the atoms of a `meta` atom. -/
def Valid : Forest → Prop
  | nil => True
  | container form name extra children next =>
    name ∈ containerNames ∧ extra.length = (if name = metaName then 4 else 0) ∧
      form.Allows (extra ++ children.encode).length (next = nil) ∧ children.Valid ∧ next.Valid
  | freeform form leaves next =>
    AreLeaves leaves ∧ form.Allows (encodeLeaves leaves).length (next = nil) ∧ next.Valid
  | other leaf next =>
    leaf.name.length = 4 ∧ leaf.name ∉ containerNames ∧ leaf.name ≠ freeformName ∧
      leaf.form.Allows leaf.body.length (next = nil) ∧ next.Valid

instance decidableValid : DecidablePred Valid
  | nil => .isTrue trivial
  | container _ _ _ children next =>
    have := decidableValid children
    have := decidableValid next
    inferInstanceAs (Decidable (_ ∧ _ ∧ _ ∧ _ ∧ _))
  | freeform _ _ next =>
    have := decidableValid next
    inferInstanceAs (Decidable (_ ∧ _ ∧ _))
  | other _ next =>
    have := decidableValid next
    inferInstanceAs (Decidable (_ ∧ _ ∧ _ ∧ _ ∧ _))

/-- The credits, in the order of the file. -/
def credits : Forest → List (String × List String)
  | nil => []
  | container _ _ _ children next => children.credits ++ next.credits
  | freeform _ leaves next => creditOf leaves ++ next.credits
  | other _ next => next.credits

def depth : Forest → ℕ
  | nil => 0
  | container _ _ _ children next => max (children.depth + 1) next.depth
  | freeform _ _ next => next.depth
  | other _ next => next.depth

end Forest

/-- No text stands behind a value. -/
abbrev TextsFirst (leaves : List Leaf) : Prop :=
  leaves.Pairwise fun leaf behind => leaf.name = dataName → ¬behind.IsText

/-- The reader can take the credit of a freeform atom: its texts are in range, as its values are
where it is a credit, and no text stands behind a value. -/
structure IsReadable (leaves : List Leaf) : Prop where
  texts : ∀ leaf ∈ leaves, leaf.IsText → leaf.InRange
  values : creditOf leaves ≠ [] → ∀ leaf ∈ leaves, leaf.name = dataName → leaf.InRange
  inOrder : TextsFirst leaves

instance : DecidablePred IsReadable := fun leaves =>
  decidable_of_iff
    ((∀ leaf ∈ leaves, leaf.IsText → leaf.InRange) ∧
      (creditOf leaves ≠ [] → ∀ leaf ∈ leaves, leaf.name = dataName → leaf.InRange) ∧
      TextsFirst leaves)
    ⟨fun ⟨texts, values, inOrder⟩ => ⟨texts, values, inOrder⟩,
      fun ⟨texts, values, inOrder⟩ => ⟨texts, values, inOrder⟩⟩

def Forest.AllReadable : Forest → Prop
  | .nil => True
  | .container _ _ _ children next => children.AllReadable ∧ next.AllReadable
  | .freeform _ leaves next => IsReadable leaves ∧ next.AllReadable
  | .other _ next => next.AllReadable

/-- A file as a tree: the metadata, what stands before it, and the bytes after it. -/
structure Document where
  before : List Leaf
  form : Form
  metadata : Forest
  after : List UInt8

namespace Document

def encode (doc : Document) : List UInt8 :=
  encodeLeaves doc.before ++ (atomBytes doc.form moovName doc.metadata.encode ++ doc.after)

structure Valid (doc : Document) : Prop where
  before : ∀ leaf ∈ doc.before, leaf.name.length = 4 ∧ leaf.name ≠ moovName ∧
    leaf.form.Allows leaf.body.length False
  form : doc.form.Allows doc.metadata.encode.length (doc.after = [])
  metadata : doc.metadata.Valid

structure WithinLimits (doc : Document) : Prop where
  depth : doc.metadata.depth + 1 ≤ maxDepth
  readable : doc.metadata.AllReadable

end Document

/-- The values under a key are those of all credits of the name, one behind another. -/
def Lists (credits : List (String × List String)) (table : Tags) : Prop :=
  ∀ key, table.lookup key =
    if key ∈ credits.map Prod.fst then
      some ((credits.filter fun credit => credit.1 = key).flatMap Prod.snd)
    else none

/-! ### What is read of an atom -/

section Atoms

variable {file : File} {leaves : List Leaf} {credit : Credit} {offset : ℕ} {name : List UInt8}

/-- The bytes stand in the file at an offset. -/
def Holds (file : File) (offset : ℕ) (bytes : List UInt8) : Prop :=
  file.readExactAt bytes.length offset = some bytes

theorem Holds.le {bytes : List UInt8} (h : Holds file offset bytes) :
    offset + bytes.length ≤ file.size :=
  (File.readExactAt_eq_some.mp h).1

/-- Bytes that stand one behind another. -/
theorem Holds.append {front rest : List UInt8} (h : Holds file offset (front ++ rest)) :
    Holds file offset front ∧ Holds file (offset + front.length) rest := by
  obtain ⟨hle, hbytes⟩ := File.readExactAt_eq_some.mp h
  rw [List.length_append] at hle hbytes
  constructor
  · apply File.readExactAt_eq_some.mpr
    constructor
    · omega
    · have htake := congrArg (List.take front.length) hbytes
      rw [List.take_take, Nat.min_eq_left (by omega), List.take_left] at htake
      exact htake
  · apply File.readExactAt_eq_some.mpr
    constructor
    · omega
    · have hdrop := congrArg (List.drop front.length) hbytes
      rw [List.drop_take, List.drop_drop, Nat.add_sub_cancel_left, List.drop_left] at hdrop
      exact hdrop

theorem Holds.eq {offset count : ℕ} {bytes : List UInt8} (h : Holds file offset bytes)
    (hcount : count = bytes.length) : file.readExactAt count offset = some bytes := by
  rw [hcount]
  exact h

theorem length_header {length : ℕ} (hname : name.length = 4) :
    (header form name length).length = headerSize form := by
  cases form <;> simp [header, headerSize, hname]

theorem length_atomBytes {name body : List UInt8} (hname : name.length = 4) :
    (atomBytes form name body).length = headerSize form + body.length := by
  rw [atomBytes, List.length_append, length_header hname]

theorem sizedAtom_eq {offset room size headerSize : ℕ} (hheader : headerSize ≤ size)
    (hroom : size ≤ room) (hlt : offset + size < 2 ^ 64) :
    sizedAtom offset room name size headerSize =
      .ok ⟨name, offset + headerSize, offset + size⟩ := by
  rw [sizedAtom, if_neg (by omega), Checked.addU64_of_lt (by omega), Checked.ok_bind,
    Checked.addU64_of_lt hlt, Checked.ok_bind]

/-- An atom is read back from the size in its header, whatever the form of the size. -/
theorem readAtom_of_holds {offset parentEnd : ℕ} {name body : List UInt8} (hname : name.length = 4)
    (h : Holds file offset (atomBytes form name body))
    (hend : offset + (headerSize form + body.length) ≤ parentEnd) (hfile : parentEnd ≤ file.size)
    (hform : form.Allows body.length (parentEnd = offset + (headerSize form + body.length))) :
    readAtom file offset parentEnd =
      .ok ⟨name, offset + headerSize form, offset + (headerSize form + body.length)⟩ := by
  have hsize := file.size_lt
  rw [readAtom, Checked.sub_of_le (by omega), Checked.ok_bind]
  cases form with
  | short =>
    have hhead := h.append.1
    have hbytes : ByteOrder.ofBe (ByteOrder.toBe 4 (8 + body.length)) = 8 + body.length :=
      ByteOrder.ofBe_toBe hform
    simp only [headerSize, reduceCtorEq, if_false] at hend ⊢
    rw [if_neg (by omega), hhead.eq (by simp [header, hname])]
    simp only [header, List.take_left' (ByteOrder.length_toBe 4 _),
      List.drop_left' (ByteOrder.length_toBe 4 _), hbytes]
    rw [if_neg (by omega), if_neg (by omega)]
    exact sizedAtom_eq (by omega) (by omega) (by omega)
  | long =>
    have hhead := h.append.1
    have hbytes : ByteOrder.ofBe (ByteOrder.toBe 8 (16 + body.length)) = 16 + body.length :=
      ByteOrder.ofBe_toBe hform
    have hone : ByteOrder.ofBe (ByteOrder.toBe 4 1) = 1 := ByteOrder.ofBe_toBe (by decide)
    simp only [headerSize, if_true] at hend ⊢
    have hfront := hhead.append.1
    -- The size stands behind the name.
    have hextended := hhead.append.2
    rw [List.length_append, ByteOrder.length_toBe, hname] at hextended
    rw [if_neg (by omega), hfront.eq (by simp [hname])]
    simp only [List.take_left' (ByteOrder.length_toBe 4 1),
      List.drop_left' (ByteOrder.length_toBe 4 1), hone, if_true]
    rw [extendedAtom, if_neg (by omega), Checked.addU64_of_lt (by omega), Checked.ok_bind,
      hextended.eq (by simp)]
    simp only [hbytes]
    rw [if_neg (by omega)]
    exact sizedAtom_eq (by omega) (by omega) (by omega)
  | toEnd =>
    have hhead := h.append.1
    have hzero : ByteOrder.ofBe (ByteOrder.toBe 4 0) = 0 := ByteOrder.ofBe_toBe (by decide)
    have hlast : parentEnd = offset + (headerSize Form.toEnd + body.length) := hform
    simp only [headerSize, reduceCtorEq, if_false] at hend hlast ⊢
    rw [if_neg (by omega), hhead.eq (by simp [header, hname])]
    simp only [header, List.take_left' (ByteOrder.length_toBe 4 0),
      List.drop_left' (ByteOrder.length_toBe 4 0), hzero]
    rw [if_neg (by omega), if_true, show parentEnd - offset = 8 + body.length by omega]
    exact sizedAtom_eq (by omega) (by omega) (by omega)

theorem headerSize_pos (form : Form) : 8 ≤ headerSize form := by
  cases form <;> decide

/-- The first of some atoms is read, with its body behind the header and the others behind it. -/
theorem readAtom_first {offset stop : ℕ} {name body rest : List UInt8} (hname : name.length = 4)
    (h : Holds file offset (atomBytes form name body ++ rest))
    (hstop : stop = offset + (atomBytes form name body ++ rest).length)
    (hform : form.Allows body.length (rest = [])) :
    ∃ dataStart, offset + 8 ≤ dataStart ∧ stop = dataStart + body.length + rest.length ∧
      readAtom file offset stop = .ok ⟨name, dataStart, dataStart + body.length⟩ ∧
      Holds file dataStart body ∧ Holds file (dataStart + body.length) rest := by
  have hheader := headerSize_pos form
  have hlength : (atomBytes form name body).length = headerSize form + body.length :=
    length_atomBytes hname
  have hle := h.le
  rw [List.length_append, hlength] at hstop hle
  refine ⟨offset + headerSize form, Nat.add_le_add_left hheader offset, by omega, ?_, ?_, ?_⟩
  · rw [Nat.add_assoc]
    apply readAtom_of_holds hname h.append.1 (by omega) (by omega)
    apply hform.mono
    -- Nothing stands behind an atom that reaches to the end.
    intro hlast
    rw [hlast, List.length_nil] at hstop
    exact hstop
  · have hbody := h.append.1.append.2
    rw [length_header hname] at hbody
    exact hbody
  · have hrest := h.append.2
    rw [hlength, ← Nat.add_assoc] at hrest
    exact hrest

/-! ### Freeform atoms -/

/-- What a freeform atom has said behind one more of its children. -/
def Credit.tell (credit : Credit) (leaf : Leaf) : Credit :=
  if leaf.name = meanName then { credit with mean := leaf.text }
  else if leaf.name = nameName then { credit with name := leaf.text }
  else if leaf.name = dataName ∧ credit.isCredit then
    { credit with values := credit.values ++ [leaf.text] }
  else credit

/-- Every child that is read for its text has one in range. -/
def Tells : Credit → List Leaf → Prop
  | _, [] => True
  | credit, leaf :: rest =>
    (leaf.IsText ∨ leaf.name = dataName ∧ credit.isCredit → leaf.InRange) ∧
      Tells (credit.tell leaf) rest

theorem readAtomString_of_holds {leaf : Leaf} (h : Holds file offset leaf.body)
    (hrange : leaf.InRange) :
    readAtomString file ⟨leaf.name, offset, offset + leaf.body.length⟩ = .ok leaf.text := by
  have hfile := file.size_lt
  have hle := h.le
  obtain ⟨hlow, hhigh⟩ := hrange
  have hvalue : Holds file (offset + valueOffset leaf.name)
      (leaf.body.drop (valueOffset leaf.name)) := by
    have hsplit := h
    rw [← List.take_append_drop (valueOffset leaf.name) leaf.body] at hsplit
    have hrest := hsplit.append.2
    rw [List.length_take, Nat.min_eq_left hlow] at hrest
    exact hrest
  rw [readAtomString, Checked.sub_of_le (Nat.le_add_right _ _), Checked.ok_bind,
    Nat.add_sub_cancel_left]
  simp only
  rw [if_neg (by omega), Checked.addU64_of_lt (by omega), Checked.ok_bind,
    hvalue.eq (by rw [List.length_drop])]
  rfl

theorem readChild_of_holds {leaf : Leaf} (h : Holds file offset leaf.body)
    (hrange : leaf.IsText ∨ leaf.name = dataName ∧ credit.isCredit → leaf.InRange) :
    readChild file ⟨leaf.name, offset, offset + leaf.body.length⟩ credit =
      .ok (credit.tell leaf) := by
  rw [readChild, Credit.tell]
  by_cases hmean : leaf.name = meanName
  · rw [if_pos hmean, if_pos hmean, readAtomString_of_holds h (hrange (.inl (.inl hmean)))]
    rfl
  · rw [if_neg hmean, if_neg hmean]
    by_cases hname : leaf.name = nameName
    · rw [if_pos hname, if_pos hname, readAtomString_of_holds h (hrange (.inl (.inr hname)))]
      rfl
    · rw [if_neg hname, if_neg hname]
      by_cases hdata : leaf.name = dataName ∧ credit.isCredit
      · rw [if_pos hdata, if_pos hdata, readAtomString_of_holds h (hrange (.inr hdata))]
        rfl
      · rw [if_neg hdata, if_neg hdata]

/-- The children of a freeform atom are read one behind another. -/
theorem childrenFrom_of_holds {depth fuel offset : ℕ} {atom : Atom} (hleaves : AreLeaves leaves)
    (h : Holds file offset (encodeLeaves leaves))
    (hstop : atom.stop = offset + (encodeLeaves leaves).length) (hpos : 0 < fuel)
    (hfuel : atom.stop < offset + fuel) (htells : Tells credit leaves) :
    (childrenFrom file depth atom fuel offset credit).result =
      .ok (leaves.foldl Credit.tell credit) := by
  induction leaves generalizing fuel offset credit with
  | nil =>
    obtain ⟨fuel, rfl⟩ := Nat.exists_eq_add_of_le' hpos
    rw [childrenFrom, if_pos (by rw [hstop]; exact Nat.le_refl _)]
    rfl
  | cons leaf rest ih =>
    obtain ⟨fuel, rfl⟩ := Nat.exists_eq_add_of_le' hpos
    obtain ⟨hname, hform, hrest⟩ := hleaves
    obtain ⟨dataStart, hstart, hlast, hread, hbody, hnext⟩ := readAtom_first hname h hstop
      (hform.mono fun hnil => by rw [hnil]; rfl)
    rw [childrenFrom, if_neg (by omega), hread, Traced.result_bind rfl, Traced.result_note_bind,
      readChild_of_holds hbody htells.1, Traced.result_bind rfl, List.foldl_cons]
    exact ih hrest hnext hlast (by omega) (by simp only; omega) htells.2

/-- Where no text is left, what a freeform atom still says is its values. -/
theorem foldl_tell_of_values (htexts : ∀ leaf ∈ leaves, ¬leaf.IsText) :
    leaves.foldl Credit.tell credit =
      { credit with
        values := credit.values ++
          if credit.isCredit then
            (leaves.filter fun leaf => leaf.name = dataName).map Leaf.text
          else [] } := by
  induction leaves generalizing credit with
  | nil => simp
  | cons leaf rest ih =>
    have hfirst := htexts leaf List.mem_cons_self
    have hmean : leaf.name ≠ meanName := fun h => hfirst (.inl h)
    have hname : leaf.name ≠ nameName := fun h => hfirst (.inr h)
    rw [List.foldl_cons, ih fun other hother => htexts other (List.mem_cons_of_mem _ hother),
      Credit.tell, if_neg hmean, if_neg hname]
    by_cases hcredit : credit.isCredit = true
    · by_cases hdata : leaf.name = dataName
      · have hsame :
            Credit.isCredit { credit with values := credit.values ++ [leaf.text] } = true :=
          hcredit
        rw [if_pos ⟨hdata, hcredit⟩]
        simp [hsame, hcredit, hdata]
      · rw [if_neg fun h => hdata h.1]
        simp [hdata]
    · rw [if_neg fun h => hcredit h.2]
      simp [hcredit]

theorem foldl_tell_mean (leaves : List Leaf) (credit : Credit) :
    (leaves.foldl Credit.tell credit).mean = textFrom meanName credit.mean leaves := by
  refine (List.foldl_hom Credit.mean ?_).symm
  intro state leaf
  rw [Credit.tell]
  split_ifs <;> rfl

theorem foldl_tell_name (leaves : List Leaf) (credit : Credit) :
    (leaves.foldl Credit.tell credit).name = textFrom nameName credit.name leaves := by
  refine (List.foldl_hom Credit.name ?_).symm
  intro state leaf
  rw [Credit.tell]
  split_ifs with hmean hname
  · rw [hmean] at hname
    exact absurd hname (by decide)
  · rfl
  · rfl
  · rfl
  · rfl

/-- The atom is a credit at its end where it is one at its first value. -/
theorem isCredit_foldl_tell (htexts : ∀ leaf ∈ leaves, ¬leaf.IsText) :
    (leaves.foldl Credit.tell credit).isCredit = credit.isCredit := by
  rw [foldl_tell_of_values htexts]
  rfl

theorem TextsFirst.not_isText {leaf : Leaf} {rest : List Leaf} (h : TextsFirst (leaf :: rest))
    (hdata : leaf.name = dataName) : ∀ other ∈ leaf :: rest, ¬other.IsText := by
  intro other hother
  rcases List.mem_cons.mp hother with rfl | hbehind
  · rw [Leaf.IsText, hdata]
    decide
  · exact (List.pairwise_cons.mp h).1 other hbehind hdata

/-- A credit whose texts come first has every value of the atom. -/
theorem foldl_tell_values (hinOrder : TextsFirst leaves)
    (hcredit : (leaves.foldl Credit.tell credit).isCredit) :
    (leaves.foldl Credit.tell credit).values =
      credit.values ++ (leaves.filter fun leaf => leaf.name = dataName).map Leaf.text := by
  induction leaves generalizing credit with
  | nil => simp
  | cons leaf rest ih =>
    by_cases hdata : leaf.name = dataName
    · have htexts := hinOrder.not_isText hdata
      rw [isCredit_foldl_tell htexts] at hcredit
      rw [foldl_tell_of_values htexts, if_pos hcredit]
    · have hsame : (credit.tell leaf).values = credit.values := by
        rw [Credit.tell]
        split_ifs with _ _ h
        · rfl
        · rfl
        · exact absurd h.1 hdata
        · rfl
      rw [List.foldl_cons] at hcredit ⊢
      rw [ih (List.pairwise_cons.mp hinOrder).2 hcredit, hsame]
      simp [hdata]

theorem tells_of_inRange (hinOrder : TextsFirst leaves)
    (htexts : ∀ leaf ∈ leaves, leaf.IsText → leaf.InRange)
    (hvalues : (leaves.foldl Credit.tell credit).isCredit →
      ∀ leaf ∈ leaves, leaf.name = dataName → leaf.InRange) : Tells credit leaves := by
  induction leaves generalizing credit with
  | nil => trivial
  | cons leaf rest ih =>
    constructor
    · intro hread
      rcases hread with htext | ⟨hdata, hcredit⟩
      · exact htexts leaf List.mem_cons_self htext
      · apply hvalues _ leaf List.mem_cons_self hdata
        rw [isCredit_foldl_tell (hinOrder.not_isText hdata)]
        exact hcredit
    · apply ih (List.pairwise_cons.mp hinOrder).2
      · intro other hother
        exact htexts other (List.mem_cons_of_mem _ hother)
      · intro hcredit other hother
        exact hvalues hcredit other (List.mem_cons_of_mem _ hother)

/-- What the reader makes of a freeform atom is the credit it states. -/
theorem readCredit_of_holds {depth offset : ℕ} {credits : Tags} (hleaves : AreLeaves leaves)
    (hreadable : IsReadable leaves) (h : Holds file offset (encodeLeaves leaves)) :
    (readCredit file depth ⟨freeformName, offset, offset + (encodeLeaves leaves).length⟩
      credits).result =
      .ok ((creditOf leaves).foldl (fun table credit => table.extend credit.1 credit.2)
        credits) := by
  have hle := h.le
  -- The credit that was read is one where the stated one is.
  have hcredit : (leaves.foldl Credit.tell .empty).isCredit = true ↔ creditOf leaves ≠ [] := by
    rw [creditOf, Credit.isCredit, foldl_tell_mean, foldl_tell_name]
    split_ifs with hstated
    · exact iff_of_true hstated (List.cons_ne_nil _ _)
    · exact iff_of_false hstated fun hnone => hnone rfl
  have htells := tells_of_inRange hreadable.inOrder hreadable.texts fun hends =>
    hreadable.values (hcredit.mp hends)
  have hchildren : (childrenFrom file depth
      ⟨freeformName, offset, offset + (encodeLeaves leaves).length⟩ (file.size + 1) offset
      .empty).result = .ok (leaves.foldl Credit.tell .empty) :=
    childrenFrom_of_holds hleaves h rfl (Nat.succ_pos _) (by simp only; omega) htells
  rw [readCredit, if_pos rfl, readFreeformCredit, Traced.result_bind hchildren]
  by_cases hends : (leaves.foldl Credit.tell .empty).isCredit = true
  · have hvalues := foldl_tell_values hreadable.inOrder hends
    have hname := foldl_tell_name leaves .empty
    have hstated : creditOf leaves = [(_, _)] := if_pos (by
      rw [Credit.isCredit, foldl_tell_mean, foldl_tell_name] at hends
      exact hends)
    rw [if_pos hends, hstated, hvalues, hname]
    rfl
  · have hnone : creditOf leaves = [] := not_not.mp fun h => hends (hcredit.mpr h)
    rw [if_neg hends, hnone]
    rfl

/-! ### The walk over a tree -/

theorem childStart_eq {atom : Atom} {room : ℕ}
    (hroom : room = if atom.name = metaName then 4 else 0)
    (hstop : atom.dataStart + room ≤ atom.stop)
    (hlt : atom.stop < 2 ^ 64) : childStart atom = .ok (atom.dataStart + room) := by
  rw [childStart, ← hroom, Checked.addU64_of_lt (by omega), Checked.ok_bind, if_neg (by omega)]

theorem length_containerName (h : name ∈ containerNames) : name.length = 4 := by
  revert name
  decide

/-- The walk over a tree finds its credits in order. -/
theorem walkFrom_of_holds {forest : Forest} {fuel start stop depth offset : ℕ} {credits : Tags}
    (hvalid : forest.Valid) (hreadable : forest.AllReadable)
    (hdepth : depth + forest.depth ≤ maxDepth) (h : Holds file offset forest.encode)
    (hstop : stop = offset + forest.encode.length) (hpos : 0 < fuel)
    (hfuel : stop < offset + fuel) :
    (walkFrom file fuel start stop depth offset credits).result =
      .ok (forest.credits.foldl (fun table credit => table.extend credit.1 credit.2) credits) := by
  have hsize := file.size_lt
  induction forest generalizing fuel start stop depth offset credits with
  | nil =>
    obtain ⟨fuel, rfl⟩ := Nat.exists_eq_add_of_le' hpos
    rw [walkFrom, if_pos (by rw [hstop]; exact Nat.le_refl _)]
    rfl
  | container form name extra children next ihChildren ihNext =>
    obtain ⟨fuel, rfl⟩ := Nat.exists_eq_add_of_le' hpos
    obtain ⟨hname, hextra, hform, hchildren, hnext⟩ := hvalid
    obtain ⟨dataStart, hstart, hlast, hread, hbody, hrest⟩ :=
      readAtom_first (length_containerName hname) h hstop (hform.mono fun hnil => by rw [hnil]; rfl)
    rw [List.length_append] at hlast hread hrest
    have hinside := hbody.append.2
    have hle := hbody.le
    rw [List.length_append] at hle
    rw [Forest.depth] at hdepth
    have hfreeform : name ≠ freeformName := by
      rintro rfl
      exact absurd hname (by decide)
    have hown :
        readCredit file depth ⟨name, dataStart, dataStart + (extra.length + children.encode.length)⟩
        credits = pure credits := if_neg hfreeform
    rw [walkFrom, if_neg (by omega), hread, Traced.result_bind rfl, Traced.result_note_bind, hown,
      Traced.result_bind rfl, if_pos hname,
      childStart_eq hextra (by simp only; omega) (by simp only; omega), Traced.result_bind rfl,
      if_neg (by omega),
      Traced.result_bind (ihChildren hchildren hreadable.1 (by omega) hinside (by simp only; omega)
        (by omega) (by simp only; omega)),
      Forest.credits, List.foldl_append]
    exact ihNext hnext hreadable.2 (by omega) hrest (by omega) (by omega) (by simp only; omega)
  | freeform form leaves next ihNext =>
    obtain ⟨fuel, rfl⟩ := Nat.exists_eq_add_of_le' hpos
    obtain ⟨hleaves, hform, hnext⟩ := hvalid
    obtain ⟨dataStart, hstart, hlast, hread, hbody, hrest⟩ :=
      readAtom_first rfl h hstop (hform.mono fun hnil => by rw [hnil]; rfl)
    rw [walkFrom, if_neg (by omega), hread, Traced.result_bind rfl, Traced.result_note_bind,
      Traced.result_bind (readCredit_of_holds hleaves hreadable.1 hbody),
      if_neg (show freeformName ∉ containerNames by decide),
      Forest.credits, List.foldl_append]
    exact ihNext hnext hreadable.2 hdepth hrest hlast (by omega) (by simp only; omega)
  | other leaf next ihNext =>
    obtain ⟨fuel, rfl⟩ := Nat.exists_eq_add_of_le' hpos
    obtain ⟨hname, hcontainer, hfreeform, hform, hnext⟩ := hvalid
    obtain ⟨dataStart, hstart, hlast, hread, -, hrest⟩ :=
      readAtom_first hname h hstop (hform.mono fun hnil => by rw [hnil]; rfl)
    have hown : readCredit file depth ⟨leaf.name, dataStart, dataStart + leaf.body.length⟩ credits =
        pure credits := if_neg hfreeform
    rw [walkFrom, if_neg (by omega), hread, Traced.result_bind rfl, Traced.result_note_bind, hown,
      Traced.result_bind rfl, if_neg hcontainer]
    exact ihNext hnext hreadable hdepth hrest hlast (by omega) (by simp only; omega)

/-- The atoms before the metadata are passed over. -/
theorem topLevelFrom_of_holds {doc : Document} (hvalid : doc.Valid) (hlimits : doc.WithinLimits)
    {before : List Leaf} (hbefore : ∀ leaf ∈ before, leaf ∈ doc.before) {fuel offset : ℕ}
    (h : Holds file offset
      (encodeLeaves before ++ (atomBytes doc.form moovName doc.metadata.encode ++ doc.after)))
    (hend : file.size = offset + (encodeLeaves before ++
      (atomBytes doc.form moovName doc.metadata.encode ++ doc.after)).length)
    (hpos : 0 < fuel) (hfuel : file.size < offset + fuel) :
    (topLevelFrom file fuel offset).result =
      .ok (doc.metadata.credits.foldl (fun table credit => table.extend credit.1 credit.2) ∅) := by
  induction before generalizing fuel offset with
  | nil =>
    obtain ⟨fuel, rfl⟩ := Nat.exists_eq_add_of_le' hpos
    obtain ⟨dataStart, hstart, hlast, hread, hbody, -⟩ := readAtom_first rfl h hend hvalid.form
    have hdepth := hlimits.depth
    rw [topLevelFrom, if_neg (by omega), hread, Traced.result_bind rfl, Traced.result_note_bind,
      if_pos rfl, walk, if_neg (by decide)]
    exact walkFrom_of_holds hvalid.metadata hlimits.readable (by omega) hbody rfl (by omega)
      (by simp only; omega)
  | cons leaf rest ih =>
    obtain ⟨fuel, rfl⟩ := Nat.exists_eq_add_of_le' hpos
    obtain ⟨hname, hmoov, hform⟩ := hvalid.before leaf (hbefore leaf List.mem_cons_self)
    rw [encodeLeaves, List.flatMap_cons, List.append_assoc] at h hend
    obtain ⟨dataStart, hstart, hlast, hread, -, hrest⟩ :=
      readAtom_first hname h hend (hform.mono False.elim)
    rw [topLevelFrom, if_neg (by omega), hread, Traced.result_bind rfl, Traced.result_note_bind,
      if_neg hmoov]
    exact ih (fun other hother => hbefore other (List.mem_cons_of_mem _ hother)) hrest hlast
      (by omega) (by simp only; omega)

end Atoms

/-! ### The table of credits -/

theorem Lists.extend {credits : List (String × List String)} {table : Tags}
    (h : Lists credits table) (credit : String × List String) :
    Lists (credits ++ [credit]) (table.extend credit.1 credit.2) := by
  intro key
  rw [Tags.extend]
  by_cases hkey : key = credit.1
  · subst hkey
    have hget : table.get credit.1 =
        (credits.filter fun other => other.1 = credit.1).flatMap Prod.snd := by
      rw [Tags.get, h credit.1]
      split_ifs with hmem
      · rfl
      · have hnone : (credits.filter fun other => other.1 = credit.1) = [] := by
          apply List.filter_eq_nil_iff.mpr
          intro other hother
          rw [decide_eq_true_iff]
          rintro hsame
          exact hmem (hsame ▸ List.mem_map_of_mem hother)
        rw [hnone]
        rfl
    rw [AList.lookup_insert, hget, if_pos (by simp)]
    simp
  · rw [AList.lookup_insert_ne hkey, h key]
    have hother : ¬credit.1 = key := fun h => hkey h.symm
    have hmem : key ∈ (credits ++ [credit]).map Prod.fst ↔ key ∈ credits.map Prod.fst := by
      rw [List.map_append, List.mem_append, List.map_cons, List.map_nil, List.mem_singleton]
      exact or_iff_left hkey
    have hfilter : ((credits ++ [credit]).filter fun other => other.1 = key) =
        credits.filter fun other => other.1 = key := by
      rw [List.filter_append, List.filter_cons_of_neg (by simpa using hother), List.filter_nil,
        List.append_nil]
    rw [hfilter]
    exact if_congr hmem.symm rfl rfl

theorem Lists.foldl {prior credits : List (String × List String)} {table : Tags}
    (h : Lists prior table) :
    Lists (prior ++ credits)
      (credits.foldl (fun table credit => table.extend credit.1 credit.2) table) := by
  induction credits generalizing prior table with
  | nil =>
    rw [List.append_nil]
    exact h
  | cons credit rest ih =>
    rw [List.append_cons, List.foldl_cons]
    exact ih (h.extend credit)

/-- Whatever a file holds, the read ends inside its atoms; and where the file is a tree within the
limits, what was read are its credits. -/
theorem readStructuredCredits_spec (file : File) :
    Traced.Meets (Visit.IsInside file) (fun _ => True) (readStructuredCredits file) ∧
      ∀ doc : Document, doc.Valid → doc.WithinLimits → file.bytes = doc.encode →
        ∃ table, (readStructuredCredits file).result = .ok table ∧
          Lists doc.metadata.credits table := by
  refine ⟨readStructuredCredits_meets file, ?_⟩
  intro doc hvalid hlimits hbytes
  have hwhole : Holds file 0 doc.encode := by
    apply File.readExactAt_eq_some.mpr
    rw [← hbytes, Nat.zero_add, List.drop_zero]
    exact ⟨Nat.le_refl _, List.take_length⟩
  have hsize : file.size = 0 + doc.encode.length := by
    rw [Nat.zero_add, ← hbytes]
    rfl
  have hresult := topLevelFrom_of_holds hvalid hlimits (fun leaf hleaf => hleaf) hwhole hsize
    (Nat.succ_pos file.size) (by omega)
  have hnone : Lists [] (∅ : Tags) := by
    intro key
    rfl
  exact ⟨_, hresult, hnone.foldl⟩

/-! ### Files -/

section Files

/-- A text of a freeform atom, behind so many bytes. -/
def textLeaf (name : List UInt8) (zeros : ℕ) (text : List Char) : Leaf :=
  ⟨.short, name, List.replicate zeros 0 ++ Utf8.encode text⟩

def iTunes : Leaf := textLeaf meanName 4 "com.apple.iTunes".toList

def artists : Leaf := textLeaf nameName 4 "ARTISTS".toList

def valueOf (text : List Char) : Leaf := textLeaf dataName 8 text

/-- The item list with some freeform atoms, all sizes in four bytes or to the end. -/
def itemList (items : Forest) : Forest :=
  .container .short udtaName [] (.container .toEnd metaName [0, 0, 0, 0]
    (.container .long ilstName [] items .nil) .nil) .nil

def song (items : Forest) : Document :=
  ⟨[⟨.short, [0x66, 0x74, 0x79, 0x70], []⟩], .toEnd, itemList items, []⟩

def duet : Document :=
  song (.freeform .short [iTunes, artists, valueOf ['A'], valueOf ['B']]
    (.freeform .toEnd [iTunes, artists, valueOf ['C']] .nil))

/-- A value of 201 bytes. -/
def longValue : Document :=
  song (.freeform .short [iTunes, artists, valueOf (List.replicate 201 'A')] .nil)

/-- A value before the texts. -/
def lateTexts : Document :=
  song (.freeform .short [valueOf ['A'], iTunes, artists] .nil)

/-- Containers inside each other. -/
def nested : ℕ → Forest
  | 0 => .nil
  | n + 1 => .container .short udtaName [] (nested n) .nil

def deep : Document := ⟨[], .short, nested 8, []⟩

def duetFile : File := ⟨duet.encode, by decide +kernel⟩

def longValueFile : File := ⟨longValue.encode, by decide +kernel⟩

def lateTextsFile : File := ⟨lateTexts.encode, by decide +kernel⟩

def deepFile : File := ⟨deep.encode, by decide +kernel⟩

theorem song_valid {items : Forest} (hitems : (itemList items).Valid) : (song items).Valid where
  before leaf hleaf := by
    rw [List.mem_singleton.mp hleaf]
    decide
  form := rfl
  metadata := hitems

/-- A song with two credits of one name, which are read back as one list. -/
theorem readStructuredCredits_duet :
    ∃ table, (readStructuredCredits duetFile).result = .ok table ∧
      Lists duet.metadata.credits table := by
  apply (readStructuredCredits_spec duetFile).2 duet (song_valid (by decide +kernel)) _ rfl
  constructor
  · decide
  · change (((IsReadable _ ∧ IsReadable _ ∧ True) ∧ True) ∧ True) ∧ True
    decide +kernel

theorem not_lists_of_isOk {file : File} {credits : List (String × List String)}
    (h : (readStructuredCredits file).result.isOk = false) :
    ¬∃ table, (readStructuredCredits file).result = .ok table ∧ Lists credits table := by
  rintro ⟨table, hresult, -⟩
  rw [hresult] at h
  cases h

/-- Not read back are a tree that is nested too deep, one with a value that is too long, and a
value that stands before the texts. -/
theorem not_lists_beyond_limits :
    (deep.Valid ∧ ¬∃ table, (readStructuredCredits deepFile).result = .ok table ∧
        Lists deep.metadata.credits table) ∧
      (longValue.Valid ∧ ¬∃ table, (readStructuredCredits longValueFile).result = .ok table ∧
        Lists longValue.metadata.credits table) ∧
      lateTexts.Valid ∧ ¬∃ table, (readStructuredCredits lateTextsFile).result = .ok table ∧
        Lists lateTexts.metadata.credits table := by
  refine ⟨⟨⟨?_, ?_, ?_⟩, not_lists_of_isOk ?_⟩,
    ⟨song_valid (by decide +kernel), not_lists_of_isOk ?_⟩, song_valid (by decide +kernel), ?_⟩
  · intro leaf hleaf
    exact absurd hleaf List.not_mem_nil
  · decide +kernel
  · decide +kernel
  · decide +kernel
  · decide +kernel
  · rintro ⟨table, hresult, hlists⟩
    have hread : (readStructuredCredits lateTextsFile).result.toOption.map
        (fun table => table.lookup "ARTISTS") = some (some []) := by
      decide +kernel
    have hstated : lateTexts.metadata.credits = [("ARTISTS", ["A"])] := by
      decide +kernel
    rw [hresult] at hread
    have hkey := (Option.some.inj hread).symm.trans (hlists "ARTISTS")
    rw [hstated] at hkey
    exact absurd hkey (by decide)

end Files

end Harmony.Inspect.M4a
