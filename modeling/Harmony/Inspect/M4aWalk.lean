/-
# The walk over the atoms of an M4A file

Whatever the bytes of a file are, the walk ends without an overflow, every atom it reads lies
inside its parent, and no atom is read more than eight levels deep.
-/

import Harmony.Inspect.M4aCredits

namespace Harmony.Inspect.M4a

open Checked (sub addU64)

/-- The atom lies inside its parent, and its parent inside the file at a depth in range. -/
structure Visit.IsInside (file : File) (visit : Visit) : Prop where
  depth : visit.depth ≤ maxDepth
  parent : visit.parentStart ≤ visit.offset
  header : visit.offset + 8 ≤ visit.atom.dataStart
  data : visit.atom.dataStart ≤ visit.atom.stop
  stop : visit.atom.stop ≤ visit.parentStop
  file : visit.parentStop ≤ file.size

section Atoms

variable {file : File} {atom : Atom}

/-- What is known of an atom that was read at an offset inside a parent. -/
structure Atom.Fits (offset parentEnd : ℕ) (atom : Atom) : Prop where
  header : offset + 8 ≤ atom.dataStart
  data : atom.dataStart ≤ atom.stop
  stop : atom.stop ≤ parentEnd

theorem sizedAtom_meets {offset room parentEnd size headerSize : ℕ} {name : List UInt8}
    (hend : parentEnd < 2 ^ 63) (hroom : offset + room ≤ parentEnd) (hheader : 8 ≤ headerSize) :
    Checked.Meets (Atom.Fits offset parentEnd) (sizedAtom offset room name size headerSize) := by
  rw [sizedAtom]
  apply Checked.Meets.ite
  · intro _
    exact Checked.Meets.fail _
  · intro hsize
    rw [Checked.addU64_of_lt (by omega), Checked.ok_bind, Checked.addU64_of_lt (by omega),
      Checked.ok_bind]
    apply Checked.Meets.ok
    constructor
    · exact Nat.add_le_add_left hheader offset
    · change offset + headerSize ≤ offset + size
      omega
    · change offset + size ≤ parentEnd
      omega

theorem readAtom_meets {offset parentEnd : ℕ} (hoffset : offset ≤ parentEnd)
    (hend : parentEnd ≤ file.size) :
    Checked.Meets (Atom.Fits offset parentEnd) (readAtom file offset parentEnd) := by
  have hfile := file.size_lt
  rw [readAtom, Checked.sub_of_le hoffset, Checked.ok_bind]
  apply Checked.Meets.ite
  · intro _
    exact Checked.Meets.fail _
  · intro hroom
    cases file.readExactAt 8 offset with
    | none => exact Checked.Meets.fail _
    | some header =>
      apply Checked.Meets.ite
      · intro _
        rw [extendedAtom]
        apply Checked.Meets.ite
        · intro _
          exact Checked.Meets.fail _
        · intro _
          rw [Checked.addU64_of_lt (by omega), Checked.ok_bind]
          cases file.readExactAt 8 (offset + 8) with
          | none => exact Checked.Meets.fail _
          | some extended =>
            apply Checked.Meets.ite
            · intro _
              exact Checked.Meets.fail _
            · intro _
              exact sizedAtom_meets (by omega) (by omega) (by omega)
      · intro _
        exact sizedAtom_meets (by omega) (by omega) (Nat.le_refl 8)

theorem readAtomString_meets (hdata : atom.dataStart ≤ atom.stop) (hstop : atom.stop ≤ file.size) :
    Checked.Meets (fun _ => True) (readAtomString file atom) := by
  have hfile := file.size_lt
  have hvalue : valueOffset atom.name ≤ 8 := by
    rw [valueOffset]
    split_ifs
    · exact Nat.le_refl 8
    · decide
  rw [readAtomString, Checked.sub_of_le hdata, Checked.ok_bind]
  apply Checked.Meets.ite
  · intro _
    exact Checked.Meets.fail _
  · intro _
    rw [Checked.addU64_of_lt (by omega), Checked.ok_bind]
    cases file.readExactAt (atom.stop - atom.dataStart - valueOffset atom.name)
      (atom.dataStart + valueOffset atom.name) with
    | none => exact Checked.Meets.fail _
    | some value => exact Checked.Meets.ok trivial

theorem readChild_meets {child : Atom} {credit : Credit} (hdata : child.dataStart ≤ child.stop)
    (hstop : child.stop ≤ file.size) :
    Checked.Meets (fun _ => True) (readChild file child credit) := by
  have hstring := readAtomString_meets hdata hstop
  rw [readChild]
  apply Checked.Meets.ite
  · intro _
    exact hstring.bind fun _ _ => Checked.Meets.ok trivial
  · intro _
    apply Checked.Meets.ite
    · intro _
      exact hstring.bind fun _ _ => Checked.Meets.ok trivial
    · intro _
      apply Checked.Meets.ite
      · intro _
        exact hstring.bind fun _ _ => Checked.Meets.ok trivial
      · intro _
        exact Checked.Meets.ok trivial

/-- The children of an atom lie inside it. -/
theorem childrenFrom_meets {depth fuel offset : ℕ} {credit : Credit} (hdepth : depth ≤ maxDepth)
    (hstop : atom.stop ≤ file.size) (hoffset : atom.dataStart ≤ offset) (hpos : 0 < fuel)
    (hfuel : atom.stop < offset + fuel) :
    Traced.Meets (Visit.IsInside file) (fun _ => True)
      (childrenFrom file depth atom fuel offset credit) := by
  induction fuel generalizing offset credit with
  | zero => exact absurd hpos (Nat.lt_irrefl 0)
  | succ fuel ih =>
    rw [childrenFrom]
    apply Traced.Meets.ite
    · intro _
      exact Traced.Meets.pure trivial
    · intro hmore
      apply (Traced.Meets.lift (readAtom_meets (by omega) hstop)).bind
      intro child hchild
      obtain ⟨hheader, hdata, hchildStop⟩ := hchild
      apply (Traced.Meets.note
        (⟨hdepth, hoffset, hheader, hdata, hchildStop, hstop⟩ : Visit.IsInside file _)).bind
      intro _ _
      apply (Traced.Meets.lift (readChild_meets hdata (by omega))).bind
      intro next _
      exact ih (by omega) (by omega) (by omega)

theorem readCredit_meets {depth : ℕ} {credits : Tags} (hdepth : depth ≤ maxDepth)
    (hstop : atom.stop ≤ file.size) :
    Traced.Meets (Visit.IsInside file) (fun _ => True) (readCredit file depth atom credits) := by
  rw [readCredit]
  apply Traced.Meets.ite
  · intro _
    apply (childrenFrom_meets hdepth hstop (Nat.le_refl _) (Nat.succ_pos _) (by omega)).bind
    intro credit _
    apply Traced.Meets.ite
    · intro _
      exact Traced.Meets.pure trivial
    · intro _
      exact Traced.Meets.pure trivial
  · intro _
    exact Traced.Meets.pure trivial

theorem childStart_meets (hdata : atom.dataStart ≤ atom.stop) (hstop : atom.stop ≤ file.size) :
    Checked.Meets (fun start => atom.dataStart ≤ start ∧ start ≤ atom.stop) (childStart atom) := by
  have hfile := file.size_lt
  rw [childStart]
  by_cases hmeta : atom.name = metaName
  · rw [if_pos hmeta, Checked.addU64_of_lt (by omega), Checked.ok_bind]
    apply Checked.Meets.ite
    · intro _
      exact Checked.Meets.fail _
    · intro hroom
      exact Checked.Meets.ok ⟨by omega, by omega⟩
  · rw [if_neg hmeta, Checked.addU64_of_lt (by omega), Checked.ok_bind]
    apply Checked.Meets.ite
    · intro _
      exact Checked.Meets.fail _
    · intro hroom
      exact Checked.Meets.ok ⟨by omega, by omega⟩

/-- The walk over a parent stays inside it, and so does the walk over each container in it. -/
theorem walkFrom_meets {fuel start stop depth offset : ℕ} {credits : Tags}
    (hdepth : depth ≤ maxDepth)
    (hstop : stop ≤ file.size) (hstart : start ≤ offset) (hpos : 0 < fuel)
    (hfuel : stop < offset + fuel) :
    Traced.Meets (Visit.IsInside file) (fun _ => True)
      (walkFrom file fuel start stop depth offset credits) := by
  induction fuel generalizing start stop depth offset credits with
  | zero => exact absurd hpos (Nat.lt_irrefl 0)
  | succ fuel ih =>
    rw [walkFrom]
    apply Traced.Meets.ite
    · intro _
      exact Traced.Meets.pure trivial
    · intro hmore
      apply (Traced.Meets.lift (readAtom_meets (by omega) hstop)).bind
      intro atom hatom
      obtain ⟨hheader, hdata, hatomStop⟩ := hatom
      apply (Traced.Meets.note
        (⟨hdepth, hstart, hheader, hdata, hatomStop, hstop⟩ : Visit.IsInside file _)).bind
      intro _ _
      have hrest : ∀ next, Traced.Meets (Visit.IsInside file) (fun _ => True)
          (walkFrom file fuel start stop depth atom.stop next) := by
        intro next
        exact ih hdepth hstop (by omega) (by omega) (by omega)
      have hinside : atom.stop ≤ file.size := by omega
      apply (readCredit_meets hdepth hinside).bind
      intro next _
      apply Traced.Meets.ite
      · intro _
        apply (Traced.Meets.lift (childStart_meets hdata (by omega))).bind
        rintro inside ⟨hlow, hhigh⟩
        apply Traced.Meets.ite
        · intro _
          exact Traced.Meets.fail _
        · intro hlevel
          apply (ih (by omega) (by omega) (Nat.le_refl _) (by omega) (by omega)).bind
          intro after _
          exact hrest after
      · intro _
        exact hrest next

theorem topLevelFrom_meets {fuel offset : ℕ} (hpos : 0 < fuel) (hfuel : file.size < offset + fuel) :
    Traced.Meets (Visit.IsInside file) (fun _ => True) (topLevelFrom file fuel offset) := by
  induction fuel generalizing offset with
  | zero => exact absurd hpos (Nat.lt_irrefl 0)
  | succ fuel ih =>
    rw [topLevelFrom]
    apply Traced.Meets.ite
    · intro _
      exact Traced.Meets.fail _
    · intro hmore
      apply (Traced.Meets.lift (readAtom_meets (by omega) (Nat.le_refl _))).bind
      intro atom hatom
      obtain ⟨hheader, hdata, hstop⟩ := hatom
      apply (Traced.Meets.note
        (⟨Nat.zero_le _, Nat.zero_le _, hheader, hdata, hstop, Nat.le_refl _⟩ :
        Visit.IsInside file _)).bind
      intro _ _
      apply Traced.Meets.ite
      · intro _
        rw [walk, if_neg (by decide)]
        exact walkFrom_meets (by decide) hstop (Nat.le_refl _) (Nat.succ_pos _) (by omega)
      · intro _
        exact ih (by omega) (by omega)

/-- Every read of a file ends, and reads no atom outside its parent or too deep. -/
theorem readStructuredCredits_meets (file : File) :
    Traced.Meets (Visit.IsInside file) (fun _ => True) (readStructuredCredits file) :=
  topLevelFrom_meets (Nat.succ_pos _) (by omega)

end Atoms

end Harmony.Inspect.M4a
