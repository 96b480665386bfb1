/-
# Slots

A walk over a list keeps what it finds in a slot that holds one thing at most, and fails where
a second one would have to go there. The slot is filled at the end where one element of the list
was found.
-/

import Mathlib.Data.List.Forall2

namespace Slots

variable {α β : Type*} {R : α → β → Prop} {slot last : Option β}

/-- The slot before the elements, each of which gives something, and the slot behind them. -/
def Fills (R : α → β → Prop) (slot : Option β) (elements : List α) (last : Option β) : Prop :=
  ∃ given, List.Forall₂ R elements given ∧ slot.toList ++ given = last.toList

/-- A list that a slot can hold. -/
theorem exists_slot {list : List β} (h : list.length ≤ 1) :
    ∃ slot : Option β, slot.toList = list := by
  match list, h with
  | [], _ => exact ⟨none, rfl⟩
  | [b], _ => exact ⟨some b, rfl⟩

theorem toList_inj {first second : Option β} : first.toList = second.toList ↔ first = second := by
  constructor
  · intro h
    cases first with
    | none =>
      cases second with
      | none => rfl
      | some b => cases h
    | some a =>
      cases second with
      | none => cases h
      | some b =>
        cases h
        rfl
  · rintro rfl
    rfl

@[simp] theorem fills_nil_iff : Fills R slot [] last ↔ slot = last := by
  rw [Fills]
  constructor
  · rintro ⟨given, hgiven, heq⟩
    cases hgiven
    rw [List.append_nil] at heq
    exact toList_inj.mp heq
  · rintro rfl
    exact ⟨[], .nil, List.append_nil _⟩

/-- One element needs an empty slot. -/
theorem fills_singleton_iff {a : α} :
    Fills R slot [a] last ↔ slot = none ∧ ∃ b, R a b ∧ last = some b := by
  constructor
  · rintro ⟨given, hgiven, heq⟩
    obtain ⟨b, rest, hb, hrest, rfl⟩ := List.forall₂_cons_left_iff.mp hgiven
    cases hrest
    cases slot with
    | none => exact ⟨rfl, b, hb, toList_inj.mp heq.symm⟩
    | some c =>
      have hlength := congrArg List.length heq
      cases last with
      | none => cases hlength
      | some d => cases hlength
  · rintro ⟨rfl, b, hb, rfl⟩
    exact ⟨[b], .cons hb .nil, rfl⟩

theorem forall₂_append_left {first second : List α} {given : List β}
    (h : List.Forall₂ R (first ++ second) given) :
    ∃ left right, given = left ++ right ∧ List.Forall₂ R first left ∧
      List.Forall₂ R second right := by
  induction first generalizing given with
  | nil => exact ⟨[], given, rfl, .nil, h⟩
  | cons a first ih =>
    obtain ⟨b, rest, hb, hrest, rfl⟩ := List.forall₂_cons_left_iff.mp h
    obtain ⟨left, right, rfl, hleft, hright⟩ := ih hrest
    exact ⟨b :: left, right, rfl, .cons hb hleft, hright⟩

/-- Elements one after another fill a slot in two steps. -/
theorem fills_append_iff {first second : List α} :
    Fills R slot (first ++ second) last ↔
      ∃ middle, Fills R slot first middle ∧ Fills R middle second last := by
  constructor
  · rintro ⟨given, hgiven, heq⟩
    obtain ⟨left, right, rfl, hleft, hright⟩ := forall₂_append_left hgiven
    rw [← List.append_assoc] at heq
    have hlength : (slot.toList ++ left).length ≤ 1 := by
      have hwhole := congrArg List.length heq
      rw [List.length_append] at hwhole
      have hone : last.toList.length ≤ 1 := by
        cases last with
        | none => exact Nat.zero_le 1
        | some b => exact Nat.le_refl 1
      omega
    obtain ⟨middle, hmiddle⟩ := exists_slot hlength
    exact ⟨middle, ⟨left, hleft, hmiddle.symm⟩, right, hright, by rw [hmiddle]; exact heq⟩
  · rintro ⟨middle, ⟨left, hleft, hmiddle⟩, right, hright, heq⟩
    refine ⟨left ++ right, List.rel_append hleft hright, ?_⟩
    rw [← List.append_assoc, hmiddle, heq]

/-- An empty slot is full at the end where there was one element. -/
theorem fills_none_some_iff {elements : List α} {b : β} :
    Fills R none elements (some b) ↔ ∃ a, elements = [a] ∧ R a b := by
  constructor
  · rintro ⟨given, hgiven, heq⟩
    have hone : given = [b] := heq
    rw [hone] at hgiven
    obtain ⟨a, rest, ha, hrest, rfl⟩ := List.forall₂_cons_right_iff.mp hgiven
    cases hrest
    exact ⟨a, rfl, ha⟩
  · rintro ⟨a, rfl, ha⟩
    exact ⟨[b], .cons ha .nil, rfl⟩

end Slots
