/-
# Traversals that may fail

A traversal of a list that succeeds has succeeded at each of its elements.
-/

import Mathlib.Data.List.Forall2

namespace Traversal

variable {α β ε : Type} {f : α → Except ε β} {inputs : List α} {outputs : List β}

/-- Two steps succeed together where each does. -/
theorem bind_eq_ok {γ : Type} {x : Except ε α} {g : α → Except ε γ} {c : γ} :
    x >>= g = .ok c ↔ ∃ a, x = .ok a ∧ g a = .ok c := by
  cases x with
  | ok a => simp [bind, Except.bind]
  | error error => simp [bind, Except.bind]

/-- A traversal that succeeds pairs each input with its output. -/
theorem forall₂_of_mapM (h : inputs.mapM f = .ok outputs) :
    List.Forall₂ (fun input output => f input = .ok output) inputs outputs := by
  induction inputs generalizing outputs with
  | nil =>
    cases h
    exact .nil
  | cons input inputs ih =>
    rw [List.mapM_cons] at h
    cases hfirst : f input with
    | error error => simp [hfirst, bind, Except.bind] at h
    | ok first =>
      cases hrest : inputs.mapM f with
      | error error => simp [hfirst, hrest, bind, Except.bind] at h
      | ok rest =>
        simp only [hfirst, hrest, bind, Except.bind, pure, Except.pure] at h
        cases h
        exact .cons hfirst (ih hrest)

/-- Where each input has an output, the traversal gives these. -/
theorem mapM_of_forall₂
    (h : List.Forall₂ (fun input output => f input = .ok output) inputs outputs) :
    inputs.mapM f = .ok outputs := by
  induction h with
  | nil => rfl
  | @cons input output inputs outputs hfirst _ ih =>
    rw [List.mapM_cons, hfirst, ih]
    rfl

theorem mapM_eq_ok_iff :
    inputs.mapM f = .ok outputs ↔
      List.Forall₂ (fun input output => f input = .ok output) inputs outputs :=
  ⟨forall₂_of_mapM, mapM_of_forall₂⟩

variable {R : α → β → Prop}

theorem exists_of_mem_left (h : List.Forall₂ R inputs outputs) {input : α}
    (hinput : input ∈ inputs) : ∃ output ∈ outputs, R input output := by
  induction h with
  | nil => cases hinput
  | @cons first out inputs outputs hfirst _ ih =>
    rcases List.mem_cons.mp hinput with rfl | hinput
    · exact ⟨out, List.mem_cons_self, hfirst⟩
    · obtain ⟨output, houtput, hR⟩ := ih hinput
      exact ⟨output, List.mem_cons_of_mem _ houtput, hR⟩

theorem exists_of_mem_right (h : List.Forall₂ R inputs outputs) {output : β}
    (houtput : output ∈ outputs) : ∃ input ∈ inputs, R input output := by
  obtain ⟨input, hinput, hR⟩ := exists_of_mem_left (List.Forall₂.flip h) houtput
  exact ⟨input, hinput, hR⟩

/-- What a traversal gives comes from one of its elements. -/
theorem exists_input_of_mapM (h : inputs.mapM f = .ok outputs) :
    ∀ output ∈ outputs, ∃ input ∈ inputs, f input = .ok output :=
  fun _ => exists_of_mem_right (forall₂_of_mapM h)

/-- Each element has given something. -/
theorem exists_output_of_mapM (h : inputs.mapM f = .ok outputs) :
    ∀ input ∈ inputs, ∃ output ∈ outputs, f input = .ok output :=
  fun _ => exists_of_mem_left (forall₂_of_mapM h)

end Traversal
