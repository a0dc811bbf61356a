import Mathlib.Tactic.Linarith

/-! # Terminated groups

A list whose elements may be terminators is cut behind every terminator, into the complete groups in order and what is
left behind the last one. -/

namespace Noid.Lib

open List

variable {α : Type} (p : α → Bool)

/-- A list that ends at its only terminator. -/
def Terminated (l : List α) : Prop := ∃ init last, l = init ++ [last] ∧ p last = true ∧ ∀ x ∈ init, p x = false

/-- The complete groups of a list and the rest. -/
def groupsOf : List α → List (List α) × List α
  | [] => ([], [])
  | a :: l =>
    if p a then ([a] :: (groupsOf l).1, (groupsOf l).2)
    else match (groupsOf l).1 with
      | [] => ([], a :: (groupsOf l).2)
      | g :: gs => ((a :: g) :: gs, (groupsOf l).2)

variable {p}

lemma Terminated.ne_nil {l : List α} (h : Terminated p l) : l ≠ [] := by
  obtain ⟨init, last, rfl, -⟩ := h
  simp

lemma Terminated.singleton {a : α} (h : p a = true) : Terminated p [a] :=
  ⟨[], a, rfl, h, fun _ hx => by cases hx⟩

lemma Terminated.cons {a : α} {l : List α} (ha : p a = false) (h : Terminated p l) : Terminated p (a :: l) := by
  obtain ⟨init, last, rfl, hlast, hinit⟩ := h
  exact ⟨a :: init, last, rfl, hlast, forall_mem_cons.mpr ⟨ha, hinit⟩⟩

lemma flatten_groupsOf (l : List α) : (groupsOf p l).1.flatten ++ (groupsOf p l).2 = l := by
  induction l with
  | nil => rfl
  | cons a l ih =>
    unfold groupsOf
    split_ifs with ha
    · exact congrArg (a :: ·) ih
    · split
      · rename_i hnil
        rw [hnil, flatten_nil, nil_append] at ih
        exact congrArg (a :: ·) ih
      · rename_i g gs hcons
        rw [hcons, flatten_cons] at ih
        exact congrArg (a :: ·) ih

lemma findIdx?_of_terminated {g rest : List α} (h : Terminated p g) :
    (g ++ rest).findIdx? p = some (g.length - 1) := by
  obtain ⟨init, last, rfl, hlast, hinit⟩ := h
  induction init with
  | nil =>
    rw [nil_append, singleton_append, findIdx?_cons, if_pos hlast]
    rfl
  | cons a init ih =>
    obtain ⟨ha, hinit⟩ := forall_mem_cons.mp hinit
    rw [cons_append, cons_append, findIdx?_cons, if_neg (by rw [ha]; exact Bool.false_ne_true), ih hinit]
    simp

end Noid.Lib
