import Mathlib.Algebra.Order.BigOperators.Group.Finset
import Mathlib.Tactic.Linarith
import Mathlib.Tactic.Ring

/-! # Runs of partial step functions

A component that takes one operation after another is a function `step : σ → ι → Option σ`, where `none` says that the
operation is refused, or that the program would stop there. -/

namespace Noid.Lib

/-! ### Reachable states -/

section Reachable

variable {σ ι : Type*} {init : σ → Prop} {step : σ → ι → Option σ}

/-- The states some finite sequence of accepted operations leads to. -/
inductive Reachable (init : σ → Prop) (step : σ → ι → Option σ) : σ → Prop where
  | start {s : σ} : init s → Reachable init step s
  | next {s s' : σ} (i : ι) : Reachable init step s → step s i = some s' → Reachable init step s'

/-- What holds initially and is kept by every accepted operation holds of every reachable state. -/
theorem Reachable.invariant {P : σ → Prop} (h0 : ∀ s, init s → P s)
    (hstep : ∀ s i s', P s → step s i = some s' → P s') {s : σ} (hs : Reachable init step s) :
    P s := by
  induction hs with
  | start h => exact h0 _ h
  | next i _ h ih => exact hstep _ i _ ih h

end Reachable

/-! ### Runs with their operations -/

section RunOps

variable {σ ι : Type*} {step : σ → ι → Option σ}

/-- The state after the operations `ops`, when every one of them is accepted. -/
def runOps (step : σ → ι → Option σ) : σ → List ι → Option σ
  | s, [] => some s
  | s, i :: ops =>
    match step s i with
    | none => none
    | some s' => runOps step s' ops

lemma Reachable.runOps {init : σ → Prop} : ∀ {ops : List ι} {s s' : σ}, Reachable init step s →
    Lib.runOps step s ops = some s' → Reachable init step s'
  | [], s, s', hs, h => by
    cases h
    exact hs
  | i :: ops, s, s', hs, h => by
    rw [Lib.runOps] at h
    cases hi : step s i with
    | none =>
      rw [hi] at h
      cases h
    | some s1 =>
      rw [hi] at h
      exact (hs.next i hi).runOps h

end RunOps

/-! ### Loops -/

/-- A loop body that succeeds from every state of `P` and stays in `P` runs to the end. -/
theorem foldlM_option_of_inv {α β : Type*} {P : β → Prop} {f : β → α → Option β} :
    ∀ (l : List α) (b : β), P b → (∀ b a, a ∈ l → P b → ∃ b', f b a = some b' ∧ P b') →
      ∃ b', l.foldlM f b = some b' ∧ P b'
  | [], b, hb, _ => ⟨b, rfl, hb⟩
  | a :: l, b, hb, h => by
    obtain ⟨b1, h1, hb1⟩ := h b a (by simp) hb
    obtain ⟨b2, h2, hb2⟩ := foldlM_option_of_inv l b1 hb1
      (fun b a ha hb => h b a (.tail _ ha) hb)
    exact ⟨b2, by simp [List.foldlM_cons, h1, h2], hb2⟩

end Noid.Lib
