import Mathlib.Tactic.Linarith

/-! # Budgets over windows

A limiter grants a budget to a window of time; the first spend behind the window opens a new one of the same length, with
the full budget.  An interval as long as a window meets at most two of them, so at most two budgets are spent in it. -/

namespace Noid.Lib

open List

/-- A granted spend, with the end of the window that it was charged to. -/
structure Spend where
  time : ℕ
  amount : ℕ
  window : ℕ

/-- What was spent at the times that satisfy a predicate. -/
def spentAt (p : ℕ → Bool) (l : List Spend) : ℕ := ((l.filter fun e => p e.time).map (·.amount)).sum

lemma spentAt_append (p : ℕ → Bool) (l l' : List Spend) : spentAt p (l ++ l') = spentAt p l + spentAt p l' := by
  simp [spentAt]

lemma spentAt_singleton (p : ℕ → Bool) (e : Spend) : spentAt p [e] = if p e.time then e.amount else 0 := by
  unfold spentAt
  split_ifs with h <;> simp [h]

variable {p : ℕ → Bool} {l : List Spend}

lemma spentAt_eq_zero (h : ∀ e ∈ l, p e.time = false) : spentAt p l = 0 := by
  have hnil : l.filter (fun e => p e.time) = [] := filter_eq_nil_iff.mpr fun e he => by simp [h e he]
  simp [spentAt, hnil]

/-- Times that are covered by two other sets of times. -/
theorem spentAt_le_add {q r : ℕ → Bool} (h : ∀ e ∈ l, p e.time = true → q e.time = true ∨ r e.time = true) :
    spentAt p l ≤ spentAt q l + spentAt r l := by
  induction l with
  | nil => simp [spentAt]
  | cons e l ih =>
    have hl := ih fun e he => h e (.tail _ he)
    have he := h e mem_cons_self
    rw [← singleton_append, spentAt_append, spentAt_append, spentAt_append, spentAt_singleton, spentAt_singleton,
      spentAt_singleton]
    by_cases hp : p e.time = true
    · rcases he hp with h1 | h2
      · rw [if_pos hp, if_pos h1]
        omega
      · rw [if_pos hp, if_pos h2]
        omega
    · rw [if_neg hp]
      omega

lemma spentAt_mono {q : ℕ → Bool} (h : ∀ e ∈ l, p e.time = true → q e.time = true) :
    spentAt p l ≤ spentAt q l := by
  have := spentAt_le_add (r := fun _ => false) (l := l) fun e he hp => .inl (h e he hp)
  rwa [spentAt_eq_zero (p := fun _ => false) fun _ _ => rfl] at this

/-! ### The limiter -/

structure WindowState where
  remaining : ℕ
  windowEnd : ℕ

variable {budget period start : ℕ} {st : WindowState}

def WindowState.charge (budget period : ℕ) (st : WindowState) (time amount : ℕ) : Option WindowState :=
  if time < st.windowEnd then
    if amount ≤ st.remaining then some { st with remaining := st.remaining - amount } else none
  else if amount ≤ budget then some { remaining := budget - amount, windowEnd := time + period } else none

/-- Granted spends in the order of their times, none before the start of the first window. -/
inductive WindowRun (budget period start : ℕ) : List Spend → WindowState → Prop where
  | start : WindowRun budget period start [] { remaining := budget, windowEnd := start + period }
  | spend {l : List Spend} {st st' : WindowState} {time amount : ℕ} (run : WindowRun budget period start l st)
      (order : ∀ e ∈ l, e.time ≤ time) (started : start ≤ time)
      (granted : st.charge budget period time amount = some st') :
      WindowRun budget period start (l ++ [{ time := time, amount := amount, window := st'.windowEnd }]) st'

def inWindow (period windowEnd time : ℕ) : Bool := decide (windowEnd ≤ time + period ∧ time < windowEnd)

/-- The times of an interval as long as a window. -/
def inInterval (period first time : ℕ) : Bool := decide (first ≤ time ∧ time < first + period)

def windowEnds (period start : ℕ) (l : List Spend) : List ℕ := (start + period) :: l.map (·.window)

/-- What a run keeps: the spends of earlier windows lie before `opened`, and those less than a period before it belong
to one window. -/
structure WindowInv (budget period start opened : ℕ) (l : List Spend) (st : WindowState) : Prop where
  windowEnd : st.windowEnd = opened + period
  current : spentAt (fun t => decide (opened ≤ t)) l + st.remaining = budget
  previous : spentAt (fun t => decide (opened ≤ t + period ∧ t < opened)) l ≤ budget
  before : ∀ e ∈ l, e.time < st.windowEnd
  reached : ∀ t, start ≤ t → (∀ e ∈ l, e.time ≤ t) → opened ≤ t
  ends : ∀ w ∈ windowEnds period start l, w = st.windowEnd ∨ w ≤ opened
  window : ∀ w ∈ windowEnds period start l, spentAt (inWindow period w) l ≤ budget
  interval : ∀ a, spentAt (inInterval period a) l ≤ 2 * budget

lemma windowEnds_append (l l' : List Spend) (w : ℕ) :
    w ∈ windowEnds period start (l ++ l') ↔ w ∈ windowEnds period start l ∨ w ∈ l'.map (·.window) := by
  simp [windowEnds, or_assoc]

lemma WindowInv.of_current {opened : ℕ} {e : Spend} (hend : st.windowEnd = opened + period)
    (hcurrent : spentAt (fun t => decide (opened ≤ t)) (l ++ [e]) + st.remaining = budget)
    (hprevious : spentAt (fun t => decide (opened ≤ t + period ∧ t < opened)) (l ++ [e]) ≤ budget)
    (hbefore : ∀ x ∈ l ++ [e], x.time < st.windowEnd) (he : opened ≤ e.time) (hwindow : e.window = st.windowEnd)
    (hends : ∀ w ∈ windowEnds period start l, w = st.windowEnd ∨ w ≤ opened)
    (hold : ∀ w ∈ windowEnds period start l, spentAt (inWindow period w) l ≤ budget)
    (hinterval : ∀ a, spentAt (inInterval period a) l ≤ 2 * budget) :
    WindowInv budget period start opened (l ++ [e]) st := by
  refine ⟨hend, hcurrent, hprevious, hbefore, ?_, ?_, ?_, ?_⟩
  · intro t _ hall
    exact he.trans (hall e (by simp))
  · intro w hw
    rcases (windowEnds_append l [e] w).mp hw with hw | hw
    · exact hends w hw
    · obtain rfl : w = e.window := by simpa using hw
      exact .inl hwindow
  · intro w hw
    have hcases : w = st.windowEnd ∨ w ∈ windowEnds period start l ∧ w ≤ opened := by
      rcases (windowEnds_append l [e] w).mp hw with hw | hw
      · rcases hends w hw with h | h
        · exact .inl h
        · exact .inr ⟨hw, h⟩
      · obtain rfl : w = e.window := by simpa using hw
        exact .inl hwindow
    rcases hcases with rfl | ⟨hw, hle⟩
    · -- the current window
      have := spentAt_mono (p := inWindow period st.windowEnd) (q := fun t => decide (opened ≤ t)) (l := l ++ [e]) <| by
        intro x _ hx
        simp only [inWindow, decide_eq_true_eq] at hx ⊢
        omega
      omega
    · -- an earlier window ended before the current one was opened
      have hout : inWindow period w e.time = false := by
        simp only [inWindow, decide_eq_false_iff_not]
        omega
      rw [spentAt_append, spentAt_singleton, hout]
      exact hold w hw
  · intro a
    by_cases hin : inInterval period a e.time = true
    · simp only [inInterval, decide_eq_true_eq] at hin
      have hcover := spentAt_le_add (p := inInterval period a) (q := fun t => decide (opened ≤ t))
        (r := fun t => decide (opened ≤ t + period ∧ t < opened)) (l := l ++ [e]) <| by
          intro x _ hx
          simp only [inInterval, decide_eq_true_eq] at hx ⊢
          omega
      omega
    · rw [spentAt_append, spentAt_singleton, if_neg hin]
      exact hinterval a

section
variable (hperiod : 0 < period) (h : WindowRun budget period start l st)
include hperiod h

/-- **Every run keeps the invariant.** -/
theorem WindowRun.inv : ∃ opened, WindowInv budget period start opened l st := by
  induction h with
  | start =>
    refine ⟨start, rfl, by simp [spentAt], by simp [spentAt], by simp, fun t ht _ => ht, ?_, ?_, by simp [spentAt]⟩
    · intro w hw
      exact .inl (by simpa [windowEnds] using hw)
    · intro w _
      simp [spentAt]
  | @spend l st st' time amount run order started granted ih =>
    obtain ⟨opened, hinv⟩ := ih
    unfold WindowState.charge at granted
    by_cases hin : time < st.windowEnd
    · -- inside the current window
      split_ifs at granted with hle
      cases granted
      have hopened := hinv.reached time started order
      refine ⟨opened, .of_current hinv.windowEnd ?_ ?_ ?_ hopened rfl hinv.ends hinv.window hinv.interval⟩
      · have := hinv.current
        rw [spentAt_append, spentAt_singleton, if_pos (decide_eq_true hopened)]
        simp only
        omega
      · have hout : ¬(decide (opened ≤ time + period ∧ time < opened)) = true := by
          simp only [decide_eq_true_eq]
          omega
        rw [spentAt_append, spentAt_singleton, if_neg hout]
        exact hinv.previous
      · exact forall_mem_append.mpr ⟨hinv.before, forall_mem_singleton.mpr hin⟩
    · -- behind it: a new window
      split_ifs at granted with hle
      cases granted
      have hend := hinv.windowEnd
      refine ⟨time, .of_current rfl ?_ ?_ ?_ le_rfl rfl ?_ hinv.window hinv.interval⟩
      · have hnone : spentAt (fun t => decide (time ≤ t)) l = 0 := by
          refine spentAt_eq_zero fun e he => decide_eq_false ?_
          have := hinv.before e he
          omega
        rw [spentAt_append, spentAt_singleton, hnone, if_pos (decide_eq_true le_rfl)]
        simp only
        omega
      · have hmono := spentAt_mono (p := fun t => decide (time ≤ t + period ∧ t < time))
          (q := fun t => decide (opened ≤ t)) (l := l) <| by
            intro x _ hx
            simp only [decide_eq_true_eq] at hx ⊢
            omega
        have := hinv.current
        rw [spentAt_append, spentAt_singleton, if_neg (by simp)]
        omega
      · refine forall_mem_append.mpr ⟨fun x hx => ?_, forall_mem_singleton.mpr ?_⟩
        · have := hinv.before x hx
          simp only
          omega
        · simp only
          omega
      · intro w hw
        rcases hinv.ends w hw with h | h <;> right <;> omega

lemma WindowRun.window_le {w : ℕ} (hw : w ∈ windowEnds period start l) :
    spentAt (inWindow period w) l ≤ budget := by
  obtain ⟨opened, hinv⟩ := h.inv hperiod
  exact hinv.window w hw

lemma WindowRun.interval_le (a : ℕ) : spentAt (inInterval period a) l ≤ 2 * budget := by
  obtain ⟨opened, hinv⟩ := h.inv hperiod
  exact hinv.interval a

end

/-- Nothing is spent before the start. -/
theorem WindowRun.start_le (h : WindowRun budget period start l st) :
    ∀ e ∈ l, start ≤ e.time := by
  induction h with
  | start => simp
  | spend _ _ started _ ih =>
    exact forall_mem_append.mpr ⟨ih, forall_mem_singleton.mpr started⟩

end Noid.Lib
