import Noid.Chain.SegmentedResize

/-! # State expansion

A child block has one capacity bit more than its parent when a strict majority of the headers of a window fills at least
three quarters of the parent's capacity.  The window ends `CONSENSUS_FINALITY_DEPTH` below the parent, so chains with a
common prefix agree for as long as it lies in the prefix.  A chain is the list of its headers from genesis on. -/

namespace Noid.Chain

open Noid.Lib List

def CONSENSUS_FINALITY_DEPTH : ℕ := 18

def EXPANSION_WINDOW : ℕ := CONSENSUS_FINALITY_DEPTH

def LOG_SLOTS_GENESIS : ℕ := 24

def EXPAND_NUM : ℕ := 3

def EXPAND_DENOM : ℕ := 4

/-- `saturating_mul`. -/
def saturatingMul (a b : ℕ) : ℕ := min (a * b) U64_MAX

/-- `1u64.checked_shl(n).unwrap_or(u64::MAX)`. -/
def capacity (n : ℕ) : ℕ := if n < 64 then 2 ^ n else U64_MAX

/-- The finalized headers that decide on the child of a parent, first and last height. -/
def finalizedExpansionWindow (parentHeight : ℕ) : Option (ℕ × ℕ) := do
  let last ← if CONSENSUS_FINALITY_DEPTH ≤ parentHeight then some (parentHeight - CONSENSUS_FINALITY_DEPTH) else none
  let first ← if EXPANSION_WINDOW - 1 ≤ last then some (last - (EXPANSION_WINDOW - 1)) else none
  return (first, last)

def reachesThreshold (parentLogSlots active : ℕ) : Bool :=
  decide (saturatingMul (capacity parentLogSlots) EXPAND_NUM ≤ saturatingMul active EXPAND_DENOM)

def expectedChildLogSlots (parentHeight parentLogSlots : ℕ) (finalizedActiveCounts : List ℕ) : ℕ :=
  if (finalizedExpansionWindow parentHeight).isNone then parentLogSlots
  else if finalizedActiveCounts.length ≠ EXPANSION_WINDOW then parentLogSlots
  else if EXPANSION_WINDOW / 2 < finalizedActiveCounts.countP (reachesThreshold parentLogSlots) then
    min (parentLogSlots + 1) LOG_SLOTS_MAX
  else parentLogSlots

/-! ### Chains -/

/-- What the rule reads of a header. -/
structure SlotHeader where
  logSlots : ℕ
  activeSlotCount : ℕ
deriving DecidableEq, Repr

def windowCounts (chain : List SlotHeader) (parentHeight : ℕ) : List ℕ :=
  match finalizedExpansionWindow parentHeight with
  | some (first, last) => ((chain.drop first).take (last + 1 - first)).map (·.activeSlotCount)
  | none => []

/-- Headers from genesis on, each with the capacity that the rule demands. -/
structure ExpansionChain (chain : List SlotHeader) : Prop where
  start : ∀ header, chain[0]? = some header → header.logSlots ≤ LOG_SLOTS_MAX
  child : ∀ (i : ℕ) (h : i + 1 < chain.length),
    chain[i + 1].logSlots = expectedChildLogSlots i chain[i].logSlots (windowCounts chain i)

lemma finalizedExpansionWindow_eq (parentHeight : ℕ) :
    finalizedExpansionWindow parentHeight =
      if 35 ≤ parentHeight then some (parentHeight - 35, parentHeight - 18) else none := by
  unfold finalizedExpansionWindow EXPANSION_WINDOW CONSENSUS_FINALITY_DEPTH
  by_cases h : 18 ≤ parentHeight
  · by_cases h' : 35 ≤ parentHeight
    · have hlast : 18 - 1 ≤ parentHeight - 18 := by omega
      simp only [if_pos h, if_pos h', Option.bind_eq_bind, Option.bind_some, if_pos hlast]
      rfl
    · have hlast : ¬18 - 1 ≤ parentHeight - 18 := by omega
      simp only [if_pos h, if_neg h', Option.bind_eq_bind, Option.bind_some, if_neg hlast, Option.bind_none]
  · have h' : ¬35 ≤ parentHeight := by omega
    simp only [if_neg h, if_neg h', Option.bind_eq_bind, Option.bind_none]

lemma windowCounts_congr {chain chain' : List SlotHeader} {shared parentHeight : ℕ}
    (h : ∀ i ≤ shared, chain[i]? = chain'[i]?) (hle : parentHeight ≤ shared + 18) :
    windowCounts chain parentHeight = windowCounts chain' parentHeight := by
  unfold windowCounts
  rw [finalizedExpansionWindow_eq]
  split_ifs with hwindow
  · refine congrArg (map _) (ext_getElem? fun i => ?_)
    simp only [getElem?_take, getElem?_drop]
    split_ifs with hi
    · exact h _ (by omega)
    · rfl
  · rfl

lemma expectedChildLogSlots_cases (parentHeight parentLogSlots : ℕ) (counts : List ℕ) :
    expectedChildLogSlots parentHeight parentLogSlots counts = parentLogSlots ∨
      expectedChildLogSlots parentHeight parentLogSlots counts = min (parentLogSlots + 1) LOG_SLOTS_MAX ∧
        9 < counts.countP (reachesThreshold parentLogSlots) ∧ 35 ≤ parentHeight := by
  unfold expectedChildLogSlots
  split_ifs with hwindow hlength hmajority
  · exact .inl rfl
  · exact .inl rfl
  · refine .inr ⟨rfl, hmajority, ?_⟩
    rw [finalizedExpansionWindow_eq] at hwindow
    by_contra hearly
    rw [if_neg hearly] at hwindow
    exact hwindow rfl
  · exact .inl rfl

namespace ExpansionChain

variable {chain chain' : List SlotHeader}

/-- Chains with a common prefix have the same capacities up to nineteen blocks behind it. -/
theorem logSlots_eq (h : ExpansionChain chain) (h' : ExpansionChain chain') {shared : ℕ}
    (hshared : ∀ i ≤ shared, chain[i]? = chain'[i]?) {i : ℕ} (hi : i ≤ shared + 19) (hlen : i < chain.length)
    (hlen' : i < chain'.length) : chain[i].logSlots = chain'[i].logSlots := by
  induction i with
  | zero =>
    have hzero := hshared 0 (Nat.zero_le _)
    rw [getElem?_eq_getElem hlen, getElem?_eq_getElem hlen', Option.some.injEq] at hzero
    rw [hzero]
  | succ i ih =>
    have hparent := ih (by omega) (by omega) (by omega)
    rw [h.child i hlen, h'.child i hlen', hparent, windowCounts_congr hshared (by omega)]

lemma logSlots_le (h : ExpansionChain chain) {i : ℕ} (hi : i < chain.length) : chain[i].logSlots ≤ LOG_SLOTS_MAX := by
  induction i with
  | zero => exact h.start _ (getElem?_eq_getElem hi)
  | succ i ih =>
    have hparent := ih (by omega)
    rw [h.child i hi]
    rcases expectedChildLogSlots_cases i chain[i].logSlots (windowCounts chain i) with heq | ⟨heq, -⟩
    · rwa [heq]
    · rw [heq]
      exact min_le_right _ _

/-- A child has the capacity of its parent or one bit more. -/
theorem logSlots_succ (h : ExpansionChain chain) {i : ℕ} (hi : i + 1 < chain.length) :
    chain[i + 1].logSlots = chain[i].logSlots ∨ chain[i + 1].logSlots = chain[i].logSlots + 1 ∧
      9 < (windowCounts chain i).countP (reachesThreshold chain[i].logSlots) ∧ 35 ≤ i := by
  have hmax := h.logSlots_le (i := i) (by omega)
  rw [h.child i hi]
  rcases expectedChildLogSlots_cases i chain[i].logSlots (windowCounts chain i) with heq | ⟨heq, hmajority⟩
  · exact .inl heq
  · rcases hmax.lt_or_eq with hlt | hmax
    · exact .inr ⟨heq.trans (min_eq_left hlt), hmajority⟩
    · left
      rw [heq, hmax]
      exact min_eq_right (Nat.le_succ _)

lemma logSlots_mono (h : ExpansionChain chain) {i j : ℕ} (hij : i ≤ j) (hj : j < chain.length) :
    chain[i].logSlots ≤ chain[j].logSlots := by
  induction j, hij using Nat.le_induction with
  | base => exact le_rfl
  | succ j _ ih =>
    refine (ih (by omega)).trans ?_
    rcases h.logSlots_succ hj with heq | ⟨heq, -⟩
    · exact heq.ge
    · rw [heq]
      exact Nat.le_succ _

/-- Three quarters of a capacity are more than half of it. -/
theorem reachesThreshold_lt {parentLogSlots active n : ℕ} (hparent : parentLogSlots ≤ LOG_SLOTS_MAX)
    (hlt : n < parentLogSlots) (hactive : active ≤ 2 ^ n) : reachesThreshold parentLogSlots active = false := by
  unfold LOG_SLOTS_MAX at hparent
  have hpow : 2 * 2 ^ n ≤ 2 ^ parentLogSlots := by
    rw [← Nat.pow_succ']
    exact Nat.pow_le_pow_right (by decide) hlt
  have hbound : 2 ^ parentLogSlots ≤ 2 ^ 32 := Nat.pow_le_pow_right (by decide) hparent
  have hpos : 0 < 2 ^ n := Nat.two_pow_pos n
  rw [reachesThreshold, decide_eq_false_iff_not, capacity, if_pos (by omega)]
  unfold saturatingMul U64_MAX EXPAND_NUM EXPAND_DENOM
  omega

lemma countP_le_length_sub {α : Type} {p : α → Bool} {l : List α} {n : ℕ}
    (h : ∀ (i : ℕ) (hi : i < l.length), i < n → p l[i] = false) : l.countP p ≤ l.length - n := by
  have hfront : (l.take n).countP p = 0 := by
    refine countP_eq_zero.mpr fun a ha => ?_
    obtain ⟨i, hi, rfl⟩ := getElem_of_mem ha
    rw [length_take] at hi
    rw [getElem_take, h i (by omega) (by omega)]
    exact Bool.false_ne_true
  calc l.countP p = (l.take n).countP p + (l.drop n).countP p := by rw [← countP_append, take_append_drop]
    _ = (l.drop n).countP p := by rw [hfront, Nat.zero_add]
    _ ≤ (l.drop n).length := countP_le_length
    _ = l.length - n := length_drop

lemma countP_le (h : ExpansionChain chain) (hactive : ∀ header ∈ chain, header.activeSlotCount ≤ 2 ^ header.logSlots)
    {i j : ℕ} (hj : j < chain.length)
    (hbefore : ∀ (k : ℕ) (hk : k < chain.length), k ≤ i → chain[k].logSlots < chain[j].logSlots) :
    (windowCounts chain j).countP (reachesThreshold chain[j].logSlots) ≤ j - 18 - i := by
  unfold windowCounts
  rw [finalizedExpansionWindow_eq]
  by_cases hwindow : 35 ≤ j
  · rw [if_pos hwindow]
    have hcount := countP_le_length_sub (p := reachesThreshold chain[j].logSlots) (n := i + 1 - (j - 35))
      (l := ((chain.drop (j - 35)).take (j - 18 + 1 - (j - 35))).map (·.activeSlotCount)) <| by
        intro k hk hkn
        rw [length_map, length_take, length_drop] at hk
        rw [getElem_map, getElem_take, getElem_drop]
        exact reachesThreshold_lt (h.logSlots_le hj) (hbefore (j - 35 + k) (by omega) (by omega))
          (hactive _ (getElem_mem _))
    rw [length_map, length_take, length_drop] at hcount
    exact hcount.trans (by omega)
  · rw [if_neg hwindow]
    exact Nat.zero_le _

/-- Two expansions are at least twenty-eight blocks apart. -/
theorem spacing (h : ExpansionChain chain) (hactive : ∀ header ∈ chain, header.activeSlotCount ≤ 2 ^ header.logSlots)
    {i j : ℕ} (hij : i < j) (hj : j + 1 < chain.length) (hfirst : chain[i].logSlots < chain[i + 1].logSlots)
    (hsecond : chain[j].logSlots < chain[j + 1].logSlots) : i + 28 ≤ j := by
  have hcount := h.countP_le hactive (i := i) (j := j) (by omega) <| by
    intro k hk hki
    calc chain[k].logSlots ≤ chain[i].logSlots := h.logSlots_mono hki (by omega)
      _ < chain[i + 1].logSlots := hfirst
      _ ≤ chain[j].logSlots := h.logSlots_mono hij (by omega)
  rcases h.logSlots_succ hj with heq | ⟨-, hmajority, -⟩
  · omega
  · omega

end ExpansionChain

/-- **State expansion.**  A common history fixes the capacity nineteen blocks ahead; capacities grow by single bits up
to the maximum, at least twenty-eight blocks apart. -/
theorem state_expansion {chain : List SlotHeader} (h : ExpansionChain chain) :
    (∀ chain', ExpansionChain chain' → ∀ shared, (∀ i ≤ shared, chain[i]? = chain'[i]?) →
      ∀ (i : ℕ) (hlen : i < chain.length) (hlen' : i < chain'.length), i ≤ shared + 19 →
        chain[i].logSlots = chain'[i].logSlots) ∧
      (∀ (i : ℕ) (hi : i + 1 < chain.length), chain[i].logSlots ≤ chain[i + 1].logSlots ∧
        chain[i + 1].logSlots ≤ chain[i].logSlots + 1) ∧
      (∀ (i : ℕ) (hi : i < chain.length), chain[i].logSlots ≤ 32) ∧
      ((∀ header ∈ chain, header.activeSlotCount ≤ 2 ^ header.logSlots) →
        ∀ (i j : ℕ) (hj : j + 1 < chain.length) (hij : i < j), chain[i].logSlots < chain[i + 1].logSlots →
          chain[j].logSlots < chain[j + 1].logSlots → (i + 1) + 28 ≤ j + 1) := by
  refine ⟨?_, ?_, fun i hi => h.logSlots_le hi, ?_⟩
  · intro chain' h' shared hshared i hlen hlen' hi
    exact h.logSlots_eq h' hshared hi hlen hlen'
  · intro i hi
    rcases h.logSlots_succ hi with heq | ⟨heq, -⟩
    · omega
    · omega
  · intro hactive i j hj hij hfirst hsecond
    have hspacing := h.spacing hactive hij hj hfirst hsecond
    omega

lemma ExpansionChain.of_children {chain : List SlotHeader}
    (hstart : ∀ header, chain[0]? = some header → header.logSlots ≤ LOG_SLOTS_MAX)
    (hchildren : ∀ i < chain.length - 1, (chain[i + 1]?).map (·.logSlots) =
      (chain[i]?).map fun header => expectedChildLogSlots i header.logSlots (windowCounts chain i)) :
    ExpansionChain chain := by
  refine ⟨hstart, fun i hi => ?_⟩
  have hchild := hchildren i (by omega)
  rw [getElem?_eq_getElem hi, getElem?_eq_getElem (Nat.lt_of_succ_lt hi)] at hchild
  exact Option.some.inj hchild

/-- A chain that expands at the first possible height, and again as soon as it can. -/
def fullChain : List SlotHeader :=
  replicate 36 ⟨24, 2 ^ 24⟩ ++ replicate 28 ⟨25, 2 ^ 25⟩ ++ [⟨26, 2 ^ 25⟩]

/-- A chain that is emptied after the first expansion. -/
def emptiedChain : List SlotHeader := replicate 36 ⟨24, 2 ^ 24⟩ ++ replicate 19 ⟨25, 0⟩

theorem state_expansion_fullChain : fullChain[54].logSlots = emptiedChain[54].logSlots ∧
    fullChain[63].logSlots < fullChain[64].logSlots ∧ fullChain[64].logSlots ≤ fullChain[63].logSlots + 1 ∧
    fullChain[64].logSlots ≤ 32 ∧ ∀ (i : ℕ) (hi : i + 1 < fullChain.length), i < 63 →
      fullChain[i].logSlots < fullChain[i + 1].logSlots → (i + 1) + 28 ≤ 63 + 1 := by
  have hfull : ExpansionChain fullChain := .of_children (by decide) (by decide +kernel)
  have hemptied : ExpansionChain emptiedChain := .of_children (by decide) (by decide +kernel)
  have hgrows : fullChain[63].logSlots < fullChain[64].logSlots := by decide
  obtain ⟨hshared, hsteps, hmax, hspacing⟩ := state_expansion hfull
  refine ⟨hshared _ hemptied 35 (by decide) 54 (by decide) (by decide) (by decide), hgrows,
    (hsteps 63 (by decide)).2, hmax 64 (by decide), fun i hi hlt hexpands => ?_⟩
  exact hspacing (by decide +kernel) i 63 (by decide) hlt hexpands hgrows

end Noid.Chain
