import Noid.Chain.SlotExpansion
import Noid.Tx.TradeWire

/-! # Fees of trade groups

A group pays a fixed fee, a fee for each input and output and a fee for the slots by which the state grows.  A trade batch
pays the charges of its policies, each quoted as if its policy were alone with the market; together they cover the fee. -/

namespace Noid.Chain

open Noid.Lib Noid.Tx List

/-! ### Required fees -/

def MIN_FEE_BASE : ℕ := 5000

def FEE_PER_INPUT : ℕ := 100

def FEE_PER_OUTPUT : ℕ := 700

def STATE_GROWTH_FEE_BASE : ℕ := 2500

def PRESSURE_LOW_BPS : ℕ := 5000

def PRESSURE_HIGH_BPS : ℕ := 7500

def PRESSURE_EXTREME_BPS : ℕ := 9000

def saturatingAdd (a b : ℕ) : ℕ := min (a + b) U64_MAX

def occupancyBps (activeSlotCount logSlots : ℕ) : ℕ :=
  let capacity := max (if logSlots < 128 then 2 ^ logSlots else 2 ^ 128 - 1) 1
  min (activeSlotCount * 10000) (2 ^ 128 - 1) / capacity % 2 ^ 64

def pressureMultiplier (activeSlotCount logSlots : ℕ) : ℕ :=
  let bps := occupancyBps activeSlotCount logSlots
  if PRESSURE_EXTREME_BPS ≤ bps then 8
  else if PRESSURE_HIGH_BPS ≤ bps then 4
  else if PRESSURE_LOW_BPS ≤ bps then 2
  else 1

def stateGrowthFeePerSlot (activeSlotCount logSlots : ℕ) : ℕ :=
  saturatingMul STATE_GROWTH_FEE_BASE (pressureMultiplier activeSlotCount logSlots)

structure FeeBreakdown where
  base : ℕ
  input : ℕ
  output : ℕ
  io : ℕ
  stateGrowth : ℕ
  requiredTotal : ℕ
  burned : ℕ
deriving DecidableEq, Repr

def feeBreakdown (nInputs nOutputs activeSlotCount logSlots : ℕ) : FeeBreakdown :=
  let input := saturatingMul FEE_PER_INPUT nInputs
  let output := saturatingMul FEE_PER_OUTPUT nOutputs
  let io := saturatingAdd input output
  let stateGrowth := saturatingMul (stateGrowthFeePerSlot activeSlotCount logSlots) (nOutputs - nInputs)
  { base := MIN_FEE_BASE, input := input, output := output, io := io, stateGrowth := stateGrowth
    requiredTotal := saturatingAdd (saturatingAdd MIN_FEE_BASE io) stateGrowth, burned := stateGrowth }

/-! ### Preparing a batch -/

/-- The parts of the state that fees and outputs are checked against. -/
structure ChainState where
  state : SegmentedFriState
  activeSlotCount : ℕ

inductive MarketApplyError where
  | bounds
deriving DecidableEq, Repr

structure MarketFeeContext where
  activeSlots : ℕ
  logSlots : ℕ
deriving DecidableEq, Repr

namespace MarketFeeContext

def fromState (s : ChainState) : MarketFeeContext where
  activeSlots := s.activeSlotCount
  logSlots := s.state.logSlots

def required (c : MarketFeeContext) (inputs outputs : ℕ) : Except MarketApplyError ℕ := do
  require (c.logSlots ≤ 32 ∧ c.logSlots ≠ 0 ∧ c.activeSlots ≤ 2 ^ c.logSlots) .bounds
  return (feeBreakdown inputs outputs c.activeSlots c.logSlots).requiredTotal

/-- The fee of a group of so many inputs and outputs, in bounds or not. -/
def total (c : MarketFeeContext) (inputs outputs : ℕ) : ℕ :=
  (feeBreakdown inputs outputs c.activeSlots c.logSlots).requiredTotal

variable {c : MarketFeeContext}

lemma required_eq_ok {n m fee : ℕ} : c.required n m = .ok fee ↔
    (c.logSlots ≤ 32 ∧ c.logSlots ≠ 0 ∧ c.activeSlots ≤ 2 ^ c.logSlots) ∧ c.total n m = fee := by
  simp only [required, ok_rules, total]

lemma total_eq (c : MarketFeeContext) (n m : ℕ) : c.total n m =
    min (5000 + 100 * n + 700 * m + stateGrowthFeePerSlot c.activeSlots c.logSlots * (m - n)) U64_MAX := by
  simp only [total, feeBreakdown, saturatingAdd, saturatingMul, MIN_FEE_BASE, FEE_PER_INPUT, FEE_PER_OUTPUT]
  generalize stateGrowthFeePerSlot c.activeSlots c.logSlots * (m - n) = growth
  omega

lemma total_mono (n : ℕ) {m m' : ℕ} (h : m ≤ m') : c.total n m ≤ c.total n m' := by
  rw [total_eq, total_eq]
  gcongr

/-- Two groups that share an input and an output pay no more together. -/
theorem total_add_le (n n' m m' : ℕ) :
    c.total (n + n' + 1) (m + m' + 1) ≤ c.total (n + 1) (m + 1) + c.total (n' + 1) (m' + 1) := by
  simp only [total_eq, Nat.add_sub_add_right]
  generalize stateGrowthFeePerSlot c.activeSlots c.logSlots = growth
  have hgrowth : growth * (m + m' - (n + n')) ≤ growth * (m - n) + growth * (m' - n') := by
    rw [← Nat.mul_add]
    exact Nat.mul_le_mul_left _ (by omega)
  omega

end MarketFeeContext

/-- The errors of the functions below. -/
inductive TradeStateError where
  | fee | inputs | outputs
deriving DecidableEq, Repr

def feeQuotes (fees : MarketFeeContext) (i : TradeIntent) : Except TradeStateError TradeFeeQuotes := do
  let one ← (fees.required (i.funding.length + 1) 2).mapError fun _ => .fee
  let two ← (fees.required (i.funding.length + 1) 3).mapError fun _ => .fee
  let three ← (fees.required (i.funding.length + 1) 4).mapError fun _ => .fee
  return ⟨one, two, three⟩

def tradeFeeQuotes (parent : ChainState) (b : TradeBatch) : Except TradeStateError (List TradeFeeQuotes) :=
  b.policies.mapM (feeQuotes (.fromState parent))

structure PreparedTradeBatch where
  execution : TradeExecution
  parentLogSlots : ℕ
  childLogSlots : ℕ

def requireValue (s : ChainState) (slot : ℕ) (expected : SlotValue) : Except TradeStateError Unit :=
  require (slot < s.state.numSlots ∧ s.state.isEvicted (s.state.segIdOf slot % 2 ^ 16) = false ∧
    s.state.slot slot = expected) .inputs

/-- An output is in the child's domain and at a free slot of the parent's. -/
def checkOutputSlot (parent : ChainState) (childLogSlots slot : ℕ) : Except TradeStateError Unit := do
  require (slot < 2 ^ childLogSlots) .outputs
  if slot < parent.state.numSlots then (requireValue parent slot .EMPTY).mapError fun _ => .outputs
  else return ()

def finishPreparation (parent : ChainState) (childLogSlots : ℕ) (e : TradeExecution) :
    Except TradeStateError PreparedTradeBatch := do
  let _ ← e.outputs.mapM fun c => checkOutputSlot parent childLogSlots c.output.slotIndex
  let required ← ((MarketFeeContext.fromState parent).required e.inputs.length e.outputs.length).mapError fun _ => .fee
  require (required ≤ e.fee) .fee
  return ⟨e, parent.state.logSlots, childLogSlots⟩

/-! ### Charges -/

section
variable {H : NativeHash} {T : TradeHash} {parent : ChainState} {b : TradeBatch} {boundary : TradeBoundary}
  {quotes : List TradeFeeQuotes} {slots : TradeOutputSlots} {e : TradeExecution} {fees : MarketFeeContext}

/-- A charge covers its policy alone with the market. -/
theorem le_fee_of_quoted {i : TradeIntent} {o : TradeOutcome} {q : TradeFeeQuotes} {c : TradeCharge}
    (hq : feeQuotes fees i = .ok q) (h : quoteLoop H T i boundary o 1 [q.one, q.two, q.three] = .ok c) :
    fees.total (i.funding.length + 1) (c.payouts.length + 1) ≤ c.fee := by
  simp only [feeQuotes, ok_rules, MarketFeeContext.required_eq_ok] at hq
  obtain ⟨_, ⟨-, rfl⟩, _, ⟨-, rfl⟩, _, ⟨-, rfl⟩, rfl⟩ := hq
  obtain ⟨-, -, k, hk, hle⟩ := quoteLoop_eq_ok h
  have hfee : c.fee = fees.total (i.funding.length + 1) (k + 2) := by
    rcases k with _ | _ | _ | k <;> simpa using hk.symm
  rw [hfee]
  exact MarketFeeContext.total_mono _ (by omega)

lemma le_fees_of_covered {policies : List TradeIntent} {charges : List TradeCharge}
    (h : Forall₂ (fun i c => fees.total (i.funding.length + 1) (c.payouts.length + 1) ≤ c.fee) policies charges)
    (hne : policies ≠ []) :
    fees.total ((policies.map (·.funding.length)).sum + 1) ((charges.map (·.payouts.length)).sum + 1) ≤
      (charges.map (·.fee)).sum := by
  induction h with
  | nil => exact absurd rfl hne
  | @cons i c policies charges hc hrest ih =>
    simp only [map_cons, sum_cons]
    cases hrest with
    | nil => exact hc
    | cons _ _ => exact (MarketFeeContext.total_add_le ..).trans (Nat.add_le_add hc (ih (cons_ne_nil _ _)))

lemma new_counts (h : TradeExecution.new H T b boundary quotes slots = .ok e) :
    (∃ plan, prepare H T b boundary quotes = .ok (plan, e.charges)) ∧
      e.inputs.length = (b.policies.map (·.funding.length)).sum + 1 ∧
      e.outputs.length = (e.charges.map (·.payouts.length)).sum + 1 ∧ e.fee = (e.charges.map (·.fee)).sum := by
  simp only [TradeExecution.new, bind_eq_ok, Prod.exists] at h
  obtain ⟨plan, charges, hprepare, h⟩ := h
  simp only [TradeExecution.materialize, TradeBatch.inputs, ok_rules, Prod.exists] at h
  obtain ⟨hslots, _, ⟨-, -, market, -, rfl⟩, payouts, fee, hpayouts, final, -, -, -, -, -, -, -, rfl⟩ := h
  obtain ⟨hcount, hfee, -⟩ := payoutSlots_of_chargeOutputs hslots hpayouts
  refine ⟨⟨plan, hprepare⟩, ?_, ?_, hfee.trans (Nat.zero_add _)⟩
  · rw [length_cons, length_flatMap]
  · rw [length_append, length_singleton, hcount]

/-- **The charges of a batch cover its fee**, and its preparation never ends for a fee. -/
theorem charges_cover_group (hquotes : tradeFeeQuotes parent b = .ok quotes)
    (h : TradeExecution.new H T b boundary quotes slots = .ok e) (childLogSlots : ℕ) :
    (∃ required, (MarketFeeContext.fromState parent).required e.inputs.length e.outputs.length = .ok required ∧
      required ≤ (e.charges.map (·.fee)).sum) ∧
      finishPreparation parent childLogSlots e ≠ .error .fee := by
  obtain ⟨⟨plan, hprepare⟩, hinputs, houtputs, hfee⟩ := new_counts h
  obtain ⟨hplan, hlen, hquoted⟩ := prepare_quoted hprepare
  obtain ⟨⟨hne, -⟩, -⟩ := SequencingPlan.execute_eq_ok.mp (TradeBatch.checked_inv hplan).1
  rw [tradeFeeQuotes, mapM_eq_ok] at hquotes
  have hcovered : Forall₂ (fun i c => (MarketFeeContext.fromState parent).total (i.funding.length + 1)
      (c.payouts.length + 1) ≤ c.fee) b.policies e.charges := by
    refine forall₂_iff_get.mpr ⟨hlen.symm, fun k hk hk' => ?_⟩
    obtain ⟨o, q, -, hq, hloop⟩ := hquoted k _ _ (List.getElem?_eq_getElem hk) (List.getElem?_eq_getElem hk')
    obtain ⟨hk'', rfl⟩ := List.getElem?_eq_some_iff.mp hq
    exact le_fee_of_quoted (hquotes.get hk hk'') hloop
  have hle := le_fees_of_covered hcovered hne
  -- the quotes of the first policy show that the context is in bounds
  obtain ⟨i, policies, heq⟩ := exists_cons_of_ne_nil hne
  rw [heq, forall₂_cons_left_iff] at hquotes
  obtain ⟨q, _, hq, -⟩ := hquotes
  simp only [feeQuotes, ok_rules, MarketFeeContext.required_eq_ok] at hq
  obtain ⟨_, ⟨hbounds, -⟩, -⟩ := hq
  have hrequired := MarketFeeContext.required_eq_ok (n := e.inputs.length) (m := e.outputs.length).mpr ⟨hbounds, rfl⟩
  rw [← hinputs, ← houtputs] at hle
  refine ⟨⟨_, hrequired, hle⟩, ?_⟩
  have hfails : FailsOnly (· ≠ TradeStateError.fee) (finishPreparation parent childLogSlots e) := by
    refine .bind (.mapM fun c _ => ?_) fun _ _ =>
      .bind_ok (mapError_eq_ok.mpr hrequired) (.bind_ok (require_of _ (hle.trans hfee.ge)) .pure)
    refine .bind (.require fun _ => by simp) fun _ _ => ?_
    split
    · exact .mapError fun _ _ => by simp
    · exact .pure
  exact fun herror => hfails _ herror rfl

end

def freeState : ChainState where
  activeSlotCount := 5
  state :=
    { logSlots := 4, effectiveLogSeg := 4, numSegments := 1, segments := [none], segRoots := [none], liveCounts := [0]
      tree := [], treeDirty := false, dirty := [], mdbxDirty := [], exactDirty := [], exactSegmentCache := {}
      evicted := [], dirtyTreeLeaves := [] }

theorem twoTrades_covered : ∃ quotes e, tradeFeeQuotes freeState TradeExecution.twoTrades = .ok quotes ∧
    TradeExecution.new NativeHash.plain TradeHash.plain TradeExecution.twoTrades tenthBlock quotes
      ⟨[[10, 11], [12]], 13⟩ = .ok e ∧ finishPreparation freeState 4 e ≠ .error .fee := by
  have hok : (do
      let quotes ← (tradeFeeQuotes freeState TradeExecution.twoTrades).mapError fun _ => TradeExecutionError.fee
      TradeExecution.new NativeHash.plain TradeHash.plain TradeExecution.twoTrades tenthBlock quotes
        ⟨[[10, 11], [12]], 13⟩).isOk = true := by decide +kernel
  obtain ⟨e, he⟩ := exists_ok_of_isOk hok
  simp only [ok_rules] at he
  obtain ⟨quotes, hquotes, he⟩ := he
  exact ⟨quotes, e, hquotes, he, (charges_cover_group hquotes he 4).2⟩

end Noid.Chain
