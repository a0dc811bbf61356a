import Noid.Tx.Trade

/-! # Execution of a trade batch

The outcome of every trade of a batch is turned into payouts, a fee and exact raw claims, and the sums of NOID and tokens
on both sides are compared. -/

namespace Noid.Tx

open Noid.Lib List

structure TradeOutputSlots where
  payouts : List (List ℕ)
  market : ℕ
deriving DecidableEq, Repr

/-- The fees for one, two and three payouts of a trade. -/
structure TradeFeeQuotes where
  one : ℕ
  two : ℕ
  three : ℕ
deriving DecidableEq, Repr

structure TradeCharge where
  authorizationId : Digest
  fee : ℕ
  payouts : List TradePayout
deriving DecidableEq, Repr

inductive TradeExecutionError where
  | context
  | batch (e : BatchError)
  | policy (e : TradeError)
  | fee | inputs | outputs | conservation
deriving DecidableEq, Repr

structure TradeExecution where
  boundary : TradeBoundary
  commitment : Address
  inputs : List NativeInputClaim
  outputs : List NativeOutputClaim
  charges : List TradeCharge
  fee : ℕ
  facts : NativeTransitionFacts
  plan : SequencingPlan
  auxiliary : List NativeOpening
deriving DecidableEq, Repr

section
variable (H : NativeHash) (T : TradeHash)

/-! ### Charges -/

/-- The loop over the quotes; `count` is the number of payouts the next quote is for. -/
def quoteLoop (i : TradeIntent) (boundary : TradeBoundary) (outcome : TradeOutcome) :
    ℕ → List ℕ → Except TradeExecutionError TradeCharge
  | _, [] => .error .fee
  | count, fee :: rest =>
    if i.policy.feeLimit < fee then quoteLoop i boundary outcome (count + 1) rest
    else
      match i.payouts H boundary outcome.spentInput outcome.output fee with
      | .ok payouts =>
        if payouts.length ≤ count then do
          let id ← (i.authorizationId H T).mapError .policy
          return { authorizationId := id, fee := fee, payouts := payouts }
        else quoteLoop i boundary outcome (count + 1) rest
      | .error .arithmetic => quoteLoop i boundary outcome (count + 1) rest
      | .error e => .error (.policy e)

/-- Select the first bounded quotation whose canonical payouts fit its count. -/
def quoteCharge (i : TradeIntent) (boundary : TradeBoundary) (outcome : TradeOutcome)
    (fees : TradeFeeQuotes) : Except TradeExecutionError TradeCharge := do
  require (fees.one ≠ 0 ∧ fees.one ≤ fees.two ∧ fees.two ≤ fees.three) .fee
  quoteLoop H T i boundary outcome 1 [fees.one, fees.two, fees.three]

/-- The outcome of the intent at an index. -/
def SequencingPlan.outcome (plan : SequencingPlan) (index : ℕ) : Option TradeOutcome :=
  (plan.fills.reverse.find? (·.sourceIndex = index)).map (·.outcome)

def prepare (b : TradeBatch) (boundary : TradeBoundary) (fees : List TradeFeeQuotes) :
    Except TradeExecutionError (SequencingPlan × List TradeCharge) := do
  require (boundary.chain ≠ 0 ∧ boundary.epochAnchor ≠ 0 ∧ boundary.parentId ≠ 0 ∧ boundary.height ≠ 0)
    .context
  require (fees.length = b.policies.length) .fee
  let plan ← (b.checked H T boundary).mapError .batch
  let charges ← (b.policies.zip fees).zipIdx.mapM fun ((i, fee), index) => do
    let outcome ← orElseThrow .conservation (plan.outcome index)
    quoteCharge H T i boundary outcome fee
  return (plan, charges)

/-! ### Claims -/

/-- The carrier of an opening. -/
def nativeOutput (o : NativeOpening) (slot : ℕ) : NativeOutputClaim where
  output := { slotIndex := slot, amount := o.amountMicronoid, owner := H.root o }
  opening := some o

def payoutClaim (p : TradePayout) (slot : ℕ) : Except TradeExecutionError NativeOutputClaim :=
  if p.asset = NOID_ASSET then
    .ok { output := { slotIndex := slot, amount := p.units, owner := p.owner }, opening := none }
  else do
    let o : NativeOpening :=
      .tokenBalance { asset := p.asset, owner := p.owner, units := p.units, unlockHeight := 0 }
    o.validate.mapError fun _ => TradeExecutionError.outputs
    return nativeOutput H o slot

/-- The loop over the charges: their payouts, and the checked sum of their fees. -/
def chargeOutputs : ℕ → List (TradeCharge × List ℕ) → Except TradeExecutionError (List NativeOutputClaim × ℕ)
  | fee, [] => .ok ([], fee)
  | fee, (c, slots) :: rest => do
    require (c.payouts.length = slots.length) .outputs
    let outputs ← (c.payouts.zip slots).mapM fun (p, slot) => payoutClaim H p slot
    let fee ← checked .fee (fee + c.fee)
    let (more, total) ← chargeOutputs fee rest
    return (outputs ++ more, total)

/-- The tokens of the traded asset in a carrier. -/
def tradeUnits (asset : AssetId) : Option NativeOpening → ℕ
  | some (.tokenBalance b) => if b.asset = asset then b.units else 0
  | some (.launch (.state s)) => s.inventoryUnits
  | some (.market (.pool p)) => p.quoteReserve
  | _ => 0

def graduationDefinition : MarketStart → TradeState → List NativeOpening
  | .curve d _, .market _ => [.market (.definition d.marketDefinition)]
  | _, _ => []

namespace TradeExecution

def checkTradeOutput (c : NativeOutputClaim) : Except TradeExecutionError Unit :=
  match c.opening with
  | some o => (o.checkOutput H c.output).mapError fun _ => .outputs
  | none => .ok ()

def materialize (b : TradeBatch) (boundary : TradeBoundary) (plan : SequencingPlan)
    (charges : List TradeCharge) (slots : TradeOutputSlots) : Except TradeExecutionError TradeExecution := do
  require (slots.payouts.length = charges.length) .outputs
  let inputs ← (b.inputs H T).mapError .batch
  let (payouts, fee) ← chargeOutputs H 0 (charges.zip slots.payouts)
  let final ← orElseThrow .conservation plan.after
  let outputs := payouts ++ [nativeOutput H final.opening slots.market]
  require (outputs.length ≤ MAX_PAGED_SPEND_OUTPUTS) .outputs
  let _ ← eachFresh (·.output.slotIndex) .outputs (fun _ => .ok ()) (checkTradeOutput H)
    (inputs.map (·.input.slotIndex)) outputs
  require (noidIn inputs = noidOut outputs + fee ∧ (inputs.map fun c => tradeUnits b.parent.asset c.opening).sum =
      (outputs.map fun c => tradeUnits b.parent.asset c.opening).sum) .conservation
  let commitment ← (b.root H T).mapError .batch
  return { boundary := boundary, commitment := commitment, inputs := inputs, outputs := outputs
           charges := charges, fee := fee, facts := .ofClaims inputs outputs 0, plan := plan
           auxiliary := b.parent.definition :: graduationDefinition b.parent.market final }

def new (b : TradeBatch) (boundary : TradeBoundary) (fees : List TradeFeeQuotes) (slots : TradeOutputSlots) :
    Except TradeExecutionError TradeExecution := do
  let (plan, charges) ← prepare H T b boundary fees
  materialize H T b boundary plan charges slots

/-- The slots of the payouts of each charge, read off the outputs in order. -/
def payoutSlots : List TradeCharge → List NativeOutputClaim → List (List ℕ)
  | [], _ => []
  | c :: rest, outputs =>
    (outputs.take c.payouts.length).map (·.output.slotIndex) :: payoutSlots rest (outputs.drop c.payouts.length)

/-- Preserve canonical policy/funding order in the exact raw input stream. -/
def fromClaims (b : TradeBatch) (boundary : TradeBoundary) (fees : List TradeFeeQuotes)
    (inputs : List NativeInputClaim) (outputs : List NativeOutputClaim) :
    Except TradeExecutionError TradeExecution := do
  let (plan, charges) ← prepare H T b boundary fees
  let count := (charges.map (·.payouts.length)).sum
  require (outputs.length = count + 1) .outputs
  let market ← orElseThrow .outputs outputs[count]?
  let execution ← materialize H T b boundary plan charges
    { payouts := payoutSlots charges outputs, market := market.output.slotIndex }
  require (execution.inputs = inputs) .inputs
  require (execution.outputs = outputs) .outputs
  return execution

end TradeExecution

/-! ### Payouts -/

variable {H T}

def IsBalance (asset : AssetId) (o : NativeOpening) : Prop :=
  ∃ b : TokenBalance, o = .tokenBalance b ∧ b.asset = asset

def TradePayout.InAsset (asset : AssetId) (p : TradePayout) : Prop := p.asset = NOID_ASSET ∨ p.asset = asset

lemma mem_foldl_collect {e : (AssetId ×ₗ Address) × ℕ} :
    ∀ {entries : List (AssetId × Address × ℕ)} {m : SortedMap (AssetId ×ₗ Address) ℕ},
      e ∈ (entries.foldl (fun values e =>
        if e.2.2 = 0 then values else values.bump (toLex (e.1, e.2.1)) e.2.2) m).entries →
      e ∈ m.entries ∨ ∃ x ∈ entries, (ofLex e.1).1 = x.1
  | [], _, h => .inl h
  | x :: l, m, h => by
    rw [foldl_cons] at h
    rcases mem_foldl_collect h with h | ⟨y, hy, he⟩
    · split_ifs at h with hzero
      · exact .inl h
      · rcases SortedMap.mem_bump h with h | h
        · exact .inr ⟨x, by simp, by rw [h]; rfl⟩
        · exact .inl h
    · exact .inr ⟨y, mem_cons_of_mem _ hy, he⟩

variable {boundary : TradeBoundary}

lemma TradeIntent.payouts_asset {i : TradeIntent} {spent output fee : ℕ}
    {ps : List TradePayout} (h : i.payouts H boundary spent output fee = .ok ps) :
    ∀ p ∈ ps, p.InAsset i.policy.asset := by
  simp only [payouts, ok_rules] at h
  obtain ⟨totals, -, -, -, -, refundNoid, -, refundTokens, -, h⟩ := h
  intro p hp
  obtain ⟨e, he, hpe⟩ := exists_of_mem_mapM h p hp
  simp only [ok_rules] at hpe
  obtain ⟨units, -, rfl⟩ := hpe
  rcases mem_foldl_collect he with he | ⟨x, hx, hasset⟩
  · cases he
  · simp only [TradePayout.InAsset, hasset]
    cases hside : i.policy.side with
    | buy =>
      simp only [hside, mem_cons, not_mem_nil, or_false] at hx
      rcases hx with rfl | rfl | rfl <;> simp
    | sell =>
      simp only [hside, mem_cons, not_mem_nil, or_false] at hx
      rcases hx with rfl | rfl | rfl <;> simp

lemma quoteLoop_eq_ok {i : TradeIntent} {outcome : TradeOutcome} {fees : List ℕ} {count : ℕ} {c : TradeCharge}
    (h : quoteLoop H T i boundary outcome count fees = .ok c) :
    c.fee ≤ i.policy.feeLimit ∧ i.payouts H boundary outcome.spentInput outcome.output c.fee = .ok c.payouts ∧
      ∃ k, fees[k]? = some c.fee ∧ c.payouts.length ≤ count + k := by
  fun_induction quoteLoop H T i boundary outcome count fees with
  | case1 => cases h
  | case3 count fee rest hlimit ps hps hcount =>
    simp only [ok_rules] at h
    obtain ⟨id, -, rfl⟩ := h
    exact ⟨not_lt.mp hlimit, hps, 0, rfl, hcount⟩
  | case2 count fee rest _ ih | case4 count fee rest _ _ _ _ ih | case5 count fee rest _ _ ih =>
    obtain ⟨hlimit, hpayouts, k, hk, hle⟩ := ih h
    exact ⟨hlimit, hpayouts, k + 1, hk, by omega⟩
  | case6 => cases h

/-- What a batch is executed with: a control of its asset, and payouts in it or in NOID. -/
theorem prepare_eq_ok {b : TradeBatch} {fees : List TradeFeeQuotes}
    {plan : SequencingPlan} {charges : List TradeCharge} (h : prepare H T b boundary fees = .ok (plan, charges)) :
    (∀ t, plan.after = some t → b.parent.market.Closes H t) ∧
      ∀ c ∈ charges, ∀ p ∈ c.payouts, p.InAsset b.parent.asset := by
  simp only [prepare, ok_rules, Prod.mk.injEq] at h
  obtain ⟨-, -, plan, hplan, charges, hcharges, rfl, rfl⟩ := h
  obtain ⟨hassets, hcontrol⟩ := TradeBatch.checked_eq_ok hplan
  refine ⟨hcontrol, ?_⟩
  intro c hc
  obtain ⟨⟨⟨i, fee⟩, index⟩, hmem, hquote⟩ := exists_of_mem_mapM hcharges c hc
  simp only [quoteCharge, ok_rules] at hquote
  obtain ⟨outcome, -, -, hloop⟩ := hquote
  have hi : i ∈ b.policies := (of_mem_zip (fst_mem_of_mem_zipIdx hmem)).1
  exact hassets i hi ▸ TradeIntent.payouts_asset (quoteLoop_eq_ok hloop).2.1

lemma payoutClaim_eq_ok {asset : AssetId} {p : TradePayout} {slot : ℕ} {c : NativeOutputClaim}
    (hp : p.InAsset asset) (h : payoutClaim H p slot = .ok c) :
    ∀ o, c.opening = some o → IsBalance asset o := by
  unfold payoutClaim at h
  split_ifs at h with hnoid
  · cases h
    simp
  · simp only [ok_rules] at h
    obtain ⟨-, -, rfl⟩ := h
    rintro o ⟨⟩
    exact ⟨_, rfl, hp.resolve_left hnoid⟩

lemma chargeOutputs_eq_ok {asset : AssetId} :
    ∀ {l : List (TradeCharge × List ℕ)} {fee total : ℕ} {outputs : List NativeOutputClaim},
      (∀ c ∈ l, ∀ p ∈ c.1.payouts, p.InAsset asset) → chargeOutputs H fee l = .ok (outputs, total) →
      ∀ c ∈ outputs, ∀ o, c.opening = some o → IsBalance asset o
  | [], _, _, _, _, h => by
    obtain ⟨rfl, -⟩ := h
    simp
  | (charge, slots) :: rest, fee, total, outputs, hassets, h => by
    simp only [chargeOutputs, ok_rules, Prod.exists, Prod.mk.injEq] at h
    obtain ⟨-, outs, houts, fee', -, more, total', hmore, rfl, -⟩ := h
    intro c hc
    rcases mem_append.mp hc with hc | hc
    · obtain ⟨⟨p, slot⟩, hmem, hclaim⟩ := exists_of_mem_mapM houts c hc
      exact payoutClaim_eq_ok (hassets (charge, slots) (by simp) p (of_mem_zip hmem).1) hclaim
    · exact chargeOutputs_eq_ok (fun c hc => hassets c (.tail _ hc)) hmore c hc

/-! ### The effect of a batch -/

namespace TradeExecution

variable {b : TradeBatch} {boundary : TradeBoundary} {e : TradeExecution}

structure Made (H : NativeHash) (T : TradeHash) (b : TradeBatch) (plan : SequencingPlan)
    (charges : List TradeCharge) (slots : TradeOutputSlots) (payouts : List NativeOutputClaim)
    (final : TradeState) (e : TradeExecution) : Prop where
  counts : slots.payouts.length = charges.length
  inputs : b.inputs H T = .ok e.inputs
  charged : chargeOutputs H 0 (charges.zip slots.payouts) = .ok (payouts, e.fee)
  after : plan.after = some final
  outputs : e.outputs = payouts ++ [nativeOutput H final.opening slots.market]
  outputs_le : e.outputs.length ≤ MAX_PAGED_SPEND_OUTPUTS
  fresh : (e.outputs.map (·.output.slotIndex)).Nodup
  apart : ∀ c ∈ e.outputs, c.output.slotIndex ∉ e.inputs.map (·.input.slotIndex)
  bound : ∀ c ∈ e.outputs, checkTradeOutput H c = .ok ()
  noid : noidIn e.inputs = noidOut e.outputs + e.fee
  tokens : (e.inputs.map fun c => tradeUnits b.parent.asset c.opening).sum =
    (e.outputs.map fun c => tradeUnits b.parent.asset c.opening).sum
  commitment : b.root H T = .ok e.commitment
  facts : e.facts = .ofClaims e.inputs e.outputs 0
  auxiliary : e.auxiliary = b.parent.definition :: graduationDefinition b.parent.market final

variable {plan : SequencingPlan} {charges : List TradeCharge} {slots : TradeOutputSlots}
  {payouts : List NativeOutputClaim} {final : TradeState}

lemma materialize_eq_ok (h : materialize H T b boundary plan charges slots = .ok e) :
    e.boundary = boundary ∧ ∃ payouts final, Made H T b plan charges slots payouts final e := by
  simp only [materialize, ok_rules, Prod.exists, eachFresh_eq_ok] at h
  obtain ⟨hcounts, inputs, hinputs, payouts, fee, hpayouts, final, hfinal, hle, seen,
    ⟨hnd, hfresh, hcheck, -⟩, ⟨hnoid, htokens⟩, commitment, hcommitment, rfl⟩ := h
  exact ⟨rfl, payouts, final, hcounts, hinputs, hpayouts, hfinal, rfl, hle, hnd, hfresh,
    fun c hc => (hcheck c hc).2, hnoid, htokens, hcommitment, rfl, rfl⟩

lemma Made.claimsOk (h : Made H T b plan charges slots payouts final e) :
    ClaimsOk H e.inputs e.outputs := by
  obtain ⟨-, hslots, parent, funding, heq, hparent, -, hfunding⟩ := TradeBatch.inputs_eq_ok h.inputs
  refine ⟨?_, ?_, ?_⟩
  · rw [claimSlots, nodup_append]
    refine ⟨hslots, h.fresh, ?_⟩
    intro x hx y hy hxy
    obtain ⟨c, hc, rfl⟩ := mem_map.mp hy
    exact h.apart c hc (hxy ▸ hx)
  · rw [heq]
    exact forall_mem_cons.mpr ⟨hparent, fun c hc => (hfunding c hc).1⟩
  · intro c hc o ho
    have hbound := h.bound c hc
    simp only [checkTradeOutput, ho, mapError_eq_ok] at hbound
    exact hbound

lemma Made.before (h : Made H T b plan charges slots payouts final e) :
    ∃ l, openingsBefore e.inputs = b.parent.opening :: l ∧ ∀ o ∈ l, IsBalance b.parent.asset o := by
  obtain ⟨-, -, parent, funding, heq, -, hopening, hfunding⟩ := TradeBatch.inputs_eq_ok h.inputs
  refine ⟨openingsBefore funding, by simp [heq, openingsBefore, hopening], ?_⟩
  intro o ho
  obtain ⟨c, hc, hco⟩ := mem_filterMap.mp ho
  exact (hfunding c hc).2 o hco

lemma Made.created (h : Made H T b plan charges slots payouts final e)
    (hcharges : ∀ c ∈ charges, ∀ p ∈ c.payouts, p.InAsset b.parent.asset) :
    ∃ l, openingsAfter e.outputs = l ++ [final.opening] ∧ ∀ o ∈ l, IsBalance b.parent.asset o := by
  have hbalances : ∀ c ∈ payouts, ∀ o, c.opening = some o → IsBalance b.parent.asset o :=
    chargeOutputs_eq_ok (fun c hc => hcharges c.1 (of_mem_zip hc).1) h.charged
  refine ⟨openingsAfter payouts, by simp [h.outputs, openingsAfter, nativeOutput], ?_⟩
  intro o ho
  obtain ⟨c, hc, hco⟩ := mem_filterMap.mp ho
  exact hbalances c hc o hco

end TradeExecution

end

end Noid.Tx
