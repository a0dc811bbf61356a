import Noid.Tx.LaunchPayout
import Noid.Tx.MarketOrders

/-! # A registered pool round settles

The claims of a round take no more out of the pool than the exact rate allows, and the trading fee of every filled request
is at least one unit, more than what rounding takes from the partial side.  So the product of the reserves does not fall. -/

namespace Noid.Tx

open Noid.Lib Noid.Lib.Crossing List SwapRequest

/-! ### Executions -/

/-- The gross input behind an effective one. -/
def SwapRequest.spent (r : SwapRequest) (e : ℕ) : ℕ :=
  if e = 0 then 0
  else if e = r.capacity then r.grossInput
  else divCeil (e * 10000) (10000 - MARKET_FEE_BPS)

/-- What a request that takes `e` effective units executes. -/
def swapExecution (d : MarketDefinition) (price : ClearingRate) (r : SwapRequest) (e : ℕ) :
    SwapExecution :=
  { effectiveInput := e, spentInput := r.spent e, refundInput := r.grossInput - r.spent e
    output := outputOf price (r.side d) e }

section Execution

variable {d : MarketDefinition} {r : SwapRequest} {e : ℕ}

/-- A fill costs at least one unit of fee and at most the gross input. -/
theorem SwapRequestOk.spent_bounds (h : SwapRequestOk d r) (he : e ≤ r.capacity) :
    r.spent e ≤ r.grossInput ∧ e ≤ r.spent e ∧ (e ≠ 0 → e < r.spent e) := by
  have hg := h.gross_pos
  unfold spent
  by_cases hz : e = 0
  · simp [hz]
  rw [if_neg hz]
  have hcap : r.capacity < r.grossInput ∧ r.capacity * 10000 ≤ r.grossInput * 9970 := by
    unfold capacity MARKET_FEE_BPS
    omega
  by_cases hfull : e = r.capacity
  · rw [if_pos hfull]
    omega
  · rw [if_neg hfull]
    have hle : divCeil (e * 10000) (10000 - MARKET_FEE_BPS) ≤ r.grossInput := by
      refine divCeil_le (by decide) ?_
      unfold MARKET_FEE_BPS
      omega
    have hlt : e < divCeil (e * 10000) (10000 - MARKET_FEE_BPS) := by
      unfold divCeil MARKET_FEE_BPS
      omega
    exact ⟨hle, hlt.le, fun _ => hlt⟩

lemma SwapRequestOk.spentInput_ok (h : SwapRequestOk d r) (he : e ≤ r.capacity) :
    spentInput r e r.capacity = .ok (r.spent e) := by
  have hle := (h.spent_bounds he).1
  have hlt : r.spent e < U64 := lt_of_le_of_lt (hle.trans h.gross_le) (by decide)
  unfold spentInput spent at *
  split_ifs with hz hfull
  · rfl
  · rfl
  · rw [if_neg hz, if_neg hfull] at hlt
    exact checked_of_lt _ hlt

lemma SwapRequestOk.minimum_le_output (h : SwapRequestOk d r) {price : ClearingRate}
    (hn : 0 < price.numerator) (hd : 0 < price.denominator)
    (hcls : e ≠ 0 → classifyOrder (r.order d) price ≠ .outside) :
    r.minimumOutput * e / r.capacity ≤ outputOf price (r.side d) e := by
  by_cases hz : e = 0
  · simp [hz]
  have hcls := hcls hz
  have hcap := h.capacity_pos
  unfold order classifyOrder comparePrice at hcls
  cases hside : r.side d with
  | base =>
    rw [hside] at hcls
    refine minimum_le_proceeds hd hcap (not_lt.mp fun hlt => hcls ?_)
    rw [compare_lt_iff_lt.mpr hlt]
  | quote =>
    rw [hside] at hcls
    refine minimum_le_proceeds hn hcap (not_lt.mp fun hlt => hcls ?_)
    have hlt' : r.capacity * price.denominator < price.numerator * r.minimumOutput := by
      rwa [Nat.mul_comm r.capacity, Nat.mul_comm price.numerator]
    rw [compare_gt_iff_gt.mpr hlt']

lemma SwapRequestOk.executeSwap_ok (h : SwapRequestOk d r) {price : ClearingRate}
    (hn : 0 < price.numerator) (hd : 0 < price.denominator) (he : e ≤ r.capacity)
    (hcls : e ≠ 0 → classifyOrder (r.order d) price ≠ .outside)
    (hpays : e ≠ 0 → outputOf price (r.side d) e ≠ 0)
    (hout : outputOf price (r.side d) e ≤ MARKET_QUANTITY_MAX) :
    executeSwap d price r e = .ok (swapExecution d price r e) := by
  have hmin := h.minimum_le_output hn hd hcls
  have hlt : outputOf price (r.side d) e < U64 := lt_of_le_of_lt hout (by decide)
  have hspent : ¬(r.spent e ≠ 0 ∧ outputOf price (r.side d) e = 0) := by
    rintro ⟨hne, hzero⟩
    refine hpays (fun hz => hne ?_) hzero
    rw [spent, if_pos hz]
  rw [executeSwap, bind_of_ok (effectiveInput_eq h.gross_pos), bind_of_ok (h.spentInput_ok he),
    require_bind (h.spent_bounds he).1, bind_of_ok (payout_ok hn hd hlt),
    checked_bind (lt_of_le_of_lt hmin hlt), require_bind ⟨hmin, hspent⟩]
  rfl

end Execution

/-! ### Claims -/

section Claims

variable {H : NativeHash} {d : MarketDefinition}

def claimOf (H : NativeHash) (entry : FundedRequestRef) (e : SwapExecution) (charged : ℕ) : SwapClaim :=
  { request := entry.key H, inputAsset := entry.request.inputAsset, outputAsset := entry.request.outputAsset
    refundOwner := entry.request.owner, recipient := entry.request.recipient
    refundUnits := e.refundInput, outputUnits := e.output, feeCredit := MARKET_REQUEST_FEE_CREDIT - charged }

lemma claimOf_noidValue {entry : FundedRequestRef} {e : SwapExecution} {charged : ℕ}
    (hrefund : e.refundInput ≤ MARKET_QUANTITY_MAX) (hout : e.output ≤ MARKET_QUANTITY_MAX) :
    (claimOf H entry e charged).noidValue = .ok (MARKET_REQUEST_FEE_CREDIT - charged +
      if entry.request.inputAsset = NOID_ASSET then e.refundInput
      else if entry.request.outputAsset = NOID_ASSET then e.output else 0) := by
  have hle : (if entry.request.inputAsset = NOID_ASSET then e.refundInput
      else if entry.request.outputAsset = NOID_ASSET then e.output else 0) ≤ MARKET_QUANTITY_MAX := by
    split_ifs
    · exact hrefund
    · exact hout
    · exact Nat.zero_le _
  refine checked_of_lt _ (lt_of_le_of_lt (Nat.add_le_add (Nat.sub_le _ _) hle) ?_)
  decide

lemma swapClaim_ok (hd : d.base < d.quote) {entry : FundedRequestRef} (hkey : entry.key H ≠ 0)
    (h : SwapRequestOk d entry.request) {price : ClearingRate} {e : ℕ}
    (hpays : e ≠ 0 → outputOf price (entry.request.side d) e ≠ 0)
    (hout : outputOf price (entry.request.side d) e ≤ MARKET_QUANTITY_MAX) {charged : ℕ}
    (hcharged : charged ≤ MARKET_REQUEST_FEE_CREDIT) :
    swapClaim H entry (swapExecution d price entry.request e) charged =
      .ok (claimOf H entry (swapExecution d price entry.request e) charged) := by
  have hgross := h.gross_pos
  have hne : entry.request.inputAsset ≠ entry.request.outputAsset := by
    rcases h.market.side_eq hd with ⟨-, hi, ho⟩ | ⟨-, hi, ho⟩
    · rw [hi, ho]
      exact hd.ne
    · rw [hi, ho]
      exact hd.ne'
  have hrefund : (swapExecution d price entry.request e).refundInput ≤ MARKET_QUANTITY_MAX :=
    (Nat.sub_le _ _).trans h.gross_le
  have hsome : ¬((swapExecution d price entry.request e).refundInput = 0 ∧
      (swapExecution d price entry.request e).output = 0) := by
    rintro ⟨hr, ho⟩
    refine hpays (fun hz => ?_) ho
    simp only [swapExecution, spent, if_pos hz] at hr
    omega
  have hvalid : (claimOf H entry (swapExecution d price entry.request e) charged).validate = .ok () :=
    SwapClaim.validate_eq_ok.mpr
      ⟨⟨hkey, hne⟩, h.owner_ne, h.recipient_ne,
        ⟨hrefund, hout, hsome, Nat.sub_le _ _⟩, ⟨_, claimOf_noidValue hrefund hout⟩⟩
  rw [swapClaim, bind_of_ok (show checkedSub MarketError.fee _ charged = .ok _ from if_pos hcharged)]
  exact bind_of_ok hvalid

lemma feeShare_eq (fee count i : ℕ) : feeShare fee count i = chargedFee count fee 0 i := by
  simp [feeShare, chargedFee]

end Claims

/-! ### The settlement loop -/

/-- A request and an effective input that settlement can execute. -/
structure RowReady (d : MarketDefinition) (price : ClearingRate) (x : FundedRequestRef × ℕ) : Prop where
  request : SwapRequestOk d x.1.request
  le_capacity : x.2 ≤ x.1.request.capacity
  within : x.2 ≠ 0 → classifyOrder (x.1.request.order d) price ≠ .outside
  pays : x.2 ≠ 0 → outputOf price (x.1.request.side d) x.2 ≠ 0
  output_le : outputOf price (x.1.request.side d) x.2 ≤ MARKET_QUANTITY_MAX

/-- The sum of a quantity over the requests of one side. -/
def sideSum (d : MarketDefinition) (side : MarketSide) (f : FundedRequestRef × ℕ → ℕ)
    (l : List (FundedRequestRef × ℕ)) : ℕ :=
  (l.map fun x => if x.1.request.side d = side then f x else 0).sum

def spentBy (x : FundedRequestRef × ℕ) : ℕ := x.1.request.spent x.2

def paidTo (d : MarketDefinition) (price : ClearingRate) (x : FundedRequestRef × ℕ) : ℕ :=
  outputOf price (x.1.request.side d) x.2

lemma sideSum_cons (d : MarketDefinition) (side : MarketSide) (f : FundedRequestRef × ℕ → ℕ)
    (x : FundedRequestRef × ℕ) (l : List (FundedRequestRef × ℕ)) :
    sideSum d side f (x :: l) = (if x.1.request.side d = side then f x else 0) + sideSum d side f l := rfl

def settledRow (H : NativeHash) (d : MarketDefinition) (price : ClearingRate) (fee count : ℕ)
    (x : (FundedRequestRef × ℕ) × ℕ) : SwapClaim × SwapExecution :=
  (claimOf H x.1.1 (swapExecution d price x.1.1.request x.1.2) (feeShare fee count x.2),
    swapExecution d price x.1.1.request x.1.2)

def SwapFlow.after (flow : SwapFlow) (d : MarketDefinition) (price : ClearingRate)
    (l : List (FundedRequestRef × ℕ)) : SwapFlow :=
  { grossBase := flow.grossBase + sideSum d .base spentBy l
    grossQuote := flow.grossQuote + sideSum d .quote spentBy l
    paidBase := flow.paidBase + sideSum d .quote (paidTo d price) l
    paidQuote := flow.paidQuote + sideSum d .base (paidTo d price) l }

/-- Every flow is a machine number. -/
def SwapFlow.Fits (flow : SwapFlow) : Prop :=
  flow.grossBase < U64 ∧ flow.grossQuote < U64 ∧ flow.paidBase < U64 ∧ flow.paidQuote < U64

section Settle

variable {H : NativeHash} {d : MarketDefinition} {price : ClearingRate}

lemma SwapFlow.add_ok {flow : SwapFlow} {x : FundedRequestRef × ℕ} {l : List (FundedRequestRef × ℕ)}
    (h : (flow.after d price (x :: l)).Fits) :
    ∃ flow', flow.add (x.1.request.side d) (spentBy x) (paidTo d price x) = .ok flow' ∧
      flow'.after d price l = flow.after d price (x :: l) := by
  obtain ⟨h1, h2, h3, h4⟩ := h
  simp only [SwapFlow.after, sideSum_cons] at h1 h2 h3 h4
  cases hside : x.1.request.side d with
  | base =>
    rw [hside] at h1 h2 h3 h4
    simp only [if_true] at h1 h4
    refine ⟨_, (checked_bind (by omega)).trans
      (checked_bind (by omega)), ?_⟩
    simp [SwapFlow.after, sideSum_cons, hside, Nat.add_assoc]
  | quote =>
    rw [hside] at h1 h2 h3 h4
    simp only [if_true] at h2 h3
    refine ⟨_, (checked_bind (by omega)).trans
      (checked_bind (by omega)), ?_⟩
    simp [SwapFlow.after, sideSum_cons, hside, Nat.add_assoc]

lemma settleLoop_ok (hd : d.base < d.quote) (hn : 0 < price.numerator)
    (hden : 0 < price.denominator) {fee count : ℕ}
    (hfee : fee ≤ count * MAX_SETTLEMENT_FEE_PER_REQUEST) :
    ∀ (l : List (FundedRequestRef × ℕ)) (flow : SwapFlow) (i : ℕ),
      (∀ x ∈ l, x.1.key H ≠ 0) → (∀ x ∈ l, RowReady d price x) → (flow.after d price l).Fits →
      settleLoop H d price fee count flow i l =
        .ok (flow.after d price l, (l.zipIdx i).map (settledRow H d price fee count))
  | [], flow, i, _, _, _ => rfl
  | (entry, e) :: l, flow, i, hkeys, hready, hfits => by
    have hx : RowReady d price (entry, e) := hready _ mem_cons_self
    have hexec := hx.request.executeSwap_ok hn hden hx.le_capacity hx.within hx.pays hx.output_le
    obtain ⟨flow', hflow, hafter⟩ : ∃ flow', flow.add (entry.request.side d)
        (swapExecution d price entry.request e).spentInput
        (swapExecution d price entry.request e).output = .ok flow' ∧
          flow'.after d price l = flow.after d price ((entry, e) :: l) := SwapFlow.add_ok hfits
    have hcharged : feeShare fee count i ≤ MARKET_REQUEST_FEE_CREDIT := by
      rw [feeShare_eq]
      exact chargedFee_le hfee (Nat.zero_le _) i
    have hclaim := swapClaim_ok hd (hkeys _ mem_cons_self) hx.request hx.pays hx.output_le hcharged
    have hrest := settleLoop_ok hd hn hden hfee l flow' (i + 1) (fun x hx => hkeys x (.tail _ hx))
      (fun x hx => hready x (.tail _ hx)) (hafter ▸ hfits)
    rw [settleLoop, bind_of_ok hexec, bind_of_ok hflow, bind_of_ok hclaim, bind_of_ok hrest, hafter]
    rfl

/-! ### Bounds of the flows -/

lemma sideSum_le (side : MarketSide) {f g : FundedRequestRef × ℕ → ℕ} :
    ∀ {l : List (FundedRequestRef × ℕ)}, (∀ x ∈ l, f x ≤ g x) → sideSum d side f l ≤ sideSum d side g l
  | [], _ => le_rfl
  | x :: l, h => by
    have ih := sideSum_le side fun y hy => h y (.tail _ hy)
    have hx := h x mem_cons_self
    rw [sideSum_cons, sideSum_cons]
    split_ifs
    · exact Nat.add_le_add hx ih
    · exact Nat.add_le_add_left ih _

/-- The trading fee: a side that takes anything spends at least a unit more. -/
theorem spent_covers (side : MarketSide) :
    ∀ {l : List (FundedRequestRef × ℕ)}, (∀ x ∈ l, RowReady d price x) →
      sideSum d side (·.2) l ≤ sideSum d side spentBy l ∧
        (sideSum d side (·.2) l ≠ 0 → sideSum d side (·.2) l < sideSum d side spentBy l)
  | [], _ => ⟨le_rfl, fun h => absurd rfl h⟩
  | x :: l, h => by
    obtain ⟨ih, ih'⟩ := spent_covers side fun y hy => h y (.tail _ hy)
    have hx := h x mem_cons_self
    obtain ⟨-, hle, hlt⟩ := hx.request.spent_bounds hx.le_capacity
    rw [sideSum_cons, sideSum_cons]
    split_ifs
    · unfold spentBy at *
      refine ⟨Nat.add_le_add hle ih, fun hne => ?_⟩
      by_cases hz : x.2 = 0
      · have := ih' (by omega)
        omega
      · have := hlt hz
        omega
    · simpa using ⟨ih, ih'⟩

lemma spentSum_le_gross (side : MarketSide) {l : List (FundedRequestRef × ℕ)} (h : ∀ x ∈ l, RowReady d price x) :
    sideSum d side spentBy l ≤ sideSum d side (·.1.request.grossInput) l :=
  sideSum_le side fun x hx => ((h x hx).request.spent_bounds (h x hx).le_capacity).1

lemma paid_base_le (hden : 0 < price.denominator) :
    ∀ (l : List (FundedRequestRef × ℕ)),
      (sideSum d .base (paidTo d price) l : ℚ) ≤ price.val * sideSum d .base (·.2) l
  | [] => by simp [sideSum]
  | x :: l => by
    have ih := paid_base_le hden l
    rw [sideSum_cons, sideSum_cons, Nat.cast_add, Nat.cast_add, mul_add]
    refine add_le_add ?_ ih
    split_ifs with hside
    · rw [paidTo, hside]
      exact PoolContext.outputOf_base_le hden x.2
    · simp

lemma paid_quote_le (hden : 0 < price.denominator) :
    ∀ (l : List (FundedRequestRef × ℕ)),
      price.val * sideSum d .quote (paidTo d price) l ≤ (sideSum d .quote (·.2) l : ℚ)
  | [] => by simp [sideSum]
  | x :: l => by
    have ih := paid_quote_le hden l
    rw [sideSum_cons, sideSum_cons, Nat.cast_add, Nat.cast_add, mul_add]
    refine add_le_add ?_ ih
    split_ifs with hside
    · rw [paidTo, hside]
      exact PoolContext.outputOf_quote_le hden x.2
    · simp

end Settle

/-! ### The reserves -/

/-- Exact inputs at the rate that clears leave both reserves positive and their product no lower. -/
theorem product_le {B Q b q p : ℚ} (B' Q' : ℚ) (hB : 0 < B) (hQ : 0 < Q) (hp : 0 < p)
    (hbal : p * (B + 2 * b) = Q + 2 * q) (hB' : p * B + p * b - q ≤ p * B')
    (hQ' : Q + q - p * b ≤ Q') : 0 < B' ∧ 0 < Q' ∧ B * Q ≤ B' * Q' := by
  -- both reserves reach the half sum of the old ones, in quote units
  have hhalf : p * B + p * b - q = (p * B + Q) / 2 := by linarith
  have hhalf' : Q + q - p * b = (p * B + Q) / 2 := by linarith
  have hpos : 0 < (p * B + Q) / 2 := by
    have := mul_pos hp hB
    linarith
  rw [hhalf] at hB'
  rw [hhalf'] at hQ'
  have hB'pos : 0 < p * B' := lt_of_lt_of_le hpos hB'
  refine ⟨(pos_iff_pos_of_mul_pos hB'pos).mp hp, lt_of_lt_of_le hpos hQ', ?_⟩
  refine le_of_mul_le_mul_left ?_ hp
  calc p * (B * Q) ≤ (p * B + Q) / 2 * ((p * B + Q) / 2) := by
        have := sq_nonneg (p * B - Q)
        linarith
    _ ≤ p * B' * Q' := mul_le_mul hB' hQ' hpos.le hB'pos.le
    _ = p * (B' * Q') := by ring

/-! ### The currency -/

section Noid

variable {H : NativeHash} {d : MarketDefinition} {price : ClearingRate}

/-- The currency a request brings in. -/
def swapNoidIn (r : FundedRequestRef) : ℕ :=
  MARKET_REQUEST_FEE_CREDIT + if r.request.inputAsset = NOID_ASSET then r.request.grossInput else 0

/-- The currency a claim carries. -/
def swapNoidOut (d : MarketDefinition) (price : ClearingRate) (fee count : ℕ) (x : (FundedRequestRef × ℕ) × ℕ) : ℕ :=
  MARKET_REQUEST_FEE_CREDIT - feeShare fee count x.2 +
    if x.1.1.request.inputAsset = NOID_ASSET then x.1.1.request.grossInput - spentBy x.1
    else if x.1.1.request.outputAsset = NOID_ASSET then paidTo d price x.1 else 0

lemma swapNoidIn_ok {r : FundedRequestRef} (h : SwapRequestOk d r.request) :
    r.request.noidValue = .ok (swapNoidIn r) := by
  have hle : (if r.request.inputAsset = NOID_ASSET then r.request.grossInput else 0) ≤ MARKET_QUANTITY_MAX := by
    split_ifs
    · exact h.gross_le
    · exact Nat.zero_le _
  exact checked_of_lt _ (lt_of_le_of_lt (Nat.add_le_add_left hle _) (by decide))

lemma row_noid (hd : d.base < d.quote) {fee count : ℕ}
    (hfee : fee ≤ count * MAX_SETTLEMENT_FEE_PER_REQUEST) {x : FundedRequestRef × ℕ}
    (hx : RowReady d price x) (i : ℕ) :
    swapNoidIn x.1 + (if d.base = NOID_ASSET ∧ x.1.request.side d = .quote then paidTo d price x else 0) =
      swapNoidOut d price fee count (x, i) + feeShare fee count i +
        if d.base = NOID_ASSET ∧ x.1.request.side d = .base then spentBy x else 0 := by
  have hshare : feeShare fee count i ≤ MARKET_REQUEST_FEE_CREDIT := by
    rw [feeShare_eq]
    exact chargedFee_le hfee (Nat.zero_le _) i
  have hspent : spentBy x ≤ x.1.request.grossInput :=
    (hx.request.spent_bounds hx.le_capacity).1
  have hquote : d.quote ≠ NOID_ASSET := by
    rintro h
    rw [h] at hd
    exact Nat.not_lt_zero _ hd
  unfold swapNoidIn swapNoidOut
  rcases hx.request.market.side_eq hd with ⟨hside, hi, ho⟩ | ⟨hside, hi, ho⟩
  all_goals
    rw [hi, ho, hside]
    by_cases hbase : d.base = NOID_ASSET <;>
      simp only [hbase, hquote, if_true, if_false, true_and, false_and, reduceCtorEq] <;> omega

lemma rows_noid_balance (hd : d.base < d.quote) {fee count : ℕ}
    (hfee : fee ≤ count * MAX_SETTLEMENT_FEE_PER_REQUEST) :
    ∀ (l : List (FundedRequestRef × ℕ)) (i : ℕ), (∀ x ∈ l, RowReady d price x) → (l.map fun x => swapNoidIn x.1).sum +
          (if d.base = NOID_ASSET then sideSum d .quote (paidTo d price) l else 0) =
        ((l.zipIdx i).map (swapNoidOut d price fee count)).sum +
          ((l.zipIdx i).map fun x => feeShare fee count x.2).sum +
            if d.base = NOID_ASSET then sideSum d .base spentBy l else 0
  | [], i, _ => by simp [sideSum]
  | x :: l, i, h => by
    have ih := rows_noid_balance hd hfee l (i + 1) fun y hy => h y (.tail _ hy)
    have hrow := row_noid hd hfee (h x mem_cons_self) i
    simp only [zipIdx_cons, map_cons, sum_cons, sideSum_cons]
    by_cases hbase : d.base = NOID_ASSET <;>
      simp only [hbase, if_true, if_false, true_and, false_and] at ih hrow ⊢ <;> omega

lemma sum_feeShare (fee : ℕ) {l : List (FundedRequestRef × ℕ)} (hl : 0 < l.length) :
    ((l.zipIdx 0).map fun x => feeShare fee l.length x.2).sum = fee := by
  simp only [feeShare_eq]
  exact sum_chargedFee hl fee 0

end Noid

/-! ### Settlement -/

section Settlement

variable {H : NativeHash} {d : MarketDefinition} {batch : RegisteredBatch}

lemma sideSum_taken (side : MarketSide) (es : List ℕ) :
    sideSum d side (·.2) (batch.requests.zip es) = inputOf side (swapOrders d batch) es := by
  unfold sideSum inputOf swapOrders
  rw [zip_map_left, map_map]
  rfl

lemma sideSum_gross (side : MarketSide) {es : List ℕ} (h : batch.requests.length = es.length) :
    sideSum d side (·.1.request.grossInput) (batch.requests.zip es) = sideGross d side batch.requests := by
  have hfst : (batch.requests.zip es).map Prod.fst = batch.requests := map_fst_zip h.le
  have hmap : sideGross d side ((batch.requests.zip es).map Prod.fst) =
      sideSum d side (·.1.request.grossInput) (batch.requests.zip es) := by
    unfold sideGross sideSum
    rw [map_map]
    rfl
  rw [← hmap, hfst]

lemma le_sideSum {l : List (FundedRequestRef × ℕ)} {x : FundedRequestRef × ℕ} (hx : x ∈ l) :
    x.2 ≤ sideSum d (x.1.request.side d) (·.2) l := by
  refine single_le_sum (fun _ _ => Nat.zero_le _) _ (mem_map.mpr ⟨x, hx, ?_⟩)
  exact if_pos rfl

lemma SwapBatchOk.rows_ready (hb : SwapBatchOk H d batch) {c : PoolContext} (hc : c.Ok)
    {s : ClearingStep} (hs : c.RateSpec s) {es : List ℕ} (hr : RoundSpec c (swapOrders d batch) s es) :
    ∀ x ∈ batch.requests.zip es, RowReady d s.price x := by
  intro x hx
  have hfills := (forall₂_iff_zip.mp (forall₂_map_left_iff.mp hr.fills)).2 hx
  have hpays := (forall₂_iff_zip.mp (forall₂_map_left_iff.mp hr.pays)).2 hx
  have hle : (x.2 : ℚ) ≤ c.exactInput s (x.1.request.side d) := by
    refine le_trans ?_ (hr.input_le (x.1.request.side d))
    rw [← sideSum_taken]
    exact_mod_cast le_sideSum hx
  exact
    { request := hb.requests_ok x.1 (of_mem_zip hx).1
      le_capacity := hfills.1
      within := hfills.2
      pays := hpays
      output_le := hs.outputOf_le hc hle }

/-- The reserves after a round: positive, within range, and of no smaller product. -/
structure ReservesOk (B Q : ℕ) (flow : SwapFlow) : Prop where
  fits : flow.Fits
  base_le : B + flow.grossBase ≤ MARKET_QUANTITY_MAX
  quote_le : Q + flow.grossQuote ≤ MARKET_QUANTITY_MAX
  base_pos : flow.paidBase < B + flow.grossBase
  quote_pos : flow.paidQuote < Q + flow.grossQuote
  product : B * Q ≤ (B + flow.grossBase - flow.paidBase) * (Q + flow.grossQuote - flow.paidQuote)

lemma ReservesOk.of_exact {B Q : ℕ} {flow : SwapFlow} {b q p : ℚ} (hB : (0 : ℚ) < B) (hQ : (0 : ℚ) < Q) (hp : 0 < p)
    (hbal : p * (B + 2 * b) = Q + 2 * q) (hb : b ≤ flow.grossBase) (hq : q ≤ flow.grossQuote)
    (hpaidQ : flow.paidQuote ≤ p * b) (hpaidB : p * flow.paidBase ≤ q)
    (hbase : B + flow.grossBase ≤ MARKET_QUANTITY_MAX) (hquote : Q + flow.grossQuote ≤ MARKET_QUANTITY_MAX) :
    ReservesOk B Q flow := by
  have hpb := mul_le_mul_of_nonneg_left hb hp.le
  obtain ⟨hB', hQ', hprod⟩ := product_le (B + flow.grossBase - flow.paidBase)
    (Q + flow.grossQuote - flow.paidQuote) hB hQ hp hbal (by linarith) (by linarith)
  have hBpos : flow.paidBase < B + flow.grossBase := by exact_mod_cast sub_pos.mp hB'
  have hQpos : flow.paidQuote < Q + flow.grossQuote := by exact_mod_cast sub_pos.mp hQ'
  have hmax : MARKET_QUANTITY_MAX < U64 := by decide
  refine ⟨⟨by omega, by omega, by omega, by omega⟩, hbase, hquote, hBpos, hQpos, ?_⟩
  have : ((B * Q : ℕ) : ℚ) ≤ ((B + flow.grossBase - flow.paidBase) * (Q + flow.grossQuote - flow.paidQuote) : ℕ) := by
    rw [Nat.cast_mul, Nat.cast_mul, Nat.cast_sub hBpos.le, Nat.cast_sub hQpos.le]
    push_cast
    exact hprod
  exact_mod_cast this

lemma SwapBatchOk.reserves_ok (hb : SwapBatchOk H d batch) {c : PoolContext} (hc : c.Ok)
    (hpool : c.pool = batch.before) {s : ClearingStep} (hs : c.RateSpec s) {es : List ℕ}
    (hr : RoundSpec c (swapOrders d batch) s es) :
    ReservesOk batch.before.baseReserve batch.before.quoteReserve
      (SwapFlow.after ⟨0, 0, 0, 0⟩ d s.price (batch.requests.zip es)) := by
  have hready := hb.rows_ready hc hs hr
  have hlen : batch.requests.length = es.length := by
    have := hr.fills.length_eq
    simpa [swapOrders] using this
  set l := batch.requests.zip es with hl
  have hgross : ∀ side, sideSum d side spentBy l ≤ sideGross d side batch.requests := by
    intro side
    rw [← sideSum_gross side hlen]
    exact spentSum_le_gross side hready
  -- the trading fee of a filled request is more than rounding takes from its side
  have hcovers : ∀ side, c.exactInput s side ≤ (0 + sideSum d side spentBy l : ℕ) := by
    intro side
    obtain ⟨-, hlt⟩ := spent_covers side hready
    rw [Nat.zero_add]
    by_cases hz : sideSum d side (·.2) l = 0
    · rw [hr.exact_zero side (by rw [← sideSum_taken]; exact hz)]
      exact Nat.cast_nonneg _
    · have hexact := hr.exact_lt side
      rw [← sideSum_taken] at hexact
      have : (sideSum d side (·.2) l : ℚ) + 1 ≤ sideSum d side spentBy l := by
        exact_mod_cast hlt hz
      linarith
  have htaken : ∀ side, (sideSum d side (·.2) l : ℚ) ≤ c.exactInput s side := by
    intro side
    rw [hl, sideSum_taken]
    exact hr.input_le side
  have hval := hs.val_pos
  have hpaidQ := (paid_base_le (d := d) hs.denominator_pos l).trans
    (mul_le_mul_of_nonneg_left (htaken .base) hval.le)
  have hpaidB := (paid_quote_le (d := d) hs.denominator_pos l).trans (htaken .quote)
  have hbase := (Nat.add_le_add_left (hgross .base) _).trans hb.base_le
  have hquote := (Nat.add_le_add_left (hgross .quote) _).trans hb.quote_le
  refine .of_exact (hpool ▸ hc.base_pos') (hpool ▸ hc.quote_pos') hval (hpool ▸ hs.balance) (hcovers .base)
    (hcovers .quote) ?_ ?_ ?_ ?_
  all_goals simpa only [SwapFlow.after, Nat.zero_add]

lemma reserveAfter_ok {reserve gross paid : ℕ} (hle : reserve + gross ≤ MARKET_QUANTITY_MAX)
    (hpaid : paid < reserve + gross) : reserveAfter reserve gross paid = .ok (reserve + gross - paid) := by
  have hmax : MARKET_QUANTITY_MAX < U64 := by decide
  rw [reserveAfter, checked_bind (by omega),
    bind_of_ok (show checkedSub MarketError.arithmetic _ paid = .ok _ from if_pos hpaid.le),
    require_bind (by omega)]
  rfl

def settledPool (before : PoolState) (flow : SwapFlow) : PoolState :=
  { before.idleView with
    generation := before.generation + 1
    baseReserve := before.baseReserve + flow.grossBase - flow.paidBase
    quoteReserve := before.quoteReserve + flow.grossQuote - flow.paidQuote }

lemma SwapBatchOk.settledPool_validate (hb : SwapBatchOk H d batch) {flow : SwapFlow}
    (hr : ReservesOk batch.before.baseReserve batch.before.quoteReserve flow) :
    (settledPool batch.before flow).validate = .ok () := by
  have hbefore := hb.before_ok
  simp only [PoolState.checkDefinition, bind_eq_ok, PoolState.validate_eq_ok] at hbefore
  obtain ⟨-, ⟨hid, -, -, hshares, hsq, hlocked, -⟩, -⟩ := hbefore
  have hbase := hr.base_le
  have hquote := hr.quote_le
  have hbasePos := hr.base_pos
  have hquotePos := hr.quote_pos
  refine PoolState.validate_eq_ok.mpr
    ⟨hid, ⟨?_, ?_⟩, ⟨?_, ?_⟩, hshares, hsq.trans hr.product, hlocked, rfl, rfl, rfl, rfl⟩
  all_goals
    simp only [settledPool]
    omega

lemma SwapBatchOk.noid_ok (hb : SwapBatchOk H d batch) {price : ClearingRate} {fee : ℕ}
    (hfee : fee ≤ batch.requests.length * MAX_SETTLEMENT_FEE_PER_REQUEST) {es : List ℕ}
    (hlen : batch.requests.length = es.length)
    (hready : ∀ x ∈ batch.requests.zip es, RowReady d price x)
    (hr : ReservesOk batch.before.baseReserve batch.before.quoteReserve
      (SwapFlow.after ⟨0, 0, 0, 0⟩ d price (batch.requests.zip es))) :
    batch.before.noidValue + (batch.requests.map swapNoidIn).sum =
      (settledPool batch.before (SwapFlow.after ⟨0, 0, 0, 0⟩ d price (batch.requests.zip es))).noidValue +
        fee + (((batch.requests.zip es).zipIdx 0).map (swapNoidOut d price fee batch.requests.length)).sum := by
  have hbefore := hb.before_ok
  simp only [PoolState.checkDefinition, ok_rules] at hbefore
  obtain ⟨-, -, -, -, -, hflag⟩ := hbefore
  have hcount : (batch.requests.zip es).length = batch.requests.length := by
    rw [length_zip, ← hlen, Nat.min_self]
  have hfst : (batch.requests.zip es).map Prod.fst = batch.requests := map_fst_zip hlen.le
  have hin : ((batch.requests.zip es).map fun x => swapNoidIn x.1).sum = (batch.requests.map swapNoidIn).sum := by
    conv_rhs => rw [← hfst, map_map]
    rfl
  have hsome : 0 < (batch.requests.zip es).length := by
    rw [hcount]
    exact hb.nonempty
  have hshare := sum_feeShare fee hsome
  rw [hcount] at hshare
  have hbalance := rows_noid_balance hb.ordered hfee (batch.requests.zip es) 0 hready
  have hpos := hr.base_pos
  simp only [SwapFlow.after, Nat.zero_add] at hpos
  simp only [PoolState.noidValue, settledPool, PoolState.idleView, SwapFlow.after, Nat.zero_add]
  rw [show batch.before.baseIsNoid = decide (d.base = NOID_ASSET) from hflag]
  simp only [decide_eq_true_eq]
  split_ifs at hbalance ⊢ <;> omega

lemma SwapBatchOk.calculate_settles (hkeys : ∀ r ∈ batch.requests, r.key H ≠ 0) (hb : SwapBatchOk H d batch)
    (hgen : batch.before.generation < U64) {height fee : ℕ}
    (hheight : batch.settlementAllowed height = .ok ())
    (hfee : fee ≤ batch.requests.length * MAX_SETTLEMENT_FEE_PER_REQUEST) :
    ∃ settlement, BatchSettlement.calculate H d batch height fee = .ok settlement := by
  obtain ⟨sol, hsol, mask, s, hc, hs, hround, hprice⟩ := hb.solve_ok
  have hready := hb.rows_ready hc hs hround
  have hreserves := hb.reserves_ok hc rfl hs hround
  have hlen : batch.requests.length = sol.effective.length := by
    have := hround.fills.length_eq
    simpa [swapOrders] using this
  set l := batch.requests.zip sol.effective with hl
  have hloop := settleLoop_ok hb.ordered hs.numerator_pos hs.denominator_pos hfee l ⟨0, 0, 0, 0⟩ 0
    (fun x hx => hkeys x.1 (of_mem_zip hx).1) hready hreserves.fits
  have hgen' : batch.before.generation + 1 < U64 := by
    have := hb.generation_ne
    unfold U64_MAX at this
    unfold U64 at *
    omega
  have hincoming : batch.requests.mapM (·.request.noidValue) = .ok (batch.requests.map swapNoidIn) :=
    mapM_eq_map fun r hr => swapNoidIn_ok (hb.requests_ok r hr)
  have houtgoing : (((l.zipIdx 0).map (settledRow H d s.price fee batch.requests.length)).map (·.1)).mapM
      SwapClaim.noidValue = .ok ((l.zipIdx 0).map (swapNoidOut d s.price fee batch.requests.length)) := by
    rw [mapM_eq_ok, map_map, forall₂_map_left_iff, forall₂_map_right_iff]
    refine forall₂_same.mpr fun x hx => ?_
    have hx := hready x.1 (fst_mem_of_mem_zipIdx hx)
    exact claimOf_noidValue ((Nat.sub_le _ _).trans hx.request.gross_le) hx.output_le
  have hvalid := hb.settledPool_validate hreserves
  have hnoid := hb.noid_ok hfee hlen hready hreserves
  unfold settledPool at hvalid hnoid
  rw [BatchSettlement.calculate, bind_of_ok hheight, bind_of_ok hb.before_ok, require_bind hfee,
    bind_of_ok hsol, hprice, bind_of_ok hloop]
  simp only
  rw [checked_bind hgen', bind_of_ok (reserveAfter_ok hreserves.base_le hreserves.base_pos),
    bind_of_ok (reserveAfter_ok hreserves.quote_le hreserves.quote_pos),
    bind_of_ok hvalid, require_bind hreserves.product,
    bind_of_ok hincoming, bind_of_ok houtgoing, require_bind hnoid]
  exact ⟨_, rfl⟩

end Settlement

/-- **A registered round settles**, and over each active set exactly one rate clears, which the step finds. -/
theorem RegisteredBatch.settles {H : NativeHash} {d : MarketDefinition}
    {before : PoolState} (hgen : before.generation < U64) {registered : ℕ}
    {requests : List FundedRequestRef} {batch : RegisteredBatch}
    (hreg : RegisteredBatch.register H d before registered requests = .ok batch)
    (hkeys : ∀ r ∈ batch.requests, r.key H ≠ 0) {height fee : ℕ} (hheight : batch.settlementAllowed height = .ok ())
    (hfee : fee ≤ batch.requests.length * MAX_SETTLEMENT_FEE_PER_REQUEST) :
    (∃ orders, batch.requests.mapM (marketOrder d) = .ok orders ∧ ∀ mask, ∃ s,
      marketStep batch.before orders mask = .ok s ∧
        ∀ p, (poolContext batch.before orders mask).Clears p ↔ p = s.price.val) ∧
    ∃ settlement, BatchSettlement.calculate H d batch height fee = .ok settlement := by
  have hb := swapRegister_inv hreg
  obtain ⟨-, hbefore, -⟩ := register_eq_ok hreg
  refine ⟨⟨swapOrders d batch, hb.orders_ok, fun mask => ?_⟩, hb.calculate_settles hkeys (hbefore ▸ hgen) hheight hfee⟩
  obtain ⟨s, hs, -, hclears⟩ := marketStep_ok (hb.context_ok mask)
  refine ⟨s, hs, fun p => ⟨fun hp => (hb.context_ok mask).clears_unique hp hclears, ?_⟩⟩
  rintro rfl
  exact hclears

/-! ### A round with a partial fill -/

def noidMarket : MarketDefinition :=
  { genesis := 1, base := NOID_ASSET, quote := 1, profile := MARKET_PROFILE }

def smallPool : PoolState :=
  { permanentPool (10 ^ 6) (2 * 10 ^ 6) 0 with lockedShares := MARKET_MIN_LOCKED_SHARES }

def swapAt (slot input output gross minimum : ℕ) : FundedRequestRef :=
  { slotIndex := slot, creationId := NATIVE_CREATION_TAG + 1
    request :=
      { round := 1, inputAsset := input, outputAsset := output, owner := 1, recipient := 1
        grossInput := gross, minimumOutput := minimum, registeredHeight := 10, profile := MARKET_PROFILE } }

/-- A base order whose limit stops the round, and a quote order that is filled. -/
def limitedSwaps : List FundedRequestRef :=
  [swapAt 1 NOID_ASSET 1 500000 990000, swapAt 2 1 NOID_ASSET 100000 40000]

def limitedRound : RegisteredBatch :=
  { before := smallPool
    after := { smallPool with
      queueRoot := 1, registeredHeight := 10, timeoutHeight := 14, requestCount := 2, phase := .frozen }
    round := 1, requests := limitedSwaps }

theorem limitedRound_settles :
    ∃ settlement, BatchSettlement.calculate NativeHash.plain noidMarket limitedRound 12 40000 = .ok settlement :=
  have hreg : RegisteredBatch.register NativeHash.plain noidMarket smallPool 10 limitedSwaps =
      .ok limitedRound := by decide +kernel
  (RegisteredBatch.settles (by decide) hreg (by decide) (by decide +kernel) (by decide)).2

end Noid.Tx
