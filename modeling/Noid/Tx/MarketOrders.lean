import Noid.Tx.MarketAllocate

/-! # The orders of a registered pool round

Registration bounds the requests of a round and their sum, so every active set has a sound context and clearing ends. -/

namespace Noid.Tx

open Noid.Lib Noid.Lib.Crossing List

/-! ### What registration guarantees -/

/-- The input net of the trading fee. -/
def SwapRequest.capacity (r : SwapRequest) : ℕ :=
  r.grossInput - (r.grossInput * MARKET_FEE_BPS + 9999) / 10000

/-- The bounds a registered swap satisfies. -/
structure SwapRequestOk (d : MarketDefinition) (r : SwapRequest) : Prop where
  market : r.OfMarket d
  owner_ne : r.owner ≠ 0
  recipient_ne : r.recipient ≠ 0
  gross_pos : 0 < r.grossInput
  gross_le : r.grossInput ≤ MARKET_QUANTITY_MAX
  minimum_pos : 0 < r.minimumOutput
  minimum_le : r.minimumOutput ≤ MARKET_QUANTITY_MAX
  capacity_pos : 0 < r.capacity

def sideGross (d : MarketDefinition) (side : MarketSide) (l : List FundedRequestRef) : ℕ :=
  (l.map fun r => if r.request.side d = side then r.request.grossInput else 0).sum

/-- The facts about a registered round that its settlement uses. -/
structure SwapBatchOk (H : NativeHash) (d : MarketDefinition) (batch : RegisteredBatch) : Prop where
  ordered : d.base < d.quote
  before_ok : batch.before.checkDefinition H d = .ok ()
  idle : batch.before.phase = .idle
  generation_ne : batch.before.generation ≠ U64_MAX
  nonempty : 0 < batch.requests.length
  requests_ok : ∀ r ∈ batch.requests, SwapRequestOk d r.request
  base_le : batch.before.baseReserve + sideGross d .base batch.requests ≤ MARKET_QUANTITY_MAX
  quote_le : batch.before.quoteReserve + sideGross d .quote batch.requests ≤ MARKET_QUANTITY_MAX

section Register

variable {H : NativeHash} {d : MarketDefinition} {before : PoolState} {height : ℕ}

lemma effectiveInput_eq {r : SwapRequest} (h : 0 < r.grossInput) :
    r.effectiveInput = .ok r.capacity := by
  have hle : (r.grossInput * MARKET_FEE_BPS + 9999) / 10000 ≤ r.grossInput := by
    unfold MARKET_FEE_BPS
    omega
  exact if_pos hle

lemma swapCheckRound_inv {r : SwapRequest} {u : Unit} (h : r.checkRound H d before height = .ok u) :
    SwapRequestOk d r := by
  have hmarket := checkRound_ofMarket h
  simp only [SwapRequest.checkRound, SwapRequest.validate, Tx.owner, quantity, ok_rules] at h
  obtain ⟨⟨-, ho, hr, ⟨hg, hgle⟩, ⟨hm, hmle⟩, -, -, -, -, -, cap, hcap, hpos⟩, -⟩ := h
  have hg' := Nat.pos_of_ne_zero hg
  rw [effectiveInput_eq hg'] at hcap
  exact
    { market := hmarket
      owner_ne := ho
      recipient_ne := hr
      gross_pos := hg'
      gross_le := hgle
      minimum_pos := Nat.pos_of_ne_zero hm
      minimum_le := hmle
      capacity_pos := by
        rw [Except.ok.inj hcap]
        exact Nat.pos_of_ne_zero hpos }

lemma SwapRequest.OfMarket.side_eq (hd : d.base < d.quote) {r : SwapRequest} (h : r.OfMarket d) :
    r.side d = .base ∧ r.inputAsset = d.base ∧ r.outputAsset = d.quote ∨
      r.side d = .quote ∧ r.inputAsset = d.quote ∧ r.outputAsset = d.base := by
  rcases h with ⟨hi, ho⟩ | ⟨hi, ho⟩
  · exact .inl ⟨if_pos hi, hi, ho⟩
  · refine .inr ⟨if_neg ?_, hi, ho⟩
    rw [hi]
    exact hd.ne'

lemma roundPrincipal_inv (hd : d.base < d.quote) :
    ∀ {l : List FundedRequestRef} {sum : ℕ × ℕ}, RegisteredBatch.roundPrincipal H d before height l = .ok sum →
      (∀ r ∈ l, SwapRequestOk d r.request) ∧ sum.1 = sideGross d .base l ∧ sum.2 = sideGross d .quote l := by
  intro l
  induction l with
  | nil =>
    intro sum h
    obtain rfl := Except.ok.inj h
    exact ⟨by simp, rfl, rfl⟩
  | cons r rest ih =>
    intro sum h
    simp only [RegisteredBatch.roundPrincipal, ok_rules] at h
    obtain ⟨⟨⟩, hround, amount, hamount, sum', hrest, rfl⟩ := h
    obtain ⟨hall, h1, h2⟩ := ih hrest
    have hr := swapCheckRound_inv hround
    refine ⟨forall_mem_cons.mpr ⟨hr, hall⟩, ?_⟩
    · simp only [sideGross, map_cons, sum_cons] at h1 h2 ⊢
      rw [h1, h2]
      have hne := hd.ne'
      rcases hr.market.side_eq hd with ⟨hside, hi, ho⟩ | ⟨hside, hi, ho⟩
      · rw [SwapRequest.principal, if_pos ⟨hi, ho⟩] at hamount
        obtain rfl := Except.ok.inj hamount
        simp [hside]
      · rw [SwapRequest.principal, if_neg (fun h => hne (hi.symm.trans h.1)), if_pos ⟨hi, ho⟩] at hamount
        obtain rfl := Except.ok.inj hamount
        simp [hside]

lemma swapRegister_inv {requests : List FundedRequestRef} {batch : RegisteredBatch}
    (h : RegisteredBatch.register H d before height requests = .ok batch) : SwapBatchOk H d batch := by
  simp only [RegisteredBatch.register, RegisteredBatch.canonicalRequests, ok_rules] at h
  obtain ⟨⟨⟩, hbefore, hidle, round, hround, keyed, ⟨hlen, -, -, rfl⟩, sum, hsum, ⟨hbase, hquote⟩, -, -, -,
    -, -, -, rfl⟩ := h
  have hordered : d.base < d.quote := by
    simp only [PoolState.checkDefinition, MarketDefinition.validate, ok_rules] at hbefore
    obtain ⟨-, -, ⟨⟨-, hlt⟩, -⟩, -⟩ := hbefore
    exact hlt
  simp only [PoolState.roundId, ok_rules] at hround
  obtain ⟨-, -, ⟨-, hgen, -⟩, -⟩ := hround
  obtain ⟨hall, h1, h2⟩ := roundPrincipal_inv hordered hsum
  exact
    { ordered := hordered
      before_ok := hbefore
      idle := hidle
      generation_ne := hgen
      nonempty := by
        rw [length_insertionSort]
        exact length_pos_of_ne_nil hlen.1
      requests_ok := hall
      base_le := h1 ▸ hbase
      quote_le := h2 ▸ hquote }

end Register

/-! ### The orders of a round -/

def SwapRequest.order (d : MarketDefinition) (r : SwapRequest) : MarketOrder :=
  { side := r.side d, capacity := r.capacity
    limit := match r.side d with
      | .base => { numerator := r.minimumOutput, denominator := r.capacity }
      | .quote => { numerator := r.capacity, denominator := r.minimumOutput } }

section Orders

variable {H : NativeHash} {d : MarketDefinition} {batch : RegisteredBatch}

lemma marketOrder_ok {r : FundedRequestRef} (h : 0 < r.request.grossInput) :
    marketOrder d r = .ok (r.request.order d) := by
  rw [marketOrder, bind_of_ok (effectiveInput_eq h)]
  rfl

lemma SwapRequestOk.capacity_le {r : SwapRequest} (_h : SwapRequestOk d r) :
    r.capacity ≤ r.grossInput := Nat.sub_le _ _

lemma SwapBatchOk.orders_ok (hb : SwapBatchOk H d batch) :
    batch.requests.mapM (marketOrder d) = .ok (batch.requests.map fun r => r.request.order d) :=
  mapM_eq_map fun r hr => marketOrder_ok (hb.requests_ok r hr).gross_pos

def swapOrders (d : MarketDefinition) (batch : RegisteredBatch) : List MarketOrder :=
  batch.requests.map fun r => r.request.order d

lemma SwapRequestOk.limit_ok {r : SwapRequest} (h : SwapRequestOk d r) :
    (0 < (r.order d).limit.numerator ∧ 0 < (r.order d).limit.denominator) ∧
      (r.order d).limit.numerator ≤ MARKET_QUANTITY_MAX ∧ (r.order d).limit.denominator ≤ MARKET_QUANTITY_MAX := by
  have hcap := h.capacity_le.trans h.gross_le
  unfold SwapRequest.order
  cases r.side d with
  | base => exact ⟨⟨h.minimum_pos, h.capacity_pos⟩, h.minimum_le, hcap⟩
  | quote => exact ⟨⟨h.capacity_pos, h.minimum_pos⟩, hcap, h.minimum_le⟩

/-- The capacity of a side is at most its gross input. -/
theorem total_side_le (side : MarketSide) :
    ∀ {l : List FundedRequestRef}, (∀ r ∈ l, SwapRequestOk d r.request) →
      total ((l.map fun r => r.request.order d).map MarketOrder.launch)
        (fun o => decide (o.side = side.launch)) ≤ sideGross d side l
  | [], _ => le_rfl
  | r :: l, h => by
    have ih := total_side_le side fun x hx => h x (.tail _ hx)
    have hr := (h r mem_cons_self).capacity_le
    have hside : (r.request.order d).launch.side = side.launch ↔ r.request.side d = side :=
      MarketOrder.launch_side _ _
    rw [map_cons, map_cons, total_cons, sideGross, map_cons, sum_cons]
    unfold sideGross at ih
    simp only [decide_eq_true_eq, hside]
    by_cases heq : r.request.side d = side
    · rw [if_pos heq, if_pos heq]
      exact Nat.add_le_add hr ih
    · rw [if_neg heq, if_neg heq]
      omega

lemma activeOrders_sublist (orders : List MarketOrder) (mask : Finset ℕ) :
    (activeOrders orders mask).Sublist orders :=
  filter_zipIdx_sublist orders _

/-- Every active set of a registered round has a sound context. -/
theorem SwapBatchOk.context_ok (hb : SwapBatchOk H d batch) (mask : Finset ℕ) :
    (poolContext batch.before (swapOrders d batch) mask).Ok := by
  have hpool := hb.before_ok
  simp only [PoolState.checkDefinition, bind_eq_ok, PoolState.validate_eq_ok] at hpool
  obtain ⟨-, ⟨-, ⟨hB, -⟩, ⟨hQ, -⟩, -⟩, -⟩ := hpool
  have hsub : (poolContext batch.before (swapOrders d batch) mask).orders.Sublist
      ((swapOrders d batch).map MarketOrder.launch) := (activeOrders_sublist _ mask).map _
  have hlimit : ∀ o ∈ (poolContext batch.before (swapOrders d batch) mask).orders,
      (0 < o.limit.numerator ∧ 0 < o.limit.denominator) ∧
        o.limit.numerator ≤ MARKET_QUANTITY_MAX ∧ o.limit.denominator ≤ MARKET_QUANTITY_MAX := by
    intro o ho
    obtain ⟨m, hm, rfl⟩ := mem_map.mp (hsub.subset ho)
    obtain ⟨r, hr, rfl⟩ := mem_map.mp hm
    exact (hb.requests_ok r hr).limit_ok
  have hside : ∀ side, total (poolContext batch.before (swapOrders d batch) mask).orders
      (fun o => decide (o.side = MarketSide.launch side)) ≤ sideGross d side batch.requests := fun side =>
    (total_sublist hsub _).trans (total_side_le side hb.requests_ok)
  exact
    { base_pos := Nat.pos_of_ne_zero hB
      quote_pos := Nat.pos_of_ne_zero hQ
      limit_pos := fun o ho => (hlimit o ho).1
      limit_le := fun o ho => (hlimit o ho).2
      base_le := (Nat.add_le_add_left (hside .base) _).trans hb.base_le
      quote_le := (Nat.add_le_add_left (hside .quote) _).trans hb.quote_le }

/-- The rounds of clearing of a registered round end with a solution. -/
theorem SwapBatchOk.solve_ok (hb : SwapBatchOk H d batch) :
    ∃ sol, solveMarket H d batch = .ok sol ∧ MarketSolutionSpec batch.before (swapOrders d batch) sol := by
  have hcap : ∀ o ∈ swapOrders d batch, 0 < o.capacity := by
    intro o ho
    obtain ⟨r, hr, rfl⟩ := mem_map.mp ho
    exact (hb.requests_ok r hr).capacity_pos
  obtain ⟨sol, hsol, hspec⟩ := solveMarketLoop_ok hcap hb.context_ok ((swapOrders d batch).length + 1)
    (Finset.range (swapOrders d batch).length) (by simp)
  refine ⟨sol, ?_, hspec⟩
  rw [solveMarket, bind_of_ok hb.before_ok, bind_of_ok hb.orders_ok]
  exact hsol

end Orders

end Noid.Tx
