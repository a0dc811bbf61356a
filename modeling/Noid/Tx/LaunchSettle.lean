import Noid.Tx.LaunchAllocate

/-! # Clearing a registered round

What registration checks is enough for every step of clearing to be sound.  The loop of `solve` drops the dust of each
step, so it goes through finitely many active sets: it ends with a solution unless one of them is a cap tie. -/

namespace Noid.Tx

open Noid.Lib Noid.Lib.Crossing List LaunchRegisteredBatch LaunchDefinition

/-! ### What registration guarantees -/

/-- The bounds a registered request satisfies. -/
structure RequestOk (d : LaunchDefinition) (r : LaunchRequest) : Prop where
  quantity_pos : 0 < r.quantity
  quantity_le : r.quantity ≤ LAUNCH_MAX_SUPPLY
  limit_le : r.noidLimit ≤ MARKET_QUANTITY_MAX
  buy_limit : r.side = .buy → r.noidLimit ≠ 0
  owner_ne : r.owner ≠ 0
  recipient_ne : r.recipient ≠ 0
  asset_eq : r.asset = d.asset

/-- The facts about a registered round that its settlement uses. -/
structure BatchOk (H : NativeHash) (d : LaunchDefinition) (batch : LaunchRegisteredBatch) : Prop where
  definition : d.validate = .ok ()
  before_ok : batch.before.checkDefinition H d = .ok ()
  idle : batch.before.phase = .idle
  generation_ne : batch.before.generation ≠ U64_MAX
  nonempty : 0 < batch.requests.length
  count_le : batch.requests.length ≤ MAX_ROUND_REQUESTS
  requests_ok : ∀ r ∈ batch.requests, RequestOk d r.request
  buys_le : batch.before.marketNoid + LaunchRegisteredBatch.buyLimits batch.requests ≤ MARKET_QUANTITY_MAX
  sells_le : LaunchRegisteredBatch.sellQuantities batch.requests ≤ d.initialSupply - batch.before.inventoryUnits

section Register

variable {H : NativeHash} {d : LaunchDefinition} {before : LaunchState} {height : ℕ}

lemma checkRequests_inv :
    ∀ {requests : List LaunchRequestRef} {slots : List ℕ} {u : Unit},
      LaunchRegisteredBatch.checkRequests H d before height slots requests = .ok u →
      ∀ r ∈ requests, r.request.checkRound H d before height = .ok ()
  | [], _, _, _, r, hr => by simp at hr
  | a :: requests, slots, u, h, r, hr => by
    simp only [checkRequests, bind_eq_ok] at h
    obtain ⟨-, -, ⟨⟩, hround, -, -, hrest⟩ := h
    rcases mem_cons.mp hr with rfl | hr
    · exact hround
    · exact checkRequests_inv hrest r hr

lemma checkRound_inv {r : LaunchRequest} (h : r.checkRound H d before height = .ok ()) :
    RequestOk d r := by
  simp only [LaunchRequest.checkRound, LaunchRequest.validate, bind_eq_ok, require_eq_ok, pure_eq_ok] at h
  obtain ⟨-, ⟨-, ⟨-, -, ho, hr, -⟩, -, ⟨hq, hqle, hl, hb⟩, -⟩, -, -, -, ⟨ha, -⟩, -⟩ := h
  exact
    { quantity_pos := Nat.pos_of_ne_zero hq
      quantity_le := hqle
      limit_le := hl
      buy_limit := fun hs hz => hb ⟨hs, hz⟩
      owner_ne := ho
      recipient_ne := hr
      asset_eq := ha }

lemma sortByKey_perm (requests : List LaunchRequestRef) :
    (LaunchRegisteredBatch.sortByKey H requests).Perm requests :=
  perm_insertionSort _ _

lemma checkDefinition_definition {s : LaunchState} (h : s.checkDefinition H d = .ok ()) :
    d.validate = .ok () := by
  simp only [LaunchState.checkDefinition, bind_eq_ok] at h
  obtain ⟨-, -, ⟨⟩, hd, -⟩ := h
  exact hd

lemma register_inv {requests : List LaunchRequestRef} {batch : LaunchRegisteredBatch}
    (h : LaunchRegisteredBatch.register H d before height requests = .ok batch) :
    BatchOk H d batch := by
  simp only [register, bind_eq_ok, require_eq_ok, pure_eq_ok] at h
  obtain ⟨⟨⟩, hbefore, -, ⟨hne, hlen⟩, round, hround, ⟨⟩, hcheck, -, ⟨hbuys, hsells⟩, -, -, -, -, -,
    -, -, -, rfl⟩ := h
  have hperm := sortByKey_perm (H := H) requests
  have hlen' := hperm.length_eq
  simp only [LaunchState.roundId, bind_eq_ok, require_eq_ok] at hround
  obtain ⟨-, -, -, ⟨hidle, hgen⟩, -⟩ := hround
  exact
    { definition := checkDefinition_definition hbefore
      before_ok := hbefore
      idle := hidle
      generation_ne := hgen
      nonempty := by
        rw [hlen']
        exact length_pos_of_ne_nil hne
      count_le := by
        rw [hlen']
        exact hlen
      requests_ok := fun r hr => checkRound_inv (checkRequests_inv hcheck r (hperm.mem_iff.mp hr))
      buys_le := by
        have : buyLimits (sortByKey H requests) = buyLimits requests := (hperm.map _).sum_eq
        rw [this]
        exact hbuys
      sells_le := by
        have : sellQuantities (sortByKey H requests) = sellQuantities requests := (hperm.map _).sum_eq
        rw [this]
        exact hsells }

lemma register_before {requests : List LaunchRequestRef} {batch : LaunchRegisteredBatch}
    (h : LaunchRegisteredBatch.register H d before height requests = .ok batch) :
    batch.before = before := by
  simp only [register, ok_rules] at h
  obtain ⟨-, -, -, -, -, -, -, -, -, -, -, -, -, -, -, -, -, -, rfl⟩ := h
  rfl

end Register

/-! ### Arithmetic of the curve -/

section Curve

variable {H : NativeHash} {d : LaunchDefinition}

/-- The supply of a valid definition. -/
structure SupplyOk (S : ℕ) : Prop where
  min_le : LAUNCH_MIN_SUPPLY ≤ S
  le_max : S ≤ LAUNCH_MAX_SUPPLY
  whole : S % TOKEN_UNITS = 0

lemma validateSupplyUnits_eq_ok {S : ℕ} {u : Unit} :
    validateSupplyUnits S = .ok u ↔ SupplyOk S := by
  rw [validateSupplyUnits, require_eq_ok]
  exact ⟨fun h => ⟨h.1.1, h.1.2, h.2⟩, fun h => ⟨⟨h.1, h.2⟩, h.3⟩⟩

lemma definition_supply (hd : d.validate = .ok ()) : SupplyOk d.initialSupply := by
  simp only [validate, bind_eq_ok] at hd
  obtain ⟨-, -, hs⟩ := hd
  exact validateSupplyUnits_eq_ok.mp hs

lemma definition_ids (hd : d.validate = .ok ()) : d.asset ≠ 0 ∧ d.marketGenesis ≠ 0 := by
  simp only [validate, bind_eq_ok, require_eq_ok] at hd
  obtain ⟨-, ⟨ha, hm, -⟩, -⟩ := hd
  exact ⟨ha, hm⟩

lemma SupplyOk.sale {S : ℕ} (h : SupplyOk S) : 5 * (S / 5 * 3) = 3 * S := by
  have := h.whole
  unfold TOKEN_UNITS at this
  omega

lemma SupplyOk.pos {S : ℕ} (h : SupplyOk S) : 0 < S := by
  have := h.min_le
  unfold LAUNCH_MIN_SUPPLY TOKEN_UNITS at this
  omega

/-- The curve's holdings before rounding up. -/
def curveNumerator (S sold : ℕ) : ℕ := 3 * S * sold + 5 * sold * sold

/-- The cash of the curve after `sold` units. -/
def LaunchDefinition.cashOf (d : LaunchDefinition) (sold : ℕ) : ℕ :=
  divCeil (curveNumerator d.initialSupply sold) (900 * d.initialSupply)

lemma divCeil_bounds (a : ℕ) {b : ℕ} (hb : 0 < b) :
    (a : ℚ) / b ≤ divCeil a b ∧ (divCeil a b : ℚ) < (a : ℚ) / b + 1 := by
  have hb' : (0 : ℚ) < b := by exact_mod_cast hb
  have h1 : a ≤ divCeil a b * b := by
    have := Nat.lt_div_mul_add (a := a + b - 1) hb
    unfold divCeil
    omega
  have h2 : divCeil a b * b < a + b := by
    have := Nat.div_mul_le_self (a + b - 1) b
    unfold divCeil
    omega
  have h1' : (a : ℚ) ≤ divCeil a b * b := by exact_mod_cast h1
  have h2' : (divCeil a b : ℚ) * b < a + b := by exact_mod_cast h2
  constructor
  · rw [div_le_iff₀ hb']
    exact h1'
  · rw [← sub_lt_iff_lt_add, lt_div_iff₀ hb']
    linarith

lemma divCeil_le {a b c : ℕ} (hb : 0 < b) (h : a ≤ c * b) : divCeil a b ≤ c := by
  have : a + b - 1 < (c + 1) * b := by
    rw [Nat.add_mul, Nat.one_mul]
    omega
  exact Nat.lt_succ_iff.mp ((Nat.div_lt_iff_lt_mul hb).mpr this)

lemma curveCash_ok (hd : d.validate = .ok ()) {sold : ℕ} (hs : sold ≤ d.saleUnits) :
    d.curveCash sold = .ok (d.cashOf sold) ∧ d.cashOf sold ≤ d.initialSupply := by
  have hS := definition_supply hd
  have hpos := hS.pos
  have hle : d.cashOf sold ≤ d.initialSupply := by
    refine divCeil_le (by omega) ?_
    have hsold : sold ≤ d.initialSupply := by
      unfold saleUnits at hs
      omega
    unfold curveNumerator
    nlinarith
  refine ⟨?_, hle⟩
  have hlt : d.cashOf sold < U64 := by
    have := hS.le_max
    unfold LAUNCH_MAX_SUPPLY MARKET_QUANTITY_MAX at this
    unfold U64
    omega
  rw [curveCash, bind_of_ok hd, curveCashForSupply, bind_of_ok (a := ()) (validateSupplyUnits_eq_ok.mpr hS),
    require_bind (show sold ≤ d.initialSupply / 5 * 3 from hs)]
  exact checked_of_lt _ hlt

/-- What a launch state that fits its definition satisfies. -/
structure StateOk (H : NativeHash) (d : LaunchDefinition) (s : LaunchState) : Prop where
  launch_eq : s.launch = d.id H
  launch_ne : s.launch ≠ 0
  inventory_le : s.inventoryUnits ≤ d.initialSupply
  dex_lt : d.dexUnits < s.inventoryUnits
  cash_eq : s.marketNoid = d.cashOf (d.initialSupply - s.inventoryUnits)

lemma StateOk.sold_lt {s : LaunchState} (h : StateOk H d s) :
    d.initialSupply - s.inventoryUnits < d.saleUnits := by
  have h1 := h.dex_lt
  have h2 := h.inventory_le
  unfold dexUnits saleUnits at *
  omega

lemma checkDefinition_inv {s : LaunchState} (h : s.checkDefinition H d = .ok ()) :
    StateOk H d s := by
  have hd := checkDefinition_definition h
  simp only [LaunchState.checkDefinition, LaunchState.validate, bind_eq_ok, require_eq_ok] at h
  obtain ⟨-, ⟨-, ⟨hne, -⟩, -⟩, -, -, -, ⟨hid, hle, hdex⟩, cash, hcash, hmarket⟩ := h
  have hsold : d.initialSupply - s.inventoryUnits ≤ d.saleUnits := by
    unfold dexUnits saleUnits at *
    omega
  rw [(curveCash_ok hd hsold).1] at hcash
  exact
    { launch_eq := hid
      launch_ne := hne
      inventory_le := hle
      dex_lt := hdex
      cash_eq := hmarket.trans (Except.ok.inj hcash).symm }

end Curve

/-! ### The clearing loop -/

/-- The active sets that clearing goes through from `mask` on: each step drops its dust. -/
inductive VisitedFrom (d : LaunchDefinition) (batch : LaunchRegisteredBatch) (orders : List Order) :
    Finset ℕ → Finset ℕ → Prop where
  | here (mask : Finset ℕ) : VisitedFrom d batch orders mask mask
  | next {mask mask' : Finset ℕ} {step : LaunchStep} {a : Allocation} :
      continuousStep d batch orders mask = .ok step → allocate orders step = .ok a → a.dust ≠ ∅ →
      VisitedFrom d batch orders (mask \ a.dust) mask' → VisitedFrom d batch orders mask mask'

/-- The active sets of the clearing of a round. -/
def Visited (d : LaunchDefinition) (batch : LaunchRegisteredBatch) (mask : Finset ℕ) : Prop :=
  VisitedFrom d batch (launchOrders batch.requests) (Finset.range batch.requests.length) mask

/-- The order of a request. -/
def orderOf (r : LaunchRequest) : Order :=
  { side := r.side, quantity := r.quantity
    limit := { numerator := r.noidLimit, denominator := r.quantity } }

/-- The orders of a round. -/
abbrev LaunchRegisteredBatch.orders (batch : LaunchRegisteredBatch) : List Order := launchOrders batch.requests

/-- The context of a step over an active set of a round. -/
abbrev LaunchRegisteredBatch.context (batch : LaunchRegisteredBatch) (d : LaunchDefinition) (mask : Finset ℕ) :
    StepContext := stepContext d batch batch.orders mask

section Solve

variable {H : NativeHash} {d : LaunchDefinition} {batch : LaunchRegisteredBatch}

lemma BatchOk.order_ok (hb : BatchOk H d batch) {o : Order} (ho : o ∈ batch.orders) :
    (0 < o.quantity ∧ o.quantity ≤ LAUNCH_MAX_SUPPLY) ∧ 0 < o.limit.denominator := by
  obtain ⟨r, hr, rfl⟩ := mem_map.mp ho
  have h := hb.requests_ok r hr
  exact ⟨⟨h.quantity_pos, h.quantity_le⟩, h.quantity_pos⟩

lemma actives_sublist (orders : List Order) (mask : Finset ℕ) : (actives orders mask).Sublist orders :=
  filter_zipIdx_sublist orders _

lemma BatchOk.quantities_lt (hb : BatchOk H d batch) : (batch.orders.map (·.quantity)).sum < U64 := by
  have hle : ∀ q ∈ batch.orders.map (·.quantity), q ≤ LAUNCH_MAX_SUPPLY := by
    intro q hq
    obtain ⟨o, ho, rfl⟩ := mem_map.mp hq
    exact (hb.order_ok ho).1.2
  have hsum := sum_le_card_nsmul _ _ hle
  have hlen := hb.count_le
  have : (batch.orders.map (·.quantity)).length = batch.requests.length := by
    simp [launchOrders]
  rw [this, nsmul_eq_mul, Nat.cast_id] at hsum
  calc (batch.orders.map (·.quantity)).sum
      ≤ batch.requests.length * LAUNCH_MAX_SUPPLY := hsum
    _ ≤ MAX_ROUND_REQUESTS * LAUNCH_MAX_SUPPLY := Nat.mul_le_mul_right _ hlen
    _ < U64 := by decide

lemma total_sells (requests : List LaunchRequestRef) :
    total (launchOrders requests) (fun o => decide (o.side = .sell)) =
      LaunchRegisteredBatch.sellQuantities requests := by
  induction requests with
  | nil => rfl
  | cons r requests ih =>
    rw [show launchOrders (r :: requests) = orderOf r.request :: launchOrders requests from rfl, total_cons, ih]
    by_cases hside : r.request.side = .sell <;> simp [sellQuantities, orderOf, hside]

lemma BatchOk.stepContext_ok (hb : BatchOk H d batch) (mask : Finset ℕ) : (batch.context d mask).Ok := by
  have hstate := checkDefinition_inv hb.before_ok
  have hsold := hstate.sold_lt
  have hS := definition_supply hb.definition
  have hsub := actives_sublist batch.orders mask
  exact
    { supply_pos := hS.pos
      supply_le := hS.le_max
      sale := by
        have := hS.sale
        simp only [stepContext]
        unfold saleUnits at *
        omega
      remaining_pos := by
        simp only [stepContext]
        omega
      denominator_pos := fun o ho => (hb.order_ok (hsub.subset ho)).2
      quantities_lt := lt_of_le_of_lt ((hsub.map _).sum_le_sum (by simp)) hb.quantities_lt
      sells_le := by
        refine (total_sublist hsub _).trans ?_
        rw [total_sells]
        exact hb.sells_le }

/-- A solution: the rounded step of a dust-free active set. -/
structure SolutionSpec (d : LaunchDefinition) (batch : LaunchRegisteredBatch) (sol : LaunchSolution) :
    Prop where
  step : ∃ mask s a, StepSpec (batch.context d mask) s ∧ AllocateSpec (batch.context d mask) batch.orders s a ∧
    a.dust = ∅ ∧ sol.price = s.price ∧ sol.quantities = a.quantities

variable (hb : BatchOk H d batch)
include hb

variable {mask : Finset ℕ}

/-- Rounding any step of a registered round succeeds. -/
theorem BatchOk.allocate_ok {s : LaunchStep} (hs : StepSpec (batch.context d mask) s) :
    ∃ a, allocate batch.orders s = .ok a ∧ AllocateSpec (batch.context d mask) batch.orders s a := by
  refine Noid.Tx.allocate_ok (hb.stepContext_ok mask) hs rfl fun o ho => ?_
  obtain ⟨⟨hpos, hle⟩, -⟩ := hb.order_ok ho
  exact ⟨hpos, lt_of_le_of_lt hle (by decide)⟩

lemma BatchOk.continuousStep_ok (htie : ¬ (batch.context d mask).CapTie) :
    ∃ s, continuousStep d batch batch.orders mask = .ok s ∧ StepSpec (batch.context d mask) s :=
  Noid.Tx.continuousStep_ok hb.definition rfl
    (checkDefinition_inv hb.before_ok).sold_lt.le (hb.stepContext_ok mask) htie

lemma BatchOk.continuousStep_capTie (htie : (batch.context d mask).CapTie) :
    continuousStep d batch batch.orders mask = .error .clearing :=
  Noid.Tx.continuousStep_capTie hb.definition rfl
    (checkDefinition_inv hb.before_ok).sold_lt.le (hb.stepContext_ok mask) htie

omit hb in
lemma soldSum_eq (batch : LaunchRegisteredBatch) (qs : List ℕ) : ((batch.requests.zip qs).map fun x =>
      if x.1.request.side = .buy then (x.2 : ℤ) else -(x.2 : ℤ)).sum = net batch.orders qs := by
  unfold net orders launchOrders
  rw [zip_map_left, map_map]
  rfl

lemma BatchOk.soldAfter_ok {s : LaunchStep} {a : Allocation}
    (ha : AllocateSpec (batch.context d mask) batch.orders s a) :
    ∃ sold, soldAfter d batch a.quantities = .ok sold ∧ sold ≤ d.saleUnits ∧
      (sold : ℤ) = ((d.initialSupply - batch.before.inventoryUnits : ℕ) : ℤ) + net batch.orders a.quantities := by
  have hlow := ha.neg_sold_le
  have hhigh := ha.le_remaining
  have hlt := (checkDefinition_inv hb.before_ok).sold_lt
  have hS := definition_supply hb.definition
  have hmax := hS.le_max
  simp only [context, stepContext] at hlow hhigh
  unfold LAUNCH_MAX_SUPPLY MARKET_QUANTITY_MAX at hmax
  unfold saleUnits at *
  refine ⟨(((d.initialSupply - batch.before.inventoryUnits : ℕ) : ℤ) +
    net batch.orders a.quantities).toNat, ?_, ?_, ?_⟩
  · rw [soldAfter, soldSum_eq, checkedInt_eq_ok]
    unfold U64
    omega
  · omega
  · omega

/-- Without a cap tie among the sets it goes through, clearing ends with a solution. -/
theorem BatchOk.solveLoop_ok :
    ∀ (fuel : ℕ) (mask : Finset ℕ), mask.card < fuel →
      (∀ mask', VisitedFrom d batch batch.orders mask mask' → ¬ (batch.context d mask').CapTie) →
      ∃ sol, solveLoop d batch batch.orders fuel mask = .ok sol ∧ SolutionSpec d batch sol
  | 0, mask, hcard, _ => absurd hcard (Nat.not_lt_zero _)
  | fuel + 1, mask, hcard, hvisit => by
    obtain ⟨s, hs, hspec⟩ := hb.continuousStep_ok (hvisit mask (.here mask))
    obtain ⟨a, ha, haspec⟩ := hb.allocate_ok hspec
    rw [solveLoop, bind_of_ok hs, bind_of_ok ha]
    by_cases hdust : a.dust = ∅
    · obtain ⟨sold, hsold, hle, -⟩ := hb.soldAfter_ok haspec
      refine ⟨{ price := s.price, quantities := a.quantities
                steps := [{ s with dustMask := a.dust }] }, ?_,
        ⟨mask, s, a, hspec, haspec, hdust, rfl, rfl⟩⟩
      rw [if_pos hdust, bind_of_ok hsold, require_bind hle]
      rfl
    · -- the dust is not empty, so the next active set is smaller
      have hsub : a.dust ⊆ mask := haspec.dust_subset
      have hlt : (mask \ a.dust).card < fuel := by
        have h1 := Finset.card_sdiff_add_card_eq_card hsub
        have h2 := Finset.card_pos.mpr (Finset.nonempty_iff_ne_empty.mpr hdust)
        omega
      obtain ⟨sol, hsol, hsolspec⟩ := BatchOk.solveLoop_ok fuel (mask \ a.dust) hlt
        fun mask' hv => hvisit mask' (.next hs ha hdust hv)
      refine ⟨{ sol with steps := { s with dustMask := a.dust } :: sol.steps }, ?_, ⟨hsolspec.step⟩⟩
      rw [if_neg hdust, bind_of_ok hsol]
      rfl

/-- A cap tie among the sets it goes through stops clearing. -/
theorem BatchOk.solveLoop_capTie {mask' : Finset ℕ} (hv : VisitedFrom d batch batch.orders mask mask')
    (htie : (batch.context d mask').CapTie) : ∀ fuel sol, solveLoop d batch batch.orders fuel mask ≠ .ok sol := by
  induction hv with
  | here mask =>
    intro fuel sol h
    cases fuel with
    | zero => cases h
    | succ fuel =>
      rw [solveLoop, hb.continuousStep_capTie htie] at h
      cases h
  | next hs ha hdust _ ih =>
    intro fuel sol h
    cases fuel with
    | zero => cases h
    | succ fuel =>
      rw [solveLoop, bind_of_ok hs, bind_of_ok ha] at h
      rw [if_neg hdust, bind_eq_ok] at h
      obtain ⟨sol', hsol', -⟩ := h
      exact ih htie fuel sol' hsol'

end Solve

end Noid.Tx
