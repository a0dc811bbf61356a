import Noid.Tx.LaunchSettle

/-! # Settling a registered round

A registered round settles exactly when no active set its clearing goes through is a cap tie: fills execute within their
limits, the cash of the curve is off by the roundings only, and the claims carry what the requests brought in. -/

namespace Noid.Tx

open Noid.Lib Noid.Lib.Crossing List LaunchDefinition

/-! ### Executions -/

/-- The execution of a filled request within its limit. -/
structure ExecOk (price : LaunchPrice) (r : LaunchRequest) (q : ℕ) (e : LaunchExecution) : Prop where
  filled : e.filledQuantity = q
  filled_le : q ≤ r.quantity
  buy : r.side = .buy → e.noidProceeds = 0 ∧ e.noidCost = divCeil (q * price.numerator) price.denominator ∧
    e.noidCost ≤ r.noidLimit
  sell : r.side = .sell → e.noidCost = 0 ∧ e.noidProceeds = q * price.numerator / price.denominator ∧
    e.noidProceeds ≤ q ∧ (q ≠ 0 → e.noidProceeds ≠ 0)

section Execution

variable {d : LaunchDefinition} {s : LaunchStep}

lemma cost_le_limit {n den q quantity limit : ℕ} (hd : 0 < den) (hq : 0 < quantity)
    (hlimit : n * quantity ≤ limit * den) (hle : q ≤ quantity) :
    divCeil (q * n) den ≤ divCeil (limit * q) quantity ∧ divCeil (limit * q) quantity ≤ limit := by
  refine ⟨divCeil_le hd ?_, divCeil_le hq (Nat.mul_le_mul_left limit hle)⟩
  have hceil : limit * q ≤ divCeil (limit * q) quantity * quantity := by
    have := Nat.lt_div_mul_add (a := limit * q + quantity - 1) hq
    unfold divCeil
    omega
  refine Nat.le_of_mul_le_mul_right ?_ hq
  calc q * n * quantity = q * (n * quantity) := by ring
    _ ≤ q * (limit * den) := Nat.mul_le_mul_left q hlimit
    _ = limit * q * den := by ring
    _ ≤ divCeil (limit * q) quantity * quantity * den := Nat.mul_le_mul_right den hceil
    _ = divCeil (limit * q) quantity * den * quantity := by ring

lemma minimum_le_proceeds {n den q quantity limit : ℕ} (hd : 0 < den) (hq : 0 < quantity)
    (hlimit : limit * den ≤ n * quantity) : limit * q / quantity ≤ q * n / den := by
  rw [Nat.le_div_iff_mul_le hd]
  refine Nat.le_of_mul_le_mul_right ?_ hq
  have hfloor : limit * q / quantity * quantity ≤ limit * q := Nat.div_mul_le_self _ _
  calc limit * q / quantity * den * quantity = limit * q / quantity * quantity * den := by ring
    _ ≤ limit * q * den := Nat.mul_le_mul_right den hfloor
    _ = q * (limit * den) := by ring
    _ ≤ q * (n * quantity) := Nat.mul_le_mul_left q hlimit
    _ = q * n * quantity := by ring

lemma val_le_iff {a b : LaunchPrice} (ha : 0 < a.denominator) (hb : 0 < b.denominator) :
    a.val ≤ b.val ↔ a.numerator * b.denominator ≤ b.numerator * a.denominator := by
  have ha' : (0 : ℚ) < a.denominator := by exact_mod_cast ha
  have hb' : (0 : ℚ) < b.denominator := by exact_mod_cast hb
  rw [LaunchPrice.val, LaunchPrice.val, div_le_div_iff₀ ha' hb']
  exact_mod_cast Iff.rfl

lemma executeRequest_ok {r : LaunchRequest} {q : ℕ} (hr : RequestOk d r)
    (hd : 0 < s.price.denominator) (hcheap : s.price.numerator * 100 ≤ s.price.denominator)
    (hgrant : Grants s (orderOf r) q) (hpay : Pays s (orderOf r) q) :
    ∃ e, executeRequest s.price r q = .ok e ∧ ExecOk s.price r q e := by
  obtain ⟨hle, hin⟩ := hgrant
  have hqpos := hr.quantity_pos
  have hqlt : q < U64 := by
    have := hr.quantity_le
    exact lt_of_le_of_lt (hle.trans this) (by decide)
  have hlimlt : r.noidLimit < U64 := lt_of_le_of_lt hr.limit_le (by decide)
  have hmin : r.noidLimit * q / r.quantity < U64 := by
    refine lt_of_le_of_lt ?_ hlimlt
    calc r.noidLimit * q / r.quantity ≤ r.noidLimit * r.quantity / r.quantity :=
          Nat.div_le_div_right (Nat.mul_le_mul_left _ hle)
      _ = r.noidLimit := Nat.mul_div_cancel _ hqpos
  unfold executeRequest
  rw [checked_bind hmin]
  cases hside : r.side with
  | buy =>
    have hcostle : divCeil (q * s.price.numerator) s.price.denominator ≤ q := by
      refine divCeil_le hd (Nat.mul_le_mul_left q ?_)
      omega
    have hbound : divCeil (q * s.price.numerator) s.price.denominator ≤
          divCeil (r.noidLimit * q) r.quantity ∧ divCeil (r.noidLimit * q) r.quantity ≤ r.noidLimit := by
      rcases Nat.eq_zero_or_pos q with rfl | hpos
      · refine ⟨?_, divCeil_le hqpos (by simp)⟩
        omega
      · have hprice := (classify_inside_buy (o := orderOf r) hqpos hd hside).mp (hin hpos.ne')
        exact cost_le_limit hd hqpos ((val_le_iff hd hqpos).mp hprice) hle
    refine ⟨{ filledQuantity := q
              noidCost := divCeil (q * s.price.numerator) s.price.denominator
              noidProceeds := 0 }, ?_, ?_⟩
    · rw [LaunchPrice.cost, require_bind hd.ne', checked_bind (lt_of_le_of_lt hcostle hqlt),
        checked_bind (lt_of_le_of_lt hbound.2 hlimlt),
        require_bind ⟨hbound.1, hbound.1.trans hbound.2⟩]
      rfl
    · exact
        { filled := rfl
          filled_le := hle
          buy := fun _ => ⟨rfl, rfl, hbound.1.trans hbound.2⟩
          sell := fun h => by simp [hside] at h }
  | sell =>
    have hle' : q * s.price.numerator / s.price.denominator ≤ q := mul_price_le hd hcheap
    have hbound : r.noidLimit * q / r.quantity ≤ q * s.price.numerator / s.price.denominator := by
      rcases Nat.eq_zero_or_pos q with rfl | hpos
      · simp
      · have hprice := (classify_inside_sell (o := orderOf r) hqpos hd hside).mp (hin hpos.ne')
        exact minimum_le_proceeds hd hqpos ((val_le_iff hqpos hd).mp hprice)
    refine ⟨{ filledQuantity := q, noidCost := 0
              noidProceeds := q * s.price.numerator / s.price.denominator }, ?_, ?_⟩
    · rw [LaunchPrice.proceeds, require_bind hd.ne', checked_bind (lt_of_le_of_lt hle' hqlt),
        require_bind ⟨hbound, fun h => hpay hside h.1 h.2⟩]
      rfl
    · exact
        { filled := rfl
          filled_le := hle
          buy := fun h => by simp [hside] at h
          sell := fun _ => ⟨rfl, rfl, hle', hpay hside⟩ }

end Execution

/-! ### Rounding -/

/-- The signed quantity of a filled request. -/
def soldBy (x : LaunchRequestRef × ℕ) : ℤ := if x.1.request.side = .buy then x.2 else -x.2

lemma execution_flow {price : LaunchPrice} (hd : 0 < price.denominator) {x : LaunchRequestRef × ℕ}
    {e : LaunchExecution} (he : ExecOk price x.1.request x.2 e) :
    price.val * soldBy x ≤ (e.noidCost : ℚ) - e.noidProceeds ∧
      (e.noidCost : ℚ) - e.noidProceeds ≤ price.val * soldBy x + 1 := by
  unfold soldBy
  cases hside : x.1.request.side with
  | buy =>
    obtain ⟨hp, hc, -⟩ := he.buy hside
    have hbounds := divCeil_bounds (x.2 * price.numerator) hd
    have hval : price.val * x.2 = ((x.2 * price.numerator : ℕ) : ℚ) / price.denominator := by
      unfold LaunchPrice.val
      push_cast
      ring
    rw [if_pos rfl, hp, hc]
    push_cast
    constructor <;> linarith
  | sell =>
    obtain ⟨hc, hp, -⟩ := he.sell hside
    have hbounds := floor_bounds (a := x.2) (b := price.numerator) hd
    have hval : price.val * x.2 = (x.2 : ℚ) / price.denominator * price.numerator := by
      unfold LaunchPrice.val
      ring
    rw [if_neg (by simp), hc, hp]
    push_cast
    constructor <;> linarith

/-- The cash that flows into the curve is the price of what it sold, up to the roundings. -/
theorem flow_bounds {price : LaunchPrice} (hd : 0 < price.denominator) :
    ∀ {l : List (LaunchRequestRef × ℕ)} {es : List LaunchExecution},
      Forall₂ (fun x e => ExecOk price x.1.request x.2 e) l es →
      price.val * ((l.map soldBy).sum : ℤ) ≤
          ((es.map fun e => (e.noidCost : ℤ)).sum : ℤ) - ((es.map fun e => (e.noidProceeds : ℤ)).sum : ℤ) ∧
        (((es.map fun e => (e.noidCost : ℤ)).sum : ℤ) : ℚ) - ((es.map fun e => (e.noidProceeds : ℤ)).sum : ℤ) ≤
          price.val * ((l.map soldBy).sum : ℤ) + l.length
  | [], _, .nil => by simp
  | x :: l, e :: es, .cons hx hl => by
    obtain ⟨h1, h2⟩ := flow_bounds hd hl
    obtain ⟨h3, h4⟩ := execution_flow hd hx
    simp only [map_cons, sum_cons, length_cons, Int.cast_add, Int.cast_natCast, Nat.cast_add, Nat.cast_one] at h1 h2 ⊢
    constructor <;> linarith

/-- The exact cash of the curve. -/
def curveValue (S : ℕ) (x : ℚ) : ℚ := (3 * S * x + 5 * x * x) / (900 * S)

/-- Pricing a move that is off by less than a unit misses the change of the curve's cash by little. -/
theorem price_error {S : ℕ} (hS : 0 < S) {sold delta m p : ℚ} (hp : 900 * S * p = 3 * S + 10 * sold + 5 * m)
    (hnear : |m - delta| ≤ 1) (hdelta : |delta| ≤ S) :
    |p * delta - (curveValue S (sold + delta) - curveValue S sold)| ≤ 1 / 180 := by
  have hp' : p = (3 * S + 10 * sold + 5 * m) / (900 * S) := by
    rw [eq_div_iff (by positivity), ← hp]
    ring
  have heq : p * delta - (curveValue S (sold + delta) - curveValue S sold) = (m - delta) * delta / (180 * S) := by
    rw [hp']
    unfold curveValue
    ring
  rw [heq, abs_div, abs_mul, abs_of_pos (by positivity : (0 : ℚ) < 180 * S),
    div_le_div_iff₀ (by positivity) (by norm_num)]
  have h := mul_le_mul hnear hdelta (abs_nonneg delta) (by norm_num)
  linarith

lemma cashOf_bounds {d : LaunchDefinition} (hS : 0 < d.initialSupply) (sold : ℕ) :
    curveValue d.initialSupply sold ≤ d.cashOf sold ∧ (d.cashOf sold : ℚ) < curveValue d.initialSupply sold + 1 := by
  have h := divCeil_bounds (curveNumerator d.initialSupply sold) (show 0 < 900 * d.initialSupply by omega)
  have hval : curveValue d.initialSupply sold =
      ((curveNumerator d.initialSupply sold : ℕ) : ℚ) / ((900 * d.initialSupply : ℕ) : ℚ) := by
    unfold curveValue curveNumerator
    push_cast
    ring
  rw [hval]
  exact h

lemma rounding_bounds {d : LaunchDefinition} (hS : 0 < d.initialSupply) {sold sold' count : ℕ} {p m flow : ℚ}
    (hp : 900 * d.initialSupply * p = 3 * d.initialSupply + 10 * sold + 5 * m)
    (hnear : |m - ((sold' : ℚ) - sold)| ≤ 1) (hdelta : |(sold' : ℚ) - sold| ≤ d.initialSupply)
    (hlow : p * ((sold' : ℚ) - sold) ≤ flow) (hhigh : flow ≤ p * ((sold' : ℚ) - sold) + count) :
    -2 < (d.cashOf sold : ℚ) + flow - d.cashOf sold' ∧ (d.cashOf sold : ℚ) + flow - d.cashOf sold' < count + 2 := by
  have herr := abs_le.mp (price_error hS hp hnear hdelta)
  rw [add_sub_cancel] at herr
  obtain ⟨h1, h2⟩ := cashOf_bounds hS sold
  obtain ⟨h3, h4⟩ := cashOf_bounds hS sold'
  constructor <;> linarith

/-! ### The state after the round -/

section Outcome

variable {H : NativeHash} {d : LaunchDefinition}

lemma graduation_sqrt {S : ℕ} (hS : SupplyOk S) :
    integerSqrt (S / 250 * (S - S / 5 * 3)) = 10 * (S / 250) := by
  have hwhole := hS.whole
  have hmax := hS.le_max
  unfold TOKEN_UNITS at hwhole
  unfold LAUNCH_MAX_SUPPLY MARKET_QUANTITY_MAX at hmax
  have hdex : S - S / 5 * 3 = 100 * (S / 250) := by omega
  rw [hdex]
  set b := S / 250
  have hb : b ≤ 2 ^ 53 := by omega
  have hlt : b * (100 * b) < 2 ^ 128 := by
    calc b * (100 * b) ≤ 2 ^ 53 * (100 * 2 ^ 53) :=
          Nat.mul_le_mul hb (Nat.mul_le_mul_left 100 hb)
      _ < 2 ^ 128 := by norm_num
  obtain ⟨h1, h2⟩ := integerSqrt_spec hlt
  set r := integerSqrt (b * (100 * b))
  have hr1 : r ≤ 10 * b := by
    by_contra hgt
    nlinarith
  have hr2 : 10 * b < r + 1 := by
    by_contra hle
    nlinarith
  omega

lemma graduation_numbers (hd : d.validate = .ok ()) :
    d.dexUnits = 100 * d.graduationCash ∧ 100 < d.graduationCash ∧ 100 * d.graduationCash ≤ MARKET_QUANTITY_MAX := by
  have hS := definition_supply hd
  have hmin := hS.min_le
  have hmax := hS.le_max
  have hwhole := hS.whole
  unfold LAUNCH_MIN_SUPPLY TOKEN_UNITS at hmin
  unfold LAUNCH_MAX_SUPPLY at hmax
  unfold TOKEN_UNITS at hwhole
  unfold dexUnits saleUnits graduationCash
  generalize MARKET_QUANTITY_MAX = M at *
  omega

/-- The pool of a sold-out launch with some of its shares locked. -/
def graduatedPool (H : NativeHash) (d : LaunchDefinition) (locked : ℕ) : PoolState :=
  { pool := d.marketDefinition.id H, baseReserve := d.graduationCash, quoteReserve := d.dexUnits
    totalShares := 10 * d.graduationCash, lockedShares := locked, queueRoot := 0, generation := 0
    registeredHeight := 0, timeoutHeight := 0, requestCount := 0, phase := .idle
    baseIsNoid := d.marketDefinition.baseIsNoid }

lemma graduationPool_eq (hid : d.marketDefinition.id H ≠ 0) (hd : d.validate = .ok ()) :
    d.graduationPool H = .ok (graduatedPool H d (10 * d.graduationCash)) := by
  obtain ⟨hasset, hgenesis⟩ := definition_ids hd
  obtain ⟨hdexeq, hcashpos, hcashle⟩ := graduation_numbers hd
  have hshares : integerSqrt (d.graduationCash * d.dexUnits) = 10 * d.graduationCash :=
    graduation_sqrt (definition_supply hd)
  have hcash : d.graduationCash ≠ 0 ∧ d.graduationCash ≤ MARKET_QUANTITY_MAX := by omega
  have hdex : d.dexUnits ≠ 0 ∧ d.dexUnits ≤ MARKET_QUANTITY_MAX := by omega
  have hsharesle : 10 * d.graduationCash ≠ 0 ∧ 10 * d.graduationCash ≤ MARKET_QUANTITY_MAX := by omega
  have hlocked : MARKET_MIN_LOCKED_SHARES < 10 * d.graduationCash := by
    unfold MARKET_MIN_LOCKED_SHARES
    omega
  have hsquare : 10 * d.graduationCash * (10 * d.graduationCash) ≤ d.graduationCash * d.dexUnits := by
    rw [hdexeq]
    apply le_of_eq
    ring
  have hdef : d.marketDefinition.validate = .ok () := by
    have hlt : d.marketDefinition.base < d.marketDefinition.quote := Nat.pos_of_ne_zero hasset
    rw [MarketDefinition.validate, require_bind ⟨hgenesis, hlt⟩]
    rfl
  have hvalid : ∀ locked, MARKET_MIN_LOCKED_SHARES ≤ locked → locked ≤ 10 * d.graduationCash →
      (graduatedPool H d locked).validate = .ok () := by
    intro locked h1 h2
    exact PoolState.validate_eq_ok.mpr
      ⟨hid, hcash, hdex, hsharesle, hsquare, ⟨h1, h2⟩, rfl, rfl, rfl, rfl⟩
  have hq1 : quantity d.graduationCash = .ok () := require_of _ hcash
  have hq2 : quantity d.dexUnits = .ok () := require_of _ hdex
  have hboot : PoolState.bootstrap H d.marketDefinition d.graduationCash d.dexUnits =
      .ok (graduatedPool H d MARKET_MIN_LOCKED_SHARES) := by
    rw [PoolState.bootstrap, bind_of_ok hdef, bind_of_ok hq1, bind_of_ok hq2, hshares, require_bind hlocked]
    exact bind_of_ok (hvalid _ le_rfl hlocked.le)
  rw [graduationPool, bind_of_ok hd, mapError_eq_ok, PoolState.bootstrapPermanent, bind_of_ok hboot]
  exact bind_of_ok (hvalid _ hlocked.le le_rfl)

lemma graduationPool_ok (hid : d.marketDefinition.id H ≠ 0) (hd : d.validate = .ok ()) :
    ∃ p, d.graduationPool H = .ok p ∧ p.noidValue = d.graduationCash ∧ p.quoteReserve = d.dexUnits := by
  refine ⟨_, graduationPool_eq hid hd, ?_, rfl⟩
  simp [graduatedPool, PoolState.noidValue, MarketDefinition.baseIsNoid, marketDefinition]

lemma graduation_cash_eq (hd : d.validate = .ok ()) : d.cashOf d.saleUnits = d.graduationCash := by
  have hS := definition_supply hd
  have hpos := hS.pos
  have hwhole := hS.whole
  unfold TOKEN_UNITS at hwhole
  obtain ⟨k, hk⟩ : ∃ k, d.initialSupply = 250 * k := ⟨d.initialSupply / 250, by omega⟩
  have hsale : d.saleUnits = 150 * k := by
    unfold saleUnits
    omega
  have hnum : curveNumerator d.initialSupply d.saleUnits = 900 * d.initialSupply * k := by
    unfold curveNumerator
    rw [hsale, hk]
    ring
  have hcash : d.graduationCash = k := by
    unfold graduationCash
    omega
  rw [cashOf, hnum, hcash]
  unfold divCeil
  rw [Nat.add_sub_assoc (by omega), Nat.mul_add_div (by omega), Nat.div_eq_of_lt (by omega), Nat.add_zero]

lemma checkDefinition_of_sold (hd : d.validate = .ok ()) {s : LaunchState} {sold : ℕ}
    (hid : s.launch = d.id H) (hne : s.launch ≠ 0) (hphase : s.PhaseOk) (hlt : sold < d.saleUnits)
    (hinv : s.inventoryUnits = d.initialSupply - sold)
    (hnoid : s.marketNoid = d.cashOf sold) :
    s.checkDefinition H d = .ok () := by
  have hS := definition_supply hd
  obtain ⟨hcash, hcashle⟩ := curveCash_ok hd hlt.le
  have hsupply := hS.le_max
  have hmax : LAUNCH_MAX_SUPPLY ≤ MARKET_QUANTITY_MAX := by decide
  have hdex : d.dexUnits < d.initialSupply - sold := by
    unfold dexUnits
    unfold saleUnits at *
    omega
  have hsold : d.initialSupply - (d.initialSupply - sold) = sold := by
    omega
  have hvalid : s.validate = .ok () :=
    LaunchState.validate_eq_ok.mpr ⟨⟨hne, by omega, by omega, by omega⟩, hphase⟩
  unfold LaunchState.checkDefinition
  rw [bind_of_ok hvalid, bind_of_ok hd, require_bind ⟨hid, by omega, by omega⟩, hinv, hsold, bind_of_ok hcash]
  exact require_of _ hnoid

lemma launchOutcome_ok (hid : d.marketDefinition.id H ≠ 0) {batch : LaunchRegisteredBatch} (hb : BatchOk H d batch)
    (hgen : batch.before.generation < U64) {sold : ℕ} (hsold : sold ≤ d.saleUnits) :
    ∃ out, launchOutcome H d batch.before sold (d.cashOf sold) = .ok out ∧ out.noidValue = d.cashOf sold ∧
      out.inventoryUnits = d.initialSupply - sold := by
  have hd := hb.definition
  unfold launchOutcome
  by_cases hfull : sold = d.saleUnits
  · obtain ⟨p, hp, hnoid, hquote⟩ := graduationPool_ok hid hd
    refine ⟨.graduate p, ?_, ?_, ?_⟩
    · rw [if_pos hfull, bind_of_ok hp]
      rfl
    · rw [hfull, graduation_cash_eq hd]
      exact hnoid
    · rw [hfull]
      exact hquote
  · have hstate := checkDefinition_inv hb.before_ok
    have hgen' : batch.before.generation + 1 < U64 := by
      have := hb.generation_ne
      unfold U64 U64_MAX at *
      omega
    refine ⟨.continue { batch.before.idleView with
      inventoryUnits := d.initialSupply - sold
      marketNoid := d.cashOf sold
      generation := batch.before.generation + 1 }, ?_, rfl, rfl⟩
    rw [if_neg hfull, checked_bind hgen']
    exact bind_of_ok (checkDefinition_of_sold hd hstate.launch_eq hstate.launch_ne ⟨rfl, rfl, rfl, rfl⟩
      (lt_of_le_of_ne hsold hfull) rfl rfl)

end Outcome

/-! ### Claims -/

section Claims

variable {H : NativeHash} {d : LaunchDefinition}

/-- A claim carries what its request brought in, less its fee and its net cost. -/
structure RowOk (charged : ℕ) (r : LaunchRequest) (e : LaunchExecution) (row : ClaimRow) : Prop where
  noid : row.requestNoid + e.noidProceeds = row.claimNoid + charged + e.noidCost
  buy : r.side = .buy → row.claim.outputUnits = e.filledQuantity
  sell : r.side = .sell → row.claim.refundUnits + e.filledQuantity = r.quantity

lemma chargedFee_le {count fee credit : ℕ}
    (hfee : fee ≤ count * MAX_SETTLEMENT_FEE_PER_REQUEST) (hcredit : credit ≤ 1) (i : ℕ) :
    chargedFee count fee credit i ≤ MARKET_REQUEST_FEE_CREDIT := by
  have hdiv : fee / count ≤ MAX_SETTLEMENT_FEE_PER_REQUEST :=
    Nat.div_le_of_le_mul hfee
  unfold chargedFee MARKET_REQUEST_FEE_CREDIT
  unfold MAX_SETTLEMENT_FEE_PER_REQUEST at hdiv
  split_ifs <;> omega

lemma settleRequest_ok (hd : d.validate = .ok ()) {count fee credit i : ℕ}
    (hcharged : chargedFee count fee credit i ≤ MARKET_REQUEST_FEE_CREDIT) {r : LaunchRequestRef} (hkey : r.key H ≠ 0)
    (hr : RequestOk d r.request) {price : LaunchPrice} {q : ℕ} {e : LaunchExecution}
    (he : ExecOk price r.request q e) :
    ∃ row, settleRequest H d count fee credit i r e = .ok row ∧
      RowOk (chargedFee count fee credit i) r.request e row := by
  obtain ⟨hasset, -⟩ := definition_ids hd
  have hqle := hr.quantity_le
  have hlim := hr.limit_le
  have hmax : LAUNCH_MAX_SUPPLY ≤ MARKET_QUANTITY_MAX := by decide
  have hfilled := he.filled
  have hfle := he.filled_le
  have hword : MARKET_REQUEST_FEE_CREDIT + MARKET_QUANTITY_MAX < U64 := by decide
  have hcredit : checkedSub LaunchError.fee MARKET_REQUEST_FEE_CREDIT
      (chargedFee count fee credit i) =
      .ok (MARKET_REQUEST_FEE_CREDIT - chargedFee count fee credit i) := if_pos hcharged
  have hreq : r.request.noidValue =
      .ok (MARKET_REQUEST_FEE_CREDIT + if r.request.side = .buy then r.request.noidLimit else 0) := by
    refine checked_of_lt _ ?_
    split_ifs <;> omega
  set credit' := MARKET_REQUEST_FEE_CREDIT - chargedFee count fee credit i with hcredit'
  set claim := launchClaim H d r e credit' with hclaim
  -- a claim on some units, of two assets, is valid
  have key : ∀ n, claim.noidValue = .ok n →
      claim.inputAsset ≠ claim.outputAsset →
      claim.refundUnits ≤ MARKET_QUANTITY_MAX →
      claim.outputUnits ≤ MARKET_QUANTITY_MAX →
      ¬(claim.refundUnits = 0 ∧ claim.outputUnits = 0) →
      settleRequest H d count fee credit i r e = .ok
        ⟨claim,
          MARKET_REQUEST_FEE_CREDIT + if r.request.side = .buy then r.request.noidLimit else 0, n⟩ := by
    intro n hnoid hne hrefund hout hsome
    have hvalid : claim.validate = .ok () := SwapClaim.validate_eq_ok.mpr
      ⟨⟨hkey, hne⟩, hr.owner_ne, hr.recipient_ne, ⟨hrefund, hout, hsome, Nat.sub_le _ _⟩, _, hnoid⟩
    rw [settleRequest, bind_of_ok hcredit]
    rw [mapError_bind hvalid, bind_of_ok hreq, mapError_bind hnoid]
    rfl
  cases hside : r.request.side with
  | buy =>
    obtain ⟨hproceeds, hc, hcost⟩ := he.buy hside
    have hlimit := hr.buy_limit hside
    have hzero : q = 0 → e.noidCost = 0 := by
      rintro rfl
      rw [hc, Nat.zero_mul]
      unfold divCeil
      rcases Nat.eq_zero_or_pos price.denominator with h | h
      · simp [h]
      · exact Nat.div_eq_of_lt (by omega)
    have hnoid : claim.noidValue = .ok (credit' + (r.request.noidLimit - e.noidCost)) := by
      refine SwapClaim.noidValue_eq_ok.mpr ?_
      simp only [hclaim, launchClaim, hside, ↓reduceIte, and_true]
      omega
    refine ⟨_, key _ hnoid ?_ ?_ ?_ ?_, ?_, fun _ => by simp [hclaim, launchClaim, hside], fun h => by simp [hside] at h⟩
    all_goals simp only [hclaim, launchClaim, hside, if_true, hfilled]
    · exact Ne.symm hasset
    all_goals omega
  | sell =>
    obtain ⟨hcost, -, hple, hpos⟩ := he.sell hside
    have hqpos := hr.quantity_pos
    have hne : d.asset ≠ NOID_ASSET := hasset
    have hnoid : claim.noidValue = .ok (credit' + e.noidProceeds) := by
      refine SwapClaim.noidValue_eq_ok.mpr ?_
      simp only [hclaim, launchClaim, hside, reduceCtorEq, hne, ↓reduceIte, and_true]
      omega
    refine ⟨_, key _ hnoid ?_ ?_ ?_ ?_, ?_, fun h => by simp [hside] at h, fun _ => ?_⟩
    all_goals simp only [hclaim, launchClaim, hside, reduceCtorEq, if_false, hfilled]
    · exact hne
    case refine_4 =>
      rintro ⟨h1, h2⟩
      exact hpos (by omega) h2
    all_goals omega

lemma sum_chargedFee {α : Type} {l : List α} (hl : 0 < l.length) (fee credit : ℕ) :
    (l.zipIdx.map fun x => chargedFee l.length fee credit x.2).sum = fee + credit := by
  have hsums : ∀ n, n ≤ l.length → 0 < n → ((range n).map (chargedFee l.length fee credit)).sum =
        n * (fee / l.length) + min n (fee % l.length) + credit := by
    intro n hn hpos
    induction n with
    | zero => omega
    | succ n ih =>
      rw [range_succ, map_append, sum_append]
      rcases Nat.eq_zero_or_pos n with rfl | hpos'
      · simp [chargedFee]
        split_ifs <;> omega
      · rw [ih (by omega) hpos', Nat.add_mul]
        simp only [map_cons, map_nil, sum_cons, sum_nil, chargedFee]
        split_ifs <;> omega
  have hindex : l.zipIdx.map Prod.snd = range l.length := by rw [zipIdx_map_snd, ← range_eq_range']
  have hsum := hsums l.length le_rfl hl
  rwa [← hindex, map_map, min_eq_right (Nat.mod_lt fee hl).le, Nat.div_add_mod fee] at hsum

def filledBy (x : LaunchRequestRef × LaunchExecution) : ℤ :=
  if x.1.request.side = .buy then x.2.filledQuantity else -x.2.filledQuantity

/-- The token units a claim pays out. -/
def paidUnits (x : LaunchRequestRef × ClaimRow) : ℕ :=
  if x.1.request.side = .buy then x.2.claim.outputUnits else x.2.claim.refundUnits

lemma executions_forall {price : LaunchPrice} :
    ∀ {rs : List LaunchRequestRef} {qs : List ℕ} {es : List LaunchExecution},
      qs.length = rs.length → Forall₂ (fun x e => ExecOk price x.1.request x.2 e) (rs.zip qs) es →
      Forall₂ (fun r e => ∃ q, ExecOk price r.request q e) rs es ∧
        ((rs.zip es).map filledBy).sum = ((rs.zip qs).map soldBy).sum
  | [], [], _, _, .nil => ⟨.nil, rfl⟩
  | r :: rs, q :: qs, e :: es, hlen, .cons hx hl => by
    obtain ⟨hall, hsum⟩ := executions_forall (by simpa using hlen) hl
    refine ⟨.cons ⟨q, hx⟩ hall, ?_⟩
    have hfill : filledBy (r, e) = soldBy (r, q) := by
      have := hx.filled
      simp only [filledBy, soldBy, this]
    rw [zip_cons_cons, zip_cons_cons, map_cons, map_cons, sum_cons, sum_cons, hfill, hsum]

/-- Over a round, the currency of the requests goes to the claims, the fees and the curve. -/
theorem rows_noid {f : ℕ → ℕ} :
    ∀ {l : List ((LaunchRequestRef × LaunchExecution) × ℕ)} {rows : List ClaimRow},
      Forall₂ (fun x row => RowOk (f x.2) x.1.1.request x.1.2 row) l rows →
      (rows.map (·.requestNoid)).sum + (l.map fun x => x.1.2.noidProceeds).sum =
        (rows.map (·.claimNoid)).sum + (l.map fun x => f x.2).sum + (l.map fun x => x.1.2.noidCost).sum
  | [], _, .nil => rfl
  | x :: l, row :: rows, .cons hx hl => by
    have ih := rows_noid hl
    have hrow := hx.noid
    simp only [map_cons, sum_cons]
    omega

lemma rows_units :
    ∀ {rs : List LaunchRequestRef} {es : List LaunchExecution} {rows : List ClaimRow}, es.length = rs.length →
      Forall₂ (fun x row => ∃ c, RowOk c x.1.request x.2 row) (rs.zip es) rows →
      (LaunchRegisteredBatch.sellQuantities rs : ℤ) =
        (((rs.zip rows).map paidUnits).sum : ℕ) - ((rs.zip es).map filledBy).sum
  | [], [], _, _, .nil => rfl
  | r :: rs, e :: es, row :: rows, hlen, .cons hx hl => by
    have ih := rows_units (by simpa using hlen) hl
    obtain ⟨c, hrow⟩ := hx
    have hsells : LaunchRegisteredBatch.sellQuantities (r :: rs) =
        (if r.request.side = .sell then r.request.quantity else 0) + LaunchRegisteredBatch.sellQuantities rs := rfl
    rw [hsells, zip_cons_cons, zip_cons_cons, map_cons, map_cons, sum_cons, sum_cons]
    cases hside : r.request.side with
    | buy =>
      have h := hrow.buy hside
      simp only [filledBy, paidUnits, hside, h, ↓reduceIte, reduceCtorEq]
      omega
    | sell =>
      have h := hrow.sell hside
      simp only at h
      simp only [filledBy, paidUnits, hside, ↓reduceIte, reduceCtorEq, ← h]
      omega

end Claims

/-! ### The settlement -/

section Settlement

variable {H : NativeHash} {d : LaunchDefinition} {batch : LaunchRegisteredBatch}

/-- The rounding of a settlement is within a unit per request and two. -/
theorem BatchOk.rounding_ok (hb : BatchOk H d batch) {mask : Finset ℕ} {s : LaunchStep} {a : Allocation}
    (hs : StepSpec (batch.context d mask) s) (ha : AllocateSpec (batch.context d mask) batch.orders s a) {sold : ℕ}
    (hsold : (sold : ℤ) = ((d.initialSupply - batch.before.inventoryUnits : ℕ) : ℤ) + net batch.orders a.quantities)
    {es : List LaunchExecution}
    (hes : Forall₂ (fun x e => ExecOk s.price x.1.request x.2 e) (batch.requests.zip a.quantities) es)
    (hlen : a.quantities.length = batch.requests.length) :
    -1 ≤ (batch.before.marketNoid : ℤ) + (es.map fun e => (e.noidCost : ℤ)).sum -
        (es.map fun e => (e.noidProceeds : ℤ)).sum - d.cashOf sold ∧
      (batch.before.marketNoid : ℤ) + (es.map fun e => (e.noidCost : ℤ)).sum -
        (es.map fun e => (e.noidProceeds : ℤ)).sum - d.cashOf sold ≤ batch.requests.length + 1 := by
  have hS := definition_supply hb.definition
  have hstate := checkDefinition_inv hb.before_ok
  have hcash := hstate.cash_eq
  obtain ⟨hlow, hhigh⟩ := flow_bounds hs.denominator_pos hes
  have hsum : ((batch.requests.zip a.quantities).map soldBy).sum = net batch.orders a.quantities := soldSum_eq _ _
  have hzip : (batch.requests.zip a.quantities).length = batch.requests.length := by
    rw [length_zip, hlen, min_self]
  rw [hsum, hzip] at hhigh
  rw [hsum] at hlow
  set sold0 := d.initialSupply - batch.before.inventoryUnits
  have hnet : (net batch.orders a.quantities : ℚ) = (sold : ℚ) - sold0 := by
    have : net batch.orders a.quantities = (sold : ℤ) - sold0 := by omega
    rw [this]
    push_cast
    ring
  rw [hnet] at hhigh hlow
  have hnear : |(batch.context d mask).move s.price.val - ((sold : ℚ) - sold0)| ≤ 1 := by
    have h1 := ha.move_lt_net
    have h2 := ha.net_lt_move
    rw [abs_le]
    constructor <;> linarith
  have hdelta : |(sold : ℚ) - sold0| ≤ d.initialSupply := by
    have h1 := ha.neg_sold_le
    have h2 := ha.le_remaining
    simp only [stepContext] at h1 h2
    unfold saleUnits at *
    have h3 : sold ≤ d.initialSupply := by omega
    have h4 : sold0 ≤ d.initialSupply := by omega
    have h3' : (sold : ℚ) ≤ d.initialSupply := by exact_mod_cast h3
    have h4' : (sold0 : ℚ) ≤ d.initialSupply := by exact_mod_cast h4
    rw [abs_le]
    constructor <;> linarith
  have hprice : 900 * (d.initialSupply : ℚ) * s.price.val = 3 * d.initialSupply + 10 * sold0 +
      5 * (batch.context d mask).move s.price.val := by
    simp only [StepContext.move, stepContext]
    ring
  obtain ⟨h1, h2⟩ := rounding_bounds hS.pos hprice hnear hdelta hlow hhigh
  set cost := (es.map fun e => (e.noidCost : ℤ)).sum
  set proceeds := (es.map fun e => (e.noidProceeds : ℤ)).sum
  constructor
  · have : (-2 : ℤ) < (d.cashOf sold0 : ℤ) + (cost - proceeds) - d.cashOf sold := by exact_mod_cast h1
    omega
  · have : (d.cashOf sold0 : ℤ) + (cost - proceeds) - d.cashOf sold < batch.requests.length + 2 := by exact_mod_cast h2
    omega

lemma sum_cast {α : Type} (f : α → ℕ) (l : List α) : (l.map fun x => (f x : ℤ)).sum = ((l.map f).sum : ℕ) := by
  induction l with
  | nil => rfl
  | cons x l ih => simp [ih]

lemma conserves_of_rows {es : List LaunchExecution} {rows : List ClaimRow} {out : LaunchOutcome}
    {fee credit sold cash roundingFee : ℕ} (hpos : 0 < batch.requests.length)
    (heslen : es.length = batch.requests.length)
    (hrows : Forall₂ (fun x row =>
      RowOk (chargedFee batch.requests.length fee credit x.2) x.1.1.request x.1.2 row)
      (batch.requests.zip es).zipIdx rows)
    (hround : (batch.before.marketNoid : ℤ) + (es.map fun e => (e.noidCost : ℤ)).sum -
      (es.map fun e => (e.noidProceeds : ℤ)).sum - cash = (roundingFee : ℤ) - credit)
    (hnoid : out.noidValue = cash) (hunits : out.inventoryUnits = d.initialSupply - sold)
    (hle : sold ≤ d.initialSupply) (hinv : batch.before.inventoryUnits ≤ d.initialSupply)
    (hsold : (sold : ℤ) = ((d.initialSupply - batch.before.inventoryUnits : ℕ) : ℤ) +
      ((batch.requests.zip es).map filledBy).sum) :
    Conserves batch out rows (fee + roundingFee) := by
  have hzip : (batch.requests.zip es).length = batch.requests.length := by
    rw [length_zip, heslen, min_self]
  have hsnd : ∀ f : LaunchExecution → ℕ, ((batch.requests.zip es).zipIdx.map fun x => f x.1.2) = es.map f := by
    intro f
    have hes : (batch.requests.zip es).map Prod.snd = es := map_snd_zip heslen.le
    conv_rhs => rw [← hes, ← zipIdx_map_fst 0 (batch.requests.zip es), map_map, map_map]
    rfl
  constructor
  · have hsum := rows_noid hrows
    have hcharge := sum_chargedFee (l := batch.requests.zip es) (by omega) fee credit
    rw [hzip] at hcharge
    rw [hsnd LaunchExecution.noidCost, hsnd LaunchExecution.noidProceeds, hcharge] at hsum
    rw [sum_cast, sum_cast] at hround
    omega
  · have hrows' : Forall₂ (fun x row => ∃ c, RowOk c x.1.request x.2 row)
        (batch.requests.zip es) rows := by
      have h : Forall₂ (fun x row => ∃ c, RowOk c x.1.request x.2 row)
          ((batch.requests.zip es).zipIdx.map Prod.fst) rows :=
        forall₂_map_left_iff.mpr (hrows.imp fun x row hx => ⟨_, hx⟩)
      rwa [zipIdx_map_fst] at h
    have hsum := rows_units heslen hrows'
    show _ = out.inventoryUnits + ((batch.requests.zip rows).map paidUnits).sum
    omega

variable (hid : d.marketDefinition.id H ≠ 0) (hkeys : ∀ r ∈ batch.requests, r.key H ≠ 0) (hb : BatchOk H d batch)
  (hgen : batch.before.generation < U64)
  {height fee : ℕ} (hheight : batch.settlementAllowed height = .ok ())
  (hfee : fee ≤ batch.requests.length * MAX_SETTLEMENT_FEE_PER_REQUEST)
include hid hkeys hb hgen hheight hfee

lemma BatchOk.calculate_ok {sol : LaunchSolution} (hsol : solve H d batch = .ok sol)
    (hspec : SolutionSpec d batch sol) :
    ∃ settlement, LaunchSettlement.calculate H d batch height fee = .ok settlement := by
  obtain ⟨mask, s, a, hs, ha, hdust, hprice, hquantities⟩ := hspec.step
  obtain ⟨sold, hsold, hsoldle, hsoldeq⟩ := hb.soldAfter_ok ha
  have hd := hb.definition
  obtain ⟨hcash, -⟩ := curveCash_ok hd hsoldle
  have hgrants : Forall₂ (fun r q => Grants s (orderOf r.request) q) batch.requests
      a.quantities := forall₂_map_left_iff.mp ha.grants
  have hpays : Forall₂ (fun r q => Pays s (orderOf r.request) q) batch.requests
      a.quantities := forall₂_map_left_iff.mp (ha.pays hdust)
  have hlen : a.quantities.length = batch.requests.length := hgrants.length_eq.symm
  -- the fills execute
  have hexec : ∀ x ∈ batch.requests.zip a.quantities, ∃ e,
      executeRequest s.price x.1.request x.2 = .ok e ∧ ExecOk s.price x.1.request x.2 e := by
    rintro ⟨r, q⟩ hx
    exact executeRequest_ok (hb.requests_ok r (of_mem_zip hx).1) hs.denominator_pos
      hs.cheap_nat (forall₂_zip hgrants hx) (forall₂_zip hpays hx)
  obtain ⟨es, hes, hesall⟩ := mapM_ok hexec
  obtain ⟨heach, hfilled⟩ := executions_forall hlen hesall
  have heslen : es.length = batch.requests.length := heach.length_eq.symm
  obtain ⟨hround1, hround2⟩ := hb.rounding_ok hs ha hsoldeq hesall hlen
  obtain ⟨out, hout, houtnoid, houtunits⟩ := launchOutcome_ok hid hb hgen hsoldle
  set cash := d.cashOf sold
  set rounding : ℤ := (batch.before.marketNoid : ℤ) + (es.map fun e => (e.noidCost : ℤ)).sum -
    (es.map fun e => (e.noidProceeds : ℤ)).sum - cash with hrounding
  have hcredit : (max (-rounding) 0).toNat ≤ 1 := by omega
  -- every claim is valid
  have hclaim : ∀ x ∈ (batch.requests.zip es).zipIdx, ∃ row,
      settleRequest H d batch.requests.length fee (max (-rounding) 0).toNat x.2 x.1.1 x.1.2 = .ok row ∧
      RowOk (chargedFee batch.requests.length fee (max (-rounding) 0).toNat x.2)
        x.1.1.request x.1.2 row := by
    rintro ⟨⟨r, e⟩, i⟩ hx
    have hmem : (r, e) ∈ batch.requests.zip es := fst_mem_of_mem_zipIdx hx
    obtain ⟨q, hq⟩ := forall₂_zip heach hmem
    have hr := (of_mem_zip hmem).1
    exact settleRequest_ok hd (chargedFee_le hfee hcredit i) (hkeys r hr) (hb.requests_ok r hr) hq
  obtain ⟨rows, hrows, hrowsall⟩ := mapM_ok hclaim
  have hstate := checkDefinition_inv hb.before_ok
  have hsum : ((batch.requests.zip es).map filledBy).sum =
      net batch.orders a.quantities := hfilled.trans (soldSum_eq _ _)
  have hcons : Conserves batch out rows (fee + (max rounding 0).toNat) := by
    refine conserves_of_rows (d := d) hb.nonempty heslen hrowsall ?_ houtnoid
      houtunits ?_ hstate.inventory_le (hsum ▸ hsoldeq)
    · rw [← hrounding]
      omega
    · unfold saleUnits at hsoldle
      omega
  unfold LaunchSettlement.calculate
  rw [bind_of_ok hheight, require_bind hfee, bind_of_ok hsol, hquantities, hprice, bind_of_ok hsold,
    bind_of_ok hcash, bind_of_ok hes]
  rw [require_bind ⟨hround1, hround2⟩, bind_of_ok hout, bind_of_ok hrows, require_bind hcons]
  exact ⟨_, rfl⟩

omit hid hkeys hgen hheight hfee in
/-- A cap tie among the active sets leaves the round unsettled. -/
theorem BatchOk.not_settles {mask : Finset ℕ} (hv : Visited d batch mask)
    (htie : (batch.context d mask).CapTie) (settlement : LaunchSettlement) :
    LaunchSettlement.calculate H d batch height fee ≠ .ok settlement := by
  intro h
  simp only [LaunchSettlement.calculate, bind_eq_ok] at h
  obtain ⟨-, -, -, -, sol, hsol, -⟩ := h
  rw [solve, bind_of_ok hb.before_ok] at hsol
  exact hb.solveLoop_capTie hv htie _ sol (by simpa [launchOrders] using hsol)

lemma BatchOk.settles_of_visited (hvisit : ∀ mask, Visited d batch mask → ¬ (batch.context d mask).CapTie) :
    ∃ settlement, LaunchSettlement.calculate H d batch height fee = .ok settlement := by
  obtain ⟨sol, hsol, hspec⟩ := hb.solveLoop_ok (batch.requests.length + 1)
    (Finset.range batch.requests.length) (by simp) hvisit
  refine hb.calculate_ok hid hkeys hgen hheight hfee ?_ hspec
  rw [solve, bind_of_ok hb.before_ok]
  simpa [launchOrders] using hsol

/-- **A round without a sell at the cap price settles.** -/
theorem BatchOk.settles_of_no_sell_at_cap (hno : ∀ o ∈ batch.orders, o.side = .sell →
      classify o (stepContext d batch [] ∅).capPrice ≠ .marginal) :
    ∃ settlement, LaunchSettlement.calculate H d batch height fee = .ok settlement :=
  hb.settles_of_visited hid hkeys hgen hheight hfee fun mask _ =>
    StepContext.not_capTie fun o ho => hno o ((actives_sublist _ mask).subset ho)

omit hid hkeys hgen hheight hfee in
/-- **A round whose requests all together are a cap tie does not settle.** -/
theorem BatchOk.not_settles_of_capTie (settlement : LaunchSettlement) (htie : (stepContext d batch
      batch.orders (Finset.range batch.requests.length)).CapTie) :
    LaunchSettlement.calculate H d batch height fee ≠ .ok settlement :=
  hb.not_settles (.here _) htie settlement

end Settlement

/-- **A registered round settles exactly when no active set its clearing goes through is a cap tie.** -/
theorem calculate_ok_iff {H : NativeHash} {d : LaunchDefinition} (hid : d.marketDefinition.id H ≠ 0)
    {before : LaunchState} (hgen : before.generation < U64) {registered : ℕ}
    {requests : List LaunchRequestRef} {batch : LaunchRegisteredBatch}
    (hreg : LaunchRegisteredBatch.register H d before registered requests = .ok batch)
    (hkeys : ∀ r ∈ batch.requests, r.key H ≠ 0) {height fee : ℕ} (hheight : batch.settlementAllowed height = .ok ())
    (hfee : fee ≤ batch.requests.length * MAX_SETTLEMENT_FEE_PER_REQUEST) :
    (∃ settlement, LaunchSettlement.calculate H d batch height fee = .ok settlement) ↔ ∀ mask, Visited d batch mask →
        ¬ (stepContext d batch (launchOrders batch.requests) mask).CapTie := by
  have hb := register_inv hreg
  have hgen' : batch.before.generation < U64 := by
    rw [register_before hreg]
    exact hgen
  constructor
  · rintro ⟨settlement, h⟩ mask hv htie
    exact hb.not_settles hv htie settlement h
  · exact hb.settles_of_visited hid hkeys hgen' hheight hfee

/-! ### A round that settles and one that does not -/

def smallLaunch : LaunchDefinition :=
  { asset := 1, marketGenesis := 1, initialSupply := 10 ^ 11, definitionRoot := 1
    profile := LAUNCH_PROFILE }

/-- Half of the sale is done: the cap price is one in 120. -/
def halfSold : LaunchState :=
  { launch := 1, inventoryUnits := 7 * 10 ^ 10, marketNoid := 150000000, generation := 0
    queueRoot := 0, registeredHeight := 0, timeoutHeight := 0, requestCount := 0, phase := .idle }

def requestAt (slot : ℕ) (side : LaunchSide) (quantity limit : ℕ) : LaunchRequestRef :=
  { slotIndex := slot, creationId := NATIVE_CREATION_TAG + 1
    request :=
      { round := 1, asset := 1, owner := 1, recipient := 1, quantity := quantity
        noidLimit := limit, registeredHeight := 10, side := side, profile := LAUNCH_PROFILE } }

def frozenRound (requests : List LaunchRequestRef) : LaunchRegisteredBatch :=
  { before := halfSold
    after := { halfSold with
      queueRoot := 1, registeredHeight := 10, timeoutHeight := 14
      requestCount := requests.length, phase := .frozen }
    round := 1, requests := requests }

/-- A buy of everything left and some. -/
def buyOut : LaunchRequestRef := requestAt 1 .buy (3 * 10 ^ 10 + 60) (10 ^ 9)

/-- The buy and a sell of 120 units for nothing. -/
def twoSided : List LaunchRequestRef := [requestAt 0 .sell 120 0, buyOut]

theorem twoSided_never_capTie :
    LaunchRegisteredBatch.register NativeHash.plain smallLaunch halfSold 10 twoSided = .ok (frozenRound twoSided) ∧
      ∀ mask, Visited smallLaunch (frozenRound twoSided) mask → ¬ (stepContext smallLaunch (frozenRound twoSided)
          (launchOrders (frozenRound twoSided).requests) mask).CapTie := by
  have hreg : LaunchRegisteredBatch.register NativeHash.plain smallLaunch halfSold 10 twoSided =
      .ok (frozenRound twoSided) := by decide +kernel
  have hheight : (frozenRound twoSided).settlementAllowed 11 = .ok () := by decide +kernel
  have hok : (LaunchSettlement.calculate NativeHash.plain smallLaunch (frozenRound twoSided) 11
      20000).isOk = true := by decide +kernel
  exact ⟨hreg, (calculate_ok_iff (by decide) (by decide) hreg (by decide) hheight (by decide)).mp
    (exists_ok_of_isOk hok)⟩

/-- The same buy with a sell of 120 units for 1, limited at the cap price: the round does not settle. -/
theorem sell_at_cap_does_not_settle :
    LaunchRegisteredBatch.register NativeHash.plain smallLaunch halfSold 10
        [requestAt 0 .sell 120 1, buyOut] =
      .ok (frozenRound [requestAt 0 .sell 120 1, buyOut]) ∧
    (frozenRound [requestAt 0 .sell 120 1, buyOut]).settlementAllowed 11 = .ok () ∧
    LaunchSettlement.calculate NativeHash.plain smallLaunch
        (frozenRound [requestAt 0 .sell 120 1, buyOut]) 11 20000 = .error .clearing := by
  decide +kernel

end Noid.Tx
