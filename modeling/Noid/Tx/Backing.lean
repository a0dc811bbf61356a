import Noid.Tx.NativeAssets

/-! # Redemptions

A token is backed by a reserve.  A redemption burns units and pays their share of the reserve, rounded down; a top-up adds
to the reserve. -/

namespace Noid.Tx

open Noid.Lib

structure RedemptionQuote where
  payoutMicronoid : ℕ
  next : BackingState
deriving DecidableEq, Repr

namespace BackingState

def quoteRedemption (b : BackingState) (burnedUnits : ℕ) : Except BackingError RedemptionQuote := do
  require (burnedUnits ≠ 0) .zeroAmount
  require (burnedUnits ≤ b.supplyUnits) .excessRedemption
  let payoutMicronoid := b.reserveMicronoid * burnedUnits / b.supplyUnits % U64
  let next ← new b.denomination (b.reserveMicronoid - payoutMicronoid) (b.supplyUnits - burnedUnits)
  return ⟨payoutMicronoid, { next with issuanceClosed := b.issuanceClosed }⟩

def quoteTopUp (b : BackingState) (contributionMicronoid : ℕ) : Except BackingError BackingState := do
  require (contributionMicronoid ≠ 0) .zeroAmount
  require (b.supplyUnits ≠ 0) .noOutstandingSupply
  let nextReserve ← checked .reserveOverflow (b.reserveMicronoid + contributionMicronoid)
  new b.denomination nextReserve b.supplyUnits

end BackingState

namespace TokenReserve

def redeem (r : TokenReserve) (burnedUnits : ℕ) : Except NativeAssetError (TokenReserve × ℕ) := do
  let backing ← r.backing
  let quote ← (backing.quoteRedemption burnedUnits).mapError .backing
  return ({ r with reserveMicronoid := quote.next.reserveMicronoid, outstandingUnits := quote.next.supplyUnits },
    quote.payoutMicronoid)

end TokenReserve

/-! ### Rounded shares -/

section Shares

variable {R S m n : ℕ}

lemma payout_le (h : n ≤ S) : R * n / S ≤ R :=
  Nat.div_le_of_le_mul (by rw [Nat.mul_comm S]; exact Nat.mul_le_mul_left R h)

/-- What stays per unit does not fall. -/
theorem price_le : R * (S - n) ≤ (R - R * n / S) * S := by
  have hfloor := Nat.div_mul_le_self (R * n) S
  rw [Nat.mul_sub, Nat.sub_mul]
  omega

/-- Two redemptions, the second from what the first left, against one of both. -/
theorem payout_add_le (h : m + n ≤ S) (hn : 0 < n) :
    R * m / S + (R - R * m / S) * n / (S - m) ≤ R * (m + n) / S := by
  have hm : R * m / S ≤ R := payout_le (by omega)
  have ha := Nat.div_mul_le_self (R * m) S
  have hb := Nat.div_mul_le_self ((R - R * m / S) * n) (S - m)
  have hS : 0 < S := by omega
  generalize R * m / S = a at *
  generalize (R - a) * n / (S - m) = b at *
  obtain ⟨T, rfl⟩ : ∃ T, R = a + T := ⟨R - a, by omega⟩
  obtain ⟨k, rfl⟩ : ∃ k, S = m + n + k := ⟨S - m - n, by omega⟩
  rw [Nat.add_sub_cancel_left, show m + n + k - m = n + k by omega] at hb
  rw [Nat.le_div_iff_mul_le hS]
  -- multiplied by the supply after the first redemption
  have hleft := Nat.mul_le_mul_right k ha
  have hright := Nat.mul_le_mul_right (m + n + k) hb
  refine Nat.le_of_mul_le_mul_right (c := n + k) ?_ (by omega)
  nlinarith

lemma le_payout_add (h : m + n ≤ S) (hn : 0 < n) :
    R * (m + n) / S ≤ R * m / S + (R - R * m / S) * n / (S - m) + 1 := by
  have hm : R * m / S ≤ R := payout_le (by omega)
  have ha := Nat.lt_mul_div_succ (R * m) (show 0 < S by omega)
  have hb := Nat.lt_mul_div_succ ((R - R * m / S) * n) (show 0 < S - m by omega)
  generalize R * m / S = a at *
  generalize (R - a) * n / (S - m) = b at *
  obtain ⟨T, rfl⟩ : ∃ T, R = a + T := ⟨R - a, by omega⟩
  obtain ⟨k, rfl⟩ : ∃ k, S = m + n + k := ⟨S - m - n, by omega⟩
  rw [Nat.add_sub_cancel_left, show m + n + k - m = n + k by omega] at hb
  refine Nat.le_of_lt_succ (Nat.div_lt_of_lt_mul ?_)
  have hleft := Nat.mul_le_mul_right k (Nat.succ_le_of_lt ha)
  have hright := Nat.mul_le_mul_right (m + n + k) (Nat.succ_le_of_lt hb)
  refine Nat.lt_of_mul_lt_mul_right (a := n + k) ?_
  nlinarith

end Shares

/-! ### Quotes -/

namespace BackingState

/-- The states that `new` builds from words. -/
structure Backed (b : BackingState) : Prop where
  reserve_lt : b.reserveMicronoid < U64
  empty : b.supplyUnits = 0 → b.reserveMicronoid = 0
  minimum : MIN_BACKING_MICRONOID_PER_TOKEN * b.supplyUnits ≤ b.reserveMicronoid * b.denomination.unitsPerToken

variable {b b' : BackingState} {d : TokenDenomination} {reserve supply n paid : ℕ}

lemma new_eq_ok : new d reserve supply = .ok b ↔ (supply = 0 → reserve = 0) ∧
    MIN_BACKING_MICRONOID_PER_TOKEN * supply ≤ reserve * d.unitsPerToken ∧ b = ⟨d, reserve, supply, supply ≠ 0⟩ := by
  unfold new
  split_ifs with hzero
  · simp only [ok_rules, hzero]
    simp [eq_comm]
  · simp only [ok_rules, hzero]
    simp [eq_comm]

/-- **A redemption within the supply** succeeds, and leaves a backed state. -/
theorem quoteRedemption_eq (hb : b.Backed) (hn : 1 ≤ n) (hle : n ≤ b.supplyUnits) :
    let payout := b.reserveMicronoid * n / b.supplyUnits
    let next := { b with reserveMicronoid := b.reserveMicronoid - payout, supplyUnits := b.supplyUnits - n }
    b.quoteRedemption n = .ok ⟨payout, next⟩ ∧ next.Backed := by
  intro payout next
  have hpaid : payout ≤ b.reserveMicronoid := payout_le hle
  have hlt : payout < U64 := hpaid.trans_lt hb.reserve_lt
  have hnext : next.Backed := by
    refine ⟨(Nat.sub_le _ _).trans_lt hb.reserve_lt, fun hzero => ?_, ?_⟩
    · have hall : n = b.supplyUnits := le_antisymm hle (Nat.le_of_sub_eq_zero hzero)
      have hfull : payout = b.reserveMicronoid := by
        rw [show payout = b.reserveMicronoid * n / b.supplyUnits from rfl, hall, Nat.mul_div_cancel _ (by omega)]
      exact Nat.sub_eq_zero_of_le hfull.ge
    · -- the old bound carries over because the reserve per unit does not fall
      have hprice : b.reserveMicronoid * next.supplyUnits ≤ next.reserveMicronoid * b.supplyUnits := price_le
      have hold := Nat.mul_le_mul_right next.supplyUnits hb.minimum
      have hnew := Nat.mul_le_mul_right b.denomination.unitsPerToken hprice
      refine Nat.le_of_mul_le_mul_right (c := b.supplyUnits) ?_ (by omega)
      change _ ≤ next.reserveMicronoid * b.denomination.unitsPerToken * _
      linarith
  refine ⟨?_, hnext⟩
  have hnew := new_eq_ok.mpr ⟨hnext.empty, hnext.minimum, rfl⟩
  have hcast : b.reserveMicronoid * n / b.supplyUnits % U64 = payout := Nat.mod_eq_of_lt hlt
  rw [quoteRedemption, require_bind (by omega), require_bind hle]
  simp only [hcast]
  exact bind_of_ok hnew

lemma quoteRedemption_inv {q : RedemptionQuote} (h : b.quoteRedemption n = .ok q) : 1 ≤ n ∧ n ≤ b.supplyUnits := by
  simp only [quoteRedemption, ok_rules] at h
  exact ⟨Nat.one_le_iff_ne_zero.mpr h.1, h.2.1⟩

lemma quoteTopUp_inv (h : b.quoteTopUp n = .ok b') :
    b'.Backed ∧ b'.reserveMicronoid = b.reserveMicronoid + n ∧ b'.supplyUnits = b.supplyUnits := by
  simp only [quoteTopUp, ok_rules, checked_eq_ok, new_eq_ok] at h
  obtain ⟨-, hsupply, _, ⟨hlt, rfl⟩, -, hmin, rfl⟩ := h
  exact ⟨⟨hlt, fun hzero => absurd hzero hsupply, hmin⟩, rfl, rfl⟩

/-! ### Histories -/

end BackingState

/-- What happens to a backing after its issuance. -/
inductive BackingStep where
  | redeem (units : ℕ)
  | topUp (micronoid : ℕ)
deriving DecidableEq, Repr

/-- What a step puts into the reserve. -/
def BackingStep.added : BackingStep → ℕ
  | .redeem _ => 0
  | .topUp micronoid => micronoid

namespace BackingState

/-- One step: what it pays and the state after it. -/
def step (b : BackingState) : BackingStep → Except BackingError (ℕ × BackingState)
  | .redeem units => do
    let quote ← b.quoteRedemption units
    return (quote.payoutMicronoid, quote.next)
  | .topUp micronoid => do
    let next ← b.quoteTopUp micronoid
    return (0, next)

/-- A history: what its steps pay together and the state after them. -/
def run (b : BackingState) : List BackingStep → Except BackingError (ℕ × BackingState)
  | [] => .ok (0, b)
  | s :: steps => do
    let (paid, b) ← b.step s
    let (rest, b) ← run b steps
    return (paid + rest, b)

/-- A state after another one, with what was paid and added in between. -/
structure Follows (b b' : BackingState) (paid added : ℕ) : Prop where
  backed : b'.Backed
  conserved : paid + b'.reserveMicronoid = b.reserveMicronoid + added
  supply_le : b'.supplyUnits ≤ b.supplyUnits
  price : b.reserveMicronoid * b'.supplyUnits ≤ b'.reserveMicronoid * b.supplyUnits

variable {b b' b1 : BackingState} {paid rest added more : ℕ}

lemma Follows.trans (h : Follows b b1 paid added) (h' : Follows b1 b' rest more) :
    Follows b b' (paid + rest) (added + more) := by
  have hconserved := h.conserved
  have hconserved' := h'.conserved
  refine ⟨h'.backed, by omega, h'.supply_le.trans h.supply_le, ?_⟩
  rcases Nat.eq_zero_or_pos b1.supplyUnits with hzero | hpos
  · have hle := h'.supply_le
    rw [hzero, Nat.le_zero] at hle
    rw [hle, Nat.mul_zero]
    exact Nat.zero_le _
  · have hfirst := Nat.mul_le_mul_right b'.supplyUnits h.price
    have hsecond := Nat.mul_le_mul_right b.supplyUnits h'.price
    refine Nat.le_of_mul_le_mul_right (c := b1.supplyUnits) ?_ hpos
    linarith

lemma step_follows {s : BackingStep} (hb : b.Backed) (h : b.step s = .ok (paid, b')) : Follows b b' paid s.added := by
  cases s with
  | redeem n =>
    simp only [step, ok_rules, Prod.mk.injEq] at h
    obtain ⟨q, hq, rfl, rfl⟩ := h
    obtain ⟨hn, hle⟩ := quoteRedemption_inv hq
    obtain ⟨hquote, hnext⟩ := quoteRedemption_eq hb hn hle
    have hpaid := payout_le (R := b.reserveMicronoid) hle
    obtain rfl := Except.ok.inj (hquote.symm.trans hq)
    exact ⟨hnext, Nat.add_sub_cancel' hpaid, Nat.sub_le _ _, price_le⟩
  | topUp n =>
    simp only [step, ok_rules, Prod.mk.injEq] at h
    obtain ⟨next, hnext, rfl, rfl⟩ := h
    obtain ⟨hbacked, hreserve, hsupply⟩ := quoteTopUp_inv hnext
    refine ⟨hbacked, by rw [hreserve, Nat.zero_add]; rfl, hsupply.le, ?_⟩
    rw [hreserve, hsupply]
    exact Nat.mul_le_mul_right _ (Nat.le_add_right _ _)

lemma run_follows : ∀ {steps : List BackingStep} {b b' : BackingState} {paid : ℕ}, b.Backed →
    b.run steps = .ok (paid, b') → Follows b b' paid (steps.map BackingStep.added).sum
  | [], b, b', paid, hb, h => by
    cases h
    exact ⟨hb, Nat.zero_add _, le_rfl, le_rfl⟩
  | s :: steps, b, b', paid, hb, h => by
    simp only [run, ok_rules, Prod.exists, Prod.mk.injEq] at h
    obtain ⟨first, b1, hstep, rest, _, hrest, rfl, rfl⟩ := h
    have hfirst := step_follows hb hstep
    exact hfirst.trans (run_follows hfirst.backed hrest)

/-- **Redemption is fair.**  Over any history of a backing, and in the state that it reaches. -/
theorem redemption_fairness {steps : List BackingStep} (hb : b.Backed) (hsupply : 1 ≤ b.supplyUnits)
    (hrun : b.run steps = .ok (paid, b')) :
    paid + b'.reserveMicronoid = b.reserveMicronoid + (steps.map BackingStep.added).sum ∧
      b.reserveMicronoid / (b.supplyUnits : ℚ) * b'.supplyUnits ≤ b'.reserveMicronoid ∧
      MIN_BACKING_MICRONOID_PER_TOKEN * b'.supplyUnits ≤ b'.reserveMicronoid * b'.denomination.unitsPerToken ∧
      (∀ n, 1 ≤ n → n ≤ b'.supplyUnits → ∃ q, b'.quoteRedemption n = .ok q ∧ q.next.supplyUnits = b'.supplyUnits - n ∧
        (n = b'.supplyUnits → q.payoutMicronoid = b'.reserveMicronoid ∧ q.next.reserveMicronoid = 0)) ∧
      (∀ m n, 1 ≤ m → 1 ≤ n → m + n ≤ b'.supplyUnits → ∃ whole first second,
        b'.quoteRedemption (m + n) = .ok whole ∧ b'.quoteRedemption m = .ok first ∧
        first.next.quoteRedemption n = .ok second ∧
        first.payoutMicronoid + second.payoutMicronoid ≤ whole.payoutMicronoid ∧
        whole.payoutMicronoid ≤ first.payoutMicronoid + second.payoutMicronoid + 1) ∧
      ∀ r : TokenReserve, r.backing = .ok b' → ∀ n, 1 ≤ n → n ≤ b'.supplyUnits → ∃ q r',
        b'.quoteRedemption n = .ok q ∧ r.redeem n = .ok (r', q.payoutMicronoid) ∧
        r'.reserveMicronoid = q.next.reserveMicronoid ∧ r'.outstandingUnits = q.next.supplyUnits ∧ r'.backing.isOk := by
  have hfollows := run_follows hb hrun
  have hb' := hfollows.backed
  refine ⟨hfollows.conserved, ?_, hb'.minimum, fun n hn hle => ?_, fun m n hm hn hle => ?_, fun r hr n hn hle => ?_⟩
  · have hpos : (0 : ℚ) < b.supplyUnits := by exact_mod_cast hsupply
    rw [div_mul_eq_mul_div, div_le_iff₀ hpos]
    exact_mod_cast hfollows.price
  · obtain ⟨hquote, hnext⟩ := quoteRedemption_eq hb' hn hle
    refine ⟨_, hquote, rfl, ?_⟩
    rintro rfl
    have hempty := hnext.empty (Nat.sub_self _)
    have hpaid := payout_le (R := b'.reserveMicronoid) le_rfl (S := b'.supplyUnits)
    exact ⟨le_antisymm hpaid (Nat.le_of_sub_eq_zero hempty), hempty⟩
  · obtain ⟨hwhole, -⟩ := quoteRedemption_eq hb' (show 1 ≤ m + n by omega) hle
    obtain ⟨hfirst, hnext⟩ := quoteRedemption_eq hb' hm (show m ≤ b'.supplyUnits by omega)
    obtain ⟨hsecond, -⟩ := quoteRedemption_eq hnext hn (show n ≤ b'.supplyUnits - m by omega)
    exact ⟨_, _, _, hwhole, hfirst, hsecond, payout_add_le hle hn, le_payout_add hle hn⟩
  · obtain ⟨hquote, hnext⟩ := quoteRedemption_eq hb' hn hle
    refine ⟨_, { r with reserveMicronoid := _, outstandingUnits := b'.supplyUnits - n }, hquote, ?_, rfl, rfl, ?_⟩
    · rw [TokenReserve.redeem, bind_of_ok hr, mapError_bind hquote]
      rfl
    · simp only [TokenReserve.backing, ok_rules, new_eq_ok] at hr
      obtain ⟨⟨⟩, hasset, ⟨hinitial, hout⟩, hroot, d, hd, -, -, rfl⟩ := hr
      have hnew := new_eq_ok.mpr ⟨hnext.empty, hnext.minimum, rfl⟩
      rw [TokenReserve.backing, bind_of_ok hasset, require_bind ⟨hinitial, (Nat.sub_le _ _).trans hout⟩,
        require_bind hroot, mapError_bind hd, mapError_eq_ok.mpr hnew]
      rfl

theorem redemption_fairness_history :
    (⟨⟨6, 10 ^ 6⟩, 1000, 7, true⟩ : BackingState).run [.redeem 2, .topUp 6, .redeem 5] =
        .ok (1006, ⟨⟨6, 10 ^ 6⟩, 0, 0, true⟩) ∧ 1006 + 0 = 1000 + ([0, 6, 0] : List ℕ).sum :=
  have hrun : (⟨⟨6, 10 ^ 6⟩, 1000, 7, true⟩ : BackingState).run [.redeem 2, .topUp 6, .redeem 5] =
      .ok (1006, ⟨⟨6, 10 ^ 6⟩, 0, 0, true⟩) := by decide
  ⟨hrun, (redemption_fairness ⟨by decide, by decide, by decide⟩ (by decide) hrun).1⟩

end BackingState

end Noid.Tx
