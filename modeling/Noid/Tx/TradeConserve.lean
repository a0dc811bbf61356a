import Noid.Tx.SequencingLive
import Noid.Tx.TradeExecution

/-! # A prepared batch conserves

`TradeExecution.materialize` compares the NOID and the tokens on both sides of a batch at run time.  The comparison cannot
fail: the control takes in and gives out what the trades spend and receive, every trade returns what it was funded with
less what it spends and its fee, plus what it receives, and merging payouts of one owner changes no sum. -/

namespace Noid.Tx

open Noid.Lib Noid.Lib.Greedy List SequencingPlan

section
variable {H : NativeHash} {T : TradeHash}

/-! ### The control -/

def TradeOutcome.noidIn (o : TradeOutcome) : ℕ := if o.side = .buy then o.spentInput else 0

/-- The NOID a trade takes from the market. -/
def TradeOutcome.noidOut (o : TradeOutcome) : ℕ := if o.side = .sell then o.output else 0

def TradeOutcome.tokensIn (o : TradeOutcome) : ℕ := if o.side = .sell then o.spentInput else 0

/-- The tokens a trade takes from the market. -/
def TradeOutcome.tokensOut (o : TradeOutcome) : ℕ := if o.side = .buy then o.output else 0

/-- What outcomes do to a control. -/
structure Settles (before after : TradeState) (outcomes : List TradeOutcome) : Prop where
  noid : after.noid + (outcomes.map (·.noidOut)).sum = before.noid + (outcomes.map (·.noidIn)).sum
  tokens : after.tokens + (outcomes.map (·.tokensOut)).sum = before.tokens + (outcomes.map (·.tokensIn)).sum

variable {o : TradeOutcome} {asset : AssetId} {boundary : TradeBoundary}

lemma Moves.flows {t after : TradeState} (h : Moves t after o.spentInput o.output o.side) :
    after.noid + o.noidOut = t.noid + o.noidIn ∧ after.tokens + o.tokensOut = t.tokens + o.tokensIn := by
  unfold TradeOutcome.noidOut TradeOutcome.noidIn TradeOutcome.tokensOut TradeOutcome.tokensIn
  cases hside : o.side <;> simp only [hside, Moves, reduceCtorEq, if_true, if_false] at h ⊢ <;> omega

lemma Settles.snoc {before t after : TradeState} {outcomes : List TradeOutcome}
    (h : Settles before t outcomes) (ho : Moves t after o.spentInput o.output o.side) :
    Settles before after (outcomes ++ [o]) := by
  obtain ⟨hnoid, htokens⟩ := h
  obtain ⟨hnoid', htokens'⟩ := ho.flows
  constructor <;>
    simp only [map_append, sum_append, map_cons, map_nil, sum_cons, sum_nil] <;>
    omega

lemma quoteExactInput_ready {d : MarketDefinition} {before : PoolState} {gross minimum : ℕ}
    {q : SwapQuote} (h : quoteExactInput H d before asset gross minimum = .ok q) : PoolReady H d before := by
  rw [quoteExactInput, bind_eq_ok] at h
  obtain ⟨⟨⟩, hcheck, h⟩ := h
  rw [bind_eq_ok] at h
  obtain ⟨⟨⟩, hphase, -⟩ := h
  obtain ⟨hidle, hnoid, hlocked⟩ := require_eq_ok.mp hphase
  exact ⟨hcheck, hidle, hnoid, hlocked⟩

/-- The carrier of a control holds its NOID. -/
def TradeState.Carried (t : TradeState) : Prop := t.opening.amountMicronoid = t.noid

lemma TradeState.carried_curve {d : LaunchDefinition} {s : LaunchState} {u : Unit}
    (h : s.checkDefinition H d = .ok u) : (TradeState.curve s).Carried := by
  rw [LaunchState.checkDefinition, bind_eq_ok] at h
  obtain ⟨⟨⟩, hvalid, -⟩ := h
  simp only [Carried, opening, NativeOpening.amountMicronoid, LaunchOpening.noidValue, LaunchOpening.validate,
    bind_of_ok hvalid]
  rfl

lemma TradeState.carried_market {d : MarketDefinition} {p : PoolState} {u : Unit} (hd : d.baseIsNoid = true)
    (h : p.checkDefinition H d = .ok u) : (TradeState.market p).Carried := by
  obtain ⟨-, -, -, hnoid⟩ := PoolState.checkDefinition_eq_ok.mp h
  simp [Carried, opening, NativeOpening.amountMicronoid, MarketOpening.noidValue, PoolState.noidValue, hnoid, hd,
    noid, Except.toOption]

namespace Engine

variable {start : MarketStart} {engine engine' : Engine}

lemma apply_moves (hfits : engine.Fits start) {side : LaunchSide} {gross minimum : ℕ} {o : TradeOutcome}
    (h : engine.apply H side gross minimum = .ok (o, engine')) :
    Moves engine.control engine'.control o.spentInput o.output o.side := by
  cases engine with
  | curve d g =>
    simp only [Engine.apply, SequentialLaunch.apply, ok_rules, Prod.exists, Prod.mk.injEq] at h
    obtain ⟨q, g', ⟨-, q', hquote, rfl, rfl⟩, rfl, rfl⟩ := h
    exact (TradeState.quote_trades hquote).moves
  | market d g =>
    obtain ⟨rfl, -⟩ := hfits
    have hready : PoolReady H g.definition g.current := by
      simp only [Engine.apply, SequentialMarket.apply, ok_rules, Prod.exists, Prod.mk.injEq] at h
      obtain ⟨-, -, ⟨-, q', hquote, -⟩, -⟩ := h
      exact quoteExactInput_ready hquote
    simp only [apply_market hready, SequentialMarket.apply, ok_rules, Prod.exists, Prod.mk.injEq] at h
    obtain ⟨q, g', ⟨-, q', hquote, rfl, rfl⟩, rfl, rfl⟩ := h
    obtain ⟨-, -, hgross, -, hle, hafter⟩ := quoteExactInput_eq_ok hquote
    simp only [control, hgross]
    rw [hafter]
    exact swapped_moves hle

lemma new_carried (h : Engine.new H start = .ok engine) : start.control.Carried := by
  cases start with
  | curve d s =>
    simp only [new, SequentialLaunch.new, ok_rules] at h
    obtain ⟨g, ⟨u, hcheck, -⟩, -⟩ := h
    exact TradeState.carried_curve hcheck
  | market d p =>
    simp only [new, SequentialMarket.new, ok_rules] at h
    obtain ⟨g, ⟨u, hcheck, ⟨-, -, hnoid, -⟩, -⟩, -⟩ := h
    exact TradeState.carried_market hnoid hcheck

lemma finish_holds (hfits : engine.Fits start) (hstart : Engine.new H start = .ok engine')
    {t : TradeState} (h : engine.finish H = .ok t) :
    t.noid = engine.control.noid ∧ t.tokens = engine.control.tokens ∧ t.Carried := by
  cases engine with
  | curve d g =>
    simp only [finish, SequentialLaunch.finish, ok_rules] at h
    obtain ⟨e, ⟨-, after, hafter, rfl⟩, rfl⟩ := h
    change after.noid = g.current.noid ∧ after.tokens = g.current.tokens ∧ _
    cases hg : g.current with
    | curve s =>
      simp only [hg, TradeState.close, ok_rules] at hafter
      obtain ⟨generation, -, u, hcheck, rfl⟩ := hafter
      exact ⟨rfl, rfl, TradeState.carried_curve hcheck⟩
    | market p =>
      simp only [hg, TradeState.close, ok_rules] at hafter
      obtain ⟨u, hcheck, rfl⟩ := hafter
      exact ⟨rfl, rfl, TradeState.carried_market rfl hcheck⟩
  | market d g =>
    obtain ⟨rfl, p, rfl⟩ := hfits
    simp only [new, SequentialMarket.new, ok_rules] at hstart
    obtain ⟨-, ⟨-, -, ⟨-, -, hnoid, -⟩, -⟩, -⟩ := hstart
    simp only [finish, SequentialMarket.finish, ok_rules] at h
    obtain ⟨e, ⟨-, generation, -, u, hcheck, rfl⟩, rfl⟩ := h
    exact ⟨rfl, rfl, TradeState.carried_market hnoid hcheck⟩

end Engine

namespace SequencingPlan

variable {start : MarketStart} {boundary : TradeBoundary} {intents : List TradeIntent} {plan : SequencingPlan}

/-- **The control of a plan ends with what the trades leave in it.** -/
theorem execute_moves (h : execute H T start boundary intents = .ok plan) {t : TradeState}
    (ht : plan.after = some t) :
    Settles start.control t (plan.fills.map (·.outcome)) ∧ t.Carried := by
  obtain ⟨-, engine, initial, engine', fs, us, hnew, -, -, hruns, hfills, -, hclose⟩ := execute_eq_ok.mp h
  have hfits := (Engine.new_eq_ok hnew).1
  obtain ⟨hfits', hsettles⟩ := hruns.invariant
    (P := fun done e => e.Fits start ∧ Settles start.control e.control (done.map (·.outcome.2)))
    ⟨hfits, by rw [Engine.new_control hnew]; exact ⟨rfl, rfl⟩⟩ (by
      rintro done e q o e' ⟨he, hdone⟩ hattempt
      have happly := (attemptTrade_eq_some hattempt).1
      refine ⟨Engine.apply_fits he happly, ?_⟩
      rw [map_append]
      exact hdone.snoc (Engine.apply_moves he happly))
  rw [Closes, ht] at hclose
  split_ifs at hclose with hnil
  obtain ⟨t', hfinish, heq⟩ := hclose
  obtain rfl := Option.some.inj heq
  obtain ⟨hnoid, htokens, hcarried⟩ := Engine.finish_holds hfits' hnew hfinish
  refine ⟨?_, hcarried⟩
  have houtcomes : plan.fills.map (·.outcome) = fs.map (·.outcome.2) := by
    rw [hfills, map_map]
    rfl
  rw [houtcomes]
  exact ⟨by rw [hnoid]; exact hsettles.noid, by rw [htokens]; exact hsettles.tokens⟩

lemma execute_side (h : execute H T start boundary intents = .ok plan) {f : SequencedFill} (hf : f ∈ plan.fills) :
    ∃ i, intents[f.sourceIndex]? = some i ∧ f.outcome.side = i.policy.side := by
  obtain ⟨-, engine, initial, engine', fs, us, -, -, -, hruns, hfills, -, -⟩ := execute_eq_ok.mp h
  rw [hfills] at hf
  obtain ⟨x, hx, rfl⟩ := mem_map.mp hf
  obtain ⟨e', he'⟩ := hruns.attempt_of_mem hx
  exact ⟨x.item.intent, index_queue (hruns.item_mem hx), (Engine.apply_control (attemptTrade_eq_some he').1).2.1⟩

lemma outcome_of_mem (hnd : (plan.fills.map (·.sourceIndex)).Nodup) {f : SequencedFill} (hf : f ∈ plan.fills) :
    plan.outcome f.sourceIndex = some f.outcome := by
  unfold outcome
  cases hfind : plan.fills.reverse.find? (fun g => decide (g.sourceIndex = f.sourceIndex)) with
  | none =>
    have := find?_eq_none.mp hfind f (by simpa using hf)
    simp at this
  | some g =>
    have hg : g ∈ plan.fills := by simpa using mem_of_find?_eq_some hfind
    have hindex : g.sourceIndex = f.sourceIndex := by simpa using find?_some hfind
    rw [inj_on_of_nodup_map hnd hg hf hindex]
    rfl

lemma outcome_eq_some {k : ℕ} {o : TradeOutcome} (h : plan.outcome k = some o) :
    ∃ f ∈ plan.fills, f.sourceIndex = k ∧ f.outcome = o := by
  obtain ⟨f, hf, rfl⟩ := Option.map_eq_some_iff.mp h
  exact ⟨f, by simpa using mem_of_find?_eq_some hf, by simpa using find?_some hf, rfl⟩

lemma sum_outcomes (h : execute H T start boundary intents = .ok plan) (hnone : plan.unfilled = [])
    (g : TradeOutcome → ℕ) :
    ((plan.fills.map (·.outcome)).map g).sum =
      ((range intents.length).map fun k => (plan.outcome k).elim 0 g).sum := by
  have hindices := execute_indices h
  rw [hnone, append_nil] at hindices
  have hnd : (plan.fills.map (·.sourceIndex)).Nodup := hindices.nodup_iff.mpr nodup_range
  rw [← (hindices.map fun k => (plan.outcome k).elim 0 g).sum_eq, map_map, map_map]
  congr 1
  apply map_congr_left
  intro f hf
  simp [outcome_of_mem hnd hf]

end SequencingPlan

/-! ### Payouts -/

/-- What payouts pay in one asset. -/
def paid (asset : AssetId) (ps : List TradePayout) : ℕ :=
  (ps.map fun p => if p.asset = asset then p.units else 0).sum

lemma foldl_collect_total (p : AssetId ×ₗ Address → Prop) [DecidablePred p] :
    ∀ (entries : List (AssetId × Address × ℕ)) (m : SortedMap (AssetId ×ₗ Address) ℕ),
      SortedMap.total (fun k n => if p k then n else 0) (entries.foldl (fun values e =>
          if e.2.2 = 0 then values else values.bump (toLex (e.1, e.2.1)) e.2.2) m) =
        SortedMap.total (fun k n => if p k then n else 0) m +
          (entries.map fun e => if p (toLex (e.1, e.2.1)) then e.2.2 else 0).sum
  | [], m => by simp
  | e :: l, m => by
    rw [foldl_cons, foldl_collect_total p l, map_cons, sum_cons, ← Nat.add_assoc]
    congr 1
    split_ifs with hzero hp hp
    · rw [hzero, Nat.add_zero]
    · rw [Nat.add_zero]
    · rw [SortedMap.bump, SortedMap.total_insert_add, if_pos hp]
    · rw [SortedMap.bump, SortedMap.total_insert_add, if_neg hp]

/-- Merging keeps the sum over any keys. -/
theorem collect_total (p : AssetId ×ₗ Address → Prop) [DecidablePred p] (entries : List (AssetId × Address × ℕ)) :
    SortedMap.total (fun k n => if p k then n else 0) (TradeIntent.collect entries) =
      (entries.map fun e => if p (toLex (e.1, e.2.1)) then e.2.2 else 0).sum := by
  rw [TradeIntent.collect, foldl_collect_total]
  exact Nat.zero_add _

namespace TradeIntent

variable {i : TradeIntent} {boundary : TradeBoundary}

def outputAsset (i : TradeIntent) : AssetId :=
  match i.policy.side with
  | .buy => i.policy.asset
  | .sell => NOID_ASSET

def payoutEntries (i : TradeIntent) (totals : FundingTotals) (o : TradeOutcome) (fee : ℕ) :
    List (AssetId × Address × ℕ) :=
  [(NOID_ASSET, i.policy.owner, totals.noid - (o.noidIn + fee)),
    (i.policy.asset, i.policy.owner, totals.tokens - o.tokensIn), (i.outputAsset, i.policy.recipient, o.output)]

variable {o : TradeOutcome} {ps : List TradePayout}

lemma payouts_eq_ok (hside : o.side = i.policy.side) {fee : ℕ}
    (h : i.payouts H boundary o.spentInput o.output fee = .ok ps) :
    ∃ totals, i.checked H boundary.chain boundary.epochAnchor boundary.height = .ok totals ∧
      fee ≤ i.policy.feeLimit ∧ i.policy.minimumOutput ≤ o.output ∧ o.noidIn + fee ≤ totals.noid ∧
      o.tokensIn ≤ totals.tokens ∧
      ps = (collect (i.payoutEntries totals o fee)).entries.map
        fun e => { asset := (ofLex e.1).1, owner := (ofLex e.1).2, units := e.2 } := by
  simp only [payouts, ok_rules] at h
  obtain ⟨totals, hchecked, -, ⟨-, hmin⟩, hfee, h⟩ := h
  refine ⟨totals, hchecked, hfee, hmin, ?_⟩
  simp only [payoutEntries, outputAsset, TradeOutcome.noidIn, TradeOutcome.tokensIn, hside]
  cases hs : i.policy.side
  all_goals
    simp only [hs, checkedSub_eq_ok] at h
    obtain ⟨refundNoid, ⟨hnoid, rfl⟩, refundTokens, ⟨htokens, rfl⟩, h⟩ := h
    refine ⟨hnoid, htokens, eq_map_of_mapM ?_ h⟩
    intro e p hp
    simp only [ok_rules, checked_eq_ok] at hp
    obtain ⟨units, ⟨-, rfl⟩, rfl⟩ := hp
    rfl

lemma paid_collect (asset : AssetId) (entries : List (AssetId × Address × ℕ)) :
    paid asset ((collect entries).entries.map
        fun e => { asset := (ofLex e.1).1, owner := (ofLex e.1).2, units := e.2 }) =
      (entries.map fun e => if e.1 = asset then e.2.2 else 0).sum := by
  have h := collect_total (fun k => (ofLex k).1 = asset) entries
  rw [paid, map_map]
  exact h

/-- **A trade is paid what it was funded with, less what it spends and its fee, plus what it receives.** -/
theorem payouts_totals (hside : o.side = i.policy.side) {fee : ℕ}
    (h : i.payouts H boundary o.spentInput o.output fee = .ok ps) :
    ∃ totals, i.checked H boundary.chain boundary.epochAnchor boundary.height = .ok totals ∧
      paid NOID_ASSET ps + (o.noidIn + fee) = totals.noid + o.noidOut ∧
      paid i.policy.asset ps + o.tokensIn = totals.tokens + o.tokensOut := by
  obtain ⟨totals, hchecked, -, -, hnoid, htokens, rfl⟩ := payouts_eq_ok hside h
  refine ⟨totals, hchecked, ?_⟩
  have hasset : i.policy.asset ≠ NOID_ASSET := by
    obtain ⟨hpolicy, -⟩ := checked_inv hchecked
    simp only [TradePolicy.validate, require_eq_ok] at hpolicy
    exact hpolicy.2.2.2.1
  rw [paid_collect, paid_collect]
  simp only [payoutEntries, outputAsset, TradeOutcome.noidOut, TradeOutcome.tokensOut, hside, map_cons,
    map_nil, sum_cons, sum_nil, hasset, hasset.symm, if_true, if_false]
  cases hs : i.policy.side <;>
    simp only [reduceCtorEq, hasset, hasset.symm, if_true, if_false] <;> omega

lemma recipient_paid (hside : o.side = i.policy.side) {fee : ℕ}
    (h : i.payouts H boundary o.spentInput o.output fee = .ok ps) :
    ∃ p ∈ ps, p.asset = i.outputAsset ∧ p.owner = i.policy.recipient ∧ i.policy.minimumOutput ≤ p.units := by
  obtain ⟨totals, hchecked, -, hmin, -, -, rfl⟩ := payouts_eq_ok hside h
  set values := collect (i.payoutEntries totals o fee) with hvalues
  have hamount : o.output ≤ SortedMap.amount (toLex (i.outputAsset, i.policy.recipient)) values := by
    rw [hvalues, SortedMap.amount, collect_total, payoutEntries]
    simp only [map_cons, map_nil, sum_cons, sum_nil, if_true]
    omega
  have hpos : 0 < i.policy.minimumOutput := by
    obtain ⟨hpolicy, -⟩ := checked_inv hchecked
    simp only [TradePolicy.validate, require_eq_ok] at hpolicy
    obtain ⟨-, -, -, -, -, hall, -⟩ := hpolicy
    exact Nat.pos_of_ne_zero (hall _ (by simp)).1
  have hmem := SortedMap.mem_of_amount_pos (hpos.trans_le (hmin.trans hamount))
  exact ⟨_, mem_map_of_mem hmem, rfl, rfl, hmin.trans hamount⟩

end TradeIntent

/-! ### Funding -/

namespace TradeIntent

lemma Funds.tokenUnits_eq {p : TradePolicy} {height : Option ℕ} {c : NativeInputClaim} (h : Funds H p height c) :
    c.tokenUnits = tradeUnits p.asset c.opening := by
  unfold NativeInputClaim.tokenUnits
  cases hc : c.opening with
  | none => rfl
  | some o =>
    obtain ⟨b, rfl, hasset⟩ := h.asset.2 o hc
    simp [tradeUnits, hasset]

lemma checked_sums {i : TradeIntent} {chain anchor : Digest} {height : ℕ} {totals : FundingTotals}
    (h : i.checked H chain anchor height = .ok totals) :
    totals.noid = noidIn i.funding ∧
      totals.tokens = (i.funding.map fun c => tradeUnits i.policy.asset c.opening).sum := by
  obtain ⟨-, -, hsums, -⟩ := checked_inv h
  obtain ⟨hfunds, -, rfl⟩ := fundingTotals_eq_ok.mp hsums
  rw [← map_congr_left fun c hc => (hfunds c hc).tokenUnits_eq]
  simp

end TradeIntent

/-! ### Charges -/

/-- The charge of one trade: within its limit, to its recipient, and in balance. -/
structure Charged (asset : AssetId) (i : TradeIntent) (o : TradeOutcome) (c : TradeCharge) : Prop where
  fee_le : c.fee ≤ i.policy.feeLimit
  recipient : ∃ p ∈ c.payouts, p.asset = i.outputAsset ∧ p.owner = i.policy.recipient ∧
    i.policy.minimumOutput ≤ p.units
  noid : paid NOID_ASSET c.payouts + (o.noidIn + c.fee) = noidIn i.funding + o.noidOut
  tokens : paid asset c.payouts + o.tokensIn = (i.funding.map fun c => tradeUnits asset c.opening).sum + o.tokensOut

lemma quoteLoop_charged {i : TradeIntent} {fees : List ℕ} {count : ℕ} {c : TradeCharge}
    (hside : o.side = i.policy.side) (h : quoteLoop H T i boundary o count fees = .ok c) : Charged i.policy.asset i o c := by
  obtain ⟨hlimit, hpayouts, -⟩ := quoteLoop_eq_ok h
  obtain ⟨totals, hchecked, hnoid, htokens⟩ := TradeIntent.payouts_totals hside hpayouts
  obtain ⟨hsum, hsum'⟩ := TradeIntent.checked_sums hchecked
  exact ⟨hlimit, TradeIntent.recipient_paid hside hpayouts, by rw [← hsum]; exact hnoid, by rw [← hsum']; exact htokens⟩

lemma TradeBatch.checked_inv {b : TradeBatch} {plan : SequencingPlan} (h : b.checked H T boundary = .ok plan) :
    SequencingPlan.execute H T b.parent.market boundary b.policies = .ok plan ∧ plan.unfilled = [] ∧
      plan.fills ≠ [] := by
  simp only [checked, ok_rules] at h
  obtain ⟨-, -, plan, hplan, ⟨hnone, hlen⟩, rfl⟩ := h
  refine ⟨hplan, hnone, ?_⟩
  intro hnil
  obtain ⟨⟨hne, -⟩, -⟩ := execute_eq_ok.mp hplan
  rw [hnil] at hlen
  exact hne (length_eq_zero_iff.mp hlen.symm)

variable {b : TradeBatch} {fees : List TradeFeeQuotes} {plan : SequencingPlan} {charges : List TradeCharge}

lemma prepare_quoted (h : prepare H T b boundary fees = .ok (plan, charges)) :
    b.checked H T boundary = .ok plan ∧ charges.length = b.policies.length ∧
      ∀ k i c, b.policies[k]? = some i → charges[k]? = some c → ∃ o q, plan.outcome k = some o ∧
        fees[k]? = some q ∧ quoteLoop H T i boundary o 1 [q.one, q.two, q.three] = .ok c := by
  simp only [prepare, ok_rules, Prod.mk.injEq] at h
  obtain ⟨-, hfees, plan, hplan, charges, hcharges, rfl, rfl⟩ := h
  rw [mapM_eq_ok] at hcharges
  have hlen := hcharges.length_eq
  simp only [length_zipIdx, length_zip, hfees, Nat.min_self] at hlen
  refine ⟨hplan, hlen.symm, ?_⟩
  intro k i c hi hc
  obtain ⟨hk, rfl⟩ := List.getElem?_eq_some_iff.mp hi
  obtain ⟨hk', rfl⟩ := List.getElem?_eq_some_iff.mp hc
  have hquote := hcharges.get (show k < _ by simpa [hfees] using hk) hk'
  simp only [get_eq_getElem, getElem_zipIdx, getElem_zip, Nat.zero_add, ok_rules, quoteCharge] at hquote
  obtain ⟨o, ho, -, hloop⟩ := hquote
  exact ⟨o, _, ho, getElem?_eq_getElem (hfees ▸ hk), hloop⟩

lemma prepare_charged (h : prepare H T b boundary fees = .ok (plan, charges)) :
    b.checked H T boundary = .ok plan ∧ charges.length = b.policies.length ∧
      ∀ k i c, b.policies[k]? = some i → charges[k]? = some c →
        ∃ o, plan.outcome k = some o ∧ Charged b.parent.asset i o c := by
  obtain ⟨hplan, hlen, hquoted⟩ := prepare_quoted h
  refine ⟨hplan, hlen, fun k i c hi hc => ?_⟩
  obtain ⟨o, q, ho, -, hloop⟩ := hquoted k i c hi hc
  obtain ⟨hassets, -⟩ := TradeBatch.checked_eq_ok hplan
  obtain ⟨f, hf, rfl, rfl⟩ := outcome_eq_some ho
  obtain ⟨hexecute, -⟩ := TradeBatch.checked_inv hplan
  obtain ⟨i, hi', hside⟩ := execute_side hexecute hf
  rw [hi] at hi'
  obtain rfl := Option.some.inj hi'
  refine ⟨f.outcome, ho, ?_⟩
  rw [← hassets _ (mem_of_getElem? hi)]
  exact quoteLoop_charged hside hloop

/-! ### Outputs -/

lemma payoutClaim_sums (hasset : asset ≠ NOID_ASSET) {p : TradePayout} {slot : ℕ}
    {c : NativeOutputClaim} (h : payoutClaim H p slot = .ok c) :
    c.output.amount = (if p.asset = NOID_ASSET then p.units else 0) ∧
      tradeUnits asset c.opening = if p.asset = asset then p.units else 0 := by
  unfold payoutClaim at h
  split_ifs at h with hnoid
  · cases h
    simp [tradeUnits, hnoid, hasset.symm]
  · simp only [ok_rules] at h
    obtain ⟨-, -, rfl⟩ := h
    simp [nativeOutput, tradeUnits, hnoid, NativeOpening.amountMicronoid]

def Credits (p : TradePayout) (c : NativeOutputClaim) : Prop :=
  if p.asset = NOID_ASSET then c.opening = none ∧ c.output.owner = p.owner ∧ c.output.amount = p.units
  else c.opening = some (.tokenBalance { asset := p.asset, owner := p.owner, units := p.units, unlockHeight := 0 })

lemma payoutClaim_credits {p : TradePayout} {slot : ℕ} {c : NativeOutputClaim}
    (h : payoutClaim H p slot = .ok c) : Credits p c := by
  unfold payoutClaim at h
  unfold Credits
  split_ifs at h ⊢ with hnoid
  · cases h
    exact ⟨rfl, rfl, rfl⟩
  · simp only [ok_rules] at h
    obtain ⟨-, -, rfl⟩ := h
    rfl

lemma payoutClaims_sums (hasset : asset ≠ NOID_ASSET) :
    ∀ {ps : List TradePayout} {slots : List ℕ} {outputs : List NativeOutputClaim}, ps.length = slots.length →
      (ps.zip slots).mapM (fun x => payoutClaim H x.1 x.2) = .ok outputs →
      noidOut outputs = paid NOID_ASSET ps ∧
        (outputs.map fun c => tradeUnits asset c.opening).sum = paid asset ps ∧ ∀ p ∈ ps, ∃ c ∈ outputs, Credits p c
  | [], slots, outputs, _, h => by
    simp only [zip_nil_left, mapM_nil, pure_eq_ok] at h
    subst h
    exact ⟨rfl, rfl, by simp⟩
  | p :: ps, [], _, hlen, _ => by simp at hlen
  | p :: ps, slot :: slots, outputs, hlen, h => by
    simp only [zip_cons_cons, mapM_cons, ok_rules] at h
    obtain ⟨c, hc, rest, hrest, rfl⟩ := h
    obtain ⟨hamount, hunits⟩ := payoutClaim_sums hasset hc
    obtain ⟨hnoid, htokens, hcredits⟩ := payoutClaims_sums hasset (by simpa using hlen) hrest
    refine ⟨?_, ?_, ?_⟩
    · simp only [noidOut, paid, map_cons, sum_cons] at hnoid ⊢
      omega
    · simp only [paid, map_cons, sum_cons] at htokens ⊢
      omega
    · refine forall_mem_cons.mpr ⟨⟨c, mem_cons_self, payoutClaim_credits hc⟩, fun q hq => ?_⟩
      obtain ⟨x, hx, hcredit⟩ := hcredits q hq
      exact ⟨x, mem_cons_of_mem _ hx, hcredit⟩

lemma chargeOutputs_sums (hasset : asset ≠ NOID_ASSET) :
    ∀ {l : List (TradeCharge × List ℕ)} {fee total : ℕ} {outputs : List NativeOutputClaim},
      chargeOutputs H fee l = .ok (outputs, total) →
      noidOut outputs = (l.map fun x => paid NOID_ASSET x.1.payouts).sum ∧
        (outputs.map fun c => tradeUnits asset c.opening).sum = (l.map fun x => paid asset x.1.payouts).sum ∧
        total = fee + (l.map fun x => x.1.fee).sum ∧
        ∀ x ∈ l, ∀ p ∈ x.1.payouts, ∃ c ∈ outputs, Credits p c
  | [], _, _, _, h => by
    obtain ⟨rfl, rfl⟩ := h
    exact ⟨rfl, rfl, rfl, by simp⟩
  | (charge, slots) :: rest, fee, total, outputs, h => by
    simp only [chargeOutputs, ok_rules, checked_eq_ok, Prod.exists, Prod.mk.injEq] at h
    obtain ⟨hlen, outs, houts, fee', ⟨-, rfl⟩, more, total', hmore, rfl, rfl⟩ := h
    obtain ⟨hnoid, htokens, hcredits⟩ := payoutClaims_sums hasset hlen houts
    obtain ⟨hnoid', htokens', hfee, hcredits'⟩ := chargeOutputs_sums hasset hmore
    refine ⟨?_, ?_, ?_, ?_⟩
    · simp only [noidOut, map_append, sum_append, map_cons, sum_cons] at hnoid hnoid' ⊢
      omega
    · simp only [map_append, sum_append, map_cons, sum_cons]
      omega
    · simp only [map_cons, sum_cons]
      omega
    · intro x hx p hp
      rcases mem_cons.mp hx with rfl | hx
      · obtain ⟨c, hc, hcredit⟩ := hcredits p hp
        exact ⟨c, mem_append_left _ hc, hcredit⟩
      · obtain ⟨c, hc, hcredit⟩ := hcredits' x hx p hp
        exact ⟨c, mem_append_right _ hc, hcredit⟩

/-! ### Both sides -/

lemma sum_map_range {α : Type} (f : α → ℕ) :
    ∀ l : List α, (l.map f).sum = ((range l.length).map fun k => (l[k]?).elim 0 f).sum
  | [] => rfl
  | a :: l => by
    rw [length_cons, range_succ_eq_map, map_cons, map_cons, sum_cons, sum_cons, map_map, sum_map_range f l]
    rfl

/-- Equations between entries of lists of one length add up. -/
theorem sum_range_eq {n : ℕ} {f g h k : ℕ → ℕ} (heq : ∀ i < n, f i + g i = h i + k i) :
    ((range n).map f).sum + ((range n).map g).sum =
      ((range n).map h).sum + ((range n).map k).sum := by
  rw [← sum_map_add, ← sum_map_add]
  congr 1
  apply map_congr_left
  intro i hi
  exact heq i (mem_range.mp hi)

section
variable {b : TradeBatch} {boundary : TradeBoundary} {fees : List TradeFeeQuotes} {plan : SequencingPlan}
  {charges : List TradeCharge}

/-- A prepared batch pays out, with its control, what its funding and its control bring in. -/
theorem prepare_balanced (h : prepare H T b boundary fees = .ok (plan, charges)) :
    ∃ t, plan.after = some t ∧ t.Carried ∧
      (charges.map fun c => paid NOID_ASSET c.payouts).sum + t.noid + (charges.map (·.fee)).sum =
        b.parent.market.control.noid + (b.policies.map fun i => noidIn i.funding).sum ∧
      (charges.map fun c => paid b.parent.asset c.payouts).sum + t.tokens = b.parent.market.control.tokens +
          (b.policies.map fun i => (i.funding.map fun c => tradeUnits b.parent.asset c.opening).sum).sum := by
  obtain ⟨hchecked, hlen, hcharged⟩ := prepare_charged h
  obtain ⟨hexecute, hnone, hne⟩ := TradeBatch.checked_inv hchecked
  obtain ⟨t, ht⟩ : ∃ t, plan.after = some t := by
    obtain ⟨-, engine, initial, engine', fs, us, -, -, -, -, -, -, hclose⟩ :=
      execute_eq_ok.mp hexecute
    rw [SequencingPlan.Closes, if_neg hne] at hclose
    obtain ⟨t, -, ht⟩ := hclose
    exact ⟨t, ht⟩
  obtain ⟨⟨hnoid, htokens⟩, hcarried⟩ := execute_moves hexecute ht
  simp only [sum_outcomes hexecute hnone] at hnoid htokens
  have hat : ∀ k < b.policies.length, ∃ i o c, b.policies[k]? = some i ∧ plan.outcome k = some o ∧
      charges[k]? = some c ∧ Charged b.parent.asset i o c := by
    intro k hk
    have hi := getElem?_eq_getElem hk
    have hc := getElem?_eq_getElem (hlen ▸ hk : k < charges.length)
    obtain ⟨o, ho, hcharge⟩ := hcharged k _ _ hi hc
    exact ⟨_, o, _, hi, ho, hc, hcharge⟩
  refine ⟨t, ht, hcarried, ?_, ?_⟩
  · have hsum := sum_range_eq (n := b.policies.length)
      (f := fun k => (charges[k]?).elim 0 fun c => paid NOID_ASSET c.payouts)
      (g := fun k => (plan.outcome k).elim 0 (·.noidIn) + (charges[k]?).elim 0 (·.fee))
      (h := fun k => (b.policies[k]?).elim 0 fun i => noidIn i.funding)
      (k := fun k => (plan.outcome k).elim 0 (·.noidOut)) (by
        intro k hk
        obtain ⟨i, o, c, hi, ho, hc, hcharge⟩ := hat k hk
        simpa [hi, ho, hc] using hcharge.noid)
    rw [sum_map_add, ← sum_map_range, ← hlen, ← sum_map_range, ← sum_map_range] at hsum
    rw [← hlen] at hnoid
    omega
  · have hsum := sum_range_eq (n := b.policies.length)
      (f := fun k => (charges[k]?).elim 0 fun c => paid b.parent.asset c.payouts)
      (g := fun k => (plan.outcome k).elim 0 (·.tokensIn))
      (h := fun k => (b.policies[k]?).elim 0 fun i =>
        (i.funding.map fun c => tradeUnits b.parent.asset c.opening).sum)
      (k := fun k => (plan.outcome k).elim 0 (·.tokensOut)) (by
        intro k hk
        obtain ⟨i, o, c, hi, ho, hc, hcharge⟩ := hat k hk
        simpa [hi, ho, hc] using hcharge.tokens)
    rw [← sum_map_range, ← hlen, ← sum_map_range] at hsum
    rw [← hlen] at htokens
    omega

lemma prepare_asset (h : prepare H T b boundary fees = .ok (plan, charges)) : b.parent.asset ≠ NOID_ASSET := by
  obtain ⟨hchecked, -⟩ := prepare_charged h
  obtain ⟨hassets, -⟩ := TradeBatch.checked_eq_ok hchecked
  obtain ⟨⟨hne, -⟩, engine, -, -, -, -, -, -, hadm, -⟩ :=
    execute_eq_ok.mp (TradeBatch.checked_inv hchecked).1
  obtain ⟨i, rest, hpolicies⟩ := exists_cons_of_ne_nil hne
  have hi : i ∈ b.policies := by simp [hpolicies]
  obtain ⟨⟨totals, htotals⟩, -⟩ := hadm.1 i hi
  obtain ⟨hpolicy, -⟩ := TradeIntent.checked_inv htotals
  simp only [TradePolicy.validate, require_eq_ok] at hpolicy
  rw [← hassets i hi]
  exact hpolicy.2.2.2.1

lemma noidIn_flatMap (l : List TradeIntent) :
    noidIn (l.flatMap (·.funding)) = (l.map fun i => noidIn i.funding).sum := by
  induction l with
  | nil => rfl
  | cons i l ih =>
    rw [flatMap_cons, map_cons, sum_cons, ← ih]
    simp [noidIn]

lemma tokens_flatMap (asset : AssetId) (l : List TradeIntent) :
    ((l.flatMap (·.funding)).map fun c => tradeUnits asset c.opening).sum =
      (l.map fun i => (i.funding.map fun c => tradeUnits asset c.opening).sum).sum := by
  induction l with
  | nil => rfl
  | cons i l ih =>
    rw [flatMap_cons, map_cons, sum_cons, ← ih]
    simp

lemma TradeParent.claim_holds {p : TradeParent} {c : NativeInputClaim} (h : p.claim H = .ok c) :
    c.input.amount = p.market.control.noid ∧ tradeUnits p.asset c.opening = p.market.control.tokens := by
  simp only [TradeParent.claim, ok_rules] at h
  obtain ⟨engine, hengine, ⟨⟩, -, rfl⟩ := h
  have hopening : p.opening = p.market.control.opening := by
    unfold TradeParent.opening MarketStart.control
    cases p.market <;> rfl
  constructor
  · simp only
    rw [hopening]
    exact Engine.new_carried hengine
  · simp only [hopening]
    cases p.market <;> rfl

lemma TradeBatch.inputs_sums {claims : List NativeInputClaim} (h : b.inputs H T = .ok claims) :
    noidIn claims = b.parent.market.control.noid + (b.policies.map fun i => noidIn i.funding).sum ∧
      (claims.map fun c => tradeUnits b.parent.asset c.opening).sum = b.parent.market.control.tokens +
        (b.policies.map fun i => (i.funding.map fun c => tradeUnits b.parent.asset c.opening).sum).sum := by
  simp only [inputs, ok_rules] at h
  obtain ⟨-, -, parent, hparent, rfl⟩ := h
  obtain ⟨hamount, hunits⟩ := TradeParent.claim_holds hparent
  rw [← noidIn_flatMap, ← tokens_flatMap]
  simp only [noidIn, map_cons, sum_cons]
  omega

namespace TradeExecution

lemma payoutClaim_failsOnly (p : TradePayout) (slot : ℕ) :
    FailsOnly (· ≠ .conservation) (payoutClaim H p slot) := by
  unfold payoutClaim
  split_ifs
  · exact .ok
  · exact .bind (.mapError fun _ _ => by simp) fun _ _ => .pure

lemma chargeOutputs_failsOnly :
    ∀ (l : List (TradeCharge × List ℕ)) (fee : ℕ), FailsOnly (· ≠ .conservation) (chargeOutputs H fee l)
  | [], _ => .ok
  | (c, slots) :: rest, fee => by
    refine .bind (.require fun _ => by simp) fun _ _ => .bind (.mapM fun x _ => payoutClaim_failsOnly x.1 x.2) ?_
    intro _ _
    refine .bind (.checked fun _ => by simp) fun _ _ => ?_
    exact .bind (chargeOutputs_failsOnly rest _) fun _ _ => .pure

lemma checkTradeOutput_failsOnly (c : NativeOutputClaim) :
    FailsOnly (· ≠ .conservation) (checkTradeOutput H c) := by
  unfold checkTradeOutput
  split
  · exact .mapError fun _ _ => by simp
  · exact .ok

lemma materialize_balanced (h : prepare H T b boundary fees = .ok (plan, charges)) {slots : TradeOutputSlots}
    {claims : List NativeInputClaim} {payouts : List NativeOutputClaim} {fee : ℕ} {t : TradeState}
    (hlen : slots.payouts.length = charges.length) (hclaims : b.inputs H T = .ok claims)
    (hpayouts : chargeOutputs H 0 (charges.zip slots.payouts) = .ok (payouts, fee)) (ht : plan.after = some t) :
    noidIn claims = noidOut (payouts ++ [nativeOutput H t.opening slots.market]) + fee ∧
      (claims.map fun c => tradeUnits b.parent.asset c.opening).sum =
        ((payouts ++ [nativeOutput H t.opening slots.market]).map
          fun c => tradeUnits b.parent.asset c.opening).sum := by
  obtain ⟨t', ht', hcarried, hnoid, htokens⟩ := prepare_balanced h
  obtain rfl := Option.some.inj (ht'.symm.trans ht)
  obtain ⟨hin, hin'⟩ := TradeBatch.inputs_sums hclaims
  obtain ⟨hout, hout', hfee, -⟩ := chargeOutputs_sums (prepare_asset h) hpayouts
  have hfst : (charges.zip slots.payouts).map Prod.fst = charges := map_fst_zip hlen.ge
  have hzip : ∀ g : TradeCharge → ℕ, ((charges.zip slots.payouts).map fun x => g x.1) = charges.map g := by
    intro g
    conv_rhs => rw [← hfst, map_map]
    rfl
  rw [hzip fun c => paid NOID_ASSET c.payouts] at hout
  rw [hzip fun c => paid b.parent.asset c.payouts] at hout'
  rw [hzip fun c => c.fee] at hfee
  have hamount : (nativeOutput H t'.opening slots.market).output.amount = t'.noid := hcarried
  have hunits : tradeUnits b.parent.asset (nativeOutput H t'.opening slots.market).opening = t'.tokens := by
    cases t' <;> rfl
  constructor
  · rw [noidOut, map_append, sum_append, map_cons, map_nil, sum_cons, sum_nil, hamount]
    rw [noidOut] at hout
    omega
  · rw [map_append, sum_append, map_cons, map_nil, sum_cons, sum_nil, hunits]
    omega

lemma materialize_failsOnly (h : prepare H T b boundary fees = .ok (plan, charges)) (slots : TradeOutputSlots) :
    FailsOnly (· ≠ .conservation) (materialize H T b boundary plan charges slots) := by
  obtain ⟨t, ht, -⟩ := prepare_balanced h
  refine .bind (.require fun _ => by simp) fun _ hlen => .bind (.mapError fun _ _ => by simp) ?_
  rw [require_eq_ok] at hlen
  intro claims hclaims
  rw [mapError_eq_ok] at hclaims
  refine .bind (chargeOutputs_failsOnly _ _) ?_
  rintro ⟨payouts, fee⟩ hpayouts
  refine .bind_ok (orElseThrow_eq_ok.mpr ht) (.bind (.require fun _ => by simp) fun _ _ => ?_)
  refine .bind (.eachFresh (by simp) (fun _ => .ok) checkTradeOutput_failsOnly) fun _ _ => ?_
  refine .bind_ok (require_of _ (materialize_balanced h hlen hclaims hpayouts ht)) ?_
  exact .bind (.mapError fun _ _ => by simp) fun _ _ => .pure

/-- **A prepared batch executes in balance**, whatever the output slots: NOID and tokens are equal on both sides up to
the fee, each recipient is paid the minimum, and each charge is within the limit. -/
theorem new_conserves (h : prepare H T b boundary fees = .ok (plan, charges)) (slots : TradeOutputSlots) :
    new H T b boundary fees slots ≠ .error .conservation ∧ (∀ e, new H T b boundary fees slots = .ok e →
        noidIn e.inputs = noidOut e.outputs + e.fee ∧
          (e.inputs.map fun c => tradeUnits b.parent.asset c.opening).sum =
            (e.outputs.map fun c => tradeUnits b.parent.asset c.opening).sum ∧
          e.charges = charges ∧ e.fee = (charges.map (·.fee)).sum ∧
          ∀ c ∈ charges, ∀ p ∈ c.payouts, ∃ o ∈ e.outputs, Credits p o) ∧
      charges.length = b.policies.length ∧
      ∀ (k : ℕ) (i : TradeIntent) (c : TradeCharge), b.policies[k]? = some i → charges[k]? = some c →
        c.fee ≤ i.policy.feeLimit ∧ ∃ p ∈ c.payouts, p.asset = i.outputAsset ∧
          p.owner = i.policy.recipient ∧ i.policy.minimumOutput ≤ p.units := by
  have hnew : new H T b boundary fees slots = materialize H T b boundary plan charges slots := bind_of_ok h
  obtain ⟨-, hlen, hcharged⟩ := prepare_charged h
  refine ⟨?_, ?_, hlen, ?_⟩
  · intro herror
    exact materialize_failsOnly h slots _ (hnew ▸ herror) rfl
  · intro e he
    rw [hnew] at he
    simp only [materialize, ok_rules, Prod.exists] at he
    obtain ⟨hslots, claims, -, payouts, fee, hpayouts, final, -, -, -, -, ⟨hnoid, htokens⟩, commitment, -, rfl⟩ := he
    obtain ⟨-, -, hfee, hcredits⟩ := chargeOutputs_sums (prepare_asset h) hpayouts
    have hfst : (charges.zip slots.payouts).map Prod.fst = charges := map_fst_zip hslots.ge
    refine ⟨hnoid, htokens, rfl, ?_, ?_⟩
    · have hmap := congrArg (map TradeCharge.fee) hfst
      rw [map_map] at hmap
      rw [hfee, Nat.zero_add]
      exact congrArg sum hmap
    · intro c hc p hp
      obtain ⟨x, hx, rfl⟩ := mem_map.mp (hfst ▸ hc)
      obtain ⟨o, ho, hcredit⟩ := hcredits x hx p hp
      exact ⟨o, mem_append_left _ ho, hcredit⟩
  · intro k i c hi hc
    obtain ⟨o, -, hcharge⟩ := hcharged k i c hi hc
    exact ⟨hcharge.fee_le, hcharge.recipient⟩

def twoTrades : TradeBatch :=
  { parent := { slotIndex := 9, creationId := NATIVE_CREATION_TAG + 1, market := evenMarket }
    policies := [buyFrom 1 100000 80000, sellFrom 3 50000 40000] }

theorem twoTrades_conserve : (∃ plan charges, prepare NativeHash.plain TradeHash.plain twoTrades tenthBlock
      [⟨1000, 2000, 3000⟩, ⟨1000, 2000, 3000⟩] = .ok (plan, charges)) ∧
    new NativeHash.plain TradeHash.plain twoTrades tenthBlock [⟨1000, 2000, 3000⟩, ⟨1000, 2000, 3000⟩]
      ⟨[[10, 11], [12]], 13⟩ ≠ .error .conservation := by
  have hok : (prepare NativeHash.plain TradeHash.plain twoTrades tenthBlock
      [⟨1000, 2000, 3000⟩, ⟨1000, 2000, 3000⟩]).isOk = true := by decide +kernel
  obtain ⟨⟨plan, charges⟩, h⟩ := exists_ok_of_isOk hok
  exact ⟨⟨plan, charges, h⟩, (new_conserves h _).1⟩

end TradeExecution

end

end

end Noid.Tx
