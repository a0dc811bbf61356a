import Noid.Tx.Sequencing
import Noid.Tx.TradeTotal

/-! # Every checked trade set executes

An intent that passes its own check cannot make a set fail: it is filled or left unfilled.  The check of an intent does
not look at the parent of the block, but its priority does, so the boundary has to name a parent besides. -/

namespace Noid.Tx

open Noid.Lib Noid.Lib.Greedy List

section
variable {H : NativeHash} {T : TradeHash}

/-! ### Checked intents -/

namespace TradeIntent

variable {i : TradeIntent}
variable {p : TradePolicy} {height : Option ℕ} {anchor : Digest} {totals : FundingTotals}

lemma fundingTotals_none {l : List NativeInputClaim} {previous : Option ℕ} {start r : FundingTotals}
    (h : fundingTotals H p height previous start l = .ok r) : fundingTotals H p none previous start l = .ok r := by
  rw [fundingTotals_eq_ok] at h ⊢
  refine ⟨fun c hc => ?_, h.2⟩
  obtain ⟨hasset, hordinary, hbalance⟩ := h.1 c hc
  exact ⟨hasset, hordinary, fun b hb => ⟨(hbalance b hb).1, (hbalance b hb).2.1, by simp⟩⟩

lemma Funds.opening_eq_none {c : NativeInputClaim} (h : Funds H p height c) (hside : p.side = .buy) :
    c.opening = none := by
  rw [Option.eq_none_iff_forall_ne_some]
  intro o ho
  obtain ⟨b, rfl, -⟩ := h.asset.2 o ho
  obtain ⟨hsell, -⟩ := h.balance b ho
  rw [hside] at hsell
  cases hsell

lemma tokenUnits_eq_zero {c : NativeInputClaim} (h : principalUnits .sell c = none) : c.tokenUnits = 0 := by
  unfold principalUnits at h
  unfold NativeInputClaim.tokenUnits
  split
  · rename_i b hb
    simp [hb] at h
  · rfl

lemma checked_inv {chain : Digest} {height : ℕ} (h : i.checked H chain anchor height = .ok totals) :
    i.policy.validate = .ok () ∧ i.funding ≠ [] ∧
      fundingTotals H i.policy (some height) none ⟨0, 0⟩ i.funding = .ok totals ∧
      i.validateStructure H = .ok totals ∧ (i.policy.side = .sell → i.policy.grossInput ≤ totals.tokens) := by
  simp only [checked, validateFunding, TradePolicy.checkContext, ok_rules] at h
  obtain ⟨-, ⟨⟩, hpolicy, ⟨hne, hlen⟩, sums, hsums, ⟨hnoid, htokens⟩, rfl⟩ := h
  refine ⟨hpolicy, hne, hsums, ?_, ?_⟩
  · simp only [validateStructure, validateFunding, ok_rules]
    exact ⟨(), hpolicy, ⟨hne, hlen⟩, sums, fundingTotals_none hsums, ⟨hnoid, htokens⟩, rfl⟩
  · intro hside
    by_contra hlt
    exact htokens ⟨hside, not_le.mp hlt⟩

lemma authorizationId_ok {chain : Digest} {height : ℕ}
    (h : i.checked H chain anchor height = .ok totals) : ∃ id, i.authorizationId H T = .ok id := by
  obtain ⟨hpolicy, -, -, hstructure, -⟩ := checked_inv h
  refine ⟨T.intent (T.policy i.policy) (i.funding.map fun c => (c.input, c.root)), ?_⟩
  rw [authorizationId, bind_of_ok hstructure, TradePolicy.root, bind_of_ok (a := T.policy i.policy)]
  · rfl
  · rw [bind_of_ok hpolicy]
    rfl

lemma fundingPriority_ok {chain parentId : Digest} {height : ℕ}
    (h : i.checked H chain anchor height = .ok totals) (hparent : parentId ≠ 0) :
    ∃ p, i.fundingPriority H T parentId = .ok p := by
  obtain ⟨hpolicy, hne, hsums, hstructure, htokens⟩ := checked_inv h
  have hprincipals : i.funding.filter (fun c => (principalUnits i.policy.side c).isSome) ≠ [] := by
    intro hnil
    have hnone : ∀ c ∈ i.funding, principalUnits i.policy.side c = none := by
      intro c hc
      have := filter_eq_nil_iff.mp hnil c hc
      simpa using this
    cases hside : i.policy.side with
    | buy =>
      obtain ⟨c, rest, hfunding⟩ := exists_cons_of_ne_nil hne
      have hc : c ∈ i.funding := by simp [hfunding]
      have hopening := ((fundingTotals_eq_ok.mp hsums).1 c hc).opening_eq_none hside
      have := hnone c hc
      simp [principalUnits, hside, hopening] at this
    | sell =>
      rw [hside] at hnone
      have hzero : (i.funding.map (·.tokenUnits)).sum = 0 :=
        sum_eq_zero (by simpa using fun c hc => tokenUnits_eq_zero (hnone c hc))
      obtain ⟨-, -, rfl⟩ := fundingTotals_eq_ok.mp hsums
      have hgross : _ ≤ 0 + _ := htokens hside
      simp only [TradePolicy.validate, require_eq_ok] at hpolicy
      obtain ⟨-, -, -, -, -, hall, -⟩ := hpolicy
      have := (hall i.policy.grossInput (by simp)).1
      omega
  obtain ⟨anchorClaim, hanchor⟩ := Option.ne_none_iff_exists'.mp
    (mt (argmin_eq_none (f := anchorKey i.policy.side)).mp hprincipals)
  simp only [fundingPriority, ok_rules]
  exact ⟨_, totals, hstructure, hparent, anchorClaim, hanchor, rfl⟩

end TradeIntent

/-! ### Engines -/

def MarketStart.generation : MarketStart → ℕ
  | .curve _ s => s.generation
  | .market _ p => p.generation

/-- A control that can still be closed. -/
def TradeState.Closable : TradeState → Prop
  | .curve s => s.generation + 1 < U64
  | .market _ => True

/-- A trade leaves a control that trades and can be closed. -/
theorem TradeState.Ready.quote {d : LaunchDefinition} {t : TradeState} {side : LaunchSide} {gross minimum : ℕ}
    {q : TradeQuote} (h : t.Ready H d) (hclose : t.Closable) (hq : t.quote H d side gross minimum = .ok q) :
    q.after.Ready H d ∧ q.after.Closable := by
  cases t with
  | market p =>
    obtain ⟨-, -, p', hp', hready⟩ := marketQuote_moves hq
    rw [hp']
    exact ⟨hready, trivial⟩
  | curve s =>
    have hfollows := (quoteCurveExactInput_trades hq).2
    cases hafter : q.after with
    | market p' =>
      rw [hafter] at hfollows
      exact ⟨hfollows, trivial⟩
    | curve s' =>
      rw [hafter] at hfollows
      obtain ⟨hcheck, heq⟩ := hfollows
      have hphase : s'.phase = s.phase := by rw [heq]
      have hgen : s'.generation = s.generation := by rw [heq]
      refine ⟨⟨hcheck, hphase.trans h.idle⟩, ?_⟩
      unfold Closable at *
      simpa only [hgen] using hclose

namespace Engine

/-- An engine in order: its market trades, can be closed, and has an identifier for its pool. -/
def Live (H : NativeHash) : Engine → Prop
  | .curve d g => g.definition = d ∧ d.marketDefinition.id H ≠ 0 ∧ g.current.Ready H d ∧ g.current.Closable
  | .market d g => g.definition = d ∧ PoolReady H d g.current ∧ g.current.generation + 1 < U64

/-- An engine that has traded. -/
def Started : Engine → Prop
  | .curve _ g => g.steps ≠ []
  | .market _ g => g.steps ≠ []

variable {start : MarketStart} {engine engine' : Engine}

lemma new_live (h : new H start = .ok engine) (hgen : start.generation < U64)
    (hid : ∀ d s, start = .curve d s → d.marketDefinition.id H ≠ 0) : engine.Live H := by
  cases start with
  | curve d s =>
    simp only [new, SequentialLaunch.new, ok_rules] at h
    obtain ⟨g, ⟨⟨⟩, hcheck, ⟨hidle, hne⟩, rfl⟩, rfl⟩ := h
    refine ⟨rfl, hid d s rfl, ⟨hcheck, hidle⟩, ?_⟩
    simp only [MarketStart.generation, TradeState.Closable, U64, U64_MAX] at *
    omega
  | market d p =>
    simp only [new, SequentialMarket.new, ok_rules] at h
    obtain ⟨g, ⟨⟨⟩, hcheck, ⟨hidle, hne, hnoid, hlocked⟩, rfl⟩, rfl⟩ := h
    refine ⟨rfl, ⟨hcheck, hidle, hnoid, hlocked⟩, ?_⟩
    simp only [MarketStart.generation, U64, U64_MAX] at *
    omega

/-- A trade names its input asset as its market does. -/
theorem apply_market {d : MarketDefinition} {p : PoolState} (h : PoolReady H d p) (g : SequentialMarket)
    (side : LaunchSide) (gross minimum : ℕ) :
    Engine.apply H side gross minimum (.market d g) = (do
      let (q, g) ← (g.apply H (d.inputAsset side) gross minimum).mapError .market
      return ({ side := side, grossInput := gross, spentInput := q.grossInput, output := q.output
                marketFee := q.fee, curveSpent := 0, curveOutput := 0, after := .market q.after }, .market d g)) := by
  cases side with
  | buy => rw [MarketDefinition.inputAsset, h.base_eq, Engine.apply]
  | sell => rfl

/-- **An engine in order only declines.** -/
theorem apply_failsOnly (h : engine.Live H) (side : LaunchSide) (gross minimum : ℕ) :
    FailsOnly (fun e => declinable e = true) (engine.apply H side gross minimum) := by
  cases engine with
  | curve d g =>
    obtain ⟨rfl, hid, hready, -⟩ := h
    refine .bind (.mapError ?_) fun _ _ => .pure
    refine .bind (.require fun _ => rfl) fun _ _ => .bind ?_ fun _ _ => .pure
    refine (TradeState.quote_failsOnly hid hready side gross minimum).mono ?_
    rintro (e | e | _) he
    · rcases he with rfl | rfl <;> rfl
    · rcases he with rfl | rfl | rfl <;> rfl
    · rfl
  | market d g =>
    obtain ⟨rfl, hready, -⟩ := h
    rw [apply_market hready]
    refine .bind (.mapError ?_) fun _ _ => .pure
    refine .bind (.require fun _ => rfl) fun _ _ => .bind ?_ fun _ _ => .pure
    refine (quoteExactInput_failsOnly hready side gross minimum).mono ?_
    rintro e (rfl | rfl | rfl) <;> rfl

/-- An engine in order stays so, and a fill keeps to the limits of its order. -/
theorem Live.apply (h : engine.Live H) {side : LaunchSide} {gross minimum : ℕ} {outcome : TradeOutcome}
    (happly : engine.apply H side gross minimum = .ok (outcome, engine')) :
    engine'.Live H ∧ engine'.Started ∧ outcome.spentInput ≤ gross ∧ minimum ≤ outcome.output := by
  cases engine with
  | curve d g =>
    obtain ⟨rfl, hid, hready, hclose⟩ := h
    simp only [Engine.apply, SequentialLaunch.apply, ok_rules, Prod.exists, Prod.mk.injEq] at happly
    obtain ⟨q, g', ⟨-, q', hquote, rfl, rfl⟩, rfl, rfl⟩ := happly
    have htrades := TradeState.quote_trades hquote
    refine ⟨⟨rfl, hid, ?_⟩, by simp [Started], htrades.spent_le, htrades.minimum_le⟩
    exact hready.quote hclose hquote
  | market d g =>
    obtain ⟨rfl, hready, hgen⟩ := h
    simp only [apply_market hready, SequentialMarket.apply, ok_rules, Prod.exists, Prod.mk.injEq] at happly
    obtain ⟨q, g', ⟨-, q', hquote, rfl, rfl⟩, rfl, rfl⟩ := happly
    obtain ⟨-, hready', hgross, hmin, -, hafter⟩ := quoteExactInput_eq_ok hquote
    refine ⟨⟨rfl, hready', ?_⟩, by simp [Started], hgross.le, hmin⟩
    rw [hafter]
    cases side <;> exact hgen

lemma Live.price (h : engine.Live H) : ∃ p, engine.price = .ok p := by
  cases engine with
  | market d g => exact ⟨_, rfl⟩
  | curve d g =>
    obtain ⟨rfl, -, hready, -⟩ := h
    cases hg : g.current with
    | market p => exact ⟨poolPrice p, by simp only [Engine.price, hg]⟩
    | curve s =>
      rw [hg] at hready
      have hle := hready.sold_lt.le
      obtain ⟨price, hprice⟩ : ∃ price, g.definition.marginalPrice
          (g.definition.initialSupply - s.inventoryUnits) = .ok price := by
        rw [LaunchDefinition.marginalPrice, LaunchDefinition.averagePrice,
          bind_of_ok (checkDefinition_definition hready.checked), require_bind ⟨hle, hle⟩]
        exact ⟨_, rfl⟩
      refine ⟨⟨price.numerator, price.denominator⟩, ?_⟩
      simp only [Engine.price, hg]
      exact mapError_bind hprice

/-- An engine in order that has traded closes. -/
theorem Live.finish (h : engine.Live H) (hstarted : engine.Started) : ∃ t, engine.finish H = .ok t := by
  cases engine with
  | curve d g =>
    obtain ⟨rfl, -, hready, hclose⟩ := h
    have hclosed : ∃ t, g.current.close H g.definition = .ok t := by
      cases hg : g.current with
      | curve s =>
        rw [hg] at hready hclose
        exact ⟨_, (checked_bind hclose).trans (mapError_bind hready.checked)⟩
      | market p =>
        rw [hg] at hready
        exact ⟨_, mapError_bind hready.checked⟩
    obtain ⟨t, ht⟩ := hclosed
    have hfinish : g.finish H = .ok ⟨g.before, t, g.steps⟩ := by
      rw [SequentialLaunch.finish, require_bind (show g.steps ≠ [] from hstarted), bind_of_ok ht]
      rfl
    exact ⟨t, mapError_bind hfinish⟩
  | market d g =>
    obtain ⟨rfl, hready, hgen⟩ := h
    have hfinish : g.finish H = .ok ⟨g.before, { g.current with generation := g.current.generation + 1 }, g.steps⟩ := by
      rw [SequentialMarket.finish, require_bind (show g.steps ≠ [] from hstarted), checked_bind hgen]
      exact bind_of_ok hready.checked
    exact ⟨_, mapError_bind hfinish⟩

end Engine

/-! ### Sets -/

section
variable {boundary : TradeBoundary} {asset : AssetId} {intents : List TradeIntent}

def DisjointFunding (intents : List TradeIntent) : Prop :=
  intents.Pairwise fun a b => ∀ c ∈ a.funding, ∀ c' ∈ b.funding, c.input.slotIndex ≠ c'.input.slotIndex

instance (intents : List TradeIntent) : Decidable (DisjointFunding intents) := by
  unfold DisjointFunding
  infer_instance

lemma fundingSlots_nodup : ∀ {intents : List TradeIntent},
    (∀ i ∈ intents, (i.funding.map (·.input.slotIndex)).Nodup) → DisjointFunding intents →
    (fundingSlots intents).Nodup
  | [], _, _ => by simp [fundingSlots]
  | i :: l, hnodup, hdisjoint => by
    obtain ⟨hi, hl⟩ := pairwise_cons.mp hdisjoint
    obtain ⟨hni, hnl⟩ := forall_mem_cons.mp hnodup
    rw [fundingSlots_cons, nodup_append]
    refine ⟨hni, fundingSlots_nodup hnl hl, ?_⟩
    intro slot hslot slot' hslot'
    obtain ⟨c, hc, rfl⟩ := mem_map.mp hslot
    obtain ⟨c', hc', rfl⟩ := mem_map.mp hslot'
    obtain ⟨j, hj, hcj⟩ := mem_flatMap.mp hc'
    exact hi j hj c hc c' hcj

lemma admitted_of_checked (hparent : boundary.parentId ≠ 0) (hchecked : ∀ i ∈ intents, ∃ totals,
      i.checked H boundary.chain boundary.epochAnchor boundary.height = .ok totals)
    (hasset : ∀ i ∈ intents, i.policy.asset = asset) (hdisjoint : DisjointFunding intents) :
    Admitted H T boundary asset intents := by
  refine ⟨?_, fundingSlots_nodup ?_ hdisjoint⟩
  · intro i hi
    obtain ⟨totals, htotals⟩ := hchecked i hi
    obtain ⟨p, hp⟩ := TradeIntent.fundingPriority_ok (T := T) htotals hparent
    refine ⟨⟨totals, htotals⟩, hasset i hi, ?_⟩
    rw [priorityOf_eq hp]
    exact hp
  · intro i hi
    obtain ⟨totals, htotals⟩ := hchecked i hi
    obtain ⟨-, -, hsums, -⟩ := TradeIntent.checked_inv htotals
    obtain ⟨-, hslots, -⟩ := TradeIntent.fundingTotals_eq_ok.mp hsums
    exact (isChain_iff_pairwise.mp hslots).imp fun h => h.ne

lemma attemptTrade_ok {engine : Engine} (h : engine.Live H) {i : TradeIntent}
    {chain anchor : Digest} {height : ℕ} {totals : FundingTotals}
    (hi : i.checked H chain anchor height = .ok totals) :
    ∃ r, attemptTrade H T engine i = .ok r ∧ (r.elim engine Prod.snd).Live H := by
  obtain ⟨id, hid⟩ := TradeIntent.authorizationId_ok (T := T) hi
  have hfails := Engine.apply_failsOnly h i.policy.side i.policy.grossInput i.policy.minimumOutput
  unfold attemptTrade
  cases happly : engine.apply H i.policy.side i.policy.grossInput i.policy.minimumOutput with
  | error e =>
    simp only
    rw [if_pos (hfails e happly)]
    exact ⟨none, rfl, h⟩
  | ok x =>
    simp only
    rw [mapError_bind hid]
    exact ⟨some ((id, x.1), x.2), rfl, (h.apply happly).1⟩

namespace SequencingPlan

variable {start : MarketStart} {engine : Engine}

/-- **Every checked trade set executes**: each intent is filled or left unfilled once, and each fill keeps to its
limits. -/
theorem execute_live (hid : ∀ d s, start = .curve d s → d.marketDefinition.id H ≠ 0)
    (hgen : start.generation < U64) (hnew : Engine.new H start = .ok engine) (hne : intents ≠ []) (hlen : intents.length ≤ MAX_SEQUENTIAL_TRADES) (hparent : boundary.parentId ≠ 0)
    (hchecked : ∀ i ∈ intents, ∃ totals, i.checked H boundary.chain boundary.epochAnchor boundary.height = .ok totals)
    (hasset : ∀ i ∈ intents, i.policy.asset = engine.asset) (hdisjoint : DisjointFunding intents) :
    ∃ plan, execute H T start boundary intents = .ok plan ∧
      (plan.fills.map (·.sourceIndex) ++ plan.unfilled).Perm (range intents.length) ∧
      ∀ f ∈ plan.fills, ∃ i, intents[f.sourceIndex]? = some i ∧
        f.outcome.spentInput ≤ i.policy.grossInput ∧ i.policy.minimumOutput ≤ f.outcome.output := by
  have hlive := Engine.new_live hnew hgen hid
  obtain ⟨initial, hinitial⟩ := hlive.price
  have hadm : Admitted H T boundary engine.asset intents := admitted_of_checked hparent hchecked hasset hdisjoint
  have hprefer : ∀ (_ : ℕ) (e : Engine), e.Live H → ∃ p, (queueLoop H T initial).prefer e = .ok p := by
    intro _ e he
    obtain ⟨p, hp⟩ := he.price
    simp [queueLoop, Loop.comap, tradeLoop, hp, Except.map]
  have hattempt : ∀ (_ : ℕ) (e : Engine) (q : QueuedIntent), e.Live H → q ∈ queue H T boundary intents →
      ∃ r, (queueLoop H T initial).attempt e q = .ok r ∧ (r.elim e Prod.snd).Live H := by
    intro _ e q he hq
    obtain ⟨totals, htotals⟩ := hchecked q.intent (mem_of_getElem? (index_queue hq))
    exact attemptTrade_ok he htotals
  obtain ⟨engine', fs, us, hruns, hlive'⟩ := Loop.exists_runs hprefer hattempt (queue H T boundary intents) engine
    hlive fun _ h => h
  -- an engine that has filled something can be closed
  have hstarted : fs ≠ [] → engine'.Started := by
    refine (hruns.invariant (P := fun done e => e.Live H ∧ (done ≠ [] → e.Started)) ⟨hlive, by simp⟩ ?_).2
    rintro done e q o e' ⟨he, -⟩ hfill
    obtain ⟨hlive', hstarted, -⟩ := he.apply (attemptTrade_eq_some hfill).1
    exact ⟨hlive', fun _ => hstarted⟩
  obtain ⟨after, hafter⟩ : ∃ after, Closes H engine' (fs.map sequenced) after := by
    unfold Closes
    split_ifs with hnil
    · exact ⟨none, rfl⟩
    · obtain ⟨t, ht⟩ := hlive'.finish (hstarted (by simpa using hnil))
      exact ⟨some t, t, ht, rfl⟩
  have hplan : execute H T start boundary intents = .ok ⟨fs.map sequenced, us.map (·.index), after⟩ :=
    execute_eq_ok.mpr ⟨⟨hne, hlen⟩, engine, initial, engine', fs, us, hnew, hinitial, hadm, hruns, rfl, rfl, hafter⟩
  refine ⟨_, hplan, execute_indices hplan, ?_⟩
  intro f hf
  obtain ⟨x, hx, rfl⟩ := mem_map.mp hf
  obtain ⟨e', he'⟩ := hruns.attempt_of_mem hx
  have hbefore := (hruns.always hlive fun e q o e' he h => (he.apply (attemptTrade_eq_some h).1).1).1 x hx
  obtain ⟨-, -, hlimits⟩ := hbefore.apply (attemptTrade_eq_some he').1
  exact ⟨x.item.intent, index_queue (hruns.item_mem hx), hlimits⟩

theorem execute_live_two :
    ∃ plan, execute NativeHash.plain TradeHash.plain evenMarket tenthBlock
        [buyFrom 1 100000 80000, sellFrom 3 50000 40000] = .ok plan ∧
      (plan.fills.map (·.sourceIndex) ++ plan.unfilled).Perm [0, 1] := by
  have hchecked : ∀ i ∈ [buyFrom 1 100000 80000, sellFrom 3 50000 40000], ∃ totals,
      i.checked NativeHash.plain tenthBlock.chain tenthBlock.epochAnchor tenthBlock.height = .ok totals := by
    intro i hi
    refine exists_ok_of_isOk ?_
    revert i
    decide +kernel
  obtain ⟨plan, hplan, hindices, -⟩ := execute_live (H := .plain) (T := .plain) (fun _ _ h => by cases h)
    (show evenMarket.generation < U64 by decide) rfl (by simp) (by decide) (by decide) hchecked (by decide)
    (by decide)
  exact ⟨plan, hplan, hindices⟩

/-- The same intents under a boundary without a parent have no priority. -/
theorem execute_needs_parent : (∃ engine, Engine.new NativeHash.plain evenMarket = .ok engine ∧
      ∀ i ∈ [buyFrom 1 100000 80000, sellFrom 3 50000 40000], i.policy.asset = engine.asset ∧
        (i.checked NativeHash.plain 1 1 10).isOk = true) ∧
      DisjointFunding [buyFrom 1 100000 80000, sellFrom 3 50000 40000] ∧
      execute NativeHash.plain TradeHash.plain evenMarket { chain := 1, epochAnchor := 1, parentId := 0, height := 10 }
        [buyFrom 1 100000 80000, sellFrom 3 50000 40000] = .error (.policy .context) := by
  refine ⟨⟨_, rfl, by decide +kernel⟩, by decide, by decide +kernel⟩

end SequencingPlan

end

end

end Noid.Tx
