import Noid.Tx.NativeIntent
import Noid.Tx.TradeConserve

/-! # Executed batches as intents

An execution that fits the page limit becomes an intent, and the intent read back against the same batch, boundary and
quotes is the execution.  The layout keeps the order of the inputs, which the commitment to the batch fixes; the
definitions that the market and its successor depend on travel with the execution. -/

namespace Noid.Tx

open Noid.Lib List FinancialOperation NativeOpening

section
variable {H : NativeHash} {T : TradeHash}

/-! ### Slots of an execution -/

lemma payoutClaim_slot {p : TradePayout} {slot : ℕ} {c : NativeOutputClaim}
    (h : payoutClaim H p slot = .ok c) : c.output.slotIndex = slot := by
  unfold payoutClaim at h
  split_ifs at h with hnoid
  · cases h
    rfl
  · simp only [ok_rules] at h
    obtain ⟨-, -, rfl⟩ := h
    rfl

lemma mapM_payoutClaim_slots : ∀ {l : List (TradePayout × ℕ)} {outputs : List NativeOutputClaim},
    (l.mapM fun (p, slot) => payoutClaim H p slot) = .ok outputs →
    outputs.map (·.output.slotIndex) = l.map Prod.snd
  | [], _, h => by
    cases h
    rfl
  | (p, slot) :: l, outputs, h => by
    simp only [mapM_cons, ok_rules] at h
    obtain ⟨c, hc, rest, hrest, rfl⟩ := h
    rw [map_cons, map_cons, payoutClaim_slot hc, mapM_payoutClaim_slots hrest]

lemma payoutSlots_of_chargeOutputs : ∀ {charges : List TradeCharge} {slots : List (List ℕ)} {fee total : ℕ}
    {payouts : List NativeOutputClaim}, slots.length = charges.length →
    chargeOutputs H fee (charges.zip slots) = .ok (payouts, total) →
    payouts.length = (charges.map (·.payouts.length)).sum ∧ total = fee + (charges.map (·.fee)).sum ∧
      ∀ rest, TradeExecution.payoutSlots charges (payouts ++ rest) = slots
  | [], [], _, _, _, _, h => by
    cases h
    exact ⟨rfl, rfl, fun _ => rfl⟩
  | c :: charges, s :: slots, fee, total, payouts, hlen, h => by
    simp only [zip_cons_cons, chargeOutputs, ok_rules, checked_eq_ok, Prod.exists, Prod.mk.injEq] at h
    obtain ⟨hcount, outs, houts, _, ⟨-, rfl⟩, more, _, hmore, rfl, rfl⟩ := h
    obtain ⟨hsum, htotal, hslots⟩ := payoutSlots_of_chargeOutputs (by simpa using hlen) hmore
    have hmap := mapM_payoutClaim_slots houts
    rw [map_snd_zip hcount.ge] at hmap
    have houtslen : outs.length = c.payouts.length := by
      rw [hcount, ← hmap, length_map]
    refine ⟨?_, ?_, fun rest => ?_⟩
    · rw [length_append, map_cons, sum_cons, hsum, houtslen]
    · rw [htotal, map_cons, sum_cons, Nat.add_assoc]
    · rw [TradeExecution.payoutSlots, append_assoc, ← houtslen, take_left, drop_left, hmap, hslots]

namespace TradeExecution

variable {b : TradeBatch} {boundary : TradeBoundary} {fees : List TradeFeeQuotes} {e : TradeExecution}

/-- The slots that `fromClaims` reads from a list of outputs. -/
def readSlots (charges : List TradeCharge) (outputs : List NativeOutputClaim) : Option TradeOutputSlots :=
  outputs[(charges.map (·.payouts.length)).sum]?.map fun market =>
    { payouts := payoutSlots charges outputs, market := market.output.slotIndex }

/-- The claims of an execution are accepted again. -/
theorem fromClaims_of_new {slots : TradeOutputSlots} (h : new H T b boundary fees slots = .ok e) :
    fromClaims H T b boundary fees e.inputs e.outputs = .ok e := by
  simp only [new, bind_eq_ok, Prod.exists] at h
  obtain ⟨plan, charges, hprepare, hmat⟩ := h
  obtain ⟨-, payouts, final, hmade⟩ := materialize_eq_ok hmat
  obtain ⟨hcount, -, hslots⟩ := payoutSlots_of_chargeOutputs hmade.counts hmade.charged
  have hlen : e.outputs.length = (charges.map (·.payouts.length)).sum + 1 := by
    rw [hmade.outputs, length_append, length_singleton, hcount]
  have hmarket : e.outputs[(charges.map (·.payouts.length)).sum]? =
      some (nativeOutput H final.opening slots.market) := by
    rw [hmade.outputs, ← hcount, getElem?_concat_length]
  have hread : payoutSlots charges e.outputs = slots.payouts := by
    rw [hmade.outputs]
    exact hslots _
  have hsame : materialize H T b boundary plan charges
      { payouts := slots.payouts
        market := (nativeOutput H final.opening slots.market).output.slotIndex } = .ok e := hmat
  unfold fromClaims
  rw [bind_of_ok hprepare]
  simp only
  rw [require_bind hlen, hmarket, bind_of_ok (show orElseThrow _ (some _) = .ok _ from rfl), hread,
    bind_of_ok hsame, require_bind rfl, require_bind rfl]
  rfl

lemma new_of_fromClaims {inputs : List NativeInputClaim} {outputs : List NativeOutputClaim}
    (h : fromClaims H T b boundary fees inputs outputs = .ok e) :
    ∃ plan charges slots, prepare H T b boundary fees = .ok (plan, charges) ∧
      readSlots charges outputs = some slots ∧ new H T b boundary fees slots = .ok e ∧
        e.inputs = inputs ∧ e.outputs = outputs := by
  simp only [fromClaims, ok_rules, Prod.exists] at h
  obtain ⟨plan, charges, hprepare, -, market, hmarket, e', hmat, hin, hout, rfl⟩ := h
  refine ⟨plan, charges, { payouts := payoutSlots charges outputs, market := market.output.slotIndex }, hprepare,
    ?_, ?_, hin, hout⟩
  · rw [readSlots, hmarket]
    rfl
  · rw [new, bind_of_ok hprepare]
    exact hmat

end TradeExecution

/-! ### Definitions of an execution -/

/-- An opening whose dependency is a given valid definition. -/
structure DependsOn (H : NativeHash) (o d : NativeOpening) : Prop where
  root : o.dependencyRoot = some (H.root d)
  valid : d.validate = .ok ()
  auxiliary : d.isAuxiliary = true
  check : o.checkDependency H (some d) = .ok ()

lemma LaunchState.dependsOn {s : LaunchState} {d : LaunchDefinition} (h : s.checkDefinition H d = .ok ()) :
    DependsOn H (.launch (.state s)) (.launch (.definition d)) := by
  have hid : s.launch = d.id H := LaunchState.id_of_checkDefinition h
  have hvalid : d.validate = .ok () := by
    simp only [LaunchState.checkDefinition, bind_eq_ok] at h
    obtain ⟨-, -, ⟨⟩, hd, -⟩ := h
    exact hd
  refine ⟨congrArg some hid, mapError_eq_ok.mpr hvalid, rfl, ?_⟩
  simp only [checkDependency, dependencyRoot]
  rw [require_bind hid.symm]
  exact mapError_eq_ok.mpr h

lemma PoolState.dependsOn {p : PoolState} {d : MarketDefinition} (h : p.checkDefinition H d = .ok ())
    (hbase : d.baseIsNoid = true) : DependsOn H (.market (.pool p)) (.market (.definition d)) := by
  have hid : p.pool = d.id H := PoolState.id_of_checkDefinition h
  have hvalid : d.validate = .ok () := by
    simp only [PoolState.checkDefinition, bind_eq_ok] at h
    obtain ⟨-, -, ⟨⟩, hd, -⟩ := h
    exact hd
  refine ⟨congrArg some hid, ?_, rfl, ?_⟩
  · have hkind : marketEnabled (.definition d) := hbase
    have hd : (MarketOpening.definition d).validate = .ok () := hvalid
    rw [NativeOpening.validate, mapError_bind hd]
    exact require_of _ hkind
  · simp only [checkDependency, dependencyRoot]
    rw [mapError_bind hvalid, require_bind hid.symm]
    exact mapError_eq_ok.mpr h

lemma TradeParent.dependsOn {p : TradeParent} (h : p.market.Opened H) : DependsOn H p.opening p.definition := by
  unfold TradeParent.opening TradeParent.definition
  cases hm : p.market with
  | curve d s =>
    rw [hm] at h
    exact LaunchState.dependsOn h
  | market d s =>
    rw [hm] at h
    exact PoolState.dependsOn h.1 h.2

lemma TradeParent.dependsOn_after {p : TradeParent} {t : TradeState} (hopen : p.market.Opened H)
    (h : p.market.Closes H t) :
    ∃ d ∈ p.definition :: graduationDefinition p.market t, DependsOn H t.opening d := by
  unfold TradeParent.definition
  cases hm : p.market with
  | curve d s =>
    rw [hm] at h
    cases t with
    | curve s' => exact ⟨_, mem_cons_self, LaunchState.dependsOn h⟩
    | market p' =>
      refine ⟨_, mem_cons_of_mem _ (mem_singleton.mpr rfl), PoolState.dependsOn h ?_⟩
      exact beq_self_eq_true NOID_ASSET
  | market d s =>
    rw [hm] at h hopen
    obtain ⟨p', rfl, hcheck⟩ := h
    exact ⟨_, mem_cons_self, PoolState.dependsOn hcheck hopen.2⟩

lemma TradeParent.opening_not_auxiliary (p : TradeParent) : p.opening.isAuxiliary = false := by
  unfold TradeParent.opening
  cases p.market <;> rfl

lemma TradeState.opening_not_auxiliary (t : TradeState) : t.opening.isAuxiliary = false := by
  cases t <;> rfl

/-- A carrier that depends on nothing, or on one of some definitions. -/
def Supported (H : NativeHash) (definitions : List NativeOpening) (o : NativeOpening) : Prop :=
  o.isAuxiliary = false ∧ (o.dependencyRoot = none ∨ ∃ d ∈ definitions, DependsOn H o d)

lemma IsBalance.supported {asset : AssetId} {o : NativeOpening} (h : IsBalance asset o)
    (definitions : List NativeOpening) : Supported H definitions o := by
  obtain ⟨b, rfl, -⟩ := h
  exact ⟨rfl, .inl rfl⟩

lemma resolveNativeClosure_supported {op : NativeOperation} {primary definitions : List NativeOpening}
    (resolve : Address → Option NativeOpening) (hop : operandRoots op = [])
    (hlen : primary.length ≤ MAX_PAGED_SPEND_INPUTS + MAX_PAGED_SPEND_OUTPUTS) (hdefs : definitions.length ≤ 2)
    (hinj : ∀ a ∈ primary ++ definitions, ∀ b ∈ primary ++ definitions, H.root a = H.root b → a = b)
    (hvalid : ∀ o ∈ primary, o.validate = .ok ()) (hsupported : ∀ o ∈ primary, Supported H definitions o) :
    ∃ l, resolveNativeClosure H (byRoot H primary).keys (operandRoots op) CLOSURE_LIMIT
        (fun r => ((byRoot H primary).lookup r).or (((byRoot H definitions).lookup r).or (resolve r))) = .ok l ∧
      (l.filter fun o => H.root o ∉ (byRoot H primary).keys).length ≤ MAX_NATIVE_INTENT_DEPENDENCIES := by
  set f := fun r => ((byRoot H primary).lookup r).or (((byRoot H definitions).lookup r).or (resolve r)) with hf
  have hinj1 : ∀ a ∈ primary, ∀ b ∈ primary, H.root a = H.root b → a = b := fun a ha b hb =>
    hinj a (mem_append_left _ ha) b (mem_append_left _ hb)
  have hinj2 : ∀ a ∈ definitions, ∀ b ∈ definitions, H.root a = H.root b → a = b := fun a ha b hb =>
    hinj a (mem_append_right _ ha) b (mem_append_right _ hb)
  have hcarrier : ∀ o ∈ primary, f (H.root o) = some o := by
    intro o ho
    simp only [hf, (lookup_byRoot hinj1).mpr ⟨ho, rfl⟩, Option.some_or]
  -- a definition is no carrier, so it is found among the definitions
  have hdefinition : ∀ d ∈ definitions, d.isAuxiliary = true → f (H.root d) = some d := by
    intro d hd haux
    have hnone : (byRoot H primary).lookup (H.root d) = none := by
      rw [Option.eq_none_iff_forall_ne_some]
      intro o hlookup
      obtain ⟨ho, hroot⟩ := (lookup_byRoot hinj1).mp hlookup
      have heq := hinj o (mem_append_left _ ho) d (mem_append_right _ hd) hroot
      rw [heq] at ho
      rw [(hsupported d ho).1] at haux
      cases haux
    simp only [hf, hnone, (lookup_byRoot hinj2).mpr ⟨hd, rfl⟩, Option.none_or, Option.some_or]
  have hkeys : ∀ k ∈ (byRoot H primary).keys ++ operandRoots op, ∃ o ∈ primary, H.root o = k := by
    intro k hk
    rw [hop, append_nil, mem_keys_byRoot] at hk
    exact mem_map.mp hk
  set S := ((primary ++ definitions).map H.root).toFinset with hS
  have hneeds : ∀ k ∈ (byRoot H primary).keys ++ operandRoots op, ∀ r, Needs f k r → r ∈ S := by
    intro k hk r hneed
    obtain ⟨o, ho, rfl⟩ := hkeys k hk
    rw [hS, mem_toFinset]
    rcases hneed with rfl | hdep
    · exact mem_map_of_mem (mem_append_left _ ho)
    · rw [hcarrier o ho, Option.bind_some] at hdep
      rcases (hsupported o ho).2 with hnone | ⟨d, hd, hdepends⟩
      · rw [hnone] at hdep
        cases hdep
      · rw [hdepends.root] at hdep
        cases hdep
        exact mem_map_of_mem (mem_append_right _ hd)
  have hclosed : ∀ k ∈ (byRoot H primary).keys ++ operandRoots op, ∃ o, Closed H f (byRoot H primary).keys k o := by
    intro k hk
    obtain ⟨o, ho, rfl⟩ := hkeys k hk
    refine ⟨o, ⟨hcarrier o ho, hvalid o ho, rfl⟩, fun _ => (hsupported o ho).1, ?_⟩
    intro r hr
    rcases (hsupported o ho).2 with hnone | ⟨d, hd, hdepends⟩
    · rw [hnone] at hr
      cases hr
    · rw [hdepends.root] at hr
      cases hr
      exact ⟨d, ⟨hdefinition d hd hdepends.auxiliary, hdepends.valid, rfl⟩, hdepends.check⟩
  have hcard : S.card ≤ MAX_NATIVE_INTENT_DEPENDENCIES := by
    have hle := toFinset_card_le ((primary ++ definitions).map H.root)
    rw [length_map, length_append] at hle
    rw [hS]
    unfold MAX_NATIVE_INTENT_DEPENDENCIES
    omega
  have hlimit : S.card ≤ CLOSURE_LIMIT := hcard.trans (by decide)
  obtain ⟨l, hl⟩ := resolveNativeClosure_ok hlimit hneeds hclosed
  exact ⟨l, hl, (length_filter_le _ _).trans ((resolveNativeClosure_length hl hneeds).trans hcard)⟩

lemma checkDependencies_ok {i : NativeIntent} {op : FinancialOperation} {primary l : List NativeOpening}
    {resolve : Address → Option NativeOpening} (hauth : i.authorizationBytes = [])
    (hprimary : primaryOpenings i.inputOpenings i.outputOpenings = primary)
    (hlen : primary.length ≤ MAX_PAGED_SPEND_INPUTS + MAX_PAGED_SPEND_OUTPUTS)
    (hinj : ∀ a ∈ primary, ∀ b ∈ primary, H.root a = H.root b → a = b)
    (hl : resolveNativeClosure H (byRoot H primary).keys (operandRoots (.financial op)) CLOSURE_LIMIT
      (fun r => ((byRoot H primary).lookup r).or (resolve r)) = .ok l)
    (hdeps : i.dependencies = l.filter fun o => H.root o ∉ (byRoot H primary).keys)
    (hdepslen : i.dependencies.length ≤ MAX_NATIVE_INTENT_DEPENDENCIES) :
    i.checkDependencies H (.financial op) = .ok () := by
  have hall : (primary ++ l.filter fun o => H.root o ∉ (byRoot H primary).keys).length ≤ CLOSURE_LIMIT := by
    rw [← hdeps, length_append]
    unfold CLOSURE_LIMIT
    omega
  have hcanonical := canonicalNativeClosure_of_resolved hinj hl hall
  rw [← hdeps] at hcanonical
  have hfilter : (l.filter fun o => H.root o ∉ primary.map H.root) = i.dependencies := by
    rw [hdeps]
    apply filter_congr
    intro o _
    simp only [mem_keys_byRoot]
  unfold NativeIntent.checkDependencies
  simp only [hprimary]
  rw [require_bind (.inr hauth), mapError_bind hcanonical]
  exact require_of _ hfilter

/-! ### Executions as intents -/

lemma FinancialOperation.operand_executeTrades {commitment : Address} (h : commitment ≠ 0) :
    (FinancialOperation.executeTrades commitment).operand =
      .ok { slotIndex := 0, amount := 0, owner := commitment } := by
  exact require_bind h

lemma encodeOperation_executeTrades {commitment : Address} (h : commitment ≠ 0) :
    encodeOperation (.financial (.executeTrades commitment)) =
      .ok (80, { slotIndex := 0, amount := 0, owner := commitment }) := by
  have hoperand := operand_executeTrades h
  exact mapError_bind hoperand

lemma decodeOperation_executeTrades {commitment : Address} (h : commitment ≠ 0) :
    decodeOperation 80 { slotIndex := 0, amount := 0, owner := commitment } =
      .ok (.financial (.executeTrades commitment)) := by
  have hdecode : decode 80 { slotIndex := 0, amount := 0, owner := commitment } =
      .ok (.executeTrades commitment) := by
    have hcode : orElseThrow FinancialOperationError.code (ofCode 80
        { slotIndex := 0, amount := 0, owner := commitment }) = .ok (.executeTrades commitment) := rfl
    rw [decode, bind_of_ok hcode, bind_of_ok (operand_executeTrades h),
      require_bind rfl]
    rfl
  exact mapError_bind hdecode

namespace TradeExecution

variable {b : TradeBatch} {boundary : TradeBoundary} {fees : List TradeFeeQuotes} {e : TradeExecution}

/-- What the hashes must keep apart: no consumed root or commitment is zero, and no two openings share a root. -/
structure HashesApart (H : NativeHash) (e : TradeExecution) : Prop where
  root : ∀ o ∈ openingsBefore e.inputs, H.root o ≠ 0
  commitment : e.commitment ≠ 0
  openings : ∀ a ∈ openingsBefore e.inputs ++ openingsAfter e.outputs ++ e.auxiliary,
    ∀ b ∈ openingsBefore e.inputs ++ openingsAfter e.outputs ++ e.auxiliary, H.root a = H.root b → a = b

/-- The context of an execution: it has no single owner. -/
def context (e : TradeExecution) : NativeContext where
  chain := e.boundary.chain
  height := e.boundary.height
  authority := 0
  fee := e.fee

lemma prepare_chain {plan : SequencingPlan} {charges : List TradeCharge}
    (h : prepare H T b boundary fees = .ok (plan, charges)) : boundary.chain ≠ 0 := by
  simp only [prepare, bind_eq_ok, require_eq_ok] at h
  obtain ⟨-, hcontext, -⟩ := h
  exact hcontext.1

lemma primaryOpenings_claims (inputs : List NativeInputClaim) (outputs : List NativeOutputClaim) :
    primaryOpenings (inputs.map (·.opening)) (outputs.map (·.opening)) =
      openingsBefore inputs ++ openingsAfter outputs := by
  simp [primaryOpenings, openingsBefore, openingsAfter, filterMap_append, filterMap_map]

section made

variable {plan : SequencingPlan} {charges : List TradeCharge} {slots : TradeOutputSlots}
  {payouts : List NativeOutputClaim} {final : TradeState} (h : Made H T b plan charges slots payouts final e)
include h

lemma Made.roots (hH : HashesApart H e) : ∀ c ∈ e.inputs, c.root ≠ 0 := by
  intro c hc
  have hbound := h.claimsOk.input c hc
  unfold InputClaimOk at hbound
  cases ho : c.opening with
  | none => exact (TradeBatch.inputs_bounds h.inputs).2 c hc ho
  | some o =>
    rw [ho] at hbound
    obtain ⟨-, -, -, hroot⟩ := checkInputBinding_eq_ok.mp hbound
    rw [hroot]
    exact hH.root o (mem_filterMap.mpr ⟨c, hc, ho⟩)

lemma Made.valid : ∀ o ∈ openingsBefore e.inputs ++ openingsAfter e.outputs, o.validate = .ok () := by
  intro o ho
  rcases mem_append.mp ho with ho | ho
  · obtain ⟨c, hc, hco⟩ := mem_filterMap.mp ho
    have hbound := h.claimsOk.input c hc
    unfold InputClaimOk at hbound
    rw [hco] at hbound
    exact (checkInputBinding_eq_ok.mp hbound).1
  · obtain ⟨c, hc, hco⟩ := mem_filterMap.mp ho
    have hbound := h.claimsOk.output c hc o hco
    simp only [checkOutput, bind_eq_ok] at hbound
    obtain ⟨⟨⟩, hvalid, -⟩ := hbound
    exact hvalid

/-- Every carrier of an execution is a balance or depends on a definition that travels with it. -/
theorem Made.supported (hcharges : ∀ c ∈ charges, ∀ p ∈ c.payouts, p.InAsset b.parent.asset)
    (hplan : ∀ t, plan.after = some t → b.parent.market.Closes H t) :
    ∀ o ∈ openingsBefore e.inputs ++ openingsAfter e.outputs, Supported H e.auxiliary o := by
  obtain ⟨⟨engine, hengine⟩, -⟩ := TradeBatch.inputs_eq_ok h.inputs
  have hopen := (Engine.new_eq_ok hengine).2
  obtain ⟨funding, hbefore, hfunding⟩ := h.before
  obtain ⟨paid, hafter, hpaid⟩ := h.created hcharges
  rw [hbefore, hafter, h.auxiliary]
  intro o ho
  rcases mem_append.mp ho with ho | ho
  · rcases mem_cons.mp ho with rfl | ho
    · exact ⟨b.parent.opening_not_auxiliary, .inr ⟨_, mem_cons_self, TradeParent.dependsOn hopen⟩⟩
    · exact (hfunding o ho).supported _
  · rcases mem_append.mp ho with ho | ho
    · exact (hpaid o ho).supported _
    · rw [mem_singleton.mp ho]
      exact ⟨final.opening_not_auxiliary, .inr (TradeParent.dependsOn_after hopen (hplan final h.after))⟩

/-- The pages of an execution pass the framing check. -/
theorem Made.pages (hashPages : List TxBody → Digest) (hfits : FitsPages e.inputs e.outputs)
    (hH : HashesApart H e) (hchain : e.boundary.chain ≠ 0) :
    validateNativePages hashPages (groupPages e.context e.boundary.epochAnchor 80
        { slotIndex := 0, amount := 0, owner := e.commitment } e.inputs e.outputs) =
      .ok (groupFacts hashPages e.context e.boundary.epochAnchor (.financial (.executeTrades e.commitment)) 80
        { slotIndex := 0, amount := 0, owner := e.commitment } e.inputs e.outputs) := by
  refine validateNativePages_group hfits (h.roots hH) h.claimsOk.slots hchain (by decide)
    (decodeOperation_executeTrades hH.commitment) ?_ ?_
  · simp [context, NativeOperation.requiresOwner, requiresOwner]
  · rintro i ⟨⟩

lemma Made.auxiliary_le : e.auxiliary.length ≤ 2 := by
  rw [h.auxiliary]
  unfold graduationDefinition
  split <;> simp

lemma Made.roundTrip (hashPages : List TxBody → Digest) (resolve : Address → Option NativeOpening)
    (hpages : (claimPlans e.inputs e.outputs).length < MAX_PAGED_SPEND_PAGES) (hH : HashesApart H e)
    (hchain : e.boundary.chain ≠ 0) (hplan : ∀ t, plan.after = some t → b.parent.market.Closes H t)
    (hcharges : ∀ c ∈ charges, ∀ p ∈ c.payouts, p.InAsset b.parent.asset)
    (hclaims : fromClaims H T b e.boundary fees e.inputs e.outputs = .ok e) :
    ∃ intent, NativeIntent.fromTradeExecution H hashPages e resolve = .ok intent ∧
      (∃ facts, validateNativePages hashPages intent.pages = .ok facts) ∧
      intent.checkedTrade H T hashPages e.boundary b fees = .ok e := by
  obtain ⟨-, -, parent, funding, hinputs, -⟩ := TradeBatch.inputs_eq_ok h.inputs
  have hfits : FitsPages e.inputs e.outputs :=
    ⟨by simp [hinputs], (TradeBatch.inputs_bounds h.inputs).1, h.outputs_le, hpages⟩
  have hvalid := h.pages hashPages hfits hH hchain
  set op : NativeOperation := .financial (.executeTrades e.commitment) with hop
  set operand : TxOutput := { slotIndex := 0, amount := 0, owner := e.commitment } with hoperand
  set facts := groupFacts hashPages e.context e.boundary.epochAnchor op 80 operand e.inputs e.outputs with hfacts
  have hprimary := primaryOpenings_claims e.inputs e.outputs
  set primary := openingsBefore e.inputs ++ openingsAfter e.outputs with hp
  have hlen : primary.length ≤ MAX_PAGED_SPEND_INPUTS + MAX_PAGED_SPEND_OUTPUTS := by
    have hin := length_filterMap_le (·.opening) e.inputs
    have hout := length_filterMap_le (·.opening) e.outputs
    have hinmax := hfits.inputs_le
    have houtmax := hfits.outputs_le
    rw [hp, length_append]
    unfold openingsBefore openingsAfter
    omega
  obtain ⟨l, hl, hdeps⟩ := resolveNativeClosure_supported resolve (show operandRoots op = [] from rfl) hlen
    h.auxiliary_le hH.openings h.valid (h.supported hcharges hplan)
  set dependencies := l.filter fun o => H.root o ∉ (byRoot H primary).keys with hdependencies
  set intent := claimsIntent e.context e.boundary.epochAnchor 80 operand e.inputs e.outputs dependencies with hintent
  have hinj : ∀ a ∈ primary, ∀ b ∈ primary, H.root a = H.root b → a = b := fun a ha b hb =>
    hH.openings a (mem_append_left _ ha) b (mem_append_left _ hb)
  have hstructure : intent.validateStructure H hashPages = .ok facts :=
    validateStructure_ok hfits h.claimsOk rfl hvalid
      (checkDependencies_ok rfl hprimary hlen hinj hl hdependencies hdeps)
  refine ⟨intent, ?_, ⟨facts, hvalid⟩, ?_⟩
  · have hbuild : buildClaimsLayout hashPages e.context e.boundary.epochAnchor op e.inputs e.outputs false =
        .ok (claimsIntent e.context e.boundary.epochAnchor 80 operand e.inputs e.outputs []) :=
      buildClaimsLayout_ok hfits rfl (encodeOperation_executeTrades hH.commitment) hvalid
    have hresolve : resolveDependencies H op (e.inputs.map (·.opening)) (e.outputs.map (·.opening))
        (fun r => ((byRoot H e.auxiliary).lookup r).or (resolve r)) = .ok dependencies := by
      rw [hop, resolveDependencies]
      simp only [hprimary]
      rw [mapError_bind hl, require_bind hdeps]
      rfl
    exact (bind_of_ok hbuild).trans ((bind_of_ok hvalid).trans ((bind_of_ok hresolve).trans
      (bind_of_ok hstructure)))
  · have hroot := mapError_eq_ok (f := fun e => NativeWireError.trade (.batch e)).mpr h.commitment
    have hcontext : facts.chain = e.boundary.chain ∧ facts.epochAnchor = e.boundary.epochAnchor ∧
        facts.operation = .financial (.executeTrades e.commitment) := ⟨rfl, rfl, rfl⟩
    have hread : fromClaims H T b e.boundary fees intent.claims.1 intent.claims.2 = .ok e := by
      rw [hintent, claims_claimsIntent]
      exact hclaims
    have hfee : facts.fee = e.fee := rfl
    rw [NativeIntent.checkedTrade, bind_of_ok hstructure, bind_of_ok hroot, require_bind hcontext,
      mapError_bind hread, require_bind hfee]
    rfl

end made

/-- **Executions travel as intents**: the pages pass the framing check and give the execution back, and only its own
claims are accepted. -/
theorem intent_roundTrip (b : TradeBatch) (boundary : TradeBoundary) (fees : List TradeFeeQuotes)
    (hashPages : List TxBody → Digest) (resolve : Address → Option NativeOpening) :
    (∀ slots e, new H T b boundary fees slots = .ok e →
      (claimPlans e.inputs e.outputs).length < MAX_PAGED_SPEND_PAGES → HashesApart H e →
        ∃ intent, NativeIntent.fromTradeExecution H hashPages e resolve = .ok intent ∧
          (∃ facts, validateNativePages hashPages intent.pages = .ok facts) ∧
          intent.checkedTrade H T hashPages boundary b fees = .ok e) ∧
      ∀ inputs outputs e, fromClaims H T b boundary fees inputs outputs = .ok e ↔
        ∃ plan charges slots, prepare H T b boundary fees = .ok (plan, charges) ∧
          readSlots charges outputs = some slots ∧ new H T b boundary fees slots = .ok e ∧
            e.inputs = inputs ∧ e.outputs = outputs := by
  refine ⟨?_, fun inputs outputs e => ⟨new_of_fromClaims, ?_⟩⟩
  · intro slots e h hpages hH
    have hclaims := fromClaims_of_new h
    simp only [new, bind_eq_ok, Prod.exists] at h
    obtain ⟨plan, charges, hprepare, hmat⟩ := h
    obtain ⟨hplan, hcharges⟩ := prepare_eq_ok hprepare
    obtain ⟨rfl, payouts, final, hmade⟩ := materialize_eq_ok hmat
    exact hmade.roundTrip hashPages resolve hpages hH (prepare_chain hprepare) hplan hcharges hclaims
  · rintro ⟨-, -, slots, -, -, hnew, rfl, rfl⟩
    exact fromClaims_of_new hnew

/-- A hash that tells definitions, pools and balances apart by their reserves and units. -/
def taggedHash : NativeHash :=
  { NativeHash.plain with
    root := fun
      | .market (.pool p) => 2 * p.baseReserve
      | .tokenBalance b => 2 * b.units + 3
      | _ => 1 }

def twoBuys : TradeBatch :=
  { parent := { slotIndex := 9, creationId := NATIVE_CREATION_TAG + 1, market := evenMarket }
    policies := [buyFrom 1 100000 80000, buyFrom 2 100000 70000] }

theorem twoBuys_roundTrip :
    ∃ e, new taggedHash TradeHash.plain twoBuys tenthBlock [⟨1000, 2000, 3000⟩, ⟨1000, 2000, 3000⟩]
        ⟨[[10, 11], [12, 14]], 13⟩ = .ok e ∧
      ∃ intent, NativeIntent.fromTradeExecution taggedHash (fun _ => 1) e (fun _ => none) = .ok intent ∧
        intent.checkedTrade taggedHash TradeHash.plain (fun _ => 1) tenthBlock twoBuys
          [⟨1000, 2000, 3000⟩, ⟨1000, 2000, 3000⟩] = .ok e := by
  have hok : (new taggedHash TradeHash.plain twoBuys tenthBlock [⟨1000, 2000, 3000⟩, ⟨1000, 2000, 3000⟩]
      ⟨[[10, 11], [12, 14]], 13⟩).isOk = true := by decide +kernel
  have hfacts : ∀ e ∈ (new taggedHash TradeHash.plain twoBuys tenthBlock [⟨1000, 2000, 3000⟩, ⟨1000, 2000, 3000⟩]
      ⟨[[10, 11], [12, 14]], 13⟩).toOption, (claimPlans e.inputs e.outputs).length < MAX_PAGED_SPEND_PAGES ∧
        (∀ o ∈ openingsBefore e.inputs, taggedHash.root o ≠ 0) ∧ e.commitment ≠ 0 ∧
        ∀ a ∈ openingsBefore e.inputs ++ openingsAfter e.outputs ++ e.auxiliary,
          ∀ b ∈ openingsBefore e.inputs ++ openingsAfter e.outputs ++ e.auxiliary,
            taggedHash.root a = taggedHash.root b → a = b := by decide +kernel
  obtain ⟨e, he⟩ := exists_ok_of_isOk hok
  rw [he] at hfacts
  obtain ⟨hpages, hroot, hcommitment, hopenings⟩ := hfacts e rfl
  obtain ⟨intent, hintent, -, hread⟩ :=
    (intent_roundTrip twoBuys tenthBlock _ (fun _ => 1) (fun _ => none)).1 _ e he hpages
      ⟨hroot, hcommitment, hopenings⟩
  exact ⟨e, he, intent, hintent, hread⟩

end TradeExecution

end

end Noid.Tx
