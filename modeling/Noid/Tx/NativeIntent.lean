import Noid.Tx.PageLayout

/-! # Native intents

A group of pages with the openings of its actions, the definitions they depend on and a detached authorisation.
`fromTradeExecution` turns an executed batch into an intent; `checkedTrade` reads an execution back from an intent and the
batch it claims to be. -/

namespace Noid.Tx

open Noid.Lib List

structure NativeIntent where
  pages : List TxBody
  inputOpenings : List (Option NativeOpening)
  outputOpenings : List (Option NativeOpening)
  dependencies : List NativeOpening
  authorizationBytes : List UInt8
deriving DecidableEq

/-- The most openings of a closure: those of the actions and their dependencies. -/
def CLOSURE_LIMIT : ℕ := MAX_PAGED_SPEND_INPUTS + MAX_PAGED_SPEND_OUTPUTS + MAX_NATIVE_INTENT_DEPENDENCIES

def primaryOpenings (inputs outputs : List (Option NativeOpening)) : List NativeOpening :=
  (inputs ++ outputs).filterMap id

/-- The roots that an operation reads besides its carriers. -/
def operandRoots : NativeOperation → List Address
  | .financial op => ((op.parent.map (·.root)).or op.definition).toList
  | _ => []

section
variable (H : NativeHash) (T : TradeHash) (hashPages : List TxBody → Digest)

def resolveDependencies (operation : NativeOperation) (inputs outputs : List (Option NativeOpening))
    (resolve : Address → Option NativeOpening) : Except NativeWireError (List NativeOpening) :=
  match operation with
  | .financial _ => do
    let carriers := byRoot H (primaryOpenings inputs outputs)
    let closure ← (resolveNativeClosure H carriers.keys (operandRoots operation) CLOSURE_LIMIT
      fun r => (carriers.lookup r).or (resolve r)).mapError .dependencies
    let dependencies := closure.filter fun o => H.root o ∉ carriers.keys
    require (dependencies.length ≤ MAX_NATIVE_INTENT_DEPENDENCIES) .bounds
    return dependencies
  | _ => .ok []

/-! ### Building an intent -/

def fundingSlot (op : NativeOperation) (inputs : List NativeInputClaim) : Except NativeWireError (Option ℕ) :=
  match op.fundingInput with
  | none => .ok none
  | some i => do
    let claim ← orElseThrow .operation inputs[i]?
    return some claim.input.slotIndex

/-- The funding ordinal follows its exact input. -/
def relocateFunding (op : NativeOperation) (inputs : List NativeInputClaim) :
    Option ℕ → Except NativeWireError NativeOperation
  | none => .ok op
  | some slot => do
    let i ← orElseThrow .operation (inputs.findIdx? fun c => c.input.slotIndex = slot)
    (op.withFundingInput i).mapError .semantic

/-- Inputs grouped by their roots. -/
def sortClaims (inputs : List NativeInputClaim) : List NativeInputClaim :=
  inputs.insertionSort fun a b => toLex (a.root, a.input.slotIndex) ≤ toLex (b.root, b.input.slotIndex)

def buildClaimsLayout (context : NativeContext) (epochAnchor : Digest) (op : NativeOperation)
    (inputs : List NativeInputClaim) (outputs : List NativeOutputClaim) (sortInputs : Bool) :
    Except NativeWireError NativeIntent := do
  require (inputs ≠ [] ∧ inputs.length ≤ MAX_PAGED_SPEND_INPUTS ∧ outputs.length ≤ MAX_PAGED_SPEND_OUTPUTS) .bounds
  let funding ← fundingSlot op inputs
  let inputs := if sortInputs then sortClaims inputs else inputs
  let op ← relocateFunding op inputs funding
  let data ← layPages epochAnchor inputs outputs
  let (code, operand) ← encodeOperation op
  let intent : NativeIntent :=
    { pages := headerPage context epochAnchor (claimMask inputs outputs) code operand :: data
      inputOpenings := inputs.map (·.opening), outputOpenings := outputs.map (·.opening)
      dependencies := [], authorizationBytes := [] }
  let _ ← validateNativePages hashPages intent.pages
  return intent

namespace NativeIntent

/-! ### Checking an intent -/

/-- An input whose bit is set has an opening bound to it. -/
def checkInputOpening (facts : NativePageFacts) (e : ((TxInput × Address) × Option NativeOpening) × ℕ) :
    Except NativeWireError Unit := do
  require (e.1.2.isSome = facts.inputIsNative e.2) .openingMask
  match e.1.2 with
  | some o => (o.checkInputBinding H e.1.1.1 e.1.1.2).mapError .opening
  | none => .ok ()

/-- An output whose bit is set has an opening bound to it. -/
def checkOutputOpening (facts : NativePageFacts) (e : (TxOutput × Option NativeOpening) × ℕ) :
    Except NativeWireError Unit := do
  require (e.1.2.isSome = facts.outputIsNative e.2) .openingMask
  match e.1.2 with
  | some o => (o.checkOutput H e.1.1).mapError .opening
  | none => .ok ()

/-- The dependencies of a financial operation are its closure; other operations have none. -/
def checkDependencies (i : NativeIntent) (operation : NativeOperation) : Except NativeWireError Unit :=
  match operation with
  | .financial op => do
    require (op.requiresOwner = true ∨ i.authorizationBytes = []) .authorization
    let carriers := primaryOpenings i.inputOpenings i.outputOpenings
    let closure ← (canonicalNativeClosure H (carriers.map H.root) (operandRoots operation)
      (carriers ++ i.dependencies) CLOSURE_LIMIT).mapError .dependencies
    require ((closure.filter fun o => H.root o ∉ carriers.map H.root) = i.dependencies) .openingCount
  | _ => require (i.dependencies = []) .openingCount

def validateStructure (i : NativeIntent) : Except NativeWireError NativePageFacts := do
  require (i.authorizationBytes.length ≤ MAX_TX_AUTHORIZATION_BYTES) .bounds
  let facts ← validateNativePages hashPages i.pages
  require (i.inputOpenings.length = facts.liveInputs ∧ i.outputOpenings.length = facts.liveOutputs) .openingCount
  ((liveInputClaims i.pages.tail).zip i.inputOpenings).zipIdx.forM (checkInputOpening H facts)
  ((liveOutputClaims i.pages.tail).zip i.outputOpenings).zipIdx.forM (checkOutputOpening H facts)
  i.checkDependencies H facts.operation
  return facts

def claims (i : NativeIntent) : List NativeInputClaim × List NativeOutputClaim :=
  (((liveInputClaims i.pages.tail).zip i.inputOpenings).map fun e => ⟨e.1.1, e.1.2, e.2⟩,
    ((liveOutputClaims i.pages.tail).zip i.outputOpenings).map fun e => ⟨e.1, e.2⟩)

/-! ### Trades -/

def fromTradeExecution (e : TradeExecution) (resolve : Address → Option NativeOpening) :
    Except NativeWireError NativeIntent := do
  let context : NativeContext :=
    { chain := e.boundary.chain, height := e.boundary.height, authority := 0, fee := e.fee }
  let intent ← buildClaimsLayout hashPages context e.boundary.epochAnchor
    (.financial (.executeTrades e.commitment)) e.inputs e.outputs false
  let facts ← validateNativePages hashPages intent.pages
  let auxiliary := byRoot H e.auxiliary
  let dependencies ← resolveDependencies H facts.operation intent.inputOpenings intent.outputOpenings
    fun r => (auxiliary.lookup r).or (resolve r)
  let intent := { intent with dependencies := dependencies }
  let _ ← intent.validateStructure H hashPages
  return intent

def checkedTrade (i : NativeIntent) (boundary : TradeBoundary) (batch : TradeBatch)
    (fees : List TradeFeeQuotes) : Except NativeWireError TradeExecution := do
  let facts ← i.validateStructure H hashPages
  let commitment ← (batch.root H T).mapError fun e => NativeWireError.trade (.batch e)
  require (facts.chain = boundary.chain ∧ facts.epochAnchor = boundary.epochAnchor ∧
    facts.operation = .financial (.executeTrades commitment)) .context
  let execution ← (TradeExecution.fromClaims H T batch boundary fees i.claims.1 i.claims.2).mapError .trade
  require (facts.fee = execution.fee) .context
  return execution

end NativeIntent

/-! ### Intents built from claims -/

variable {H hashPages} {context : NativeContext} {anchor : Digest} {op : NativeOperation} {code : ℕ}
  {operand : TxOutput} {inputs : List NativeInputClaim} {outputs : List NativeOutputClaim}

def claimsIntent (context : NativeContext) (anchor : Digest) (code : ℕ) (operand : TxOutput)
    (inputs : List NativeInputClaim) (outputs : List NativeOutputClaim) (dependencies : List NativeOpening) :
    NativeIntent where
  pages := groupPages context anchor code operand inputs outputs
  inputOpenings := inputs.map (·.opening)
  outputOpenings := outputs.map (·.opening)
  dependencies := dependencies
  authorizationBytes := []

lemma buildClaimsLayout_ok (hfits : FitsPages inputs outputs) (hfunding : op.fundingInput = none)
    (hencode : encodeOperation op = .ok (code, operand)) {facts : NativePageFacts}
    (hvalid : validateNativePages hashPages (groupPages context anchor code operand inputs outputs) = .ok facts) :
    buildClaimsLayout hashPages context anchor op inputs outputs false =
      .ok (claimsIntent context anchor code operand inputs outputs []) := by
  have hbounds : inputs ≠ [] ∧ inputs.length ≤ MAX_PAGED_SPEND_INPUTS ∧
      outputs.length ≤ MAX_PAGED_SPEND_OUTPUTS := ⟨hfits.nonempty, hfits.inputs_le, hfits.outputs_le⟩
  have hslot : fundingSlot op inputs = .ok none := by rw [fundingSlot, hfunding]
  unfold buildClaimsLayout
  rw [require_bind hbounds, bind_of_ok hslot]
  simp only [Bool.false_eq_true, if_false, relocateFunding]
  rw [bind_of_ok rfl, bind_of_ok (layPages_ok hfits.nonempty hfits.pages), bind_of_ok hencode]
  rw [bind_of_ok (show validateNativePages hashPages (headerPage context anchor (claimMask inputs outputs) code
    operand :: bodies anchor (claimPlans inputs outputs)) = .ok facts from hvalid)]
  rfl

lemma claims_claimsIntent (dependencies : List NativeOpening) :
    (claimsIntent context anchor code operand inputs outputs dependencies).claims = (inputs, outputs) := by
  have htail : (claimsIntent context anchor code operand inputs outputs dependencies).pages.tail =
      bodies anchor (claimPlans inputs outputs) := rfl
  unfold NativeIntent.claims
  rw [htail, claimPlans_inputs, claimPlans_outputs]
  simp only [claimsIntent, zip_map', map_map]
  refine Prod.ext ?_ ?_
  · exact (map_congr_left fun _ _ => rfl).trans (map_id _)
  · exact (map_congr_left fun _ _ => rfl).trans (map_id _)

section
variable (hfits : FitsPages inputs outputs) (hclaims : ClaimsOk H inputs outputs) {facts : NativePageFacts}
  (hfacts : groupFacts hashPages context anchor op code operand inputs outputs = facts)
include hfits hclaims hfacts

lemma checkInputOpening_ok :
    ∀ e ∈ ((inputs.map fun c => (c.input, c.root)).zip (inputs.map (·.opening))).zipIdx,
      NativeIntent.checkInputOpening H facts e = .ok () := by
  rintro ⟨⟨⟨x, r⟩, o⟩, k⟩ he
  rw [zip_map', mem_zipIdx_iff_getElem?, getElem?_map] at he
  obtain ⟨c, hc, heq⟩ := Option.map_eq_some_iff.mp he
  cases heq
  have hk : k < inputs.length := (List.getElem?_eq_some_iff.mp hc).1
  have hmax : MAX_PAGED_SPEND_INPUTS ≤ INPUT_MASK_BITS := by decide
  have htest : (claimMask inputs outputs).testBit k = c.opening.isSome := by
    rw [testBit_claimMask_input (hk.trans_le (hfits.inputs_le.trans hmax)), getElem?_map, hc]
    rfl
  have hbit : c.opening.isSome = facts.inputIsNative k := by
    simp [NativePageFacts.inputIsNative, ← hfacts, groupFacts, htest, hk]
  have hbound := hclaims.input c (mem_of_getElem? hc)
  unfold InputClaimOk at hbound
  rw [NativeIntent.checkInputOpening, require_bind hbit]
  cases ho : c.opening with
  | none => rfl
  | some o =>
    rw [ho] at hbound
    exact mapError_eq_ok.mpr hbound

lemma checkOutputOpening_ok :
    ∀ e ∈ ((outputs.map (·.output)).zip (outputs.map (·.opening))).zipIdx,
      NativeIntent.checkOutputOpening H facts e = .ok () := by
  rintro ⟨⟨x, o⟩, k⟩ he
  rw [zip_map', mem_zipIdx_iff_getElem?, getElem?_map] at he
  obtain ⟨c, hc, heq⟩ := Option.map_eq_some_iff.mp he
  cases heq
  have hk : k < outputs.length := (List.getElem?_eq_some_iff.mp hc).1
  have htest : (claimMask inputs outputs).testBit (INPUT_MASK_BITS + k) = c.opening.isSome := by
    rw [testBit_claimMask_output hfits.inputs_le, List.getElem?_map, hc]
    rfl
  have hbit : c.opening.isSome = facts.outputIsNative k := by
    simp [NativePageFacts.outputIsNative, ← hfacts, groupFacts, htest, hk]
  have hbound := hclaims.output c (mem_of_getElem? hc)
  rw [NativeIntent.checkOutputOpening, require_bind hbit]
  cases ho : c.opening with
  | none => rfl
  | some o => exact mapError_eq_ok.mpr (hbound o ho)

/-- An intent on bound claims passes the structure check when its dependencies do. -/
theorem validateStructure_ok {dependencies : List NativeOpening}
    (hvalid : validateNativePages hashPages (groupPages context anchor code operand inputs outputs) = .ok facts)
    (hdeps : (claimsIntent context anchor code operand inputs outputs dependencies).checkDependencies H op = .ok ()) :
    (claimsIntent context anchor code operand inputs outputs dependencies).validateStructure H hashPages =
      .ok facts := by
  set i := claimsIntent context anchor code operand inputs outputs dependencies
  have htail : i.pages.tail = bodies anchor (claimPlans inputs outputs) := rfl
  have hauth : i.authorizationBytes.length ≤ MAX_TX_AUTHORIZATION_BYTES := Nat.zero_le _
  have hpages : validateNativePages hashPages i.pages = _ := hvalid
  have hcount : i.inputOpenings.length = facts.liveInputs ∧ i.outputOpenings.length = facts.liveOutputs := by
    rw [← hfacts]
    exact ⟨length_map _, length_map _⟩
  have hinputs : ((inputs.map fun c => (c.input, c.root)).zip i.inputOpenings).zipIdx.forM
      (NativeIntent.checkInputOpening H facts) = .ok () := forM_eq_ok.mpr (checkInputOpening_ok hfits hclaims hfacts)
  have houtputs : ((outputs.map (·.output)).zip i.outputOpenings).zipIdx.forM
      (NativeIntent.checkOutputOpening H facts) = .ok () := forM_eq_ok.mpr (checkOutputOpening_ok hfits hclaims hfacts)
  unfold NativeIntent.validateStructure
  rw [htail, claimPlans_inputs, claimPlans_outputs, require_bind hauth, bind_of_ok hpages,
    require_bind hcount, bind_of_ok hinputs, bind_of_ok houtputs, ← hfacts]
  exact bind_of_ok hdeps

end

end

end Noid.Tx
