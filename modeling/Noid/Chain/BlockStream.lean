import Noid.Chain.Params
import Noid.Lib.Groups
import Noid.Tx.NativePages
import Noid.Tx.PublicLogic

/-! # The page stream of a block

The bodies of a block are the primary coinbase, an optional development payout and the pages of the user groups; a group
ends at its end marker.  `validateBlockPageStream` accepts ordinary groups only and `validateBlockPageStreamAt` also native
ones, from the activation height on. -/

namespace Noid.Chain

open Noid.Lib Noid.Tx

def BLOCK_MAX_TXS : ℕ := 256

def MAX_INPUTS : ℕ := 8

def MAX_OUTPUTS : ℕ := 2

def BLOCK_MAX_USER_PAGES : ℕ := BLOCK_MAX_TXS - 1

def BLOCK_MAX_LIVE_INPUTS : ℕ := 1020

def BLOCK_MAX_USER_OUTPUTS : ℕ := 510

/-! ### Proof classes -/

inductive BlockProofClass where
  | b25 | b255
deriving DecidableEq, Repr

namespace BlockProofClass

/-- The smallest class that holds so many pages. -/
def forPageCount (pageCount : ℕ) : Option BlockProofClass :=
  if pageCount ≤ 25 then some .b25 else if pageCount ≤ 255 then some .b255 else none

def pageCapacity : BlockProofClass → ℕ
  | .b25 => 25
  | .b255 => 255

def liveAuthorizationCapacity (c : BlockProofClass) : ℕ := c.pageCapacity

def inputCapacity : BlockProofClass → ℕ
  | .b25 => 25 * MAX_INPUTS
  | .b255 => BLOCK_MAX_LIVE_INPUTS

def outputCapacity : BlockProofClass → ℕ
  | .b25 => 25 * MAX_OUTPUTS
  | .b255 => BLOCK_MAX_USER_OUTPUTS

end BlockProofClass

/-! ### Ordinary streams -/

inductive PagedSpendStreamError where
  | group (e : PagedSpendError)
  | blockPageLimit (actual capacity : ℕ)
  | proofClassMismatch (expected actual : BlockProofClass)
  | unterminatedGroup (startPage : ℕ)
  | tooManyGroups (actual capacity : ℕ)
  | blockInputLimit (actual capacity : ℕ)
  | blockOutputLimit (actual capacity : ℕ)
  | duplicateInputSlot (slot : ℕ)
  | duplicateOutputSlot (slot : ℕ)
  | inputOutputSlotOverlap (slot : ℕ)
deriving DecidableEq, Repr

/-- A validated group and its place in the stream. -/
structure PagedSpendGroupFacts where
  startPage : ℕ
  pageCount : ℕ
  spend : PagedSpendFacts
deriving DecidableEq, Repr

structure PagedSpendStreamFacts where
  proofClass : BlockProofClass
  groups : List PagedSpendGroupFacts
  pageCount : ℕ
  logicalCount : ℕ
  liveInputs : ℕ
  liveOutputs : ℕ
deriving DecidableEq, Repr

/-- The last page of a group. -/
def endsGroup (body : TxBody) : Bool := decide (body.validityBitmap &&& PAGED_SPEND_END_BIT ≠ 0)

section
variable (hashPages : List TxPage → Digest)

/-- The loop over the complete groups of an ordinary stream. -/
def validateGroups (proofClass : BlockProofClass) :
    ℕ → List PagedSpendGroupFacts → List (List TxBody) → Except PagedSpendStreamError (List PagedSpendGroupFacts)
  | _, groups, [] => .ok groups
  | start, groups, pages :: rest => do
    let spend ← (validatePagedSpend hashPages (pages.map TxPage.mk)).mapError .group
    let groups := groups ++ [⟨start, pages.length, spend⟩]
    require (groups.length ≤ proofClass.liveAuthorizationCapacity)
      (.tooManyGroups groups.length proofClass.liveAuthorizationCapacity)
    validateGroups proofClass (start + pages.length) groups rest

/-- The loop over the pages that collects their slots. -/
def pageSlots : List ℕ → List ℕ → List TxBody → Except PagedSpendStreamError (List ℕ × List ℕ)
  | inputs, outputs, [] => .ok (inputs, outputs)
  | inputs, outputs, page :: rest => do
    let inputs ← insertSlots .duplicateInputSlot inputs (page.liveInputs.map TxInput.slotIndex)
    let outputs ← insertSlots .duplicateOutputSlot outputs (page.liveOutputs.map TxOutput.slotIndex)
    pageSlots inputs outputs rest

def validateStreamForClass (pages : List TxBody) (proofClass : BlockProofClass) :
    Except PagedSpendStreamError PagedSpendStreamFacts := do
  require (pages.length ≤ proofClass.pageCapacity) (.blockPageLimit pages.length proofClass.pageCapacity)
  let expected ← orElseThrow (.blockPageLimit pages.length BLOCK_MAX_USER_PAGES) (BlockProofClass.forPageCount pages.length)
  require (expected = proofClass) (.proofClassMismatch expected proofClass)
  let groups ← validateGroups hashPages proofClass 0 [] (groupsOf endsGroup pages).1
  require ((groupsOf endsGroup pages).2 = []) (.unterminatedGroup (pages.length - (groupsOf endsGroup pages).2.length))
  let liveInputs := (groups.map (·.spend.liveInputs)).sum
  require (liveInputs ≤ proofClass.inputCapacity) (.blockInputLimit liveInputs proofClass.inputCapacity)
  let liveOutputs := (groups.map (·.spend.liveOutputs)).sum
  require (liveOutputs ≤ proofClass.outputCapacity) (.blockOutputLimit liveOutputs proofClass.outputCapacity)
  let (inputSlots, outputSlots) ← pageSlots [] [] pages
  inputSlots.forM fun slot => require (slot ∉ outputSlots) (.inputOutputSlotOverlap slot)
  return { proofClass, groups, pageCount := pages.length, logicalCount := groups.length, liveInputs, liveOutputs }

def validatePagedSpendTransactionStream (pages : List TxBody) : Except PagedSpendStreamError PagedSpendStreamFacts := do
  let proofClass ← orElseThrow (.blockPageLimit pages.length BLOCK_MAX_USER_PAGES) (BlockProofClass.forPageCount pages.length)
  validateStreamForClass hashPages pages proofClass

/-! ### Blocks of ordinary groups -/

inductive BlockPageStreamError where
  | missingCoinbase | coinbaseNotFirst | multipleCoinbase | invalidPrimaryCoinbase
  | invalidDevelopmentPayout
  | pagedSpend (e : PagedSpendStreamError)
deriving DecidableEq, Repr

structure BlockPageStreamFacts where
  proofClass : BlockProofClass
  groups : List PagedSpendGroupFacts
  pageCount : ℕ
  logicalCount : ℕ
  liveInputs : ℕ
  liveOutputs : ℕ
  hasDevelopmentPayout : Bool
  userStartIndex : ℕ
deriving DecidableEq, Repr

/-- The second body of a block is a development payout. -/
def hasDevelopmentPayout (txs : List TxBody) : Bool := txs[1]?.any TxBody.isDevelopmentPayoutShape

/-- The index of the first user page. -/
def userStart (txs : List TxBody) : ℕ := 1 + (hasDevelopmentPayout txs).toNat

def validateBlockPageStream (txs : List TxBody) : Except BlockPageStreamError BlockPageStreamFacts := do
  let coinbase ← orElseThrow .missingCoinbase txs.head?
  require (coinbase.isCoinbase = true) .coinbaseNotFirst
  require (coinbase.isPrimaryCoinbaseShape = true) .invalidPrimaryCoinbase
  let pages := txs.drop (userStart txs)
  require (∀ tx ∈ pages, tx.isCoinbase = false) .multipleCoinbase
  require (∀ tx ∈ txs[1]?, tx.isCoinbase = true → tx.isDevelopmentPayoutShape = true) .invalidDevelopmentPayout
  let user ← (validatePagedSpendTransactionStream hashPages pages).mapError .pagedSpend
  let effective := user.pageCount + (hasDevelopmentPayout txs).toNat
  let proofClass ← orElseThrow (.pagedSpend (.blockPageLimit effective BLOCK_MAX_USER_PAGES))
    (BlockProofClass.forPageCount effective)
  return { proofClass, groups := user.groups, pageCount := user.pageCount, logicalCount := user.logicalCount
           liveInputs := user.liveInputs, liveOutputs := user.liveOutputs
           hasDevelopmentPayout := hasDevelopmentPayout txs, userStartIndex := userStart txs }

/-! ### Blocks with native groups -/

inductive NativeStreamError where
  | system (e : BlockPageStreamError)
  | ordinary (e : PagedSpendError)
  | native (e : NativeWireError)
  | inactive | chainContext | unterminatedGroup | resourceLimit | slotConflict
deriving DecidableEq, Repr

/-- A spend group as checked. -/
inductive BlockSpendKind where
  | ordinary (facts : PagedSpendFacts)
  | native (facts : NativePageFacts)
deriving DecidableEq, Repr

structure BlockSpendGroup where
  bodyStart : ℕ
  pageCount : ℕ
  kind : BlockSpendKind
deriving DecidableEq, Repr

namespace BlockSpendGroup

def liveInputs (g : BlockSpendGroup) : ℕ :=
  match g.kind with
  | .ordinary facts => facts.liveInputs
  | .native facts => facts.liveInputs

def liveOutputs (g : BlockSpendGroup) : ℕ :=
  match g.kind with
  | .ordinary facts => facts.liveOutputs
  | .native facts => facts.liveOutputs

end BlockSpendGroup

structure NativeBlockStreamFacts where
  proofClass : BlockProofClass
  groups : List BlockSpendGroup
  pageCount : ℕ
  liveInputs : ℕ
  liveOutputs : ℕ
  userStartIndex : ℕ
deriving DecidableEq, Repr

def isNativeHeader (body : TxBody) : Bool :=
  decide (body.validityBitmap &&& (NATIVE_PAGE_BIT ||| NATIVE_HEADER_BIT) = NATIVE_PAGE_BIT ||| NATIVE_HEADER_BIT)

def isNativeGroup (pages : List TxBody) : Bool := pages.head?.any isNativeHeader

variable (P : ChainParams)

def spendKind (pages : List TxBody) : Except NativeStreamError BlockSpendKind :=
  if isNativeGroup pages then do
    let facts ← (validateNativePages (fun l => hashPages (l.map TxPage.mk)) pages).mapError .native
    require (facts.chain = P.nativeChainId) .chainContext
    return .native facts
  else do
    let facts ← (validatePagedSpend hashPages (pages.map TxPage.mk)).mapError .ordinary
    return .ordinary facts

/-- The loop over the complete groups of a block. -/
def parseGroups (height : ℕ) : ℕ → List (List TxBody) → Except NativeStreamError (List BlockSpendGroup)
  | _, [] => .ok []
  | cursor, pages :: rest => do
    require (isNativeGroup pages = false ∨ P.v21Active height = true) .inactive
    let kind ← spendKind hashPages P pages
    let groups ← parseGroups height (cursor + pages.length) rest
    return ⟨cursor, pages.length, kind⟩ :: groups

/-- No slot is touched twice in a block. -/
def validateBlockSlotConflicts (txs : List TxBody) : Except Unit (List ℕ) :=
  insertSlots (fun _ => ())
    [] (txs.flatMap fun tx => tx.liveInputs.map TxInput.slotIndex ++ tx.liveOutputs.map TxOutput.slotIndex)

def parseUserGroups (txs : List TxBody) (height userStartIndex systemRecords : ℕ) :
    Except NativeStreamError NativeBlockStreamFacts := do
  require (txs.length ≤ BLOCK_MAX_TXS ∧ userStartIndex ≤ txs.length) .resourceLimit
  let pages := txs.drop userStartIndex
  let proofClass ← orElseThrow .resourceLimit (BlockProofClass.forPageCount (pages.length + systemRecords))
  let groups ← parseGroups hashPages P height userStartIndex (groupsOf endsGroup pages).1
  -- a last group without an end is refused, with its own error when it is native before the activation
  require (isNativeGroup (groupsOf endsGroup pages).2 = false ∨ P.v21Active height = true) .inactive
  require ((groupsOf endsGroup pages).2 = []) .unterminatedGroup
  let liveInputs := (groups.map BlockSpendGroup.liveInputs).sum
  let liveOutputs := (groups.map BlockSpendGroup.liveOutputs).sum
  require (groups.length ≤ proofClass.liveAuthorizationCapacity ∧ liveInputs ≤ proofClass.inputCapacity ∧
    liveOutputs ≤ proofClass.outputCapacity) .resourceLimit
  let _ ← (validateBlockSlotConflicts txs).mapError fun _ => NativeStreamError.slotConflict
  return { proofClass, groups, pageCount := pages.length, liveInputs, liveOutputs, userStartIndex }

def validateBlockPageStreamAt (txs : List TxBody) (height : ℕ) : Except NativeStreamError NativeBlockStreamFacts := do
  require (txs.length ≤ BLOCK_MAX_TXS) .resourceLimit
  let _ ← (validateBlockPageStream hashPages (txs.take (userStart txs))).mapError .system
  require (∀ tx ∈ txs.drop (userStart txs), tx.isCoinbase = false) (.system .multipleCoinbase)
  parseUserGroups hashPages P txs height (userStart txs) (hasDevelopmentPayout txs).toNat

/-! ### Canonical streams -/

def hasNativePages (txs : List TxBody) : Bool :=
  txs.any fun tx => decide (tx.validityBitmap &&& NATIVE_PAGE_BIT ≠ 0)

def CanonicalStream (height : ℕ) (txs : List TxBody) : Prop :=
  if hasNativePages txs then ∃ facts, validateBlockPageStreamAt hashPages P txs height = .ok facts
  else ∃ facts, validateBlockPageStream hashPages txs = .ok facts

end

end Noid.Chain
