import Noid.Lib.Bits
import Noid.Tx.Wire

/-! # Paged spends

A logical transaction is a list of pages of one owner and one anchor; the first one carries the fee and the start marker,
the last one the end marker.  The live inputs and outputs of all pages must be dense, with distinct slots, and balanced up
to the fee. -/

namespace Noid.Tx

open Noid.Lib

def MAX_TX_AUTHORIZATION_BYTES : ℕ := 256 * 1024

def MAX_PAGED_SPEND_PAGES : ℕ := 128

def MAX_PAGED_SPEND_INPUTS : ℕ := 1020

def MAX_PAGED_SPEND_OUTPUTS : ℕ := MAX_PAGED_SPEND_PAGES * TX_OUTPUTS

def PAGED_SPEND_START_BIT : ℕ := 2 ^ 10

def PAGED_SPEND_END_BIT : ℕ := 2 ^ 11

def PAGED_SPEND_CONTRACT_BIT : ℕ := 2 ^ 12

def PAGED_SPEND_TERMINAL_BIT : ℕ := 2 ^ 13

def PAGED_SPEND_MARKER_MASK : ℕ := PAGED_SPEND_START_BIT ||| PAGED_SPEND_END_BIT

def PAGED_SPEND_V2_CONTRACT_MASK : ℕ := PAGED_SPEND_CONTRACT_BIT ||| PAGED_SPEND_TERMINAL_BIT

def PAGED_SPEND_VALIDITY_MASK : ℕ :=
  TX_VALIDITY_MASK ||| PAGED_SPEND_MARKER_MASK ||| PAGED_SPEND_V2_CONTRACT_MASK

inductive PagedSpendError where
  | wire (e : WireError)
  | pageCount (actual : ℕ)
  | reservedBitmapBits (page bitmap : ℕ)
  | coinbasePage (page : ℕ)
  | deadInputNotZero (page slot : ℕ)
  | deadOutputNotZero (page slot : ℕ)
  | missingStart
  | unexpectedStart (page : ℕ)
  | missingEnd
  | unexpectedEnd (page : ℕ)
  | ownerMismatch (page : ℕ)
  | epochMismatch (page : ℕ)
  | continuationFee (page : ℕ)
  | sparseInputs (page slot : ℕ)
  | sparseOutputs (page slot : ℕ)
  | noLiveInputs
  | tooManyInputs (actual : ℕ)
  | tooManyOutputs (actual : ℕ)
  | nonMinimalPageCount (actual required : ℕ)
  | duplicateInputSlot (slot : ℕ)
  | duplicateOutputSlot (slot : ℕ)
  | inputOutputSlotOverlap (slot : ℕ)
  | inputSumOverflow | outputSumOverflow | outputPlusFeeOverflow
  | balanceMismatch (inputSum outputSum fee : ℕ)
  | authorizationTooLarge (actual : ℕ)
  | intentTooLarge (actual : ℕ)
deriving DecidableEq, Repr

/-- One physical page. -/
structure TxPage where
  body : TxBody
deriving DecidableEq, Repr

namespace TxPage

def isStart (p : TxPage) : Bool := decide (p.body.validityBitmap &&& PAGED_SPEND_START_BIT ≠ 0)

def isEnd (p : TxPage) : Bool := decide (p.body.validityBitmap &&& PAGED_SPEND_END_BIT ≠ 0)

end TxPage

structure PagedSpendFacts where
  logicalTxid : Digest
  inputOwner : Address
  epochAnchor : Digest
  fee : ℕ
  liveInputs : ℕ
  liveOutputs : ℕ
  inputSum : ℕ
  outputSum : ℕ
deriving DecidableEq, Repr

/-! ### Pages -/

def validatePageCount (count : ℕ) : Except PagedSpendError Unit :=
  require (1 ≤ count ∧ count ≤ MAX_PAGED_SPEND_PAGES) (.pageCount count)

def validatePageShape (body : TxBody) (page : ℕ) : Except PagedSpendError Unit := do
  require (body.validityBitmap &&& (2 ^ 16 - 1 - PAGED_SPEND_VALIDITY_MASK) = 0)
    (.reservedBitmapBits page body.validityBitmap)
  require (body.isCoinbase = false) (.coinbasePage page)
  body.inputs.toList.zipIdx.forM fun (input, slot) =>
    require (body.inputIsLive slot ∨ input = .dummy) (.deadInputNotZero page slot)
  body.outputs.toList.zipIdx.forM fun (output, slot) =>
    require (body.outputIsLive slot ∨ output = .dummy) (.deadOutputNotZero page slot)

/-- A page against the first one, in a spend of `count` pages. -/
def validatePagePlace (first : TxPage) (count : ℕ) (page : TxPage) (index : ℕ) : Except PagedSpendError Unit := do
  require (index = 0 ∨ page.isStart = false) (.unexpectedStart index)
  require (index + 1 = count ∨ page.isEnd = false) (.unexpectedEnd index)
  require (page.body.inputOwner = first.body.inputOwner) (.ownerMismatch index)
  require (page.body.epochAnchor = first.body.epochAnchor) (.epochMismatch index)
  require (index = 0 ∨ page.body.fee = 0) (.continuationFee index)

/-! ### The scan of the live entries -/

structure SideScan where
  slots : List ℕ
  live : ℕ
  sum : ℕ
  gap : Bool

def SideScan.start : SideScan := { slots := [], live := 0, sum := 0, gap := false }

structure SideRules where
  max : ℕ
  sparse : ℕ → ℕ → PagedSpendError
  tooMany : ℕ → PagedSpendError
  duplicate : ℕ → PagedSpendError
  overflow : PagedSpendError

def inputRules : SideRules where
  max := MAX_PAGED_SPEND_INPUTS
  sparse := .sparseInputs
  tooMany := .tooManyInputs
  duplicate := .duplicateInputSlot
  overflow := .inputSumOverflow

def outputRules : SideRules where
  max := MAX_PAGED_SPEND_OUTPUTS
  sparse := .sparseOutputs
  tooMany := .tooManyOutputs
  duplicate := .duplicateOutputSlot
  overflow := .outputSumOverflow

/-- One entry of a page: its place, whether it is live, its slot and its amount. -/
structure SideEntry where
  slot : ℕ
  isLive : Bool
  slotIndex : ℕ
  amount : ℕ

def TxBody.inputEntries (b : TxBody) : List SideEntry :=
  b.inputs.toList.zipIdx.map fun (input, slot) =>
    { slot := slot, isLive := b.inputIsLive slot, slotIndex := input.slotIndex, amount := input.amount }

def TxBody.outputEntries (b : TxBody) : List SideEntry :=
  b.outputs.toList.zipIdx.map fun (output, slot) =>
    { slot := slot, isLive := b.outputIsLive slot, slotIndex := output.slotIndex, amount := output.amount }

def SideScan.entry (rules : SideRules) (page : ℕ) (st : SideScan) (e : SideEntry) :
    Except PagedSpendError SideScan :=
  if e.isLive then do
    require (st.gap = false) (rules.sparse page e.slot)
    require (st.live + 1 ≤ rules.max) (rules.tooMany (st.live + 1))
    require (e.slotIndex ∉ st.slots) (rules.duplicate e.slotIndex)
    require (st.sum + e.amount < 2 ^ 128) rules.overflow
    return { st with slots := e.slotIndex :: st.slots, live := st.live + 1, sum := st.sum + e.amount }
  else .ok { st with gap := true }

/-- The inputs of a page, then its outputs. -/
def scanSpendPage (st : SideScan × SideScan) (page : TxPage) (index : ℕ) :
    Except PagedSpendError (SideScan × SideScan) := do
  let ins ← page.body.inputEntries.foldlM (SideScan.entry inputRules index) st.1
  let outs ← page.body.outputEntries.foldlM (SideScan.entry outputRules index) st.2
  return (ins, outs)

def scanSpend (pages : List TxPage) : Except PagedSpendError (SideScan × SideScan) :=
  pages.zipIdx.foldlM (fun st (page, index) => scanSpendPage st page index) (.start, .start)

/-- The check of a whole spend; `hashPages` is its logical id. -/
def validatePagedSpend (hashPages : List TxPage → Digest) (pages : List TxPage) :
    Except PagedSpendError PagedSpendFacts := do
  validatePageCount pages.length
  pages.zipIdx.forM fun (page, index) => validatePageShape page.body index
  let first ← orElseThrow (.pageCount 0) pages.head?
  let last ← orElseThrow (.pageCount 0) pages.getLast?
  require first.isStart .missingStart
  require last.isEnd .missingEnd
  pages.zipIdx.forM fun (page, index) => validatePagePlace first pages.length page index
  let (ins, outs) ← scanSpend pages
  require (ins.live ≠ 0) .noLiveInputs
  -- the source reports some common slot; here it is the first one found
  (ins.slots.filter (· ∈ outs.slots)).forM fun slot => .error (.inputOutputSlotOverlap slot)
  let required := max (max 1 (divCeil ins.live TX_INPUTS)) (divCeil outs.live TX_OUTPUTS)
  require (pages.length = required) (.nonMinimalPageCount pages.length required)
  let fee := first.body.fee
  require (outs.sum + fee < 2 ^ 128) .outputPlusFeeOverflow
  require (ins.sum = outs.sum + fee) (.balanceMismatch ins.sum outs.sum fee)
  return { logicalTxid := hashPages pages, inputOwner := first.body.inputOwner
           epochAnchor := first.body.epochAnchor, fee := fee, liveInputs := ins.live, liveOutputs := outs.live
           inputSum := ins.sum, outputSum := outs.sum }

/-! ### What an accepted spend satisfies -/

def liveSlots (l : List SideEntry) : List ℕ := (l.filter (·.isLive)).map (·.slotIndex)

def liveSum (l : List SideEntry) : ℕ := ((l.filter (·.isLive)).map (·.amount)).sum

lemma liveSum_inputEntries (b : TxBody) : liveSum b.inputEntries = inputSum b.liveInputs := by
  simp [liveSum, TxBody.inputEntries, inputSum, TxBody.liveInputs, List.filter_map, Function.comp_def]

lemma liveSum_outputEntries (b : TxBody) : liveSum b.outputEntries = outputSum b.liveOutputs := by
  simp [liveSum, TxBody.outputEntries, outputSum, TxBody.liveOutputs, List.filter_map, Function.comp_def]

/-- A scan adds up the live entries and collects their slots, which are new and distinct. -/
structure Scanned (l : List SideEntry) (st st' : SideScan) : Prop where
  sum : st'.sum = st.sum + liveSum l
  slots : st'.slots = (liveSlots l).reverse ++ st.slots
  nodup : st.slots.Nodup → st'.slots.Nodup

lemma scan_eq_ok {rules : SideRules} {page : ℕ} :
    ∀ {l : List SideEntry} {st st' : SideScan}, l.foldlM (SideScan.entry rules page) st = .ok st' → Scanned l st st'
  | [], st, st', h => by
    cases h
    exact ⟨by simp [liveSum], by simp [liveSlots], id⟩
  | e :: l, st, st', h => by
    rw [List.foldlM_cons, bind_eq_ok] at h
    obtain ⟨st1, hentry, hrest⟩ := h
    obtain ⟨hsum, hslots, hnodup⟩ := scan_eq_ok hrest
    unfold SideScan.entry at hentry
    by_cases hlive : e.isLive
    · rw [if_pos hlive] at hentry
      simp only [ok_rules] at hentry
      obtain ⟨-, -, hnew, -, rfl⟩ := hentry
      refine ⟨?_, ?_, fun h => hnodup (List.nodup_cons.mpr ⟨hnew, h⟩)⟩
      · simp [hsum, liveSum, List.filter_cons_of_pos hlive, Nat.add_assoc]
      · simp [hslots, liveSlots, List.filter_cons_of_pos hlive]
    · rw [if_neg hlive] at hentry
      cases hentry
      refine ⟨?_, ?_, hnodup⟩
      · simp [hsum, liveSum, List.filter_cons_of_neg hlive]
      · simp [hslots, liveSlots, List.filter_cons_of_neg hlive]

/-- An accepted page has no coinbase mark and is all zero outside its live entries. -/
theorem validatePageShape_eq_ok {body : TxBody} {page : ℕ} {u : Unit} :
    validatePageShape body page = .ok u ↔
      body.validityBitmap &&& (2 ^ 16 - 1 - PAGED_SPEND_VALIDITY_MASK) = 0 ∧ body.isCoinbase = false ∧
        (∀ (i : ℕ) (h : i < TX_INPUTS), body.inputIsLive i ∨ body.inputs[i] = .dummy) ∧
        ∀ (i : ℕ) (h : i < TX_OUTPUTS), body.outputIsLive i ∨ body.outputs[i] = .dummy := by
  simp only [validatePageShape, ok_rules, forM_eq_ok, forall_mem_zipIdx]

def pageInputs (pages : List TxPage) : List SideEntry := pages.flatMap fun p => p.body.inputEntries

def pageOutputs (pages : List TxPage) : List SideEntry := pages.flatMap fun p => p.body.outputEntries

lemma Scanned.refl (st : SideScan) : Scanned [] st st := ⟨rfl, rfl, id⟩

lemma Scanned.append {l l' : List SideEntry} {st st1 st' : SideScan} (h : Scanned l st st1)
    (h' : Scanned l' st1 st') : Scanned (l ++ l') st st' := by
  refine ⟨?_, ?_, fun hst => h'.nodup (h.nodup hst)⟩
  · simp [h'.sum, h.sum, liveSum, Nat.add_assoc]
  · simp [h'.slots, h.slots, liveSlots]

lemma scanSpend_from {pages : List TxPage} {start : ℕ} {st st' : SideScan × SideScan}
    (h : (pages.zipIdx start).foldlM (fun st (page, index) => scanSpendPage st page index) st = .ok st') :
    Scanned (pageInputs pages) st.1 st'.1 ∧ Scanned (pageOutputs pages) st.2 st'.2 := by
  induction pages generalizing start st with
  | nil =>
    cases h
    exact ⟨.refl _, .refl _⟩
  | cons page pages ih =>
    rw [List.zipIdx_cons, List.foldlM_cons, bind_eq_ok] at h
    obtain ⟨st1, hpage, hrest⟩ := h
    simp only [scanSpendPage, ok_rules] at hpage
    obtain ⟨ins, hins, outs, houts, rfl⟩ := hpage
    obtain ⟨hin, hout⟩ := ih hrest
    exact ⟨(scan_eq_ok hins).append hin, (scan_eq_ok houts).append hout⟩

/-- What an accepted spend satisfies: the shape and place of its pages, distinct slots, and inputs that pay for the
outputs and the fee. -/
structure SpendOk (pages : List TxPage) (first : TxPage) : Prop where
  head : pages.head? = some first
  shape : ∀ e ∈ pages.zipIdx, validatePageShape e.1.body e.2 = .ok ()
  place : ∀ e ∈ pages.zipIdx, validatePagePlace first pages.length e.1 e.2 = .ok ()
  inputs : (liveSlots (pageInputs pages)).Nodup
  outputs : (liveSlots (pageOutputs pages)).Nodup
  disjoint : ∀ slot ∈ liveSlots (pageInputs pages), slot ∉ liveSlots (pageOutputs pages)
  balance : liveSum (pageInputs pages) = liveSum (pageOutputs pages) + first.body.fee

lemma validatePagedSpend_eq_ok {hashPages : List TxPage → Digest} {pages : List TxPage}
    {facts : PagedSpendFacts} (h : validatePagedSpend hashPages pages = .ok facts) :
    ∃ first, SpendOk pages first := by
  simp only [validatePagedSpend, scanSpend, ok_rules, forM_eq_ok, Prod.exists] at h
  obtain ⟨⟨⟩, -, hshape, first, hfirst, last, -, -, -, hplace, ins, outs, hscan, -, hdisjoint, -, -, hbalance, -⟩ := h
  obtain ⟨hins, houts⟩ := scanSpend_from hscan
  have hinSlots : ins.slots = (liveSlots (pageInputs pages)).reverse := by
    rw [hins.slots]
    exact List.append_nil _
  have houtSlots : outs.slots = (liveSlots (pageOutputs pages)).reverse := by
    rw [houts.slots]
    exact List.append_nil _
  refine ⟨first, hfirst, hshape, hplace, ?_, ?_, ?_, ?_⟩
  · exact List.nodup_reverse.mp (hinSlots ▸ hins.nodup List.nodup_nil)
  · exact List.nodup_reverse.mp (houtSlots ▸ houts.nodup List.nodup_nil)
  · intro slot hin hout
    have hmem : slot ∈ ins.slots.filter (· ∈ outs.slots) := by simp [hinSlots, houtSlots, hin, hout]
    cases hdisjoint slot hmem
  · have hi : ins.sum = liveSum (pageInputs pages) := hins.sum.trans (Nat.zero_add _)
    have ho : outs.sum = liveSum (pageOutputs pages) := houts.sum.trans (Nat.zero_add _)
    rw [← hi, ← ho, hbalance]

lemma SpendOk.balance_single {page first : TxPage} (h : SpendOk [page] first) :
    inputSum page.body.liveInputs = outputSum page.body.liveOutputs + page.body.fee := by
  obtain rfl : page = first := Option.some.inj h.head
  have hbalance := h.balance
  simp only [pageInputs, pageOutputs, List.flatMap_cons, List.flatMap_nil, List.append_nil, liveSum_inputEntries,
    liveSum_outputEntries] at hbalance
  exact hbalance

end Noid.Tx
