import Noid.Tx.PagedSpendLayout

/-! # The wire format of paged spends

An intent is a marker, the number of pages, the page records, and one detached authorization with its length.  The writer
checks the spend before it writes and the reader after it has read. -/

namespace Noid.Tx

open Noid.Lib List

def PAGED_SPEND_INTENT_MARKER : ℕ := 0xA3

def PAGED_SPEND_INTENT_FIXED_OVERHEAD : ℕ := 1 + 2 + 4

def MAX_PAGED_SPEND_INTENT_BYTES : ℕ :=
  PAGED_SPEND_INTENT_FIXED_OVERHEAD + MAX_PAGED_SPEND_PAGES * TX_BODY_WIRE_SIZE + MAX_TX_AUTHORIZATION_BYTES

/-! ### Pages -/

def encodePageBody (body : TxBody) : Bytes := bodyBytes body

def decodePageBody : Reader PagedSpendError TxBody := readBody.mapError .wire

lemma reads_pageBody : Reads decodePageBody encodePageBody TxBody.Fits := reads_body.mapError _

namespace TxPage

def new (body : TxBody) : Except PagedSpendError TxPage := do
  validatePageShape body 0
  return ⟨body⟩

def encode (p : TxPage) : Except PagedSpendError Bytes := do
  validatePageShape p.body 0
  return encodePageBody p.body

def decode : Reader PagedSpendError TxPage := do
  let body ← decodePageBody
  liftM (new body)

/-- A page that the page format carries. -/
def Carried (p : TxPage) : Prop := p.body.Fits ∧ validatePageShape p.body 0 = .ok ()

lemma new_eq_ok {body : TxBody} {p : TxPage} : new body = .ok p ↔ validatePageShape body 0 = .ok () ∧ ⟨body⟩ = p := by
  simp only [new, ok_rules]
  constructor
  · rintro ⟨⟨⟩, h, rfl⟩
    exact ⟨h, rfl⟩
  · rintro ⟨h, rfl⟩
    exact ⟨(), h, rfl⟩

lemma reads : Reads decode (fun p => encodePageBody p.body) Carried := by
  refine .of_iff fun src ⟨body⟩ rest => ?_
  simp only [decode, reads_pageBody.bind_eq_ok, Reader.lift_eq_ok, new_eq_ok, existsAndEq, mk.injEq, Carried]
  tauto

lemma encode_of_shape {p : TxPage} (h : validatePageShape p.body 0 = .ok ()) : p.encode = .ok (encodePageBody p.body) :=
  (bind_of_ok h).trans rfl

end TxPage

lemma shape_of_shape {body : TxBody} {i j : ℕ} (h : validatePageShape body i = .ok ()) :
    validatePageShape body j = .ok () :=
  validatePageShape_eq_ok.mpr (validatePageShape_eq_ok.mp h)

/-! ### Intents -/

/-- One indivisible object of the mempool, with one detached authorization. -/
structure PagedSpendIntent where
  pages : List TxPage
  authorizationBytes : Bytes
deriving DecidableEq

namespace PagedSpendIntent

variable (hashPages : List TxPage → Digest)

def new (pages : List TxPage) (authorizationBytes : Bytes) : Except PagedSpendError PagedSpendIntent := do
  let _ ← validatePagedSpend hashPages pages
  require (authorizationBytes.length ≤ MAX_TX_AUTHORIZATION_BYTES) (.authorizationTooLarge authorizationBytes.length)
  return ⟨pages, authorizationBytes⟩

def toBytes (i : PagedSpendIntent) : Except PagedSpendError Bytes := do
  let _ ← validatePagedSpend hashPages i.pages
  require (i.authorizationBytes.length ≤ MAX_TX_AUTHORIZATION_BYTES)
    (.authorizationTooLarge i.authorizationBytes.length)
  let pages ← i.pages.mapM TxPage.encode
  require (i.authorizationBytes.length < 2 ^ 32) (.wire .lengthOverflow)
  return leBytes 1 PAGED_SPEND_INTENT_MARKER ++ leBytes 2 i.pages.length ++ pages.flatten ++
    leBytes 4 i.authorizationBytes.length ++ i.authorizationBytes

def decode : Reader PagedSpendError PagedSpendIntent := do
  let marker ← (takeLe .truncated 1).mapError .wire
  Reader.require (marker = PAGED_SPEND_INTENT_MARKER) (.wire .badMarker)
  let pageCount ← takeU16.mapError .wire
  liftM (validatePageCount pageCount)
  let src ← Reader.remaining
  Reader.require (pageCount * TX_BODY_WIRE_SIZE ≤ src.length) (.wire .truncated)
  let pages ← readMany TxPage.decode pageCount
  let authorizationLen ← takeU32.mapError .wire
  Reader.require (authorizationLen ≤ MAX_TX_AUTHORIZATION_BYTES) (.authorizationTooLarge authorizationLen)
  let authorizationBytes ← take (.wire .truncated) authorizationLen
  liftM (new hashPages pages authorizationBytes)

def fromBytes (bytes : Bytes) : Except PagedSpendError PagedSpendIntent := do
  require (bytes.length ≤ MAX_PAGED_SPEND_INTENT_BYTES) (.intentTooLarge bytes.length)
  let (intent, src) ← (decode hashPages).run bytes
  require (src = []) (.wire .trailingBytes)
  return intent

/-- What the writer writes for an intent. -/
def wireBytes (i : PagedSpendIntent) : Bytes :=
  leBytes 1 PAGED_SPEND_INTENT_MARKER ++ leBytes 2 i.pages.length ++ i.pages.flatMap (fun p => encodePageBody p.body) ++
    leBytes 4 i.authorizationBytes.length ++ i.authorizationBytes

/-- An intent that the format carries. -/
@[mk_iff] structure Carried (i : PagedSpendIntent) : Prop where
  fits : ∀ p ∈ i.pages, p.body.Fits
  spend : ∃ facts, validatePagedSpend hashPages i.pages = .ok facts
  authorization : i.authorizationBytes.length ≤ MAX_TX_AUTHORIZATION_BYTES

variable {hashPages} {i : PagedSpendIntent} {pages : List TxPage} {auth bytes : Bytes}

lemma new_eq_ok : new hashPages pages auth = .ok i ↔ (∃ facts, validatePagedSpend hashPages pages = .ok facts) ∧
    auth.length ≤ MAX_TX_AUTHORIZATION_BYTES ∧ ⟨pages, auth⟩ = i := by
  simp only [new, ok_rules, exists_and_right]

lemma pages_of_spend {facts : PagedSpendFacts} (h : validatePagedSpend hashPages pages = .ok facts) :
    (∀ p ∈ pages, validatePageShape p.body 0 = .ok ()) ∧ validatePageCount pages.length = .ok () := by
  refine ⟨fun p hp => ?_, ?_⟩
  · obtain ⟨first, hok⟩ := validatePagedSpend_eq_ok h
    obtain ⟨k, hk⟩ := mem_iff_getElem?.mp hp
    exact shape_of_shape (hok.shape (p, k) (mk_mem_zipIdx_iff_getElem?.mpr hk))
  · simp only [validatePagedSpend, bind_eq_ok] at h
    obtain ⟨⟨⟩, hcount, -⟩ := h
    exact hcount

lemma toBytes_eq_ok : i.toBytes hashPages = .ok bytes ↔ (∃ facts, validatePagedSpend hashPages i.pages = .ok facts) ∧
    i.authorizationBytes.length ≤ MAX_TX_AUTHORIZATION_BYTES ∧ bytes = i.wireBytes := by
  have hencode : ∀ facts, validatePagedSpend hashPages i.pages = .ok facts →
      i.pages.mapM TxPage.encode = .ok (i.pages.map fun p => encodePageBody p.body) := by
    intro facts hfacts
    exact mapM_eq_map fun p hp => TxPage.encode_of_shape ((pages_of_spend hfacts).1 p hp)
  simp only [toBytes, ok_rules]
  constructor
  · rintro ⟨facts, hfacts, hauth, pages, hpages, -, rfl⟩
    rw [hencode facts hfacts] at hpages
    cases hpages
    exact ⟨⟨facts, hfacts⟩, hauth, rfl⟩
  · rintro ⟨⟨facts, hfacts⟩, hauth, rfl⟩
    refine ⟨facts, hfacts, hauth, _, hencode facts hfacts, lt_of_le_of_lt hauth (by decide), rfl⟩

lemma length_wireBytes (i : PagedSpendIntent) : i.wireBytes.length =
    PAGED_SPEND_INTENT_FIXED_OVERHEAD + i.pages.length * TX_BODY_WIRE_SIZE + i.authorizationBytes.length := by
  simp only [wireBytes, encodePageBody, length_append, length_leBytes, length_flatMap, length_bodyBytes,
    map_const', sum_replicate_nat, PAGED_SPEND_INTENT_FIXED_OVERHEAD]
  omega

/-- **The wire format of an intent.** -/
theorem reads_intent : Reads (decode hashPages) wireBytes (Carried hashPages) := by
  refine .of_iff fun src ⟨pages, auth⟩ rest => ?_
  have hmarker : PAGED_SPEND_INTENT_MARKER < 2 ^ 8 := by decide
  have hspend : (∃ facts, validatePagedSpend hashPages pages = .ok facts) → _ := fun ⟨_, h⟩ => pages_of_spend h
  have hcarried : (∀ p ∈ pages, p.Carried) ↔ (∀ p ∈ pages, p.body.Fits) ∧ ∀ p ∈ pages, validatePageShape p.body 0 = .ok () :=
    forall₂_and
  have hpages : validatePageCount pages.length = .ok () → pages.length < 2 ^ 16 := fun h =>
    lt_of_le_of_lt (require_eq_ok.mp h).2 (by decide)
  have hauth : auth.length ≤ MAX_TX_AUTHORIZATION_BYTES → auth.length < 2 ^ 32 := fun h => lt_of_le_of_lt h (by decide)
  have hlength : (pages.flatMap fun p => encodePageBody p.body).length = pages.length * TX_BODY_WIRE_SIZE := by
    simp only [encodePageBody, length_flatMap, length_bodyBytes, map_const', sum_replicate_nat]
  simp only [decode, wireBytes, append_assoc, ((reads_le _ 1).mapError _).bind_eq_ok, (reads_u16.mapError _).bind_eq_ok,
    (reads_u32.mapError _).bind_eq_ok, Nat.reduceMul, Reader.ok_rules, (reads_many TxPage.reads _).bind_eq_ok,
    (reads_take _ _).bind_eq_ok, new_eq_ok, existsAndEq, mk.injEq, hcarried, length_append, hlength, Nat.le_add_right,
    carried_iff, IsU16, IsU32]
  tauto

lemma length_le_of_carried (h : Carried hashPages i) : i.wireBytes.length ≤ MAX_PAGED_SPEND_INTENT_BYTES := by
  obtain ⟨facts, hfacts⟩ := h.spend
  have hcount := (require_eq_ok.mp (pages_of_spend hfacts).2).2
  have hauth := h.authorization
  have hpages := Nat.mul_le_mul_right TX_BODY_WIRE_SIZE hcount
  rw [length_wireBytes, MAX_PAGED_SPEND_INTENT_BYTES]
  omega

lemma fromBytes_eq_ok : fromBytes hashPages bytes = .ok i ↔ Carried hashPages i ∧ bytes = i.wireBytes := by
  simp only [fromBytes, ok_rules, Prod.exists, reads_intent.eq_ok, existsAndEq, append_nil, and_true, and_iff_right_iff_imp]
  rintro ⟨hi, rfl⟩
  exact length_le_of_carried hi

end PagedSpendIntent

/-! ### The format as a whole -/

lemma liveSlots_pageInputs (pages : List TxPage) :
    liveSlots (pageInputs pages) = (spendInputs pages).map (·.slotIndex) := by
  simp [liveSlots, pageInputs, spendInputs, TxBody.inputEntries, TxBody.liveInputs, filter_flatMap,
    map_flatMap, filter_map, Function.comp_def]

lemma liveSlots_pageOutputs (pages : List TxPage) :
    liveSlots (pageOutputs pages) = (spendOutputs pages).map (·.slotIndex) := by
  simp [liveSlots, pageOutputs, spendOutputs, TxBody.outputEntries, TxBody.liveOutputs, filter_flatMap,
    map_flatMap, filter_map, Function.comp_def]

lemma liveSum_pageInputs (pages : List TxPage) : liveSum (pageInputs pages) = inputSum (spendInputs pages) := by
  simp [liveSum, inputSum, pageInputs, spendInputs, TxBody.inputEntries, TxBody.liveInputs, filter_flatMap,
    map_flatMap, filter_map, Function.comp_def]

lemma liveSum_pageOutputs (pages : List TxPage) : liveSum (pageOutputs pages) = outputSum (spendOutputs pages) := by
  simp [liveSum, outputSum, pageOutputs, spendOutputs, TxBody.outputEntries, TxBody.liveOutputs, filter_flatMap,
    map_flatMap, filter_map, Function.comp_def]

/-- **Paged spends are canonical**: one layout and one byte string, distinct slots, and a balance. -/
theorem pagedSpend_format (hashPages : List TxPage → Digest) :
    (∀ pages pages' facts facts', (∀ p ∈ pages, p.body.Fits) → (∀ p ∈ pages', p.body.Fits) →
      validatePagedSpend hashPages pages = .ok facts → validatePagedSpend hashPages pages' = .ok facts' →
      facts.inputOwner = facts'.inputOwner → facts.epochAnchor = facts'.epochAnchor → facts.fee = facts'.fee →
      pages.map TxPage.contractBits = pages'.map TxPage.contractBits → spendInputs pages = spendInputs pages' →
      spendOutputs pages = spendOutputs pages' → pages = pages') ∧
    (∀ pages facts, validatePagedSpend hashPages pages = .ok facts →
      ((spendInputs pages).map (·.slotIndex)).Nodup ∧ ((spendOutputs pages).map (·.slotIndex)).Nodup ∧
      ((spendInputs pages).map (·.slotIndex)).Disjoint ((spendOutputs pages).map (·.slotIndex)) ∧
      inputSum (spendInputs pages) = outputSum (spendOutputs pages) + facts.fee) ∧
    (∀ pages auth i, (∀ p ∈ pages, p.body.Fits) → PagedSpendIntent.new hashPages pages auth = .ok i →
      ∃ bytes, i.toBytes hashPages = .ok bytes ∧ PagedSpendIntent.fromBytes hashPages bytes = .ok i) ∧
    ∀ bytes i, PagedSpendIntent.fromBytes hashPages bytes = .ok i → i.toBytes hashPages = .ok bytes := by
  refine ⟨?_, ?_, ?_, ?_⟩
  · intro pages pages' facts facts' hfit hfit' h h' howner hanchor hfee hbits hin hout
    exact spend_unique (fun p hp => (hfit p hp).validityBitmap) (fun p hp => (hfit' p hp).validityBitmap) h h' howner
      hanchor hfee hbits hin hout
  · intro pages facts h
    obtain ⟨first, hok, -, -, -, hfee⟩ := validatePagedSpend_layout h
    rw [← liveSlots_pageInputs, ← liveSlots_pageOutputs, ← liveSum_pageInputs, ← liveSum_pageOutputs, hfee]
    exact ⟨hok.inputs, hok.outputs, fun slot hin hout => hok.disjoint slot hin hout, hok.balance⟩
  · intro pages auth i hfits hnew
    obtain ⟨hspend, hauth, rfl⟩ := PagedSpendIntent.new_eq_ok.mp hnew
    exact ⟨_, PagedSpendIntent.toBytes_eq_ok.mpr ⟨hspend, hauth, rfl⟩,
      PagedSpendIntent.fromBytes_eq_ok.mpr ⟨⟨hfits, hspend, hauth⟩, rfl⟩⟩
  · intro bytes i hfrom
    obtain ⟨hi, rfl⟩ := PagedSpendIntent.fromBytes_eq_ok.mp hfrom
    exact PagedSpendIntent.toBytes_eq_ok.mpr ⟨hi.spend, hi.authorization, rfl⟩

/-- A payment to three owners, which takes two pages. -/
def threePayments : List TxPage :=
  [⟨{ epochAnchor := 1, fee := 5, inputOwner := 7
      inputs := #v[⟨1, 100, 6⟩, .dummy, .dummy, .dummy, .dummy, .dummy, .dummy, .dummy]
      outputs := #v[⟨2, 50, 8⟩, ⟨3, 40, 9⟩], isCoinbase := false
      validityBitmap := 1 ||| outputBitmapBit 0 ||| outputBitmapBit 1 ||| PAGED_SPEND_START_BIT }⟩,
   ⟨{ epochAnchor := 1, fee := 0, inputOwner := 7, inputs := Vector.replicate _ .dummy
      outputs := #v[⟨4, 5, 10⟩, .dummy], isCoinbase := false
      validityBitmap := outputBitmapBit 0 ||| PAGED_SPEND_END_BIT }⟩]

theorem pagedSpend_format_three : (((spendInputs threePayments).map (·.slotIndex)).Disjoint
      ((spendOutputs threePayments).map (·.slotIndex)) ∧
      inputSum (spendInputs threePayments) = outputSum (spendOutputs threePayments) + 5) ∧
    (∃ i bytes, PagedSpendIntent.new (fun _ => 0) threePayments [1, 2, 3] = .ok i ∧
      i.toBytes (fun _ => 0) = .ok bytes ∧ PagedSpendIntent.fromBytes (fun _ => 0) bytes = .ok i) := by
  have hfacts : validatePagedSpend (fun _ => 0) threePayments = .ok ⟨0, 7, 1, 5, 1, 3, 100, 95⟩ := by decide +kernel
  have hnew : PagedSpendIntent.new (fun _ => 0) threePayments [1, 2, 3] = .ok ⟨threePayments, [1, 2, 3]⟩ :=
    PagedSpendIntent.new_eq_ok.mpr ⟨⟨_, hfacts⟩, by decide, rfl⟩
  obtain ⟨-, hspend, hintent, -⟩ := pagedSpend_format fun _ => 0
  obtain ⟨bytes, hto, hfrom⟩ := hintent _ _ _ (by decide +kernel) hnew
  exact ⟨(hspend _ _ hfacts).2.2, _, bytes, hnew, hto, hfrom⟩

end Noid.Tx
