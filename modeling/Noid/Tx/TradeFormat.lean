import Noid.Tx.OpeningWire
import Noid.Tx.TradeWire

/-! # The wire formats of trades

A trade intent is a header of fixed size with the policy and the number of funding claims, followed by the claims with
their openings.  A batch is a prefix, the parent with its definition, and the intents as sized records in the order of
their authorisations; they share one limit of inputs. -/

namespace Noid.Tx

open Noid.Lib List NativeOpening

/-- The bytes of `NOIDTR21`. -/
def TRADE_INTENT_MAGIC : Bytes := [78, 79, 73, 68, 84, 82, 50, 49]

def TRADE_INTENT_VERSION : ℕ := 1

def PREFIX_BYTES : ℕ := 16

def POLICY_BYTES : ℕ := 208

def TRADE_INTENT_FIXED_BYTES : ℕ := PREFIX_BYTES + POLICY_BYTES

def FUNDING_BYTES : ℕ := 4 + 8 + 8 + 32 + 2

def MAX_TRADE_INTENT_BYTES : ℕ :=
  PREFIX_BYTES + POLICY_BYTES + MAX_PAGED_SPEND_INPUTS * (FUNDING_BYTES + MAX_NATIVE_OPENING_BYTES)

/-- Padding. -/
def zeros (count : ℕ) : Bytes := replicate count 0

lemma length_zeros (count : ℕ) : (zeros count).length = count := length_replicate

lemma sideOf_eq_ok {ε : Type} {e : ε} {n : ℕ} {side : LaunchSide} : sideOf e n = .ok side ↔ n = side.code := by
  constructor
  · intro h
    unfold sideOf at h
    split at h <;> cases h <;> rfl
  · rintro rfl
    cases side <;> rfl

/-! ### Policies -/

/-- The fields fit their types. -/
@[mk_iff] structure TradePolicy.Fits (p : TradePolicy) : Prop where
  chain : IsDigest p.chain
  epochAnchor : IsDigest p.epochAnchor
  owner : IsDigest p.owner
  asset : IsDigest p.asset
  recipient : IsDigest p.recipient
  grossInput : IsU64 p.grossInput
  minimumOutput : IsU64 p.minimumOutput
  feeLimit : IsU64 p.feeLimit
  validFrom : IsU64 p.validFrom
  validUntil : IsU64 p.validUntil

instance (p : TradePolicy) : Decidable p.Fits := decidable_of_iff' _ p.fits_iff

def policyHeader (p : TradePolicy) (count : ℕ) : Bytes :=
  TRADE_INTENT_MAGIC ++ leBytes 2 TRADE_INTENT_VERSION ++ leBytes 2 count ++ zeros 4 ++ leBytes 1 p.side.code ++
    zeros 7 ++ beBytes 32 p.chain ++ beBytes 32 p.epochAnchor ++ beBytes 32 p.owner ++ beBytes 32 p.asset ++
    beBytes 32 p.recipient ++ leBytes 8 p.grossInput ++ leBytes 8 p.minimumOutput ++ leBytes 8 p.feeLimit ++
    leBytes 8 p.validFrom ++ leBytes 8 p.validUntil

def encodePolicyHeader (p : TradePolicy) (fundingCount : ℕ) : Except TradeError Bytes := do
  p.validate
  require (1 ≤ fundingCount ∧ fundingCount ≤ MAX_PAGED_SPEND_INPUTS) .bounds
  return policyHeader p fundingCount

def readPolicyHeader : Reader TradeError (TradePolicy × ℕ) := do
  literal .encoding .encoding TRADE_INTENT_MAGIC
  let version ← takeLe .encoding 2
  Reader.require (version = TRADE_INTENT_VERSION) .version
  let count ← takeLe .encoding 2
  Reader.require (1 ≤ count ∧ count ≤ MAX_PAGED_SPEND_INPUTS) .bounds
  literal .encoding .bounds (zeros 4)
  let code ← takeLe .encoding 1
  let side ← liftM (sideOf TradeError.policy code)
  literal .encoding .encoding (zeros 7)
  let chain ← takeBe .encoding 32
  let epochAnchor ← takeBe .encoding 32
  let owner ← takeBe .encoding 32
  let asset ← takeBe .encoding 32
  let recipient ← takeBe .encoding 32
  let grossInput ← takeLe .encoding 8
  let minimumOutput ← takeLe .encoding 8
  let feeLimit ← takeLe .encoding 8
  let validFrom ← takeLe .encoding 8
  let validUntil ← takeLe .encoding 8
  let policy : TradePolicy :=
    { chain, epochAnchor, owner, asset, recipient, side, grossInput, minimumOutput, feeLimit, validFrom, validUntil }
  liftM policy.validate
  return (policy, count)

def decodePolicyHeader (bytes : Bytes) : Except TradeError (TradePolicy × ℕ) := do
  require (bytes.length = TRADE_INTENT_FIXED_BYTES) .encoding
  let (header, _) ← readPolicyHeader.run bytes
  return header

section
variable {p : TradePolicy} {count : ℕ} {bytes : Bytes}

lemma length_policyHeader (p : TradePolicy) (count : ℕ) : (policyHeader p count).length = TRADE_INTENT_FIXED_BYTES := by
  simp only [policyHeader, length_append, length_leBytes, length_beBytes, length_zeros]
  rfl

lemma reads_policyHeader : Reads readPolicyHeader (fun e => policyHeader e.1 e.2)
    (fun e => (e.1.Fits ∧ e.1.validate = .ok ()) ∧ 1 ≤ e.2 ∧ e.2 ≤ MAX_PAGED_SPEND_INPUTS) := by
  refine .of_iff fun src ⟨⟨_, _, _, _, _, side, _, _, _, _, _⟩, count⟩ rest => ?_
  have hside : side.code < 2 ^ 8 := by cases side <;> decide
  have hversion : TRADE_INTENT_VERSION < 2 ^ 16 := by decide
  have hcount : count ≤ MAX_PAGED_SPEND_INPUTS → count < 2 ^ 16 := fun h => lt_of_le_of_lt h (by decide)
  simp only [readPolicyHeader, policyHeader, append_assoc, literal_bind_eq_ok, (reads_le _ _).bind_eq_ok,
    (reads_be _ _).bind_eq_ok, Nat.reduceMul, Reader.ok_rules, sideOf_eq_ok, existsAndEq, Prod.mk.injEq,
    TradePolicy.mk.injEq, TradePolicy.fits_iff, IsDigest, IsU64]
  tauto

lemma decodePolicyHeader_eq_ok : decodePolicyHeader bytes = .ok (p, count) ↔
    ((p.Fits ∧ p.validate = .ok ()) ∧ 1 ≤ count ∧ count ≤ MAX_PAGED_SPEND_INPUTS) ∧ bytes = policyHeader p count := by
  simp only [decodePolicyHeader, ok_rules, Prod.exists, Prod.mk.injEq]
  constructor
  · rintro ⟨hlen, p', count', rest, hread, rfl, rfl⟩
    obtain ⟨hvalid, hbytes⟩ := reads_policyHeader.sound _ _ _ hread
    have hrest : rest = [] := by
      rw [hbytes, length_append, length_policyHeader] at hlen
      exact eq_nil_of_length_eq_zero (by omega)
    exact ⟨hvalid, by rw [hbytes, hrest, append_nil]⟩
  · rintro ⟨hvalid, rfl⟩
    exact ⟨length_policyHeader p count, p, count, [], reads_policyHeader.complete_nil (a := (p, count)) hvalid, rfl, rfl⟩

end

/-! ### Funding claims -/

/-- A funding claim without its opening. -/
def fundingPrefix (c : NativeInputClaim) : Bytes :=
  leBytes 4 c.input.slotIndex ++ leBytes 8 c.input.amount ++ leBytes 8 c.input.creationId ++ beBytes 32 c.root

def fundingRecord (c : NativeInputClaim) : Bytes := fundingPrefix c ++ NativeOpening.record c.opening

def writeFunding (c : NativeInputClaim) : Except TradeError Bytes := do
  let opening ← NativeOpening.writeOpt (fun _ => TradeError.funding) c.opening
  return fundingPrefix c ++ (leBytes 2 opening.length ++ opening)

def readFunding : Reader TradeError NativeInputClaim := do
  let slotIndex ← takeLe .encoding 4
  let amount ← takeLe .encoding 8
  let creationId ← takeLe .encoding 8
  let root ← takeBe .encoding 32
  let size ← takeLe .encoding 2
  let cursor ← Reader.remaining
  Reader.require (size ≤ MAX_NATIVE_OPENING_BYTES ∧ size ≤ cursor.length) .bounds
  let opening ← NativeOpening.readSized .bounds (fun _ => TradeError.funding) size
  return { input := { slotIndex, amount, creationId }, root, opening }

/-- The fields fit their types. -/
@[mk_iff] structure NativeInputClaim.Fits (c : NativeInputClaim) : Prop where
  input : c.input.Fits
  root : IsDigest c.root
  opening : ∀ x ∈ c.opening, x.Fits

instance (c : NativeInputClaim) : Decidable c.Fits := decidable_of_iff' _ c.fits_iff

lemma reads_funding : Reads readFunding fundingRecord (fun c => c.Fits ∧ ∀ x ∈ c.opening, x.validate = .ok ()) := by
  refine .of_iff fun src ⟨⟨_, _, _⟩, _, opening⟩ rest => ?_
  have hle : (∀ x ∈ opening, x.validate = .ok ()) → _ := length_optBytes_le
  have hlt := fun h => lt_of_le_of_lt (hle h) (show MAX_NATIVE_OPENING_BYTES < 2 ^ 16 by decide)
  have hcarried : (∀ x ∈ opening, x.Carried) ↔ (∀ x ∈ opening, x.Fits) ∧ ∀ x ∈ opening, x.validate = .ok () := forall₂_and
  simp only [readFunding, fundingRecord, fundingPrefix, record, append_assoc, (reads_le _ _).bind_eq_ok,
    (reads_be _ _).bind_eq_ok, Nat.reduceMul, Reader.ok_rules, (reads_readSized _ _ _).bind_eq_ok, existsAndEq,
    length_append, Nat.le_add_right, NativeInputClaim.mk.injEq, TxInput.mk.injEq, NativeInputClaim.fits_iff, TxInput.fits_iff,
    hcarried, IsU32, IsU64, IsDigest]
  tauto

lemma writeFunding_ok {c : NativeInputClaim} (h : ∀ x ∈ c.opening, x.validate = .ok ()) :
    writeFunding c = .ok (fundingRecord c) :=
  (bind_of_ok (writeOpt_ok _ h)).trans rfl

lemma length_fundingRecord {c : NativeInputClaim} (h : ∀ x ∈ c.opening, x.validate = .ok ()) :
    FUNDING_BYTES ≤ (fundingRecord c).length ∧
      (fundingRecord c).length ≤ FUNDING_BYTES + MAX_NATIVE_OPENING_BYTES := by
  have hle := length_optBytes_le h
  simp only [fundingRecord, fundingPrefix, record, length_append, length_leBytes, length_beBytes,
    FUNDING_BYTES]
  omega

lemma length_fundingRecords {l : List NativeInputClaim} (h : ∀ c ∈ l, ∀ x ∈ c.opening, x.validate = .ok ()) :
    l.length * FUNDING_BYTES ≤ (l.flatMap fundingRecord).length ∧
      (l.flatMap fundingRecord).length ≤ l.length * (FUNDING_BYTES + MAX_NATIVE_OPENING_BYTES) :=
  ⟨le_length_flatMap fun c hc => (length_fundingRecord (h c hc)).1,
    length_flatMap_le fun c hc => (length_fundingRecord (h c hc)).2⟩

/-! ### Intents -/

namespace TradeIntent

section
variable (H : NativeHash)

def toBytes (i : TradeIntent) : Except TradeError Bytes := do
  let _ ← i.validateStructure H
  let header ← encodePolicyHeader i.policy i.funding.length
  let funding ← i.funding.mapM writeFunding
  return header ++ funding.flatten

def fromBytes (bytes : Bytes) : Except TradeError TradeIntent := do
  require (bytes.length ≤ MAX_TRADE_INTENT_BYTES) .bounds
  require (TRADE_INTENT_FIXED_BYTES ≤ bytes.length) .encoding
  let (policy, count) ← decodePolicyHeader (bytes.take TRADE_INTENT_FIXED_BYTES)
  let cursor := bytes.drop TRADE_INTENT_FIXED_BYTES
  require (count * FUNDING_BYTES ≤ cursor.length) .encoding
  let (funding, cursor) ← (readMany readFunding count).run cursor
  require (cursor = []) .encoding
  let intent : TradeIntent := ⟨policy, funding⟩
  let _ ← intent.validateStructure H
  return intent

end

/-- What the writer writes for an intent. -/
def wireBytes (i : TradeIntent) : Bytes := policyHeader i.policy i.funding.length ++ i.funding.flatMap fundingRecord

/-- The fields fit their types. -/
@[mk_iff] structure Fits (i : TradeIntent) : Prop where
  policy : i.policy.Fits
  funding : ∀ c ∈ i.funding, c.Fits

instance (i : TradeIntent) : Decidable i.Fits := decidable_of_iff' _ i.fits_iff

variable {H : NativeHash} {i : TradeIntent} {bytes : Bytes} {totals : FundingTotals}

/-- What an accepted intent satisfies. -/
theorem validateStructure_inv (h : i.validateStructure H = .ok totals) :
    i.policy.validate = .ok () ∧ (1 ≤ i.funding.length ∧ i.funding.length ≤ MAX_PAGED_SPEND_INPUTS) ∧
      ∀ c ∈ i.funding, ∀ x ∈ c.opening, x.validate = .ok () := by
  simp only [validateStructure, validateFunding, ok_rules] at h
  obtain ⟨⟨⟩, hpolicy, ⟨hne, hle⟩, sums, hsums, -⟩ := h
  refine ⟨hpolicy, ⟨length_pos_iff.mpr hne, hle⟩, fun c hc x hx => ?_⟩
  have hbound := ((fundingTotals_eq_ok.mp hsums).1 c hc).asset.1
  rw [InputClaimOk, Option.mem_def.mp hx] at hbound
  exact (checkInputBinding_eq_ok.mp hbound).1

lemma toBytes_eq_ok : i.toBytes H = .ok bytes ↔
    (∃ totals, i.validateStructure H = .ok totals) ∧ bytes = i.wireBytes := by
  have hwrite : ∀ totals, i.validateStructure H = .ok totals → i.toBytes H = .ok i.wireBytes := by
    intro totals hvalid
    obtain ⟨hpolicy, hcount, hopenings⟩ := validateStructure_inv hvalid
    have hheader : encodePolicyHeader i.policy i.funding.length = .ok (policyHeader i.policy i.funding.length) :=
      (bind_of_ok hpolicy).trans ((require_bind hcount).trans rfl)
    have hfunding : i.funding.mapM writeFunding = .ok (i.funding.map fundingRecord) :=
      mapM_eq_map fun c hc => writeFunding_ok (hopenings c hc)
    exact (bind_of_ok hvalid).trans ((bind_of_ok hheader).trans ((bind_of_ok hfunding).trans rfl))
  constructor
  · intro h
    obtain ⟨totals, hvalid, -⟩ := bind_eq_ok.mp h
    rw [hwrite totals hvalid] at h
    exact ⟨⟨totals, hvalid⟩, (Except.ok.inj h).symm⟩
  · rintro ⟨⟨totals, hvalid⟩, rfl⟩
    exact hwrite totals hvalid

lemma length_wireBytes (i : TradeIntent) :
    i.wireBytes.length = TRADE_INTENT_FIXED_BYTES + (i.funding.flatMap fundingRecord).length := by
  rw [wireBytes, length_append, length_policyHeader]

lemma length_wireBytes_le (h : i.validateStructure H = .ok totals) : i.wireBytes.length ≤ MAX_TRADE_INTENT_BYTES := by
  obtain ⟨-, ⟨-, hle⟩, hopenings⟩ := validateStructure_inv h
  have hfunding := (length_fundingRecords hopenings).2
  have hmax := Nat.mul_le_mul_right (FUNDING_BYTES + MAX_NATIVE_OPENING_BYTES) hle
  rw [length_wireBytes, MAX_TRADE_INTENT_BYTES, TRADE_INTENT_FIXED_BYTES]
  omega

/-- **The wire format of an intent.** -/
theorem fromBytes_eq_ok : fromBytes H bytes = .ok i ↔
    i.Fits ∧ (∃ totals, i.validateStructure H = .ok totals) ∧ bytes = i.wireBytes := by
  simp only [fromBytes, ok_rules, Prod.exists, decodePolicyHeader_eq_ok]
  constructor
  · rintro ⟨-, -, policy, count, ⟨⟨⟨hpolicy, -⟩, -⟩, hheader⟩, -, funding, _, hread, rfl, totals, hvalid, rfl⟩
    obtain ⟨⟨rfl, hfunding⟩, hrest⟩ := (reads_many reads_funding count).sound _ _ _ hread
    refine ⟨⟨hpolicy, fun c hc => (hfunding c hc).1⟩, ⟨totals, hvalid⟩, ?_⟩
    rw [wireBytes, ← hheader, ← append_nil (funding.flatMap fundingRecord), ← hrest, take_append_drop]
  · rintro ⟨hfits, ⟨totals, hvalid⟩, rfl⟩
    obtain ⟨hpolicy, hcount, hopenings⟩ := validateStructure_inv hvalid
    have htake : i.wireBytes.take TRADE_INTENT_FIXED_BYTES = policyHeader i.policy i.funding.length :=
      take_left' (length_policyHeader _ _)
    have hdrop : i.wireBytes.drop TRADE_INTENT_FIXED_BYTES = i.funding.flatMap fundingRecord :=
      drop_left' (length_policyHeader _ _)
    have hread := (reads_many reads_funding i.funding.length).complete_nil
      ⟨rfl, fun c hc => ⟨hfits.funding c hc, hopenings c hc⟩⟩
    refine ⟨length_wireBytes_le hvalid, by rw [length_wireBytes]; omega, i.policy, i.funding.length,
      ⟨⟨⟨hfits.policy, hpolicy⟩, hcount⟩, htake⟩, ?_, i.funding, [], ?_, rfl, totals, hvalid, rfl⟩
    · rw [hdrop]
      exact (length_fundingRecords hopenings).1
    · rw [hdrop]
      exact hread

end TradeIntent

/-! ### Batches -/

/-- The bytes of `NOIDBT21`. -/
def TRADE_BATCH_MAGIC : Bytes := [78, 79, 73, 68, 66, 84, 50, 49]

def TRADE_BATCH_VERSION : ℕ := 1

def MAX_TRADE_BATCH_BYTES : ℕ :=
  16 + 12 + 4 + 2 * MAX_NATIVE_OPENING_BYTES + MAX_TRADE_INTENT_BYTES + MAX_SEQUENTIAL_TRADES * 4 +
    (MAX_SEQUENTIAL_TRADES - 1) * TRADE_INTENT_FIXED_BYTES

def marketOf : NativeOpening → NativeOpening → Except BatchError MarketStart
  | .launch (.definition d), .launch (.state s) => .ok (.curve d s)
  | .market (.definition d), .market (.pool s) => .ok (.market d s)
  | _, _ => .error .parent

lemma marketOf_eq_ok (slot id : ℕ) {definition opening : NativeOpening} {market : MarketStart} :
    marketOf definition opening = .ok market ↔
      definition = (TradeParent.mk slot id market).definition ∧ opening = (TradeParent.mk slot id market).opening := by
  constructor
  · intro h
    unfold marketOf at h
    split at h
    · cases h
      exact ⟨rfl, rfl⟩
    · cases h
      exact ⟨rfl, rfl⟩
    · cases h
  · rintro ⟨rfl, rfl⟩
    cases market <;> rfl

namespace TradeBatch

section
variable (H : NativeHash) (T : TradeHash)

def writePolicy (i : TradeIntent) : Except BatchError Bytes := do
  let raw ← (i.toBytes H).mapError .policy
  return leBytes 4 raw.length ++ raw

def writeParent (o : NativeOpening) : Except BatchError Bytes := do
  let raw ← o.toBytes.mapError fun _ => BatchError.parent
  return leBytes 2 raw.length ++ raw

def toBytes (b : TradeBatch) : Except BatchError Bytes := do
  b.validateStructure H T
  let definition ← writeParent b.parent.definition
  let opening ← writeParent b.parent.opening
  let policies ← b.policies.mapM (writePolicy H)
  let bytes := TRADE_BATCH_MAGIC ++ leBytes 2 TRADE_BATCH_VERSION ++ leBytes 2 b.policies.length ++ zeros 4 ++
    leBytes 4 b.parent.slotIndex ++ leBytes 8 b.parent.creationId ++ definition ++ opening ++ policies.flatten
  require (bytes.length ≤ MAX_TRADE_BATCH_BYTES) .bounds
  return bytes

def readOpening : Reader BatchError NativeOpening := do
  let size ← takeLe (.policy .encoding) 2
  let cursor ← Reader.remaining
  Reader.require (size ≠ 0 ∧ size ≤ MAX_NATIVE_OPENING_BYTES ∧ size ≤ cursor.length) .bounds
  let raw ← take .bounds size
  liftM ((NativeOpening.fromBytes raw).mapError fun _ => BatchError.parent)

def readPolicy : Reader BatchError TradeIntent := do
  let size ← takeLe (.policy .encoding) 4
  let cursor ← Reader.remaining
  Reader.require (size ≤ MAX_TRADE_INTENT_BYTES ∧ size ≤ cursor.length) .bounds
  let raw ← take .bounds size
  liftM ((TradeIntent.fromBytes H raw).mapError BatchError.policy)

/-- The reader of a batch, before it is validated. -/
def decode : Reader BatchError TradeBatch := do
  literal (.policy .encoding) .encoding TRADE_BATCH_MAGIC
  let version ← takeLe (.policy .encoding) 2
  Reader.require (version = TRADE_BATCH_VERSION) .encoding
  let count ← takeLe (.policy .encoding) 2
  Reader.require (1 ≤ count ∧ count ≤ MAX_SEQUENTIAL_TRADES) .bounds
  literal (.policy .encoding) .bounds (zeros 4)
  let slotIndex ← takeLe (.policy .encoding) 4
  let creationId ← takeLe (.policy .encoding) 8
  let definition ← readOpening
  let opening ← readOpening
  let market ← liftM (marketOf definition opening)
  let policies ← readMany (readPolicy H) count
  return { parent := { slotIndex, creationId, market }, policies }

def fromBytes (bytes : Bytes) : Except BatchError TradeBatch := do
  require (bytes.length ≤ MAX_TRADE_BATCH_BYTES) .bounds
  let (batch, cursor) ← (decode H).run bytes
  require (cursor = []) .encoding
  batch.validateStructure H T
  return batch

end

def policyRecord (i : TradeIntent) : Bytes := leBytes 4 i.wireBytes.length ++ i.wireBytes

/-- What the writer writes for a batch. -/
def wireBytes (b : TradeBatch) : Bytes :=
  TRADE_BATCH_MAGIC ++ leBytes 2 TRADE_BATCH_VERSION ++ leBytes 2 b.policies.length ++ zeros 4 ++
    leBytes 4 b.parent.slotIndex ++ leBytes 8 b.parent.creationId ++ NativeOpening.record (some b.parent.definition) ++
    NativeOpening.record (some b.parent.opening) ++ b.policies.flatMap policyRecord

/-- The fields fit their types. -/
@[mk_iff] structure Fits (b : TradeBatch) : Prop where
  slotIndex : IsU32 b.parent.slotIndex
  creationId : IsU64 b.parent.creationId
  definition : b.parent.definition.Fits
  opening : b.parent.opening.Fits
  policies : ∀ i ∈ b.policies, i.Fits

instance (b : TradeBatch) : Decidable b.Fits := decidable_of_iff' _ b.fits_iff

/-- An intent that the format carries. -/
def CarriedPolicy (H : NativeHash) (i : TradeIntent) : Prop := i.Fits ∧ ∃ totals, i.validateStructure H = .ok totals

variable {H : NativeHash} {T : TradeHash} {b : TradeBatch} {bytes : Bytes}

lemma reads_parentOpening : Reads readOpening (fun o => NativeOpening.record (some o)) NativeOpening.Carried :=
  reads_record _ _ _ _ fun _ _ hzero hmax hle => ⟨hzero, hmax, hle⟩

lemma reads_policy : Reads (readPolicy H) policyRecord (CarriedPolicy H) := by
  refine reads_sized _ _ _ (fun raw i => ?_) (fun i h => ?_) (fun i rest h => ?_)
  · rw [mapError_eq_ok, TradeIntent.fromBytes_eq_ok, CarriedPolicy, and_assoc]
  · obtain ⟨-, totals, hvalid⟩ := h
    exact lt_of_le_of_lt (TradeIntent.length_wireBytes_le hvalid) (by decide)
  · obtain ⟨-, totals, hvalid⟩ := h
    exact ⟨TradeIntent.length_wireBytes_le hvalid, by rw [length_append]; omega⟩

/-- A batch that the format carries. -/
@[mk_iff] structure Carried (H : NativeHash) (b : TradeBatch) : Prop where
  fits : b.Fits
  definition : b.parent.definition.validate = .ok ()
  opening : b.parent.opening.validate = .ok ()
  count : 1 ≤ b.policies.length ∧ b.policies.length ≤ MAX_SEQUENTIAL_TRADES
  policies : ∀ i ∈ b.policies, ∃ totals, i.validateStructure H = .ok totals

lemma reads_batch : Reads (decode H) wireBytes (Carried H) := by
  refine .of_iff fun src ⟨⟨slot, id, _⟩, policies⟩ rest => ?_
  have hversion : TRADE_BATCH_VERSION < 2 ^ 16 := by decide
  have hcount : policies.length ≤ MAX_SEQUENTIAL_TRADES → policies.length < 2 ^ 16 := fun h => lt_of_le_of_lt h (by decide)
  have hpolicies : (∀ i ∈ policies, CarriedPolicy H i) ↔
      (∀ i ∈ policies, i.Fits) ∧ ∀ i ∈ policies, ∃ totals, i.validateStructure H = .ok totals := forall₂_and
  simp only [decode, wireBytes, append_assoc, literal_bind_eq_ok, (reads_le _ _).bind_eq_ok, Nat.reduceMul, Reader.ok_rules,
    reads_parentOpening.bind_eq_ok, (reads_many reads_policy _).bind_eq_ok, marketOf_eq_ok slot id, existsAndEq,
    TradeBatch.mk.injEq, TradeParent.mk.injEq, hpolicies, NativeOpening.Carried, carried_iff, fits_iff, IsU32, IsU64]
  tauto

/-! ### What an accepted batch satisfies -/

/-- What an accepted batch satisfies. -/
structure Structured (H : NativeHash) (T : TradeHash) (b : TradeBatch) : Prop where
  definition : b.parent.definition.validate = .ok ()
  opening : b.parent.opening.validate = .ok ()
  count : 1 ≤ b.policies.length ∧ b.policies.length ≤ MAX_SEQUENTIAL_TRADES
  funding : (b.policies.flatMap (·.funding)).length < MAX_PAGED_SPEND_INPUTS
  ids : ∃ ids, b.policies.mapM (TradeIntent.authorizationId H T) = .ok ids ∧ ids.Pairwise (· < ·)

lemma validateStructure_inv (h : b.validateStructure H T = .ok ()) : Structured H T b := by
  simp only [validateStructure, ok_rules] at h
  obtain ⟨parent, hparent, ⟨hne, hle⟩, slots, hslots, hbound⟩ := h
  obtain ⟨⟨engine, hengine⟩, hclaim, hopening, -⟩ := TradeParent.claim_eq_ok hparent
  obtain ⟨-, hopened⟩ := Engine.new_eq_ok hengine
  obtain ⟨⟨ids, hids, hchain⟩, -, rfl, -⟩ := checkPolicies_eq_ok hslots
  rw [length_append, length_reverse, length_map, length_singleton] at hbound
  rw [InputClaimOk, hopening] at hclaim
  refine ⟨(TradeParent.dependsOn hopened).valid, ?_, ⟨length_pos_iff.mpr hne, hle⟩, by omega, ids, hids, isChain_iff_pairwise.mp hchain⟩
  exact (checkInputBinding_eq_ok.mp hclaim).1

lemma Structured.policies (h : Structured H T b) : ∀ i ∈ b.policies, ∃ totals, i.validateStructure H = .ok totals := by
  obtain ⟨ids, hids, -⟩ := h.ids
  have hall := mapM_eq_ok.mp hids
  intro i hi
  obtain ⟨k, hk, rfl⟩ := getElem_of_mem hi
  obtain ⟨totals, hvalid, -⟩ := bind_eq_ok.mp (hall.get hk (hall.length_eq ▸ hk))
  exact ⟨totals, hvalid⟩

/-! ### The law of the format -/

lemma length_policyRecords {l : List TradeIntent} : (l.flatMap policyRecord).length =
      l.length * (4 + TRADE_INTENT_FIXED_BYTES) + ((l.flatMap (·.funding)).flatMap fundingRecord).length := by
  induction l with
  | nil => exact (Nat.zero_mul _).symm
  | cons i l ih =>
    rw [flatMap_cons, flatMap_cons, flatMap_append, length_append, length_append, ih,
      policyRecord, length_append, length_leBytes, TradeIntent.length_wireBytes, length_cons, Nat.succ_mul]
    omega

/-- The intents share one limit of inputs, so every accepted batch fits the wire. -/
theorem length_wireBytes_le (h : Structured H T b) : b.wireBytes.length ≤ MAX_TRADE_BATCH_BYTES := by
  have hopenings : ∀ c ∈ b.policies.flatMap (·.funding), ∀ x ∈ c.opening, x.validate = .ok () := by
    intro c hc
    obtain ⟨i, hi, hc⟩ := mem_flatMap.mp hc
    obtain ⟨totals, hvalid⟩ := h.policies i hi
    exact (TradeIntent.validateStructure_inv hvalid).2.2 c hc
  have hfunding := (length_fundingRecords hopenings).2
  have hinputs := Nat.mul_le_mul_right (FUNDING_BYTES + MAX_NATIVE_OPENING_BYTES) h.funding.le
  have hcount := Nat.mul_le_mul_right (4 + TRADE_INTENT_FIXED_BYTES) h.count.2
  have hdefinition := length_record_le (o := some b.parent.definition)
    fun x hx => by cases hx; exact h.definition
  have hopening := length_record_le (o := some b.parent.opening)
    fun x hx => by cases hx; exact h.opening
  have hmagic : TRADE_BATCH_MAGIC.length = 8 := rfl
  have htrades : MAX_SEQUENTIAL_TRADES = 64 := rfl
  have hfixed : TRADE_INTENT_FIXED_BYTES = PREFIX_BYTES + POLICY_BYTES := rfl
  simp only [wireBytes, length_append, length_leBytes, length_zeros, hmagic, length_policyRecords]
  rw [MAX_TRADE_BATCH_BYTES, MAX_TRADE_INTENT_BYTES]
  rw [htrades] at hcount ⊢
  omega

lemma writeParent_ok {o : NativeOpening} (h : o.validate = .ok ()) :
    writeParent o = .ok (NativeOpening.record (some o)) := by
  have hraw : o.toBytes.mapError (fun _ => BatchError.parent) = .ok o.wireBytes :=
    mapError_eq_ok.mpr (toBytes_eq_ok.mpr ⟨h, rfl⟩)
  exact (bind_of_ok hraw).trans rfl

lemma writePolicy_ok {i : TradeIntent} {totals : FundingTotals} (h : i.validateStructure H = .ok totals) :
    writePolicy H i = .ok (policyRecord i) := by
  have hraw : (i.toBytes H).mapError BatchError.policy = .ok i.wireBytes :=
    mapError_eq_ok.mpr (TradeIntent.toBytes_eq_ok.mpr ⟨⟨totals, h⟩, rfl⟩)
  exact (bind_of_ok hraw).trans rfl

lemma toBytes_eq_ok : b.toBytes H T = .ok bytes ↔ b.validateStructure H T = .ok () ∧ bytes = b.wireBytes := by
  have hwrite : b.validateStructure H T = .ok () → b.toBytes H T = .ok b.wireBytes := by
    intro hvalid
    have h := validateStructure_inv hvalid
    have hpolicies : b.policies.mapM (writePolicy H) = .ok (b.policies.map policyRecord) := by
      refine mapM_eq_map fun i hi => ?_
      obtain ⟨totals, hi⟩ := h.policies i hi
      exact writePolicy_ok hi
    rw [toBytes, bind_of_ok hvalid, bind_of_ok (writeParent_ok h.definition), bind_of_ok (writeParent_ok h.opening),
      bind_of_ok hpolicies]
    exact (require_bind (length_wireBytes_le h)).trans rfl
  constructor
  · intro h
    obtain ⟨⟨⟩, hvalid, -⟩ := bind_eq_ok.mp h
    rw [hwrite hvalid] at h
    exact ⟨hvalid, (Except.ok.inj h).symm⟩
  · rintro ⟨hvalid, rfl⟩
    exact hwrite hvalid

/-- **The wire format of a batch.** -/
theorem fromBytes_eq_ok : fromBytes H T bytes = .ok b ↔
    b.Fits ∧ b.validateStructure H T = .ok () ∧ bytes = b.wireBytes := by
  simp only [fromBytes, ok_rules, Prod.exists]
  constructor
  · rintro ⟨-, b', cursor, hread, rfl, ⟨⟩, hvalid, rfl⟩
    obtain ⟨hb, hbytes⟩ := reads_batch.sound _ _ _ hread
    exact ⟨hb.fits, hvalid, by rw [hbytes, append_nil]⟩
  · rintro ⟨hfits, hvalid, rfl⟩
    have h := validateStructure_inv hvalid
    have hcarried : Carried H b := ⟨hfits, h.definition, h.opening, h.count, h.policies⟩
    exact ⟨length_wireBytes_le h, b, [], reads_batch.complete_nil hcarried, rfl, (), hvalid, rfl⟩

/-! ### The order of intents -/

lemma mapM_ids {entries : List (Digest × TradeIntent)} (h : ∀ e ∈ entries, e.2.authorizationId H T = .ok e.1) :
    (entries.map Prod.snd).mapM (TradeIntent.authorizationId H T) = .ok (entries.map Prod.fst) := by
  rw [mapM_eq_ok, forall₂_map_left_iff, forall₂_map_right_iff, forall₂_same]
  exact h

/-- Intents handed over in another order make the same batch. -/
theorem new_perm {parent : TradeParent} {l l' : List TradeIntent} (hperm : l.Perm l')
    (h : new H T parent l = .ok b) : new H T parent l' = .ok b := by
  simp only [new, ok_rules] at h
  obtain ⟨⟨hne, hle⟩, entries, hentries, ⟨⟩, hvalid, rfl⟩ := h
  obtain ⟨entries', hentries', hsame⟩ := perm_comp_forall₂ hperm.symm (mapM_eq_ok.mp hentries)
  have hbounds : l' ≠ [] ∧ l'.length ≤ MAX_SEQUENTIAL_TRADES :=
    ⟨fun hnil => hne (perm_nil.mp (hnil ▸ hperm)), hperm.length_eq ▸ hle⟩
  -- the authorisations ascend strictly, so there is one order of the entries
  have hnodup : (entries.map Prod.fst).Nodup := by
    obtain ⟨ids, hids, hsorted⟩ := (validateStructure_inv hvalid).ids
    rw [mapM_ids fun e he => (mapM_keyed hentries).2 e ((mem_insertionSort _).mp he)] at hids
    cases hids
    exact ((perm_insertionSort _ _).map Prod.fst).nodup_iff.mp (hsorted.imp fun h => h.ne)
  have horder : entries'.insertionSort (fun a b => a.1 ≤ b.1) = entries.insertionSort fun a b => a.1 ≤ b.1 := by
    refine List.Perm.eq_of_pairwise ?_ (pairwise_insertionSort _ _) (pairwise_insertionSort _ _) ?_
    · intro a b ha hb hab hba
      have ha' := hsame.mem_iff.mp ((mem_insertionSort _).mp ha)
      exact inj_on_of_nodup_map hnodup ha' ((mem_insertionSort _).mp hb) (le_antisymm hab hba)
    · exact ((perm_insertionSort _ _).trans hsame).trans (perm_insertionSort _ _).symm
  rw [new, require_bind hbounds, mapError_bind (mapM_eq_ok.mpr hentries'), horder]
  exact (bind_of_ok hvalid).trans rfl

/-- **The formats of trades**: intents and batches are read back, accepted bytes are canonical, and the order in which
intents are handed over does not matter. -/
theorem trade_formats (H : NativeHash) (T : TradeHash) :
    (∀ (i : TradeIntent) (totals : FundingTotals), i.Fits → i.validateStructure H = .ok totals →
      ∃ bytes, i.toBytes H = .ok bytes ∧ TradeIntent.fromBytes H bytes = .ok i) ∧
    (∀ (bytes : Bytes) (i : TradeIntent), TradeIntent.fromBytes H bytes = .ok i → i.toBytes H = .ok bytes) ∧
    (∀ b : TradeBatch, b.Fits → b.validateStructure H T = .ok () →
      ∃ bytes, b.toBytes H T = .ok bytes ∧ fromBytes H T bytes = .ok b) ∧
    (∀ (bytes : Bytes) (b : TradeBatch), fromBytes H T bytes = .ok b → b.toBytes H T = .ok bytes) ∧
    ∀ (parent : TradeParent) (l l' : List TradeIntent) (b : TradeBatch), l.Perm l' → new H T parent l = .ok b →
      new H T parent l' = .ok b ∧ (new H T parent l' >>= root H T) = (new H T parent l >>= root H T) := by
  refine ⟨?_, ?_, ?_, ?_, ?_⟩
  · intro i totals hfits hvalid
    exact ⟨_, TradeIntent.toBytes_eq_ok.mpr ⟨⟨totals, hvalid⟩, rfl⟩,
      TradeIntent.fromBytes_eq_ok.mpr ⟨hfits, ⟨totals, hvalid⟩, rfl⟩⟩
  · intro bytes i h
    exact TradeIntent.toBytes_eq_ok.mpr (TradeIntent.fromBytes_eq_ok.mp h).2
  · intro b hfits hvalid
    exact ⟨_, toBytes_eq_ok.mpr ⟨hvalid, rfl⟩, fromBytes_eq_ok.mpr ⟨hfits, hvalid, rfl⟩⟩
  · intro bytes b h
    exact toBytes_eq_ok.mpr (fromBytes_eq_ok.mp h).2
  · intro parent l l' b hperm h
    have hsame := new_perm hperm h
    exact ⟨hsame, by rw [hsame, h]⟩

/-- A buy and a sell, in the order of their authorisations. -/
def twoSides : TradeBatch :=
  { parent := TradeExecution.twoBuys.parent, policies := [buyFrom 1 100000 80000, sellFrom 3 50000 40000] }

lemma twoSides_fit : twoSides.Fits := by decide

theorem trade_formats_twoSides : new .plain .plain twoSides.parent twoSides.policies.reverse = .ok twoSides ∧
    (∃ bytes, twoSides.toBytes .plain .plain = .ok bytes ∧ fromBytes .plain .plain bytes = .ok twoSides) ∧
    ∀ i ∈ twoSides.policies, ∃ bytes, i.toBytes .plain = .ok bytes ∧ TradeIntent.fromBytes .plain bytes = .ok i := by
  have hvalid : twoSides.validateStructure .plain .plain = .ok () := by decide +kernel
  have hnew : new .plain .plain twoSides.parent twoSides.policies = .ok twoSides := by decide +kernel
  have hintents : ∀ i ∈ twoSides.policies, (i.validateStructure .plain).isOk = true := by decide +kernel
  obtain ⟨hintent, -, hbatch, -, hperm⟩ := trade_formats .plain .plain
  refine ⟨(hperm _ _ _ _ (reverse_perm _).symm hnew).1, hbatch _ twoSides_fit hvalid, fun i hi => ?_⟩
  obtain ⟨totals, htotals⟩ := exists_ok_of_isOk (hintents i hi)
  exact hintent i totals (twoSides_fit.policies i hi) htotals

end TradeBatch

end Noid.Tx
