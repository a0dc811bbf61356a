import Noid.Chain.BlockRecords

/-! # The wire format of blocks

A block is a marker, the header, the number of bodies and the bodies as records.  The writer asserts that stream, mints
and groups are canonical; `encode` gives the assertion that fails.  The stream check alone is not enough for it: it looks
at the flag and the bitmap of a system mint only. -/

namespace Noid.Chain

open Noid.Lib Noid.Tx Noid.Node List

structure Block where
  header : BlockHeader
  transactions : List TxBody
deriving DecidableEq

def BLOCK_WIRE_MARKER : ℕ := 0xB3

/-- The assertions of the writer. -/
inductive BlockEncodePanic where
  | tooManyTransactions | nonCanonicalStream | nonCanonicalBody | unterminatedGroup
  | nonCanonicalGroup | nonCanonicalPage
deriving DecidableEq, Repr

section
variable (hashPages : List TxPage → Digest) (P : ChainParams)

/-- The stream of a block is empty or canonical. -/
def checkStream {ε : Type} (e : ε) (height : ℕ) (txs : List TxBody) : Except ε Unit :=
  if txs = [] then .ok ()
  else if hasNativePages txs then do
    let _ ← (validateBlockPageStreamAt hashPages P txs height).mapError fun _ => e
    return ()
  else do
    let _ ← (validateBlockPageStream hashPages txs).mapError fun _ => e
    return ()

/-- Write the bodies behind the coinbase; the number says how many are already written. -/
def encodeRecords : ℕ → List TxBody → Except BlockEncodePanic Bytes
  | _, [] => .ok []
  | written + 1, _ :: rest => encodeRecords written rest
  | 0, tx :: rest =>
    if isNativeHeader tx then do
      let last ← orElseThrow .unterminatedGroup ((tx :: rest).findIdx? endsGroup)
      let group ← (encodeNativePages hashPages ((tx :: rest).take (last + 1))).mapError
        fun _ => BlockEncodePanic.nonCanonicalGroup
      let bytes ← encodeRecords last rest
      return group ++ bytes
    else if tx.isCoinbase then do
      let system ← orElseThrow .nonCanonicalBody tx.encode
      let bytes ← encodeRecords 0 rest
      return system ++ bytes
    else do
      let page ← (TxPage.encode ⟨tx⟩).mapError fun _ => BlockEncodePanic.nonCanonicalPage
      let bytes ← encodeRecords 0 rest
      return page ++ bytes

/-- Write the first body. -/
def encodeCoinbase : List TxBody → Except BlockEncodePanic Bytes
  | [] => .ok []
  | coinbase :: _ => orElseThrow .nonCanonicalBody coinbase.encode

/-- Read the first body of a block of so many bodies. -/
def readCoinbase : ℕ → Reader WireError (List TxBody)
  | 0 => return []
  | _ + 1 => do
    let coinbase ← TxBody.decode
    Reader.require (coinbase.isCoinbase = true) .nonCanonicalBody
    return [coinbase]

namespace Block

def encode (b : Block) : Except BlockEncodePanic Bytes := do
  require (b.transactions.length ≤ BLOCK_MAX_TXS) .tooManyTransactions
  checkStream hashPages P .nonCanonicalStream b.header.height b.transactions
  let coinbase ← encodeCoinbase b.transactions
  let records ← encodeRecords hashPages 0 b.transactions.tail
  return leBytes 1 BLOCK_WIRE_MARKER ++ headerBytes b.header ++ leBytes 4 b.transactions.length ++ coinbase ++ records

def toBytes (b : Block) : Except BlockEncodePanic Bytes := b.encode hashPages P

def decode : Reader WireError Block := do
  let marker ← takeLe .truncated 1
  Reader.require (marker = BLOCK_WIRE_MARKER) .badMarker
  let header ← readHeader
  let n ← takeU32
  Reader.require (n ≤ BLOCK_MAX_TXS) .lengthOverflow
  let coinbase ← readCoinbase n
  let rest ← readRecords hashPages P header.height n (n - coinbase.length)
  liftM (checkStream hashPages P WireError.nonCanonicalBody header.height (coinbase ++ rest))
  return { header, transactions := coinbase ++ rest }

def fromBytes (bytes : Bytes) : Except WireError Block := do
  let (out, src) ← (decode hashPages P).run bytes
  require (src = []) .trailingBytes
  return out

/-- The record of a block. -/
def wireBytes (b : Block) : Bytes :=
  leBytes 1 BLOCK_WIRE_MARKER ++ headerBytes b.header ++ leBytes 4 b.transactions.length ++
    b.transactions.flatMap bodyBytes

/-- The fields fit their types. -/
@[mk_iff] structure Fits (b : Block) : Prop where
  header : HeaderFits b.header
  transactions : ∀ tx ∈ b.transactions, tx.Fits

instance (b : Block) : Decidable b.Fits := decidable_of_iff' _ b.fits_iff

/-- The transaction list is empty or a canonical page stream for the height. -/
def Canonical (b : Block) : Prop :=
  b.transactions = [] ∨ CanonicalStream hashPages P b.header.height b.transactions

end Block

end

section
variable {hashPages : List TxPage → Digest} {P : ChainParams} {height : ℕ} {txs : List TxBody}

lemma checkStream_eq_ok {ε : Type} {e : ε} : checkStream hashPages P e height txs = .ok () ↔
    txs = [] ∨ CanonicalStream hashPages P height txs := by
  by_cases hnil : txs = []
  · rw [checkStream, if_pos hnil]
    exact iff_of_true rfl (.inl hnil)
  · rw [checkStream, if_neg hnil, CanonicalStream]
    split_ifs with hnative
    · simp only [ok_rules, and_true, hnil, false_or]
    · simp only [ok_rules, and_true, hnil, false_or]

/-! ### Writing -/

lemma encodeRecords_skip (group rest : List TxBody) :
    encodeRecords hashPages group.length (group ++ rest) = encodeRecords hashPages 0 rest := by
  induction group with
  | nil => rfl
  | cons tx group ih => exact ih

lemma encodeRecords_record {r rest : List TxBody} {bytes : Bytes} (hr : Record hashPages P height r)
    (hrest : encodeRecords hashPages 0 rest = .ok bytes) :
    encodeRecords hashPages 0 (r ++ rest) = .ok (r.flatMap bodyBytes ++ bytes) := by
  cases hr with
  | @system body hcoinbase hcanonical =>
    have hheader : ¬isNativeHeader body = true := fun h => not_canonical_of_nativeHeader h hcanonical
    have hbody : orElseThrow BlockEncodePanic.nonCanonicalBody body.encode = .ok (bodyBytes body) := by
      rw [TxBody.encode_of_canonical hcanonical]
      rfl
    rw [singleton_append, encodeRecords, if_neg hheader, if_pos hcoinbase, bind_of_ok hbody, bind_of_ok hrest,
      flatMap_singleton]
    rfl
  | @page body hshape =>
    have hheader : ¬isNativeHeader body = true := fun h => not_shape_of_nativeHeader h hshape
    have hcoinbase : ¬body.isCoinbase = true := by
      rw [(validatePageShape_eq_ok.mp hshape).2.1]
      exact Bool.false_ne_true
    have hpage : (TxPage.encode ⟨body⟩).mapError (fun _ => BlockEncodePanic.nonCanonicalPage) =
        .ok (bodyBytes body) := mapError_eq_ok.mpr (TxPage.encode_of_shape hshape)
    rw [singleton_append, encodeRecords, if_neg hheader, if_neg hcoinbase, bind_of_ok hpage, bind_of_ok hrest,
      flatMap_singleton]
    rfl
  | native _ hfacts =>
    have hnative := nativeRecord_of_ok hfacts
    obtain ⟨header, data, rfl⟩ := exists_cons_of_ne_nil hnative.terminated.ne_nil
    have hheader : isNativeHeader header = true := hnative.header
    have hlast : orElseThrow BlockEncodePanic.unterminatedGroup ((header :: (data ++ rest)).findIdx? endsGroup) =
        .ok data.length := by
      rw [← cons_append, findIdx?_of_terminated hnative.terminated]
      rfl
    have htake : (header :: (data ++ rest)).take (data.length + 1) = header :: data := by
      rw [take_succ_cons, take_left]
    have hgroup : (encodeNativePages hashPages (header :: data)).mapError
        (fun _ => BlockEncodePanic.nonCanonicalGroup) = .ok ((header :: data).flatMap bodyBytes) :=
      mapError_eq_ok.mpr ((bind_of_ok hfacts).trans rfl)
    rw [cons_append, encodeRecords, if_pos hheader, bind_of_ok hlast, htake, bind_of_ok hgroup,
      encodeRecords_skip, bind_of_ok hrest]
    rfl

lemma encodeRecords_ok (h : Records hashPages P height txs) :
    encodeRecords hashPages 0 txs = .ok (txs.flatMap bodyBytes) := by
  obtain ⟨records, rfl, hrecords⟩ := h
  induction records with
  | nil => rfl
  | cons r records ih =>
    obtain ⟨hr, hrecords⟩ := forall_mem_cons.mp hrecords
    rw [flatten_cons, flatMap_append]
    exact encodeRecords_record hr (ih hrecords)

namespace Block

variable {b : Block} {bytes : Bytes}

lemma encode_of_parts {coinbase records : Bytes} (hlen : b.transactions.length ≤ BLOCK_MAX_TXS)
    (hstream : b.Canonical hashPages P) (hcoinbase : encodeCoinbase b.transactions = .ok coinbase)
    (hrecords : encodeRecords hashPages 0 b.transactions.tail = .ok records) :
    b.encode hashPages P = .ok (leBytes 1 BLOCK_WIRE_MARKER ++ headerBytes b.header ++
      leBytes 4 b.transactions.length ++ coinbase ++ records) := by
  rw [encode, require_bind hlen, bind_of_ok (checkStream_eq_ok.mpr hstream), bind_of_ok hcoinbase,
    bind_of_ok hrecords]
  rfl

lemma toBytes_ok (hstream : b.Canonical hashPages P) (hsystem : SystemCanonical b.transactions) :
    b.toBytes hashPages P = .ok b.wireBytes := by
  obtain ⟨header, txs⟩ := b
  rcases id hstream with hnil | hcanonical
  · obtain rfl : txs = [] := hnil
    rw [toBytes, encode_of_parts (Nat.zero_le _) hstream rfl rfl, wireBytes, append_nil]
    rfl
  · obtain ⟨hlen, coinbase, rest, rfl, hcoinbase, hrecords⟩ := records_of_stream hcanonical hsystem
    have hfirst : encodeCoinbase (coinbase :: rest) = .ok (bodyBytes coinbase) := by
      rw [encodeCoinbase, TxBody.encode_of_canonical (hsystem coinbase mem_cons_self hcoinbase)]
      rfl
    rw [toBytes, encode_of_parts hlen hstream hfirst (encodeRecords_ok hrecords), wireBytes, flatMap_cons,
      append_assoc]
    rfl

/-! ### Reading -/

/-- The first bodies of a block. -/
def IsCoinbase (n : ℕ) (l : List TxBody) : Prop :=
  (n = 0 ∧ l = []) ∨ ∃ tx, 0 < n ∧ l = [tx] ∧ tx.Fits ∧ tx.isCoinbase = true ∧ tx.validateCanonical = .ok ()

lemma reads_coinbase (n : ℕ) : Reads (readCoinbase n) (fun l => l.flatMap bodyBytes) (IsCoinbase n) := by
  refine .of_iff fun src l rest => ?_
  cases n with
  | zero => cases l <;> simp [readCoinbase, IsCoinbase]
  | succ n =>
    simp only [readCoinbase, TxBody.reads_canonical.bind_eq_ok, Reader.ok_rules, existsAndEq, IsCoinbase]
    constructor
    · rintro ⟨tx, ⟨⟨hfits, hcanonical⟩, rfl⟩, hcoinbase, rfl, -⟩
      exact ⟨.inr ⟨tx, n.succ_pos, rfl, hfits, hcoinbase, hcanonical⟩, by rw [flatMap_singleton]⟩
    · rintro ⟨⟨hzero, -⟩ | ⟨tx, -, rfl, hfits, hcoinbase, hcanonical⟩, rfl⟩
      · cases hzero
      · exact ⟨tx, ⟨⟨hfits, hcanonical⟩, by rw [flatMap_singleton]⟩, hcoinbase, rfl, trivial⟩

lemma systemCanonical_of_records (h : Records hashPages P height txs) : SystemCanonical txs := by
  obtain ⟨records, rfl, hrecords⟩ := h
  intro tx htx hcoinbase
  obtain ⟨r, hr, htx⟩ := mem_flatten.mp htx
  cases hrecords r hr with
  | @system body _ hcanonical =>
    rw [mem_singleton.mp htx]
    exact hcanonical
  | @page body hshape =>
    rw [mem_singleton.mp htx, (validatePageShape_eq_ok.mp hshape).2.1] at hcoinbase
    cases hcoinbase
  | native _ hfacts =>
    rw [(nativeRecord_of_ok hfacts).coinbase tx htx] at hcoinbase
    cases hcoinbase

/-- **The wire format of a block.** -/
theorem fromBytes_eq_ok : fromBytes hashPages P bytes = .ok b ↔
    b.Fits ∧ b.Canonical hashPages P ∧ SystemCanonical b.transactions ∧ bytes = b.wireBytes := by
  obtain ⟨header, txs⟩ := b
  simp only [fromBytes, decode, ok_rules, Prod.exists, (reads_le _ _).bind_eq_ok, Nat.reduceMul, Reader.ok_rules,
    reads_header.bind_eq_ok, reads_u32.bind_eq_ok, (reads_coinbase _).bind_eq_ok,
    (reads_records _ _ (Nat.sub_le _ _)).bind_eq_ok, existsAndEq, mk.injEq, true_and, and_true, append_nil]
  constructor
  · rintro ⟨n, coinbase, rest, ⟨⟩, ⟨⟨-, rfl⟩, hheader, -, -, hcoinbase, ⟨hfits, hlen, hrecords⟩, hcheck⟩, rfl⟩
    have hstream := checkStream_eq_ok.mp hcheck
    have hsystem := systemCanonical_of_records hrecords
    obtain ⟨rfl, rfl⟩ | ⟨tx, hpos, rfl, hfit, hflag, hcanonical⟩ := hcoinbase
    · obtain rfl : rest = [] := eq_nil_of_length_eq_zero hlen
      exact ⟨⟨hheader, hfits⟩, hstream, hsystem, by simp [wireBytes]⟩
    · have hn : n = ([tx] ++ rest).length := by
        rw [length_append, hlen, length_singleton]
        omega
      refine ⟨⟨hheader, forall_mem_cons.mpr ⟨hfit, hfits⟩⟩, hstream,
        forall_mem_cons.mpr ⟨fun _ => hcanonical, hsystem⟩, ?_⟩
      simp only [wireBytes, append_assoc, flatMap_append, ← hn]
  · rintro ⟨hfits, hstream, hsystem, rfl⟩
    have hparts : ∃ coinbase rest, coinbase ++ rest = txs ∧ txs.length ≤ BLOCK_MAX_TXS ∧ IsCoinbase txs.length coinbase ∧
        (∀ tx ∈ rest, tx.Fits) ∧ Records hashPages P header.height rest := by
      rcases id hstream with rfl | hcanonical
      · exact ⟨[], [], rfl, Nat.zero_le _, .inl ⟨rfl, rfl⟩, hfits.transactions, .nil⟩
      · obtain ⟨hlen, coinbase, rest, rfl, hcoinbase, hrecords⟩ := records_of_stream hcanonical hsystem
        obtain ⟨hfit, hrest⟩ := forall_mem_cons.mp hfits.transactions
        exact ⟨[coinbase], rest, rfl, hlen, .inr ⟨coinbase, Nat.succ_pos _, rfl, hfit, hcoinbase,
          hsystem coinbase mem_cons_self hcoinbase⟩, hrest, hrecords⟩
    obtain ⟨coinbase, rest, rfl, hlen, hcoinbase, hrest, hrecords⟩ := hparts
    have hcount : rest.length = (coinbase ++ rest).length - coinbase.length := by
      rw [length_append, Nat.add_sub_cancel_left]
    exact ⟨_, coinbase, rest, (), ⟨⟨by decide, by simp [wireBytes]⟩, hfits.header, lt_of_le_of_lt hlen (by decide), hlen,
      hcoinbase, ⟨hrest, hcount, hrecords⟩, checkStream_eq_ok.mpr hstream⟩, rfl⟩

lemma record_unique {r r' : List TxBody} {rest rest' : Bytes} (hfits : ∀ tx ∈ r, tx.Fits)
    (hr : Record hashPages P height r) (hfits' : ∀ tx ∈ r', tx.Fits) (hr' : Record hashPages P height r')
    (h : r.flatMap bodyBytes ++ rest = r'.flatMap bodyBytes ++ rest') : r = r' ∧ rest = rest' := by
  have hroom : 1 ≤ r.length + r'.length := Nat.le_add_right_of_le (length_pos_iff.mpr hr.ne_nil)
  have hread : (readRecord hashPages P height (r.length + r'.length)).run (r.flatMap bodyBytes ++ rest) =
      .ok (r, rest) := (readRecord_eq_ok hroom).mpr ⟨hfits, Nat.le_add_right _ _, rfl, hr⟩
  have hread' : (readRecord hashPages P height (r.length + r'.length)).run (r.flatMap bodyBytes ++ rest) =
      .ok (r', rest') := (readRecord_eq_ok hroom).mpr ⟨hfits', Nat.le_add_left _ _, h, hr'⟩
  cases hread.symm.trans hread'
  exact ⟨rfl, rfl⟩

/-- **The wire format of blocks is canonical.**  A canonical block is written and read back, what is read is written
back as the same bytes, and bytes start with at most one record. -/
theorem block_format (hashPages : List TxPage → Digest) (P : ChainParams) :
    (∀ b : Block, b.Fits → b.Canonical hashPages P → SystemCanonical b.transactions →
      ∃ bytes, b.toBytes hashPages P = .ok bytes ∧ fromBytes hashPages P bytes = .ok b) ∧
    (∀ bytes b, fromBytes hashPages P bytes = .ok b → b.toBytes hashPages P = .ok bytes) ∧
    (∀ bytes bytes' b, fromBytes hashPages P bytes = .ok b → fromBytes hashPages P bytes' = .ok b → bytes = bytes') ∧
    (∀ height r r' rest rest', (∀ tx ∈ r, tx.Fits) → Record hashPages P height r → (∀ tx ∈ r', tx.Fits) →
      Record hashPages P height r' → r.flatMap bodyBytes ++ rest = r'.flatMap bodyBytes ++ rest' →
      r = r' ∧ rest = rest') := by
  refine ⟨fun b hfits hstream hsystem => ?_, fun bytes b h => ?_, fun bytes bytes' b h h' => ?_,
    fun _ _ _ _ _ => record_unique⟩
  · exact ⟨b.wireBytes, toBytes_ok hstream hsystem, fromBytes_eq_ok.mpr ⟨hfits, hstream, hsystem, rfl⟩⟩
  · obtain ⟨-, hstream, hsystem, rfl⟩ := fromBytes_eq_ok.mp h
    exact toBytes_ok hstream hsystem
  · rw [(fromBytes_eq_ok.mp h).2.2.2, (fromBytes_eq_ok.mp h').2.2.2]

/-- A block with one coinbase, which pays a fee. -/
def paidCoinbase : Block where
  header :=
    { prevBlockHash := 0, stateRoot := 0, txRoot := 0, timestamp := 0, height := 0, minerAddress := 0, nonce := 0
      difficultyTarget := Bytes32.zero, logSlots := 0, activeSlotCount := 0, allocCounter := 0 }
  transactions :=
    [{ epochAnchor := 0, fee := 1, inputOwner := 0, inputs := Vector.replicate _ ⟨0, 0, 0⟩
       outputs := Vector.replicate _ ⟨0, 0, 0⟩, validityBitmap := outputBitmapBit 0, isCoinbase := true }]

/-- The stream check accepts a coinbase that pays a fee, and the writer panics on it. -/
theorem paidCoinbase_panics : paidCoinbase.Fits ∧ ∀ hashPages P, paidCoinbase.Canonical hashPages P ∧
    paidCoinbase.toBytes hashPages P = .error .nonCanonicalBody :=
  ⟨by decide +kernel, fun hashPages P => ⟨.inr ⟨_, rfl⟩, rfl⟩⟩

/-- A block at height five with a coinbase and some pages. -/
def minedBlock (pages : List TxBody) : Block where
  header := { paidCoinbase.header with height := 5 }
  transactions :=
    { epochAnchor := 1, fee := 0, inputOwner := 0, inputs := Vector.replicate _ .dummy, outputs := #v[⟨9, 50, 8⟩, .dummy]
      validityBitmap := outputBitmapBit 0, isCoinbase := true } :: pages

theorem block_format_payments : let b := minedBlock (threePayments.map (·.body))
    ∃ bytes, b.toBytes (fun _ => 0) ⟨none, 1⟩ = .ok bytes ∧ fromBytes (fun _ => 0) ⟨none, 1⟩ bytes = .ok b ∧
      ∀ bytes', fromBytes (fun _ => 0) ⟨none, 1⟩ bytes' = .ok b → bytes' = bytes := by
  intro b
  have hstream : b.Canonical (fun _ => 0) ⟨none, 1⟩ := .inr (exists_ok_of_isOk (by decide +kernel))
  obtain ⟨hread, -, hunique, -⟩ := block_format (fun _ => 0) ⟨none, 1⟩
  obtain ⟨bytes, hto, hfrom⟩ := hread b (by decide +kernel) hstream (by unfold SystemCanonical; decide +kernel)
  exact ⟨bytes, hto, hfrom, fun bytes' h => hunique _ _ _ h hfrom⟩

end Block

end

end Noid.Chain
