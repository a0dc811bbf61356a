import Noid.Chain.BlockStream
import Noid.Node.HeaderDag
import Noid.Tx.NativeGroup

/-! # The records of a block

The bodies of a block are records without tags: the reader tries a record as a system mint, then as an ordinary page, then
the following records as a native group.  The three never overlap: a system mint has the coinbase flag, and a native
header has marker bits that an ordinary page may not have. -/

namespace Noid.Chain

open Noid.Lib Noid.Tx Noid.Node List

/-! ### Headers -/

/-- Raw bytes of a number. -/
def Bytes32.wireBytes (a : Bytes32) : Bytes := a.bytes.map UInt8.ofNat

def takeBytes32 : Reader WireError Bytes32 := do
  let l ← take .truncated 32
  if h : l.length = 32 then return ⟨l.map UInt8.toNat, h ▸ isBytes_map_toNat l⟩ else liftM (Except.error WireError.truncated)

lemma reads_bytes32 : Reads takeBytes32 Bytes32.wireBytes (fun _ => True) := by
  refine ⟨fun a rest _ => ?_, fun src a rest h => ?_⟩
  · have hlen : a.wireBytes.length = 32 := by rw [Bytes32.wireBytes, length_map, a.isBytes.length]
    have hback : a.wireBytes.map UInt8.toNat = a.bytes := by
      rw [Bytes32.wireBytes, map_map]
      exact (map_congr_left fun b hb => Nat.mod_eq_of_lt (a.isBytes.lt b hb)).trans (map_id _)
    rw [takeBytes32, Reader.bind_of_ok (run_take _ hlen), dif_pos hlen]
    exact congrArg (fun x => Except.ok (x, rest)) (Bytes32.mk.injEq .. ▸ hback)
  · obtain ⟨l, mid, ⟨hlen, rfl⟩, hread⟩ := (reads_take _ _).bind_eq_ok.mp h
    rw [dif_pos hlen] at hread
    obtain ⟨rfl, rfl⟩ := Reader.pure_eq_ok.mp hread
    refine ⟨trivial, ?_⟩
    rw [Bytes32.wireBytes, map_map]
    exact congrArg (· ++ mid) ((map_id l).symm.trans (map_congr_left fun b _ => UInt8.ofNat_toNat.symm))

def headerBytes (h : BlockHeader) : Bytes :=
  beBytes 32 h.prevBlockHash ++ beBytes 32 h.stateRoot ++ beBytes 32 h.txRoot ++ leBytes 8 h.timestamp ++
    leBytes 8 h.height ++ beBytes 32 h.minerAddress ++ leBytes 16 h.nonce ++ h.difficultyTarget.wireBytes ++
    leBytes 4 h.logSlots ++ leBytes 8 h.activeSlotCount ++ leBytes 8 h.allocCounter

def readHeader : Reader WireError BlockHeader := do
  let prevBlockHash ← takeDigest
  let stateRoot ← takeDigest
  let txRoot ← takeDigest
  let timestamp ← takeU64
  let height ← takeU64
  let minerAddress ← takeDigest
  let nonce ← takeLe .truncated 16
  let difficultyTarget ← takeBytes32
  let logSlots ← takeU32
  let activeSlotCount ← takeU64
  let allocCounter ← takeU64
  return { prevBlockHash, stateRoot, txRoot, timestamp, height, minerAddress, nonce, difficultyTarget, logSlots
           activeSlotCount, allocCounter }

/-- The fields fit their types. -/
@[mk_iff] structure HeaderFits (h : BlockHeader) : Prop where
  prevBlockHash : IsDigest h.prevBlockHash
  stateRoot : IsDigest h.stateRoot
  txRoot : IsDigest h.txRoot
  timestamp : IsU64 h.timestamp
  height : IsU64 h.height
  minerAddress : IsDigest h.minerAddress
  nonce : IsU128 h.nonce
  logSlots : IsU32 h.logSlots
  activeSlotCount : IsU64 h.activeSlotCount
  allocCounter : IsU64 h.allocCounter

instance (h : BlockHeader) : Decidable (HeaderFits h) := decidable_of_iff' _ (headerFits_iff h)

lemma reads_header : Reads readHeader headerBytes HeaderFits := by
  refine .of_iff fun src ⟨_, _, _, _, _, _, _, _, _, _, _⟩ rest => ?_
  simp only [readHeader, headerBytes, append_assoc, reads_digest.bind_eq_ok, reads_u64.bind_eq_ok, reads_u32.bind_eq_ok,
    (reads_le _ _).bind_eq_ok, Nat.reduceMul, reads_bytes32.bind_eq_ok, Reader.pure_eq_ok, existsAndEq, BlockHeader.mk.injEq,
    headerFits_iff, IsU128]
  tauto

/-! ### Native groups -/

section
variable (hashPages : List TxPage → Digest)

/-- `validateNativePages` over the hash of pages. -/
def nativePages (pages : List TxBody) : Except NativeWireError NativePageFacts :=
  validateNativePages (fun l => hashPages (l.map TxPage.mk)) pages

/-- Encode one complete native group. -/
def encodeNativePages (pages : List TxBody) : Except NativeWireError Bytes := do
  let _ ← nativePages hashPages pages
  return pages.flatMap encodePageBody

/-- Read pages up to an end marker, while there is room for them. -/
def readUntilEnd : ℕ → Reader NativeWireError (List TxBody)
  | 0 => liftM (Except.error NativeWireError.bounds)
  | room + 1 => do
    let body ← decodePageBody.mapError .page
    if endsGroup body then return [body]
    else do
      let rest ← readUntilEnd room
      return body :: rest

/-- Decode exactly one bounded group. -/
def decodeNativePages : Reader NativeWireError (List TxBody) := do
  let pages ← readUntilEnd MAX_PAGED_SPEND_PAGES
  let _ ← liftM (nativePages hashPages pages)
  return pages

end

lemma reads_untilEnd (room : ℕ) : Reads (readUntilEnd room) (fun l => l.flatMap bodyBytes)
    (fun l => (∀ body ∈ l, body.Fits) ∧ Terminated endsGroup l ∧ l.length ≤ room) := by
  have hpage : Reads (decodePageBody.mapError NativeWireError.page) bodyBytes TxBody.Fits := reads_pageBody.mapError _
  induction room with
  | zero =>
    refine ⟨fun l rest h => ?_, fun src l rest h => ?_⟩
    · exact absurd (eq_nil_of_length_eq_zero (Nat.le_zero.mp h.2.2)) h.2.1.ne_nil
    · rw [readUntilEnd, Reader.lift_eq_ok] at h
      cases h.1
  | succ room ih =>
    refine ⟨fun l rest h => ?_, fun src l rest h => ?_⟩
    · obtain ⟨hfits, ⟨init, last, rfl, hlast, hinit⟩, hlen⟩ := h
      rw [readUntilEnd]
      cases init with
      | nil =>
        rw [nil_append, flatMap_singleton, hpage.run_bind (hfits last (by simp)), if_pos hlast]
        rfl
      | cons body init =>
        obtain ⟨hbody, hfits⟩ := forall_mem_cons.mp hfits
        obtain ⟨hopen, hinit⟩ := forall_mem_cons.mp hinit
        have htail := ih.complete (init ++ [last]) rest ⟨hfits, ⟨init, last, rfl, hlast, hinit⟩, by
          simpa using hlen⟩
        rw [cons_append, flatMap_cons, append_assoc, hpage.run_bind hbody,
          if_neg (by rw [hopen]; exact Bool.false_ne_true), Reader.bind_of_ok htail]
        rfl
    · rw [readUntilEnd, hpage.bind_eq_ok] at h
      obtain ⟨body, mid, ⟨hbody, rfl⟩, h⟩ := h
      split_ifs at h with hend
      · obtain ⟨rfl, rfl⟩ := Reader.pure_eq_ok.mp h
        exact ⟨⟨by simpa using hbody, .singleton hend, by simp⟩, by rw [flatMap_singleton]⟩
      · rw [ih.bind_eq_ok] at h
        obtain ⟨l', mid', ⟨⟨hfits, hterm, hlen⟩, rfl⟩, h⟩ := h
        obtain ⟨rfl, rfl⟩ := Reader.pure_eq_ok.mp h
        refine ⟨⟨forall_mem_cons.mpr ⟨hbody, hfits⟩, hterm.cons (Bool.eq_false_of_not_eq_true hend), ?_⟩, ?_⟩
        · rw [length_cons]
          omega
        · rw [flatMap_cons, append_assoc]

lemma endsGroup_of_markers {body : TxBody} {last : Bool}
    (h : body.validityBitmap &&& MARKER_MASK = NATIVE_PAGE_BIT ||| (if last then PAGED_SPEND_END_BIT else 0)) :
    endsGroup body = last := by
  have hend : body.validityBitmap &&& PAGED_SPEND_END_BIT =
      (NATIVE_PAGE_BIT ||| (if last then PAGED_SPEND_END_BIT else 0)) &&& PAGED_SPEND_END_BIT := by
    rw [← h, Nat.and_assoc]
    rfl
  rw [endsGroup, hend]
  cases last <;> rfl

lemma terminated_of_dataPages {anchor : Digest} : ∀ {pages : List TxBody}, pages ≠ [] → DataPages anchor pages →
    Terminated endsGroup pages
  | [], hne, _ => absurd rfl hne
  | [_], _, h => .singleton (endsGroup_of_markers h.1.markers)
  | _ :: _ :: _, _, h =>
    (terminated_of_dataPages (cons_ne_nil _ _) h.2).cons (endsGroup_of_markers h.1.markers)

structure NativeRecord (pages : List TxBody) : Prop where
  header : isNativeGroup pages = true
  terminated : Terminated endsGroup pages
  coinbase : ∀ body ∈ pages, body.isCoinbase = false
  room : pages.length ≤ MAX_PAGED_SPEND_PAGES

lemma coinbase_of_dataPages {anchor : Digest} : ∀ {pages : List TxBody}, DataPages anchor pages →
    ∀ body ∈ pages, body.isCoinbase = false
  | [], _ => fun _ hbody => by cases hbody
  | _ :: _, h => forall_mem_cons.mpr ⟨h.1.coinbase, coinbase_of_dataPages h.2⟩

variable {hashPages : List TxPage → Digest}

lemma nativeRecord_of_ok {pages : List TxBody} {facts : NativePageFacts} (h : nativePages hashPages pages = .ok facts) :
    NativeRecord pages := by
  obtain ⟨header, data, rfl, hgroup⟩ := validateNativePages_inv h
  have hne : data ≠ [] := length_pos_iff.mp hgroup.count.1
  have hopen : endsGroup header = false := by
    rw [endsGroup, hgroup.shape.bitmap]
    rfl
  refine ⟨?_, (terminated_of_dataPages hne hgroup.pages).cons hopen, ?_, hgroup.count.2⟩
  · change isNativeHeader header = true
    rw [isNativeHeader, hgroup.shape.bitmap]
    rfl
  · exact forall_mem_cons.mpr ⟨hgroup.shape.coinbase, coinbase_of_dataPages hgroup.pages⟩

lemma decodeNativePages_eq_ok {src rest : Bytes} {pages : List TxBody} :
    (decodeNativePages hashPages).run src = .ok (pages, rest) ↔
      (∀ body ∈ pages, body.Fits) ∧ (∃ facts, nativePages hashPages pages = .ok facts) ∧
        src = pages.flatMap bodyBytes ++ rest := by
  have hrecord := fun h : ∃ facts, nativePages hashPages pages = .ok facts => nativeRecord_of_ok h.choose_spec
  have hterminated := fun h => (hrecord h).terminated
  have hroom := fun h => (hrecord h).room
  simp only [decodeNativePages, (reads_untilEnd _).bind_eq_ok, Reader.ok_rules, existsAndEq]
  tauto

/-! ### Records -/

section
variable (hashPages : List TxPage → Digest) (P : ChainParams)

def pageWireError : PagedSpendError → WireError
  | .wire e => e
  | _ => .nonCanonicalBody

/-- Read an ordinary page or, from the activation on, a native group that fits the block. -/
def readUser (height room : ℕ) : Reader WireError (List TxBody) := fun src =>
  match TxPage.decode.run src with
  | .ok (page, rest) => .ok ([page.body], rest)
  | .error e =>
    if P.v21Active height then
      match (decodeNativePages hashPages).run src with
      | .ok (pages, rest) => if pages.length ≤ room then .ok (pages, rest) else .error .nonCanonicalBody
      | .error _ => .error (pageWireError e)
    else .error (pageWireError e)

/-- Read one record, probing it as a system mint first. -/
def readRecord (height room : ℕ) : Reader WireError (List TxBody) := fun src =>
  match TxBody.decode.run src with
  | .ok (system, rest) => if system.isCoinbase then .ok ([system], rest) else (readUser hashPages P height room).run src
  | .error _ => (readUser hashPages P height room).run src

/-- Read records until there are so many bodies; every turn reads one body at least. -/
def readRecords (height : ℕ) : ℕ → ℕ → Reader WireError (List TxBody)
  | _, 0 => return []
  | 0, _ + 1 => return []
  | fuel + 1, room + 1 => do
    let pages ← readRecord hashPages P height (room + 1)
    let rest ← readRecords height fuel (room + 1 - pages.length)
    return pages ++ rest

/-- The bodies that one turn of the reader takes. -/
inductive Record (height : ℕ) : List TxBody → Prop where
  | system {body : TxBody} : body.isCoinbase = true → body.validateCanonical = .ok () → Record height [body]
  | page {body : TxBody} : validatePageShape body 0 = .ok () → Record height [body]
  | native {pages : List TxBody} {facts : NativePageFacts} : P.v21Active height = true →
      nativePages hashPages pages = .ok facts → Record height pages

end

section
variable {P : ChainParams} {height room : ℕ} {src rest : Bytes} {pages : List TxBody} {body : TxBody}

lemma Record.ne_nil (h : Record hashPages P height pages) : pages ≠ [] := by
  cases h with
  | system _ _ => exact cons_ne_nil _ _
  | page _ => exact cons_ne_nil _ _
  | native _ hfacts => exact (nativeRecord_of_ok hfacts).terminated.ne_nil

lemma shape_of_decode {page : TxPage} (hfits : body.Fits)
    (h : TxPage.decode.run (bodyBytes body ++ src) = .ok (page, rest)) : validatePageShape body 0 = .ok () := by
  obtain ⟨hpage, hsrc⟩ := TxPage.reads.sound _ _ _ h
  obtain ⟨rfl, -⟩ := reads_body.inj hfits hpage.1 hsrc
  exact hpage.2

lemma and_ne_zero_of_and_eq {bitmap mask wide : ℕ} (hwide : mask &&& wide = mask) (hmask : mask ≠ 0)
    (h : bitmap &&& mask = mask) : bitmap &&& wide ≠ 0 := by
  intro hzero
  have : bitmap &&& wide &&& mask = mask := by
    rw [Nat.and_right_comm, h, hwide]
  rw [hzero, Nat.zero_and] at this
  exact hmask this.symm

lemma not_shape_of_nativeHeader (h : isNativeHeader body = true) : validatePageShape body 0 ≠ .ok () := by
  intro hshape
  obtain ⟨hbits, -⟩ := validatePageShape_eq_ok.mp hshape
  exact and_ne_zero_of_and_eq (by decide) (by decide) (of_decide_eq_true h) hbits

lemma not_canonical_of_nativeHeader (h : isNativeHeader body = true) : body.validateCanonical ≠ .ok () := by
  intro hcanonical
  exact and_ne_zero_of_and_eq (by decide) (by decide) (of_decide_eq_true h) (TxBody.bitmap_of_canonical hcanonical)

lemma readUser_eq_ok (hroom : 1 ≤ room) : (readUser hashPages P height room).run src = .ok (pages, rest) ↔
    (∀ body ∈ pages, body.Fits) ∧ pages.length ≤ room ∧ src = pages.flatMap bodyBytes ++ rest ∧
      ((∃ body, pages = [body] ∧ validatePageShape body 0 = .ok ()) ∨
        P.v21Active height = true ∧ ∃ facts, nativePages hashPages pages = .ok facts) := by
  change readUser hashPages P height room src = .ok (pages, rest) ↔ _
  unfold readUser
  constructor
  · intro h
    split at h
    · rename_i page mid hpage
      cases h
      obtain ⟨⟨hfits, hshape⟩, hsrc⟩ := TxPage.reads.sound _ _ _ hpage
      refine ⟨by simpa using hfits, hroom, ?_, .inl ⟨_, rfl, hshape⟩⟩
      rw [flatMap_singleton]
      exact hsrc
    · split_ifs at h with hactive
      split at h
      · rename_i pages' mid hnative
        split_ifs at h with hlen
        cases h
        obtain ⟨hfits, hfacts, hsrc⟩ := decodeNativePages_eq_ok.mp hnative
        exact ⟨hfits, hlen, hsrc, .inr ⟨hactive, hfacts⟩⟩
      · cases h
  · rintro ⟨hfits, hlen, rfl, ⟨body, rfl, hshape⟩ | ⟨hactive, facts, hfacts⟩⟩
    · have hread := TxPage.reads.complete ⟨body⟩ rest ⟨hfits body (by simp), hshape⟩
      have hsrc : [body].flatMap bodyBytes ++ rest = encodePageBody body ++ rest := by
        rw [flatMap_singleton]
        rfl
      rw [hsrc, hread]
    · have hnative : (decodeNativePages hashPages).run (pages.flatMap bodyBytes ++ rest) = .ok (pages, rest) :=
        decodeNativePages_eq_ok.mpr ⟨hfits, ⟨facts, hfacts⟩, rfl⟩
      obtain ⟨header, data, rfl⟩ := exists_cons_of_ne_nil (nativeRecord_of_ok hfacts).terminated.ne_nil
      have hheader : isNativeHeader header = true := (nativeRecord_of_ok hfacts).header
      rcases hpage : TxPage.decode.run ((header :: data).flatMap bodyBytes ++ rest) with e | ⟨page, mid⟩
      · simp only [if_pos hactive, hnative, if_pos hlen]
      · rw [flatMap_cons, append_assoc] at hpage
        exact absurd (shape_of_decode (hfits header (by simp)) hpage) (not_shape_of_nativeHeader hheader)

lemma run_readRecord : (readRecord hashPages P height room).run src = match TxBody.decode.run src with
    | .ok (system, rest) =>
      if system.isCoinbase then .ok ([system], rest) else (readUser hashPages P height room).run src
    | .error _ => (readUser hashPages P height room).run src := rfl

lemma readRecord_of_user (hfits : body.Fits) (hcoinbase : body.isCoinbase = false) :
    (readRecord hashPages P height room).run (bodyBytes body ++ src) =
      (readUser hashPages P height room).run (bodyBytes body ++ src) := by
  rw [run_readRecord]
  rcases hdecode : TxBody.decode.run (bodyBytes body ++ src) with e | ⟨system, mid⟩
  · rfl
  · obtain ⟨hbody, hsrc⟩ := TxBody.reads_canonical.sound _ _ _ hdecode
    obtain ⟨rfl, -⟩ := reads_body.inj hfits hbody.1 hsrc
    simp only [hcoinbase, Bool.false_eq_true, if_false]

/-- **The probing of records is unambiguous**: each is taken from its own bytes. -/
theorem readRecord_eq_ok (hroom : 1 ≤ room) : (readRecord hashPages P height room).run src = .ok (pages, rest) ↔
    (∀ body ∈ pages, body.Fits) ∧ pages.length ≤ room ∧ src = pages.flatMap bodyBytes ++ rest ∧
      Record hashPages P height pages := by
  -- an accepted user record is a record
  have huser : (readUser hashPages P height room).run src = .ok (pages, rest) → (∀ body ∈ pages, body.Fits) ∧
      pages.length ≤ room ∧ src = pages.flatMap bodyBytes ++ rest ∧ Record hashPages P height pages := by
    intro h
    obtain ⟨hfits, hlen, hsrc, ⟨body, rfl, hshape⟩ | ⟨hactive, facts, hfacts⟩⟩ := (readUser_eq_ok hroom).mp h
    · exact ⟨hfits, hlen, hsrc, .page hshape⟩
    · exact ⟨hfits, hlen, hsrc, .native hactive hfacts⟩
  constructor
  · intro h
    rw [run_readRecord] at h
    split at h
    · rename_i system mid hsystem
      split_ifs at h with hcoinbase
      · cases h
        obtain ⟨⟨hfits, hcanonical⟩, hsrc⟩ := TxBody.reads_canonical.sound _ _ _ hsystem
        refine ⟨by simpa using hfits, hroom, ?_, .system hcoinbase hcanonical⟩
        rw [hsrc, flatMap_singleton]
      · exact huser h
    · exact huser h
  · rintro ⟨hfits, hlen, rfl, hrecord⟩
    cases hrecord with
    | @system body hcoinbase hcanonical =>
      have hread := TxBody.reads_canonical.complete body rest ⟨hfits body (by simp), hcanonical⟩
      rw [flatMap_singleton, run_readRecord, hread]
      exact if_pos hcoinbase
    | @page body hshape =>
      have hread : (readUser hashPages P height room).run (bodyBytes body ++ rest) = .ok ([body], rest) :=
        (readUser_eq_ok hroom).mpr ⟨hfits, hlen, by rw [flatMap_singleton], .inl ⟨body, rfl, hshape⟩⟩
      rw [flatMap_singleton]
      exact (readRecord_of_user (hfits body (by simp)) (validatePageShape_eq_ok.mp hshape).2.1).trans hread
    | native hactive hfacts =>
      have hread : (readUser hashPages P height room).run (pages.flatMap bodyBytes ++ rest) = .ok (pages, rest) :=
        (readUser_eq_ok hroom).mpr ⟨hfits, hlen, rfl, .inr ⟨hactive, _, hfacts⟩⟩
      obtain ⟨header, data, rfl⟩ := exists_cons_of_ne_nil (nativeRecord_of_ok hfacts).terminated.ne_nil
      have hcoinbase := (nativeRecord_of_ok hfacts).coinbase header (by simp)
      rw [flatMap_cons, append_assoc] at hread ⊢
      exact (readRecord_of_user (hfits header (by simp)) hcoinbase).trans hread

def Records (hashPages : List TxPage → Digest) (P : ChainParams) (height : ℕ) (bodies : List TxBody) : Prop :=
  ∃ records : List (List TxBody), bodies = records.flatten ∧ ∀ r ∈ records, Record hashPages P height r

lemma Records.nil : Records hashPages P height [] := ⟨[], rfl, fun _ hr => by cases hr⟩

lemma Records.cons {bodies : List TxBody} (h : Record hashPages P height pages)
    (hrest : Records hashPages P height bodies) : Records hashPages P height (pages ++ bodies) := by
  obtain ⟨records, rfl, hrecords⟩ := hrest
  exact ⟨pages :: records, rfl, forall_mem_cons.mpr ⟨h, hrecords⟩⟩

lemma Records.append {bodies bodies' : List TxBody} (h : Records hashPages P height bodies)
    (h' : Records hashPages P height bodies') : Records hashPages P height (bodies ++ bodies') := by
  obtain ⟨records, rfl, hrecords⟩ := h
  obtain ⟨records', rfl, hrecords'⟩ := h'
  exact ⟨records ++ records', flatten_append.symm, forall_mem_append.mpr ⟨hrecords, hrecords'⟩⟩

/-- **The format of the bodies of a block.** -/
theorem reads_records (fuel room : ℕ) (hfuel : room ≤ fuel) : Reads (readRecords hashPages P height fuel room)
    (fun l => l.flatMap bodyBytes)
    (fun l => (∀ body ∈ l, body.Fits) ∧ l.length = room ∧ Records hashPages P height l) := by
  have hnil : Reads (pure [] : Reader WireError (List TxBody)) (fun l => l.flatMap bodyBytes)
      (fun l => (∀ body ∈ l, body.Fits) ∧ l.length = 0 ∧ Records hashPages P height l) :=
    .of_iff fun src l rest => by cases l <;> simp [Records.nil]
  induction fuel generalizing room with
  | zero =>
    obtain rfl := Nat.le_zero.mp hfuel
    exact hnil
  | succ fuel ih =>
    cases room with
    | zero => exact hnil
    | succ room =>
      refine .of_iff fun src l rest => ?_
      simp only [readRecords, Reader.bind_eq_ok, readRecord_eq_ok (Nat.le_add_left 1 room), Reader.pure_eq_ok]
      constructor
      · rintro ⟨r, mid, ⟨hfit, hle, rfl, hr⟩, l, rest, htail, rfl, rfl⟩
        have hpos : 0 < r.length := length_pos_iff.mpr hr.ne_nil
        obtain ⟨⟨hfits, hlen, hrecords⟩, rfl⟩ := (ih _ (by omega)).eq_ok.mp htail
        refine ⟨⟨forall_mem_append.mpr ⟨hfit, hfits⟩, ?_, hrecords.cons hr⟩, ?_⟩
        · rw [length_append, hlen]
          omega
        · rw [flatMap_append, append_assoc]
      · rintro ⟨⟨hfits, hlen, records, rfl, hrecords⟩, rfl⟩
        cases records with
        | nil => cases hlen
        | cons r records =>
          obtain ⟨hr, hrecords⟩ := forall_mem_cons.mp hrecords
          simp only [flatten_cons, forall_mem_append, length_append, flatMap_append, append_assoc] at hfits hlen ⊢
          have hpos : 0 < r.length := length_pos_iff.mpr hr.ne_nil
          have htail := (ih (room + 1 - r.length) (by omega)).complete records.flatten rest
            ⟨hfits.2, by omega, records, rfl, hrecords⟩
          exact ⟨r, _, ⟨hfits.1, by omega, rfl, hr⟩, _, _, htail, rfl, rfl⟩

/-! ### The records of a stream -/

lemma records_of_singletons {bodies : List TxBody} (h : ∀ body ∈ bodies, Record hashPages P height [body]) :
    Records hashPages P height bodies := by
  induction bodies with
  | nil => exact .nil
  | cons body bodies ih =>
    obtain ⟨hbody, hbodies⟩ := forall_mem_cons.mp h
    exact (ih hbodies).cons hbody

lemma shape_of_spend {facts : PagedSpendFacts} (h : validatePagedSpend hashPages (pages.map TxPage.mk) = .ok facts) :
    ∀ body ∈ pages, validatePageShape body 0 = .ok () := by
  intro body hbody
  exact (PagedSpendIntent.pages_of_spend h).1 ⟨body⟩ (mem_map_of_mem hbody)

lemma shape_of_groups {proofClass : BlockProofClass} : ∀ {groups : List (List TxBody)} {start : ℕ}
    {facts facts' : List PagedSpendGroupFacts}, validateGroups hashPages proofClass start facts groups = .ok facts' →
    ∀ body ∈ groups.flatten, validatePageShape body 0 = .ok ()
  | [], _, _, _, _ => fun _ hbody => by cases hbody
  | g :: groups, start, facts, facts', h => by
    simp only [validateGroups, ok_rules] at h
    obtain ⟨spend, hspend, -, hrest⟩ := h
    exact forall_mem_append.mpr ⟨shape_of_spend hspend, shape_of_groups hrest⟩

lemma records_of_groups : ∀ {groups : List (List TxBody)} {cursor : ℕ} {facts : List BlockSpendGroup},
    parseGroups hashPages P height cursor groups = .ok facts → Records hashPages P height groups.flatten
  | [], _, _, _ => .nil
  | g :: groups, cursor, facts, h => by
    simp only [parseGroups, ok_rules] at h
    obtain ⟨hactive, kind, hkind, rest, hrest, -⟩ := h
    have htail := records_of_groups hrest
    unfold spendKind at hkind
    split_ifs at hkind with hnative
    · simp only [ok_rules] at hkind
      obtain ⟨facts, hfacts, -⟩ := hkind
      have hon : P.v21Active height = true := hactive.resolve_left (by rw [hnative]; exact Bool.noConfusion)
      exact htail.cons (.native hon hfacts)
    · simp only [ok_rules] at hkind
      obtain ⟨facts, hfacts, -⟩ := hkind
      exact (records_of_singletons fun body hbody => .page (shape_of_spend hfacts body hbody)).append htail

end

/-- The system mints of a block are canonical bodies. -/
def SystemCanonical (txs : List TxBody) : Prop := ∀ tx ∈ txs, tx.isCoinbase = true → tx.validateCanonical = .ok ()

section
variable {P : ChainParams} {height : ℕ} {txs : List TxBody}

lemma exists_user_pages {coinbase : TxBody} (hhead : txs.head? = some coinbase) :
    ∃ system, txs = coinbase :: (system ++ txs.drop (userStart txs)) ∧ ∀ tx ∈ system, tx.isCoinbase = true := by
  cases txs with
  | nil => cases hhead
  | cons tx txs =>
    cases hhead
    refine ⟨txs.take (hasDevelopmentPayout (coinbase :: txs)).toNat, ?_, ?_⟩
    · rw [userStart, Nat.add_comm, drop_succ_cons, take_append_drop]
    · intro body hbody
      cases hdev : hasDevelopmentPayout (coinbase :: txs) with
      | false =>
        rw [hdev] at hbody
        cases hbody
      | true =>
        rw [hdev] at hbody
        cases txs with
        | nil => cases hbody
        | cons second rest =>
          have hshape : second.isDevelopmentPayoutShape = true := hdev
          obtain rfl : body = second := mem_singleton.mp hbody
          exact (Bool.and_eq_true _ _ ▸ hshape).1

lemma records_of_user {coinbase : TxBody} (hhead : txs.head? = some coinbase) (hcanonical : SystemCanonical txs)
    (hpages : Records hashPages P height (txs.drop (userStart txs))) :
    ∃ rest, txs = coinbase :: rest ∧ Records hashPages P height rest := by
  obtain ⟨system, htxs, hsystem⟩ := exists_user_pages hhead
  refine ⟨_, htxs, (records_of_singletons fun tx htx => ?_).append hpages⟩
  refine .system (hsystem tx htx) (hcanonical tx ?_ (hsystem tx htx))
  rw [htxs]
  exact mem_cons_of_mem _ (mem_append_left _ htx)

lemma forPageCount_eq_some {pageCount : ℕ} {proofClass : BlockProofClass}
    (h : BlockProofClass.forPageCount pageCount = some proofClass) : pageCount ≤ 255 := by
  unfold BlockProofClass.forPageCount at h
  split_ifs at h <;> omega

/-- **The bodies of a canonical stream are records.** -/
theorem records_of_stream (h : CanonicalStream hashPages P height txs) (hcanonical : SystemCanonical txs) :
    txs.length ≤ BLOCK_MAX_TXS ∧ ∃ coinbase rest, txs = coinbase :: rest ∧ coinbase.isCoinbase = true ∧
      Records hashPages P height rest := by
  unfold CanonicalStream at h
  split_ifs at h with hnative
  · obtain ⟨facts, h⟩ := h
    simp only [validateBlockPageStreamAt, parseUserGroups, validateBlockPageStream, ok_rules] at h
    obtain ⟨hlen, _, ⟨coinbase, hhead, hcoinbase, -⟩, -, -, proofClass, -, groups, hgroups, -, htail, -⟩ := h
    have hhead : txs.head? = some coinbase := by
      cases txs with
      | nil => cases hhead
      | cons tx txs =>
        rw [userStart, Nat.add_comm, take_succ_cons] at hhead
        exact hhead
    have hpages := records_of_groups hgroups
    rw [← append_nil (groupsOf endsGroup _).1.flatten, ← htail, flatten_groupsOf] at hpages
    obtain ⟨rest, htxs, hrest⟩ := records_of_user hhead hcanonical hpages
    exact ⟨hlen, coinbase, rest, htxs, hcoinbase, hrest⟩
  · obtain ⟨facts, h⟩ := h
    simp only [validateBlockPageStream, validatePagedSpendTransactionStream, validateStreamForClass, ok_rules,
      Prod.exists] at h
    obtain ⟨coinbase, hhead, hcoinbase, -, -, -, user, ⟨_, -, -, _, -, -, groups, hgroups, htail, -, -, _, _, -, -, -,
      rfl⟩, proofClass, hclass, -⟩ := h
    have hshape := shape_of_groups hgroups
    rw [← append_nil (groupsOf endsGroup _).1.flatten, ← htail, flatten_groupsOf] at hshape
    obtain ⟨rest, htxs, hrest⟩ := records_of_user hhead hcanonical (records_of_singletons fun body hbody => .page (hshape body hbody))
    refine ⟨?_, coinbase, rest, htxs, hcoinbase, hrest⟩
    have hcount : (txs.drop (userStart txs)).length + (hasDevelopmentPayout txs).toNat ≤ 255 :=
      forPageCount_eq_some hclass
    rw [length_drop, userStart] at hcount
    rw [BLOCK_MAX_TXS]
    omega

end

end Noid.Chain
