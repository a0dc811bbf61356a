import Noid.Chain.BlockPayload
import Noid.Tx.NativeIntentWire

/-! # The law of block payloads

What the readers of `BlockPayload` accept, reader by reader.  Building a payload from its own parts changes nothing
(`Made.new`), so the writer and the reader invert each other. -/

namespace Noid.Chain

open Noid.Lib Noid.Tx Noid.Node List NativeOpening

section
variable {H : NativeHash} {T : TradeHash} {hashPages : List TxPage → Digest} {P : ChainParams}

/-! ### Openings -/

lemma reads_nextOpening (previous : Option Address) :
    Reads (readNextOpening H previous) (fun o => NativeOpening.record (some o))
      (fun o => o.Carried ∧ ∀ old ∈ previous, old < H.root o) := by
  have hopening : Reads readOpening (fun o => record (some o)) NativeOpening.Carried :=
    reads_record _ _ _ _ fun _ _ hzero hmax _ => ⟨hzero, hmax⟩
  exact hopening.filter fun o => require_eq_ok

lemma reads_openings (count : ℕ) :
    Reads (readOpenings H count) (fun l => l.flatMap fun o => NativeOpening.record (some o))
      (fun l => l.length = count ∧ (∀ o ∈ l, o.Carried) ∧ (l.map H.root).Pairwise (· < ·)) := by
  have h := reads_chain (reads_nextOpening (H := H)) (fun _ o => some (H.root o)) count none
  simp only [chained_ascending] at h
  exact h

/-! ### Policies -/

/-- A policy that can come next: funded from the front of the claims, authorised behind the last. -/
structure PolicyNext (H : NativeHash) (T : TradeHash) (s : Option Digest × List NativeInputClaim)
    (e : Digest × TradeIntent) : Prop where
  fits : e.2.policy.Fits
  id : e.2.authorizationId H T = .ok e.1
  funded : e.2.funding <+: s.2
  behind : ∀ old ∈ s.1, old < e.1

lemma reads_policyNext (s : Option Digest × List NativeInputClaim) :
    Reads (readPolicy H T s) (fun e => policyHeader e.2.policy e.2.funding.length) (PolicyNext H T s) := by
  refine ⟨fun e rest h => ?_, fun src e rest h => ?_⟩
  · obtain ⟨totals, hvalid, -⟩ := bind_eq_ok.mp h.id
    obtain ⟨hpolicy, hcount, -⟩ := TradeIntent.validateStructure_inv hvalid
    have hheader := decodePolicyHeader_eq_ok.mpr ⟨⟨⟨h.fits, hpolicy⟩, hcount⟩, rfl⟩
    have hfunding : s.2.take e.2.funding.length = e.2.funding := (prefix_iff_eq_take.mp h.funded).symm
    rw [readPolicy, Reader.bind_of_ok (run_take _ (length_policyHeader _ _)),
      Reader.bind_of_ok (Reader.lift_of_ok (mapError_eq_ok.mpr hheader)),
      Reader.run_require_bind _ h.funded.length_le]
    simp only [hfunding]
    rw [Reader.bind_of_ok (Reader.lift_of_ok (mapError_eq_ok.mpr h.id)), Reader.run_require_bind _ h.behind]
    rfl
  · simp only [readPolicy, (reads_take _ _).bind_eq_ok, Reader.ok_rules, mapError_eq_ok, Prod.exists,
      decodePolicyHeader_eq_ok] at h
    obtain ⟨_, _, ⟨-, rfl⟩, policy, count, ⟨⟨⟨hfits, -⟩, -⟩, rfl⟩, hcount, id, hid, hbehind, rfl, rfl⟩ := h
    have hlen : (s.2.take count).length = count := length_take_of_le hcount
    exact ⟨⟨hfits, hid, take_prefix _ _, hbehind⟩, by rw [hlen]⟩

lemma chained_policies : ∀ {l : List (Digest × TradeIntent)} {s : Option Digest × List NativeInputClaim},
    Lib.Chained nextPolicy (PolicyNext H T) s l ↔ (∀ e ∈ l, e.2.policy.Fits ∧ e.2.authorizationId H T = .ok e.1) ∧
        (l.flatMap fun e => e.2.funding) <+: s.2 ∧ (s.1.toList ++ l.map Prod.fst).Pairwise (· < ·)
  | [], s => by
    obtain ⟨previous, claims⟩ := s
    cases previous <;> simp [Lib.Chained]
  | e :: l, s => by
    have hprefix : e.2.funding ++ (l.flatMap fun e => e.2.funding) <+: s.2 ↔
        e.2.funding <+: s.2 ∧ (l.flatMap fun e => e.2.funding) <+: s.2.drop e.2.funding.length := by
      constructor
      · rintro ⟨rest, hrest⟩
        rw [← hrest, append_assoc, drop_left]
        exact ⟨prefix_append _ _, prefix_append _ _⟩
      · rintro ⟨⟨mid, hmid⟩, rest, hrest⟩
        rw [← hmid, drop_left] at hrest
        exact ⟨rest, by rw [append_assoc, hrest, hmid]⟩
    rw [Lib.Chained, chained_policies, forall_mem_cons, flatMap_cons, hprefix, map_cons, ascending_cons]
    constructor
    · rintro ⟨h, hall, hfunded, hsorted⟩
      exact ⟨⟨⟨h.fits, h.id⟩, hall⟩, ⟨h.funded, hfunded⟩, h.behind, hsorted⟩
    · rintro ⟨⟨⟨hfits, hid⟩, hall⟩, ⟨hfirst, hfunded⟩, hbehind, hsorted⟩
      exact ⟨⟨hfits, hid, hfirst, hbehind⟩, hall, hfunded, hsorted⟩

/-! ### Batches -/

/-- A batch with its commitment: it spends the claims of its group, the first of which is its parent. -/
structure BatchOk (H : NativeHash) (T : TradeHash) (sources : SourceMap) (payloads : NativeRecords)
    (e : Digest × TradeBatch) : Prop where
  root : e.2.root H T = .ok e.1
  claims : ∃ claims, sources.lookup e.1 = some claims ∧ e.2.inputs H T = .ok claims ∧
    tradeParent H claims payloads = .ok e.2.parent

/-- The fields fit their types. -/
structure BatchFits (e : Digest × TradeBatch) : Prop where
  root : IsDigest e.1
  policies : ∀ i ∈ e.2.policies, i.policy.Fits

/-- What the writer writes for a batch. -/
def batchRecord (e : Digest × TradeBatch) : Bytes :=
  beBytes 32 e.1 ++ leBytes 2 e.2.policies.length ++ zeros 2 ++
    e.2.policies.flatMap fun i => policyHeader i.policy i.funding.length

structure BatchNext (H : NativeHash) (T : TradeHash) (sources : SourceMap) (payloads : NativeRecords)
    (s : Option Digest × ℕ) (e : Digest × TradeBatch) : Prop where
  ok : BatchOk H T sources payloads e
  fits : BatchFits e
  spare : e.2.policies.length ≤ s.2
  behind : ∀ old ∈ s.1, old < e.1

section
variable {sources : SourceMap} {payloads : NativeRecords}

lemma tradeParent_eq_ok {claims : List NativeInputClaim} {parent : TradeParent}
    (h : tradeParent H claims payloads = .ok parent) : ∃ rest c, claims = c :: rest ∧ parent.claim H = .ok c := by
  simp only [tradeParent, ok_rules] at h
  obtain ⟨_, hhead, market, -, c, hclaim, rfl, rfl⟩ := h
  obtain ⟨rest, rfl⟩ := head?_eq_some_iff.mp hhead
  exact ⟨rest, c, rfl, hclaim⟩

lemma inputs_eq_ok {b : TradeBatch} {claims : List NativeInputClaim} : b.inputs H T = .ok claims ↔
    b.validateStructure H T = .ok () ∧ ∃ c, b.parent.claim H = .ok c ∧ claims = c :: b.policies.flatMap (·.funding) := by
  simp only [TradeBatch.inputs, ok_rules]
  constructor
  · rintro ⟨⟨⟩, hvalid, c, hc, rfl⟩
    exact ⟨hvalid, c, hc, rfl⟩
  · rintro ⟨hvalid, c, hc, rfl⟩
    exact ⟨(), hvalid, c, hc, rfl⟩

lemma BatchOk.structured {e : Digest × TradeBatch} (h : BatchOk H T sources payloads e) :
    TradeBatch.Structured H T e.2 := by
  obtain ⟨claims, -, hinputs, -⟩ := h.claims
  exact TradeBatch.validateStructure_inv (inputs_eq_ok.mp hinputs).1

lemma new_ascending {parent : TradeParent} {l : List (Digest × TradeIntent)} {b : TradeBatch}
    (hids : ∀ e ∈ l, e.2.authorizationId H T = .ok e.1) (hsorted : (l.map Prod.fst).Pairwise (· < ·)) :
    TradeBatch.new H T parent (l.map Prod.snd) = .ok b ↔
      b = ⟨parent, l.map Prod.snd⟩ ∧ b.validateStructure H T = .ok () := by
  have hkeyed : (l.map Prod.snd).mapM (TradeBatch.keyed H T) = .ok l := by
    rw [mapM_eq_ok, forall₂_map_left_iff, forall₂_same]
    exact fun e he => (bind_of_ok (hids e he)).trans rfl
  have hsort : l.insertionSort (fun a b => a.1 ≤ b.1) = l :=
    (pairwise_map.mp hsorted |>.imp le_of_lt).insertionSort_eq
  simp only [TradeBatch.new, ok_rules, hkeyed, Except.ok.injEq, exists_eq_left', hsort]
  constructor
  · rintro ⟨-, ⟨⟩, hvalid, rfl⟩
    exact ⟨rfl, hvalid⟩
  · rintro ⟨rfl, hvalid⟩
    obtain ⟨hpos, hle⟩ := (TradeBatch.validateStructure_inv hvalid).count
    exact ⟨⟨length_pos_iff.mp hpos, hle⟩, (), hvalid, rfl⟩

lemma exists_keyed {policies : List TradeIntent} {ids : List Digest}
    (h : policies.mapM (TradeIntent.authorizationId H T) = .ok ids) :
    ∃ l : List (Digest × TradeIntent), l.map Prod.snd = policies ∧ l.map Prod.fst = ids ∧
      ∀ e ∈ l, e.2.authorizationId H T = .ok e.1 := by
  have hall := mapM_eq_ok.mp h
  clear h
  induction hall with
  | nil => exact ⟨[], rfl, rfl, fun _ he => by cases he⟩
  | cons hid _ ih =>
    obtain ⟨l, rfl, rfl, hl⟩ := ih
    exact ⟨(_, _) :: l, rfl, rfl, forall_mem_cons.mpr ⟨hid, hl⟩⟩

lemma reads_batchNext (sources : SourceMap) (payloads : NativeRecords) (s : Option Digest × ℕ) :
    Reads (readBatch H T sources payloads s) batchRecord (BatchNext H T sources payloads s) := by
  have hdigest : Reads (takeBe BlockBodyPayloadError.encoding 32) (beBytes 32) IsDigest := reads_be _ 32
  have hpolicies : ∀ (count : ℕ) (claims : List NativeInputClaim), Reads (readChain (readPolicy H T) nextPolicy
      (none, claims) count) (fun l => l.flatMap fun e => policyHeader e.2.policy e.2.funding.length) fun l =>
        l.length = count ∧ (∀ e ∈ l, e.2.policy.Fits ∧ e.2.authorizationId H T = .ok e.1) ∧
          (l.flatMap fun e => e.2.funding) <+: claims ∧ (l.map Prod.fst).Pairwise (· < ·) := by
    intro count claims
    have h := reads_chain (reads_policyNext (H := H) (T := T)) nextPolicy count (none, claims)
    simp only [chained_policies] at h
    exact h
  refine .of_iff fun src ⟨root, parent, policies⟩ rest => ?_
  simp only [readBatch, batchRecord, append_assoc, hdigest.bind_eq_ok, (reads_le _ _).bind_eq_ok, Nat.reduceMul, Reader.ok_rules,
    (reads_take _ _).bind_eq_ok, ok_rules, (hpolicies _ _).bind_eq_ok, existsAndEq, Prod.mk.injEq, true_and, and_true]
  constructor
  · rintro ⟨claims, _, l, ⟨hroot, rfl⟩, -, ⟨-, hspare⟩, -, ⟨hbehind, -⟩, hsource, hparent, ⟨hl, hfunded, hsorted⟩, hcount, hnew,
      hactual⟩
    obtain ⟨hb, hvalid⟩ := (new_ascending (fun e he => (hl e he).2) hsorted).mp hnew
    cases hb
    obtain ⟨claims, c, rfl, hc⟩ := tradeParent_eq_ok hparent
    -- the funding takes up all the claims behind the parent's
    have hall : (l.flatMap fun e => e.2.funding) = claims := by
      refine hfunded.eq_of_length ?_
      rw [length_cons] at hcount
      rw [length_flatMap, tail_cons]
      omega
    have hinputs : TradeBatch.inputs H T ⟨parent, l.map Prod.snd⟩ = .ok (c :: claims) :=
      inputs_eq_ok.mpr ⟨hvalid, c, hc, by rw [flatMap_map, hall]⟩
    refine ⟨⟨⟨hactual, c :: claims, hsource, hinputs, hparent⟩, ⟨hroot, forall_mem_map.mpr fun e he => (hl e he).1⟩, ?_,
      hbehind⟩, by simp only [flatMap_map, length_map]⟩
    rwa [length_map]
  · rintro ⟨h, rfl⟩
    obtain ⟨claims, hsource, hinputs, hparent⟩ := h.ok.claims
    have hstructured := h.ok.structured
    obtain ⟨ids, hids, hsorted⟩ := hstructured.ids
    obtain ⟨l, rfl, rfl, hkeys⟩ := exists_keyed hids
    obtain ⟨hvalid, c, hc, rfl⟩ := inputs_eq_ok.mp hinputs
    obtain ⟨hpos, hle⟩ := hstructured.count
    have hspare := h.spare
    simp only [length_map, flatMap_map] at hpos hle hspare hsource hparent ⊢
    refine ⟨_, parent, l, ⟨h.fits.root, rfl⟩, lt_of_le_of_lt hle (by decide), ⟨Nat.ne_of_gt hpos, hspare⟩, length_zeros 2,
      ⟨h.behind, ?_⟩, hsource, hparent, ⟨fun e he => ⟨h.fits.policies _ (mem_map_of_mem he), hkeys e he⟩, prefix_rfl, hsorted⟩, ?_,
      (new_ascending hkeys hsorted).mpr ⟨rfl, hvalid⟩, h.ok.root⟩
    · simp only [length_append, length_flatMap, length_policyHeader, map_const', sum_replicate_nat]
      exact Nat.le_add_right _ _
    · rw [length_cons, length_flatMap, Nat.add_comm]

lemma chained_batches : ∀ {l : List (Digest × TradeBatch)} {s : Option Digest × ℕ},
    Lib.Chained nextBatch (BatchNext H T sources payloads) s l ↔
      (∀ e ∈ l, BatchOk H T sources payloads e ∧ BatchFits e) ∧
        (l.map fun e => e.2.policies.length).sum ≤ s.2 ∧ (s.1.toList ++ l.map Prod.fst).Pairwise (· < ·)
  | [], s => by
    obtain ⟨previous, spare⟩ := s
    cases previous <;> simp [Lib.Chained]
  | e :: l, s => by
    rw [Lib.Chained, chained_batches, forall_mem_cons, map_cons, map_cons, sum_cons, ascending_cons]
    simp only [nextBatch]
    constructor
    · rintro ⟨h, hall, hspare, hsorted⟩
      have hle := h.spare
      exact ⟨⟨⟨h.ok, h.fits⟩, hall⟩, by omega, h.behind, hsorted⟩
    · rintro ⟨⟨⟨hok, hfits⟩, hall⟩, hspare, hbehind, hsorted⟩
      exact ⟨⟨hok, hfits, by omega, hbehind⟩, hall, by omega, hsorted⟩

/-- The map of the supplied batches: each stands once, under its commitment. -/
theorem keyBatches_eq_ok : ∀ {l : List TradeBatch} {keyed keyed' : SortedMap Digest TradeBatch} {count : ℕ},
    count ≤ MAX_BLOCK_TRADE_POLICIES →
    (keyBatches H T sources payloads keyed count l = .ok keyed' ↔
      ∃ es, es.map Prod.snd = l ∧ (∀ e ∈ es, BatchOk H T sources payloads e) ∧
        keyed'.entries.Perm (keyed.entries ++ es) ∧
        count + (es.map fun e => e.2.policies.length).sum ≤ MAX_BLOCK_TRADE_POLICIES)
  | [], keyed, keyed', count, hcount => by
    simp only [keyBatches, Except.ok.injEq]
    constructor
    · rintro rfl
      exact ⟨[], rfl, by simp, by simp, hcount⟩
    · rintro ⟨es, hes, -, hperm, -⟩
      rw [map_eq_nil_iff.mp hes, append_nil] at hperm
      exact (SortedMap.eq_of_perm hperm).symm
  | b :: l, keyed, keyed', count, hcount => by
    simp only [keyBatches, ok_rules]
    constructor
    · rintro ⟨hle, root, hroot, claims, hclaims, _, hinputs, rfl, _, hparent, ⟨rfl, hnone⟩, hrest⟩
      obtain ⟨es, rfl, hes, hperm, hsum⟩ := (keyBatches_eq_ok hle).mp hrest
      refine ⟨(root, b) :: es, rfl, forall_mem_cons.mpr ⟨⟨hroot, _, hclaims, hinputs, hparent⟩, hes⟩, ?_, ?_⟩
      · have hinsert := (SortedMap.insertEntry_perm (v := b) (SortedMap.lookup_eq_none.mp hnone)).append_right es
        exact hperm.trans (hinsert.trans perm_middle.symm)
      · simp only [map_cons, sum_cons]
        omega
    · rintro ⟨es, hes, hok, hperm, hsum⟩
      obtain ⟨⟨root, b'⟩, es, rfl, rfl, rfl⟩ := map_eq_cons_iff.mp hes
      obtain ⟨⟨hroot, claims, hclaims, hinputs, hparent⟩, hok⟩ := forall_mem_cons.mp hok
      simp only [map_cons, sum_cons] at hsum
      have hmiddle := hperm.trans perm_middle
      have hfresh : root ∉ keyed.entries.map Prod.fst := by
        have hnodup := (hmiddle.map Prod.fst).nodup_iff.mp keyed'.keys_nodup
        intro hmem
        exact (nodup_cons.mp hnodup).1 (by rw [map_append]; exact mem_append_left _ hmem)
      have hinsert := (SortedMap.insertEntry_perm (v := b') hfresh).append_right es
      have hle : count + b'.policies.length ≤ MAX_BLOCK_TRADE_POLICIES := by omega
      refine ⟨hle, root, hroot, claims, hclaims, claims, hinputs, rfl, b'.parent, hparent,
        ⟨rfl, SortedMap.lookup_eq_none.mpr hfresh⟩, ?_⟩
      exact (keyBatches_eq_ok hle).mpr ⟨es, rfl, hok, hmiddle.trans hinsert.symm, by omega⟩

end

/-- The batches of a block in the order of their commitments. -/
structure BatchesOk (H : NativeHash) (T : TradeHash) (hashPages : List TxPage → Digest) (P : ChainParams) (b : Block)
    (payloads : NativeRecords) (es : List (Digest × TradeBatch)) : Prop where
  sorted : (es.map Prod.fst).Pairwise (· < ·)
  policies : (es.map fun e => e.2.policies.length).sum ≤ MAX_BLOCK_TRADE_POLICIES
  count : es.length ≤ MAX_BLOCK_TRADE_POLICIES
  ok : ∃ sources, tradeSources hashPages P b payloads = .ok sources ∧ sources.keys.length = es.length ∧
    ∀ e ∈ es, BatchOk H T sources payloads e

section
variable {b : Block} {payloads : NativeRecords}
variable {l : List TradeBatch} {es : List (Digest × TradeBatch)} {g : BlockSpendGroup}

lemma canonicalTradeBatches_inv {l' : List TradeBatch}
    (h : canonicalTradeBatches H T hashPages P b payloads l = .ok l') :
    ∃ es, BatchesOk H T hashPages P b payloads es ∧ l' = es.map Prod.snd ∧ l'.Perm l := by
  simp only [canonicalTradeBatches, ok_rules] at h
  obtain ⟨sources, hsources, ⟨hkeys, hle⟩, keyed, hkeyed, rfl⟩ := h
  obtain ⟨es, rfl, hok, hperm, hsum⟩ := (keyBatches_eq_ok (Nat.zero_le _)).mp hkeyed
  rw [SortedMap.empty_entries, nil_append] at hperm
  rw [length_map, ← hperm.length_eq] at hkeys hle
  refine ⟨keyed.entries, ⟨pairwise_map.mpr keyed.sorted, ?_, hle, sources, hsources, hkeys, fun e he => ?_⟩, rfl,
    hperm.map Prod.snd⟩
  · rw [(hperm.map _).sum_eq]
    omega
  · exact hok e (hperm.mem_iff.mp he)

lemma BatchesOk.canonical (h : BatchesOk H T hashPages P b payloads es) :
    canonicalTradeBatches H T hashPages P b payloads (es.map Prod.snd) = .ok (es.map Prod.snd) := by
  obtain ⟨sources, hsources, hkeys, hok⟩ := h.ok
  have hkeyed : keyBatches H T sources payloads .empty 0 (es.map Prod.snd) = .ok ⟨es, pairwise_map.mp h.sorted⟩ :=
    (keyBatches_eq_ok (Nat.zero_le _)).mpr ⟨es, rfl, hok, .refl _, by rw [Nat.zero_add]; exact h.policies⟩
  have hlen : sources.keys.length = (es.map Prod.snd).length ∧ (es.map Prod.snd).length ≤ MAX_BLOCK_TRADE_POLICIES := by
    rw [length_map]
    exact ⟨hkeys, h.count⟩
  rw [canonicalTradeBatches, bind_of_ok hsources, require_bind hlen, bind_of_ok hkeyed]
  rfl

lemma length_batchRecord (e : Digest × TradeBatch) :
    (batchRecord e).length = BATCH_PREFIX_BYTES + e.2.policies.length * TRADE_INTENT_FIXED_BYTES := by
  simp only [batchRecord, length_append, length_beBytes, length_leBytes, length_zeros, length_flatMap,
    length_policyHeader, map_const', sum_replicate_nat]
  rfl

lemma decodeTradeBatches_eq_ok {count : ℕ} {src rest : Bytes} :
    (decodeTradeBatches H T hashPages P b payloads count).run src = .ok (l, rest) ↔
      ∃ es, (BatchesOk H T hashPages P b payloads es ∧ ∀ e ∈ es, BatchFits e) ∧ (es.length = count ∧ count ≠ 0) ∧
        l = es.map Prod.snd ∧ src = es.flatMap batchRecord ++ rest := by
  have hread : ∀ sources, Reads (readChain (readBatch H T sources payloads) nextBatch (none, MAX_BLOCK_TRADE_POLICIES)
      count) (fun l => l.flatMap batchRecord) fun l => l.length = count ∧
        (∀ e ∈ l, BatchOk H T sources payloads e ∧ BatchFits e) ∧
        (l.map fun e => e.2.policies.length).sum ≤ MAX_BLOCK_TRADE_POLICIES ∧ (l.map Prod.fst).Pairwise (· < ·) := by
    intro sources
    have h := reads_chain (reads_batchNext (H := H) (T := T) sources payloads) nextBatch count
      (none, MAX_BLOCK_TRADE_POLICIES)
    simp only [chained_batches] at h
    exact h
  simp only [decodeTradeBatches, Reader.ok_rules, (hread _).bind_eq_ok]
  constructor
  · rintro ⟨⟨hzero, hle⟩, -, sources, hsources, hkeys, es, _, ⟨⟨rfl, hes, hsum, hsorted⟩, rfl⟩, rfl, rfl⟩
    exact ⟨es, ⟨⟨hsorted, hsum, hle, sources, hsources, hkeys, fun e he => (hes e he).1⟩, fun e he => (hes e he).2⟩,
      ⟨rfl, hzero⟩, rfl, rfl⟩
  · rintro ⟨es, ⟨h, hfits⟩, ⟨rfl, hzero⟩, rfl, rfl⟩
    obtain ⟨sources, hsources, hkeys, hok⟩ := h.ok
    have hlen : es.length * (BATCH_PREFIX_BYTES + TRADE_INTENT_FIXED_BYTES) ≤ (es.flatMap batchRecord ++ rest).length := by
      refine le_trans (le_length_flatMap fun e he => ?_) (length_append ▸ Nat.le_add_right _ _)
      rw [length_batchRecord]
      exact Nat.add_le_add_left (Nat.le_mul_of_pos_left _ (hok e he).structured.count.1) _
    exact ⟨⟨hzero, h.count⟩, hlen, sources, hsources, hkeys, es, rest,
      ⟨⟨rfl, fun e he => ⟨hok e he, hfits e he⟩, h.policies, h.sorted⟩, rfl⟩, rfl, rfl⟩

/-! ### The openings of a block -/

lemma parseGroups_native {height : ℕ} {facts : NativePageFacts} (hkind : g.kind = .native facts) :
    ∀ {pages : List (List TxBody)} {cursor : ℕ} {groups : List BlockSpendGroup},
      parseGroups hashPages P height cursor pages = .ok groups → g ∈ groups → P.v21Active height = true
  | [], _, _, h, hg => by
    cases h
    cases hg
  | page :: pages, cursor, groups, h, hg => by
    simp only [parseGroups, ok_rules] at h
    obtain ⟨hactive, kind, hspend, rest, hrest, rfl⟩ := h
    rcases mem_cons.mp hg with rfl | hg
    · refine hactive.resolve_left fun hordinary => ?_
      rw [spendKind, hordinary, if_neg Bool.false_ne_true] at hspend
      obtain ⟨_, -, hpure⟩ := bind_eq_ok.mp hspend
      cases (pure_eq_ok.mp hpure).trans hkind
    · exact parseGroups_native hkind hrest hg

lemma scheduled_native {txs : List TxBody} {height : ℕ} {groups : List BlockSpendGroup}
    {facts : NativePageFacts} (h : validateScheduledBlockPageStream hashPages P txs height = .ok groups) (hg : g ∈ groups)
    (hkind : g.kind = .native facts) : P.v21Active height = true := by
  simp only [validateScheduledBlockPageStream, ok_rules] at h
  obtain ⟨_, hgroups, -, -, rfl⟩ := h
  unfold scheduledGroups at hgroups
  split_ifs at hgroups with hflags
  · simp only [validateBlockPageStreamAt, parseUserGroups, ok_rules] at hgroups
    obtain ⟨_, ⟨-, _, -, -, -, _, -, _, hparse, -, -, -, _, -, rfl⟩, rfl⟩ := hgroups
    exact parseGroups_native hkind hparse hg
  · simp only [ok_rules] at hgroups
    obtain ⟨facts', -, rfl⟩ := hgroups
    obtain ⟨_, -, rfl⟩ := mem_map.mp hg
    cases hkind

lemma BlockSpendGroup.native_of_root (txs : List TxBody) {k : Address}
    (h : k ∈ g.openingRoots txs ∨ k ∈ g.operandRoots) : ∃ facts, g.kind = .native facts := by
  cases hkind : g.kind with
  | native facts => exact ⟨facts, rfl⟩
  | ordinary facts =>
    rw [openingRoots, operandRoots, hkind] at h
    exact absurd h (by simp)

/-- The openings of a block in the order of their roots. -/
structure OpeningsOk (H : NativeHash) (hashPages : List TxPage → Digest) (P : ChainParams) (b : Block)
    (payloads : NativeRecords) : Prop where
  made : canonicalOpeningMap H hashPages P b payloads.values = .ok payloads
  sorted : (payloads.values.map H.root).Pairwise (· < ·)
  valid : ∀ o ∈ payloads.values, o.validate = .ok ()
  count : payloads.values.length ≤ MAX_BLOCK_NATIVE_OPENINGS
  active : payloads.values ≠ [] → P.v21Active b.header.height = true

lemma canonicalOpeningMap_inv {supplied : List NativeOpening}
    (h : canonicalOpeningMap H hashPages P b supplied = .ok payloads) :
    OpeningsOk H hashPages P b payloads ∧ ∀ o, o ∈ payloads.values ↔ o ∈ supplied := by
  have hmade := h
  simp only [canonicalOpeningMap, ok_rules] at h
  obtain ⟨hcount, h⟩ := h
  split_ifs at h with hflags
  · simp only [ok_rules] at h
    obtain ⟨rfl, rfl⟩ := h
    exact ⟨⟨hmade, List.Pairwise.nil, forall_mem_nil _, Nat.zero_le _, fun hne => absurd rfl hne⟩, fun o => .rfl⟩
  · simp only [ok_rules] at h
    obtain ⟨groups, hgroups, l, hclosure, rfl⟩ := h
    obtain ⟨hmem, hsorted, hself, hresolve, hvalues⟩ := canonicalNativeClosure_closed hclosure
    have hle : l.length ≤ MAX_BLOCK_NATIVE_OPENINGS := by
      obtain ⟨⟨⟩, hle, -⟩ := bind_eq_ok.mp hself
      exact require_eq_ok.mp hle
    rw [hvalues]
    refine ⟨⟨?_, ?_, ?_, ?_, ?_⟩, hmem⟩ <;> rw [hvalues]
    · rw [canonicalOpeningMap, require_bind hle, if_neg hflags, mapError_bind hgroups, mapError_bind hself]
      rfl
    · exact hsorted
    · exact (resolveNativeClosure_dependencies hresolve).1
    · exact hle
    · intro hne
      obtain ⟨o, ho⟩ := exists_mem_of_ne_nil _ hne
      obtain ⟨k, hk, -⟩ := (resolveNativeClosure_roots hresolve _).mp (mem_map_of_mem ho)
      simp only [requiredNativeOpeningRoots, mem_append, mem_rootSet, mem_flatMap] at hk
      obtain ⟨g, hg, hk⟩ | ⟨g, hg, hk⟩ := hk
      · obtain ⟨facts, hkind⟩ := BlockSpendGroup.native_of_root b.transactions (.inl hk)
        exact scheduled_native hgroups hg hkind
      · obtain ⟨facts, hkind⟩ := BlockSpendGroup.native_of_root b.transactions (.inr hk)
        exact scheduled_native hgroups hg hkind

lemma tradeMarket_values {o : Option NativeOpening} {market : MarketStart}
    (h : tradeMarket payloads o = .ok market) : payloads.values ≠ [] := by
  have hvalues : ∀ {r o}, payloads.lookup r = some o → payloads.values ≠ [] :=
    fun hlookup => ne_nil_of_mem (SortedMap.mem_values.mpr ⟨_, hlookup⟩)
  unfold tradeMarket at h
  split at h
  · split at h
    · exact hvalues ‹_›
    · cases h
  · split at h
    · exact hvalues ‹_›
    · cases h
  · cases h

lemma BatchesOk.openings (h : BatchesOk H T hashPages P b payloads es) (hne : es ≠ []) : payloads.values ≠ [] := by
  obtain ⟨sources, -, -, hok⟩ := h.ok
  obtain ⟨e, he⟩ := exists_mem_of_ne_nil _ hne
  obtain ⟨claims, -, -, hparent⟩ := (hok e he).claims
  simp only [tradeParent, bind_eq_ok] at hparent
  obtain ⟨_, -, market, hmarket, -⟩ := hparent
  exact tradeMarket_values hmarket

/-! ### Framings -/

/-- What follows the magic of a framing. -/
def framed (blockBytes : Bytes) (openings : List NativeOpening) (es : List (Digest × TradeBatch)) : Bytes :=
  leBytes 4 blockBytes.length ++ leBytes 4 openings.length ++ (if es = [] then [] else leBytes 4 es.length) ++
    blockBytes ++ (openings.flatMap fun o => NativeOpening.record (some o)) ++ es.flatMap batchRecord

def frame (blockBytes : Bytes) (openings : List NativeOpening) (es : List (Digest × TradeBatch)) : Bytes :=
  if openings = [] ∧ es = [] then blockBytes
  else (if es = [] then NATIVE_BODY_MAGIC else TRADE_BODY_MAGIC) ++ framed blockBytes openings es

lemma encodeBody_frame {blockBytes : Bytes} (ho : OpeningsOk H hashPages P b payloads)
    (hb : BatchesOk H T hashPages P b payloads es) :
    encodeBodyWithTrades H T blockBytes payloads.values (es.map Prod.snd) = .ok (frame blockBytes payloads.values es) ∧
      encodedBodyLen blockBytes.length payloads.values (es.map Prod.snd) =
        .ok (frame blockBytes payloads.values es).length := by
  have hopening : ∀ o ∈ payloads.values, o.toBytes = .ok o.wireBytes :=
    fun o hv => toBytes_eq_ok.mpr ⟨ho.valid o hv, rfl⟩
  have hrecords : payloads.values.mapM encodeOpening =
      .ok (payloads.values.map fun o => record (some o)) :=
    mapM_eq_map fun o hv => (mapError_bind (hopening o hv)).trans rfl
  have hsizes : payloads.values.mapM (fun o => o.toBytes.mapError fun e => BlockBodyPayloadError.native (.opening e)) =
      .ok (payloads.values.map wireBytes) :=
    mapM_eq_map fun o hv => mapError_eq_ok.mpr (hopening o hv)
  obtain ⟨sources, -, -, hok⟩ := hb.ok
  have htrades : (es.map Prod.snd).mapM (encodeBatch H T) = .ok (es.map batchRecord) := by
    rw [mapM_eq_ok, forall₂_map_left_iff, forall₂_map_right_iff, forall₂_same]
    intro e he
    have hpolicies : e.2.policies.mapM (fun i =>
        (encodePolicyHeader i.policy i.funding.length).mapError fun _ => PayloadPanic.policy) =
        .ok (e.2.policies.map fun i => policyHeader i.policy i.funding.length) := by
      refine mapM_eq_map fun i hi => mapError_eq_ok.mpr ?_
      obtain ⟨totals, hvalid⟩ := (hok e he).structured.policies i hi
      obtain ⟨hpolicy, hcount, -⟩ := TradeIntent.validateStructure_inv hvalid
      exact (bind_of_ok hpolicy).trans ((require_bind hcount).trans rfl)
    exact (mapError_bind (hok e he).root).trans ((bind_of_ok hpolicies).trans rfl)
  have hlen : encodedBodyLen blockBytes.length payloads.values (es.map Prod.snd) =
      .ok (frame blockBytes payloads.values es).length := by
    have hopenings : ((payloads.values.map wireBytes).map fun r => 2 + r.length).sum =
        (payloads.values.flatMap fun o => record (some o)).length := by
      simp [length_flatMap, record, optBytes, Function.comp_def]
    have hbatches : encodedTradeBytes (es.map Prod.snd) = (es.flatMap batchRecord).length := by
      simp [encodedTradeBytes, length_flatMap, length_batchRecord, Function.comp_def]
    simp only [encodedBodyLen, frame, framed, map_eq_nil_iff]
    split_ifs with hnil hes
    · rfl
    all_goals
      rw [bind_of_ok hsizes, hopenings, hbatches]
      refine congrArg Except.ok ?_
      simp only [length_append, length_leBytes, NATIVE_BODY_MAGIC, TRADE_BODY_MAGIC, NATIVE_BODY_HEADER_BYTES,
        TRADE_BODY_HEADER_BYTES, length_cons, length_nil]
      omega
  refine ⟨?_, hlen⟩
  rw [encodeBodyWithTrades, hlen, frame, framed]
  simp only [map_eq_nil_iff, length_map, ← append_assoc]
  split_ifs with hnil
  · rfl
  all_goals
    rw [mapError_bind rfl, bind_of_ok hrecords, bind_of_ok htrades, ← flatMap_def, ← flatMap_def]
    rfl

/-- The framings begin differently. -/
theorem isPrefixOf_frame (b : Block) (openings : List NativeOpening) (es : List (Digest × TradeBatch)) :
    TRADE_BODY_MAGIC.isPrefixOf (frame b.wireBytes openings es) = decide (es ≠ []) ∧
      NATIVE_BODY_MAGIC.isPrefixOf (frame b.wireBytes openings es) = decide (openings ≠ [] ∧ es = []) := by
  unfold frame
  by_cases hes : es = []
  · by_cases ho : openings = []
    · rw [if_pos ⟨ho, hes⟩, hes, ho]
      exact ⟨rfl, rfl⟩
    · rw [if_neg fun h => ho h.1, if_pos hes]
      simp [hes, ho, NATIVE_BODY_MAGIC, TRADE_BODY_MAGIC, isPrefixOf]
  · rw [if_neg fun h => hes h.2, if_neg hes]
    simp [hes, NATIVE_BODY_MAGIC, TRADE_BODY_MAGIC, isPrefixOf]

structure CarriedBlock (hashPages : List TxPage → Digest) (P : ChainParams) (b : Block) : Prop where
  fits : b.Fits
  canonical : b.Canonical hashPages P
  system : SystemCanonical b.transactions

lemma length_wireBytes (b : Block) : b.wireBytes.length =
    BLOCK_WIRE_FIXED_OVERHEAD + b.transactions.length * TRANSACTION_WIRE_SIZE := by
  have hheader : (headerBytes b.header).length = BLOCK_HEADER_WIRE_SIZE := by
    simp only [headerBytes, length_append, length_leBytes, length_beBytes, Bytes32.wireBytes, length_map,
      b.header.difficultyTarget.isBytes.length]
    rfl
  simp only [Block.wireBytes, length_append, length_leBytes, hheader, length_flatMap, length_bodyBytes,
    map_const', sum_replicate_nat]
  rfl

lemma CarriedBlock.size (h : CarriedBlock hashPages P b) :
    b.transactions.length ≤ BLOCK_MAX_TXS ∧ b.wireBytes.length ≠ 0 ∧ b.wireBytes.length ≤ MAX_BLOCK_BYTES := by
  obtain ⟨⟨⟩, hle, -⟩ := bind_eq_ok.mp (Block.toBytes_ok h.canonical h.system)
  have hsize := require_eq_ok.mp hle
  rw [length_wireBytes]
  simp only [BLOCK_MAX_TXS, BLOCK_WIRE_FIXED_OVERHEAD, MAX_BLOCK_BYTES, BLOCK_HEADER_WIRE_SIZE,
    TRANSACTION_WIRE_SIZE] at hsize ⊢
  omega

lemma reads_batchCount (hasTrades : Bool) :
    Reads (BlockBodyPayload.readBatchCount hasTrades) (fun n => if hasTrades then leBytes 4 n else [])
      (fun n => if hasTrades then n ≠ 0 ∧ n ≤ MAX_BLOCK_TRADE_POLICIES else n = 0) := by
  refine .of_iff fun src n rest => ?_
  have hlt : n ≤ MAX_BLOCK_TRADE_POLICIES → n < 2 ^ 32 := fun h => lt_of_le_of_lt h (by decide)
  cases hasTrades with
  | false => exact Reader.pure_eq_ok.trans (by simp [eq_comm])
  | true =>
    simp only [BlockBodyPayload.readBatchCount, if_true, (reads_le _ _).bind_eq_ok, Nat.reduceMul, Reader.ok_rules, existsAndEq]
    tauto

lemma readTrades_eq_ok {hasTrades : Bool} {n : ℕ} {src rest : Bytes}
    (hn : if hasTrades then n ≠ 0 ∧ n ≤ MAX_BLOCK_TRADE_POLICIES else n = 0) :
    (BlockBodyPayload.readTrades H T hashPages P hasTrades b payloads n).run src = .ok (l, rest) ↔
      ∃ es, hasTrades = decide (es ≠ []) ∧ es.length = n ∧
        (es ≠ [] → BatchesOk H T hashPages P b payloads es ∧ ∀ e ∈ es, BatchFits e) ∧ l = es.map Prod.snd ∧
        src = es.flatMap batchRecord ++ rest := by
  cases hasTrades with
  | false =>
    obtain rfl : n = 0 := hn
    refine Reader.pure_eq_ok.trans ⟨?_, ?_⟩
    · rintro ⟨rfl, rfl⟩
      exact ⟨[], rfl, rfl, fun hne => absurd rfl hne, rfl, rfl⟩
    · rintro ⟨es, -, hzero, -, rfl, rfl⟩
      rw [eq_nil_of_length_eq_zero hzero]
      exact ⟨rfl, rfl⟩
  | true =>
    refine decodeTradeBatches_eq_ok.trans ⟨?_, ?_⟩
    · rintro ⟨es, hes, ⟨rfl, hpos⟩, rfl, rfl⟩
      exact ⟨es, (decide_eq_true (length_pos_iff.mp (Nat.pos_of_ne_zero hpos))).symm, rfl, fun _ => hes, rfl, rfl⟩
    · rintro ⟨es, hne, rfl, hes, rfl, rfl⟩
      exact ⟨es, hes (of_decide_eq_true hne.symm), ⟨rfl, hn.1⟩, rfl, rfl⟩

lemma decodeFramed_eq_ok {hasTrades : Bool} {src : Bytes} :
    (BlockBodyPayload.decodeFramed H T hashPages P hasTrades).run src = .ok ((b, payloads, l), []) ↔
      ∃ es, CarriedBlock hashPages P b ∧
        (OpeningsOk H hashPages P b payloads ∧ (∀ o ∈ payloads.values, o.Fits) ∧ payloads.values ≠ []) ∧
        hasTrades = decide (es ≠ []) ∧ (es ≠ [] → BatchesOk H T hashPages P b payloads es ∧ ∀ e ∈ es, BatchFits e) ∧
        l = es.map Prod.snd ∧ src = framed b.wireBytes payloads.values es := by
  simp only [BlockBodyPayload.decodeFramed, (reads_le _ _).bind_eq_ok, Nat.reduceMul, Reader.ok_rules,
    (reads_batchCount _).bind_eq_ok, (reads_take _ _).bind_eq_ok, mapError_eq_ok, Block.fromBytes_eq_ok,
    (reads_openings _).bind_eq_ok, existsAndEq, true_and, and_true]
  constructor
  · rintro ⟨n, b, openings, mid, ⟨-, rfl⟩, -, ⟨-, hzero, -⟩, hn, -, ⟨hfits, hcanonical, hsystem⟩, -, ⟨hcarried, hsorted⟩,
      payloads, hpayloads, hrun⟩
    obtain ⟨batches, _, htrades, hpure⟩ := Reader.bind_eq_ok.mp hrun
    obtain ⟨hsame, rfl⟩ := Reader.pure_eq_ok.mp hpure
    cases hsame
    obtain ⟨es, rfl, rfl, hes, rfl, rfl⟩ := (readTrades_eq_ok hn).mp htrades
    obtain ⟨hopenings, hmem⟩ := canonicalOpeningMap_inv hpayloads
    -- openings in the order of their roots are the values of the map
    obtain rfl : payloads.values = openings :=
      (pairwise_map.mp hopenings.sorted).eq_of_mem_iff (pairwise_map.mp hsorted) hmem
    refine ⟨es, ⟨hfits, hcanonical, hsystem⟩, ⟨hopenings, fun o ho => (hcarried o ho).1, fun hnil => hzero (by rw [hnil]; rfl)⟩,
      rfl, hes, rfl, ?_⟩
    by_cases hnil : es = [] <;> simp [framed, hnil]
  · rintro ⟨es, hb, ⟨hopenings, hofits, hne⟩, rfl, hbatches, rfl, rfl⟩
    obtain ⟨-, hsize⟩ := hb.size
    have hcount := hopenings.count
    have hnumber : if decide (es ≠ []) = true then es.length ≠ 0 ∧ es.length ≤ MAX_BLOCK_TRADE_POLICIES else es.length = 0 := by
      by_cases hes : es = []
      · simp [hes]
      · simpa [hes] using (hbatches hes).1.count
    have htrades := (readTrades_eq_ok hnumber).mpr ⟨es, rfl, rfl, hbatches, rfl, (append_nil _).symm⟩
    have hle : payloads.values.length * 2 ≤ (payloads.values.flatMap fun o => record (some o)).length :=
      le_length_flatMap fun o _ => by rw [record, length_append, length_leBytes]; omega
    refine ⟨es.length, b, payloads.values, es.flatMap batchRecord, ⟨lt_of_le_of_lt hsize.2 (by decide), ?_⟩,
      lt_of_le_of_lt hcount (by decide), ⟨hsize, fun hzero => hne (eq_nil_of_length_eq_zero hzero), hcount⟩, hnumber, ?_,
      ⟨hb.fits, hb.canonical, hb.system⟩, hopenings.active hne,
      ⟨fun o ho => ⟨hofits o ho, hopenings.valid o ho⟩, hopenings.sorted⟩, payloads, hopenings.made,
      Reader.bind_eq_ok.mpr ⟨_, _, htrades, rfl⟩⟩
    · by_cases hnil : es = [] <;> simp [framed, hnil]
    · rw [length_append, length_append]
      omega

end

/-! ### Payloads -/

namespace BlockBodyPayload

structure Made (H : NativeHash) (T : TradeHash) (hashPages : List TxPage → Digest) (P : ChainParams)
    (p : BlockBodyPayload) (payloads : NativeRecords) (es : List (Digest × TradeBatch)) : Prop where
  openings : OpeningsOk H hashPages P p.block payloads
  batches : BatchesOk H T hashPages P p.block payloads es
  size : p.block.transactions.length ≤ BLOCK_MAX_TXS
  length : (frame p.block.wireBytes payloads.values es).length ≤ MAX_BLOCK_BODY_PAYLOAD_BYTES
  eq : p = ⟨p.block, payloads.values, es.map Prod.snd⟩

variable {p : BlockBodyPayload} {payloads : NativeRecords} {es : List (Digest × TradeBatch)} {bytes : Bytes}

lemma newWithNativeData_inv {b : Block} {openings : List NativeOpening} {batches : List TradeBatch}
    (h : newWithNativeData H T hashPages P b openings batches = .ok p) :
    ∃ payloads, canonicalOpeningMap H hashPages P b openings = .ok payloads ∧
      canonicalTradeBatches H T hashPages P b payloads batches = .ok p.tradeBatches ∧ p.block = b ∧
      ∀ es, BatchesOk H T hashPages P b payloads es → p.tradeBatches = es.map Prod.snd →
        Made H T hashPages P p payloads es := by
  simp only [newWithNativeData, canonicalBlockWireLen, ok_rules] at h
  obtain ⟨_, ⟨hsize, rfl⟩, -, payloads, hpayloads, l, hbatches, n, hlen, hle, rfl⟩ := h
  refine ⟨payloads, hpayloads, hbatches, rfl, fun es hes hl => ?_⟩
  obtain rfl : l = es.map Prod.snd := hl
  obtain ⟨hopenings, -⟩ := canonicalOpeningMap_inv hpayloads
  rw [← length_wireBytes, (encodeBody_frame hopenings hes).2, Except.ok.injEq] at hlen
  exact ⟨hopenings, hes, hsize, hlen ▸ hle, rfl⟩

lemma batches_of_canonical {b : Block} {l : List TradeBatch} (hes : es ≠ [] → BatchesOk H T hashPages P b payloads es)
    (h : canonicalTradeBatches H T hashPages P b payloads (es.map Prod.snd) = .ok l) :
    BatchesOk H T hashPages P b payloads es ∧ l = es.map Prod.snd := by
  by_cases hnil : es = []
  · subst hnil
    obtain ⟨es', hok, rfl, hperm⟩ := canonicalTradeBatches_inv h
    obtain rfl : es' = [] := map_eq_nil_iff.mp hperm.eq_nil
    exact ⟨hok, rfl⟩
  · exact ⟨hes hnil, Except.ok.inj (h.symm.trans (hes hnil).canonical)⟩

/-- Building a payload from its own parts changes nothing. -/
theorem Made.new (h : Made H T hashPages P p payloads es) :
    newWithNativeData H T hashPages P p.block payloads.values (es.map Prod.snd) = .ok p := by
  have hsize : canonicalBlockWireLen p.block.transactions.length = .ok p.block.wireBytes.length := by
    rw [length_wireBytes]
    exact (require_bind h.size).trans rfl
  have hmax : p.block.wireBytes.length ≤ MAX_BLOCK_BYTES := by
    rw [length_wireBytes]
    exact Nat.add_le_add_left (Nat.mul_le_mul_right _ h.size) _
  rw [newWithNativeData, mapError_bind hsize, require_bind hmax,
    bind_of_ok h.openings.made, bind_of_ok h.batches.canonical, bind_of_ok (encodeBody_frame h.openings h.batches).2,
    require_bind h.length, h.eq]
  rfl

lemma Made.encode (h : Made H T hashPages P p payloads es) (hb : CarriedBlock hashPages P p.block) :
    p.encode H T hashPages P = .ok (frame p.block.wireBytes payloads.values es) := by
  rw [BlockBodyPayload.encode, mapError_bind (Block.toBytes_ok hb.canonical hb.system), h.eq]
  exact (encodeBody_frame h.openings h.batches).1

/-- The fields of the openings and the batches fit their types. -/
structure Fits (H : NativeHash) (T : TradeHash) (p : BlockBodyPayload) : Prop where
  openings : ∀ o ∈ p.nativeOpenings, o.Fits
  batches : ∀ b ∈ p.tradeBatches, ∀ r, b.root H T = .ok r → BatchFits (r, b)

/-- **The law of the format.** -/
theorem decode_eq_ok : decode H T hashPages P bytes = .ok p ↔ ∃ payloads es, Made H T hashPages P p payloads es ∧
    CarriedBlock hashPages P p.block ∧ ((∀ o ∈ payloads.values, o.Fits) ∧ ∀ e ∈ es, BatchFits e) ∧
      bytes = frame p.block.wireBytes payloads.values es := by
  constructor
  · intro h
    simp only [decode, ok_rules] at h
    obtain ⟨-, h⟩ := h
    by_cases hplain : TRADE_BODY_MAGIC.isPrefixOf bytes = false ∧ NATIVE_BODY_MAGIC.isPrefixOf bytes = false
    · rw [if_pos hplain] at h
      simp only [ok_rules, Block.fromBytes_eq_ok] at h
      obtain ⟨-, b, ⟨hfits, hcanonical, hsystem, rfl⟩, hnew⟩ := h
      obtain ⟨payloads, hopenings, hbatches, rfl, hmade⟩ := newWithNativeData_inv hnew
      have hvalues : payloads.values = [] :=
        eq_nil_iff_forall_not_mem.mpr fun o ho => by cases ((canonicalOpeningMap_inv hopenings).2 o).mp ho
      have hempty : ([] : List (Digest × TradeBatch)) ≠ [] → BatchesOk H T hashPages P p.block payloads [] :=
        fun hne => absurd rfl hne
      obtain ⟨hok, hl⟩ := batches_of_canonical hempty hbatches
      refine ⟨payloads, [], hmade [] hok hl, ⟨hfits, hcanonical, hsystem⟩, ?_, (if_pos ⟨hvalues, rfl⟩).symm⟩
      rw [hvalues]
      exact ⟨forall_mem_nil _, forall_mem_nil _⟩
    · rw [if_neg hplain] at h
      simp only [ok_rules, Prod.exists] at h
      obtain ⟨-, b, payloads, l, _, hread, rfl, hnew⟩ := h
      obtain ⟨es, hb, ⟨hopenings, hofits, hne⟩, htrades, hes, rfl, hsrc⟩ := decodeFramed_eq_ok.mp hread
      obtain ⟨payloads', hmap, hbatches, rfl, hmade⟩ := newWithNativeData_inv hnew
      obtain rfl : payloads = payloads' := Except.ok.inj (hopenings.made.symm.trans hmap)
      obtain ⟨hok, hl⟩ := batches_of_canonical (fun hne => (hes hne).1) hbatches
      have hbfits : ∀ e ∈ es, BatchFits e := fun e he => (hes (ne_nil_of_mem he)).2 e he
      refine ⟨payloads, es, hmade es hok hl, hb, ⟨hofits, hbfits⟩, ?_⟩
      rw [frame, if_neg fun hnil => hne hnil.1, ← hsrc]
      cases hmagic : TRADE_BODY_MAGIC.isPrefixOf bytes with
      | true =>
        obtain ⟨rest, rfl⟩ := isPrefixOf_iff_prefix.mp hmagic
        rw [if_neg (of_decide_eq_true (htrades.symm.trans hmagic))]
        rfl
      | false =>
        have hnative : NATIVE_BODY_MAGIC.isPrefixOf bytes = true := by simpa [hmagic] using hplain
        obtain ⟨rest, rfl⟩ := isPrefixOf_iff_prefix.mp hnative
        rw [if_pos (not_not.mp (of_decide_eq_false (htrades.symm.trans hmagic)))]
        rfl
  · rintro ⟨payloads, es, hmade, hb, ⟨hofits, hbfits⟩, rfl⟩
    have hsize := hb.size.2
    obtain ⟨htrade, hnative⟩ := isPrefixOf_frame p.block payloads.values es
    by_cases hnil : payloads.values = [] ∧ es = []
    · obtain ⟨hvalues, rfl⟩ := hnil
      have hframe : frame p.block.wireBytes payloads.values [] = p.block.wireBytes := if_pos ⟨hvalues, rfl⟩
      have hnew := hmade.new
      have hlength := hmade.length
      rw [hvalues, map_nil] at hnew
      rw [hframe] at htrade hnative hlength ⊢
      have hbounds : p.block.wireBytes ≠ [] ∧ p.block.wireBytes.length ≤ MAX_BLOCK_BODY_PAYLOAD_BYTES :=
        ⟨fun hzero => hsize.1 (congrArg length hzero), hlength⟩
      rw [decode, require_bind hbounds, if_pos ⟨htrade, by rw [hnative, hvalues]; rfl⟩,
        require_bind hsize.2, bind_of_ok (mapError_eq_ok.mpr
          (Block.fromBytes_eq_ok.mpr ⟨hb.fits, hb.canonical, hb.system, rfl⟩))]
      exact hnew
    · have hne : payloads.values ≠ [] := fun hvalues =>
        hmade.batches.openings (fun hes => hnil ⟨hvalues, hes⟩) hvalues
      have hdrop : (frame p.block.wireBytes payloads.values es).drop 4 = framed p.block.wireBytes payloads.values es := by
        rw [frame, if_neg hnil]
        split_ifs <;> rfl
      have hheader : (if decide (es ≠ []) then TRADE_BODY_HEADER_BYTES else NATIVE_BODY_HEADER_BYTES) ≤
          (frame p.block.wireBytes payloads.values es).length := by
        rw [frame, if_neg hnil, framed]
        by_cases hes : es = []
        · simp [hes, NATIVE_BODY_MAGIC, NATIVE_BODY_HEADER_BYTES]
          omega
        · simp [hes, TRADE_BODY_MAGIC, TRADE_BODY_HEADER_BYTES]
          omega
      have hbounds : frame p.block.wireBytes payloads.values es ≠ [] ∧
          (frame p.block.wireBytes payloads.values es).length ≤ MAX_BLOCK_BODY_PAYLOAD_BYTES := by
        refine ⟨fun hzero => ?_, hmade.length⟩
        rw [hzero] at hheader
        split_ifs at hheader <;> cases hheader
      have hread := decodeFramed_eq_ok.mpr ⟨es, hb, ⟨hmade.openings, hofits, hne⟩, rfl, fun _ => ⟨hmade.batches, hbfits⟩,
        rfl, rfl⟩
      simp only [decode, htrade, hnative, hdrop]
      rw [require_bind hbounds, if_neg (by simp [hne]), require_bind hheader, bind_of_ok hread]
      exact hmade.new

lemma Made.closure (h : Made H T hashPages P p payloads es) :
    (hasNativeFlags p.block.transactions = false ∧ p.nativeOpenings = []) ∨ ∃ groups,
      validateScheduledBlockPageStream hashPages P p.block.transactions p.block.header.height = .ok groups ∧
      ∀ r, r ∈ p.nativeOpenings.map H.root ↔
        ∃ k ∈ requiredNativeOpeningRoots p.block.transactions groups ++ groups.flatMap BlockSpendGroup.operandRoots,
          r = k ∨ ∃ o ∈ p.nativeOpenings, H.root o = k ∧ o.dependencyRoot = some r := by
  have hmade := h.openings.made
  rw [h.eq]
  simp only [canonicalOpeningMap, ok_rules] at hmade
  obtain ⟨-, hmade⟩ := hmade
  split_ifs at hmade with hflags
  · exact .inl ⟨hflags, (require_eq_ok.mp (bind_eq_ok.mp hmade).choose_spec.1)⟩
  · simp only [ok_rules] at hmade
    obtain ⟨groups, hgroups, l, hclosure, hby⟩ := hmade
    obtain ⟨-, hsorted, -, hresolve, hvalues⟩ := canonicalNativeClosure_closed hclosure
    obtain rfl : payloads.values = l := by rw [← hvalues, hby]
    have hinj : ∀ a ∈ payloads.values, ∀ b ∈ payloads.values, H.root a = H.root b → a = b :=
      fun a ha b hb => inj_on_of_nodup_map (hsorted.imp ne_of_lt) ha hb
    refine .inr ⟨groups, hgroups, fun r => (resolveNativeClosure_roots hresolve r).trans ?_⟩
    simp only [Needs, Option.bind_eq_some_iff, lookup_byRoot hinj, and_assoc]

/-- **The format of block payloads**: payloads are read back, accepted bytes are canonical, the three framings begin
differently, and the openings are exactly those required. -/
theorem payload_format (H : NativeHash) (T : TradeHash) (hashPages : List TxPage → Digest) (P : ChainParams) :
    (∀ b openings batches p, newWithNativeData H T hashPages P b openings batches = .ok p → p.Fits H T → b.Fits →
      b.Canonical hashPages P → SystemCanonical b.transactions →
      ∃ bytes, p.encode H T hashPages P = .ok bytes ∧ decode H T hashPages P bytes = .ok p) ∧
    (∀ bytes p, decode H T hashPages P bytes = .ok p → p.encode H T hashPages P = .ok bytes) ∧
    (∀ bytes p, decode H T hashPages P bytes = .ok p → (TRADE_BODY_MAGIC <+: bytes ↔ p.tradeBatches ≠ []) ∧
      (NATIVE_BODY_MAGIC <+: bytes ↔ p.nativeOpenings ≠ [] ∧ p.tradeBatches = []) ∧
      ((∃ b, Block.fromBytes hashPages P bytes = .ok b) ↔ p.nativeOpenings = [] ∧ p.tradeBatches = [])) ∧
    (∀ bytes p, decode H T hashPages P bytes = .ok p → (p.nativeOpenings.map H.root).Pairwise (· < ·) ∧
      ((hasNativeFlags p.block.transactions = false ∧ p.nativeOpenings = []) ∨ ∃ groups,
        validateScheduledBlockPageStream hashPages P p.block.transactions p.block.header.height = .ok groups ∧
        ∀ r, r ∈ p.nativeOpenings.map H.root ↔
          ∃ k ∈ requiredNativeOpeningRoots p.block.transactions groups ++ groups.flatMap BlockSpendGroup.operandRoots,
            r = k ∨ ∃ o ∈ p.nativeOpenings, H.root o = k ∧ o.dependencyRoot = some r)) := by
  refine ⟨fun b openings batches p h hfits hb hcanonical hsystem => ?_, fun bytes p h => ?_, fun bytes p h => ?_,
    fun bytes p h => ?_⟩
  · obtain ⟨payloads, -, hbatches, rfl, hmade⟩ := newWithNativeData_inv h
    obtain ⟨es, hes, hl, -⟩ := canonicalTradeBatches_inv hbatches
    have hmade := hmade es hes hl
    obtain ⟨sources, -, -, hok⟩ := hes.ok
    refine ⟨_, hmade.encode ⟨hb, hcanonical, hsystem⟩, decode_eq_ok.mpr ⟨payloads, es, hmade,
      ⟨hb, hcanonical, hsystem⟩, ⟨fun o ho => ?_, fun e he => ?_⟩, rfl⟩⟩
    · exact hfits.openings o (by rwa [hmade.eq])
    · exact hfits.batches e.2 (hl ▸ mem_map_of_mem he) e.1 (hok e he).root
  · obtain ⟨payloads, es, hmade, hb, -, rfl⟩ := decode_eq_ok.mp h
    exact hmade.encode hb
  · obtain ⟨payloads, es, hmade, hb, -, rfl⟩ := decode_eq_ok.mp h
    obtain ⟨htrade, hnative⟩ := isPrefixOf_frame p.block payloads.values es
    rw [← isPrefixOf_iff_prefix, ← isPrefixOf_iff_prefix, htrade, hnative, hmade.eq]
    simp only [decide_eq_true_eq, ne_eq, map_eq_nil_iff, true_and]
    constructor
    · rintro ⟨b, hread⟩
      have hframe : frame p.block.wireBytes payloads.values es = frame b.wireBytes [] [] :=
        (Block.fromBytes_eq_ok.mp hread).2.2.2.trans (if_pos ⟨rfl, rfl⟩).symm
      have hplain := isPrefixOf_frame b [] []
      rw [← hframe, htrade, hnative] at hplain
      simp only [ne_eq, not_true_eq_false, decide_false, decide_eq_false_iff_not, not_not, and_true] at hplain
      exact ⟨not_not.mp fun hne => hplain.2 ⟨hne, hplain.1⟩, hplain.1⟩
    · rintro hnil
      rw [frame, if_pos hnil]
      exact ⟨p.block, Block.fromBytes_eq_ok.mpr ⟨hb.fits, hb.canonical, hb.system, rfl⟩⟩
  · obtain ⟨payloads, es, hmade, -⟩ := decode_eq_ok.mp h
    exact ⟨by rw [hmade.eq]; exact hmade.openings.sorted, hmade.closure⟩

/-- A payload is built from a block whose coinbase pays a fee, and cannot be written. -/
theorem paidCoinbase_payload :
    newWithNativeData .plain .plain (fun _ => 0) ⟨none, 1⟩ Block.paidCoinbase [] [] = .ok ⟨Block.paidCoinbase, [], []⟩ ∧
      encode .plain .plain (fun _ => 0) ⟨none, 1⟩ ⟨Block.paidCoinbase, [], []⟩ =
        .error (.block .nonCanonicalBody) := by
  have hsize : canonicalBlockWireLen Block.paidCoinbase.transactions.length = .ok 540 := rfl
  refine ⟨?_, rfl⟩
  rw [newWithNativeData, hsize, mapError_bind rfl, require_bind (by decide +kernel)]
  rfl

/-- The openings of a transfer of tokens, by root. -/
def transferOpenings : List NativeOpening :=
  [NativeIntent.balanceOf 2 40, NativeIntent.balanceOf 1 60, NativeIntent.balanceOf 1 100]

/-- The payload of a block with the transfer; the openings are handed over in another order. -/
def transferPayload (i : NativeIntent) : Except BlockBodyPayloadError BlockBodyPayload :=
  newWithNativeData NativeIntent.unitsHash .plain (fun _ => 1) ⟨some 0, 1⟩ (Block.minedBlock i.pages)
    transferOpenings.reverse []

theorem payload_format_transfer : ∃ i p bytes, NativeIntent.transferLayout = .ok i ∧ transferPayload i = .ok p ∧
    p.encode NativeIntent.unitsHash .plain (fun _ => 1) ⟨some 0, 1⟩ = .ok bytes ∧
    decode NativeIntent.unitsHash .plain (fun _ => 1) ⟨some 0, 1⟩ bytes = .ok p ∧ NATIVE_BODY_MAGIC <+: bytes ∧
    (p.nativeOpenings.map NativeIntent.unitsHash.root).Pairwise (· < ·) := by
  have hlayout : ∀ i ∈ NativeIntent.transferLayout.toOption, (Block.minedBlock i.pages).Fits ∧
      hasNativePages (Block.minedBlock i.pages).transactions = true ∧
      (validateBlockPageStreamAt (fun _ => 1) ⟨some 0, 1⟩ (Block.minedBlock i.pages).transactions 5).isOk = true ∧
      (∀ tx ∈ (Block.minedBlock i.pages).transactions, tx.isCoinbase = true → tx.validateCanonical = .ok ()) ∧
      transferPayload i = .ok ⟨Block.minedBlock i.pages, transferOpenings, []⟩ := by
    decide +kernel
  have hopenings : ∀ o ∈ transferOpenings, o.Fits := by decide
  obtain ⟨i, hi⟩ := exists_ok_of_isOk (show NativeIntent.transferLayout.isOk = true by decide +kernel)
  rw [hi] at hlayout
  obtain ⟨hfits, hnative, hstream, hsystem, hnew⟩ := hlayout i rfl
  have hcanonical : (Block.minedBlock i.pages).Canonical (fun _ => 1) ⟨some 0, 1⟩ := by
    refine .inr ?_
    rw [CanonicalStream, if_pos hnative]
    exact exists_ok_of_isOk hstream
  obtain ⟨hmade, -, hmagic, hroots⟩ := payload_format NativeIntent.unitsHash .plain (fun _ => 1) ⟨some 0, 1⟩
  obtain ⟨bytes, hencode, hdecode⟩ := hmade _ _ _ _ hnew ⟨hopenings, by simp⟩ hfits hcanonical hsystem
  exact ⟨i, _, bytes, hi, hnew, hencode, hdecode, (hmagic _ _ hdecode).2.1.mpr ⟨cons_ne_nil _ _, rfl⟩, (hroots _ _ hdecode).1⟩

end BlockBodyPayload

end

end Noid.Chain
