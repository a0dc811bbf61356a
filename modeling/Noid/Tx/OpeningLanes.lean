import Noid.Lib.Bits
import Noid.Tx.NativeAssets
import Noid.Tx.Wire

/-! # Openings as lanes

An opening is hashed and transported as a list of 128-bit lanes.  Every kind has its own layout: `fields` writes it and
`fromFields` reads it back, with unused lanes and bits required to be zero, by a test or by encoding the result again. -/

namespace Noid.Tx

open Noid.Lib List

/-! ### Lanes -/

def pack (low high : ℕ) : ℕ := low ||| high <<< 64

/-- The low word of a lane. -/
def lo (lane : ℕ) : ℕ := lane % 2 ^ 64

/-- The high word of a lane. -/
def hi (lane : ℕ) : ℕ := (lane >>> 64) % 2 ^ 64

/-- The first lane of a digest. -/
def laneLow (d : Digest) : ℕ := ofLe ((beBytes 32 d).take 16)

def laneHigh (d : Digest) : ℕ := ofLe ((beBytes 32 d).drop 16)

def fieldsDigest (a b : ℕ) : Digest := ofBe (leBytes 16 a ++ leBytes 16 b)

/-- A number of one lane. -/
def IsLane (n : ℕ) : Prop := n < 2 ^ 128
deriving Decidable

def laneAt (f : List ℕ) (i : ℕ) : ℕ := f.getD i 0

/-- The digest at two lanes of a list. -/
def digestAt (f : List ℕ) (i : ℕ) : Digest := fieldsDigest (laneAt f i) (laneAt f (i + 1))

section
variable {a b n : ℕ} {d : Digest}

lemma pack_eq (h : IsU64 a) : pack a b = a + 2 ^ 64 * b := or_shiftLeft_of_lt h

lemma hi_eq (n : ℕ) : hi n = n / 2 ^ 64 % 2 ^ 64 := by rw [hi, Nat.shiftRight_eq_div_pow]

@[simp] lemma lo_pack (h : IsU64 a) : lo (pack a b) = a := by
  rw [pack_eq h, lo]
  rw [IsU64] at h
  omega

@[simp] lemma hi_pack (ha : IsU64 a) (hb : IsU64 b) : hi (pack a b) = b := by
  rw [pack_eq ha, hi_eq]
  rw [IsU64] at ha hb
  omega

@[simp] lemma mod_lt_u16 (n : ℕ) : IsU16 (n % 65536) := Nat.mod_lt _ (by decide)

@[simp] lemma lo_lt (n : ℕ) : IsU64 (lo n) := Nat.mod_lt _ (by decide)

@[simp] lemma hi_lt (n : ℕ) : IsU64 (hi n) := Nat.mod_lt _ (by decide)

@[simp] lemma pack_lo_hi (h : IsLane n) : pack (lo n) (hi n) = n := by
  rw [IsLane] at h
  rw [pack_eq (lo_lt n), lo, hi_eq]
  omega

@[simp] lemma isLane_of_lt (h : IsU64 n) : IsLane n := lt_trans h (by decide)

@[simp] lemma isLane_zero : IsLane 0 := isLane_of_lt (Nat.two_pow_pos 64)

@[simp] lemma isLane_pack (ha : IsU64 a) (hb : IsU64 b) : IsLane (pack a b) := by
  rw [pack_eq ha, IsLane]
  rw [IsU64] at ha hb
  omega

@[simp] lemma lo_of_lt (h : IsU64 a) : lo a = a := Nat.mod_eq_of_lt h

@[simp] lemma isLane_low (d : Digest) : IsLane (laneLow d) := by
  have h := ofLe_lt ((beBytes 32 d).take 16)
  rwa [length_take, length_beBytes] at h

@[simp] lemma isLane_high (d : Digest) : IsLane (laneHigh d) := by
  have h := ofLe_lt ((beBytes 32 d).drop 16)
  rwa [length_drop, length_beBytes] at h

@[simp] lemma fieldsDigest_lt (a b : ℕ) : IsDigest (fieldsDigest a b) := by
  have h := ofBe_lt (leBytes 16 a ++ leBytes 16 b)
  rwa [length_append, length_leBytes, length_leBytes] at h

@[simp] lemma fieldsDigest_lanes (h : IsDigest d) : fieldsDigest (laneLow d) (laneHigh d) = d := by
  have hlow := leBytes_ofLe ((beBytes 32 d).take 16)
  have hhigh := leBytes_ofLe ((beBytes 32 d).drop 16)
  change leBytes 16 _ = _ at hlow hhigh
  rw [fieldsDigest, laneLow, laneHigh, hlow, hhigh, take_append_drop, ofBe_beBytes h]

lemma beBytes_fieldsDigest (a b : ℕ) : beBytes 32 (fieldsDigest a b) = leBytes 16 a ++ leBytes 16 b := by
  have h := beBytes_ofBe (leBytes 16 a ++ leBytes 16 b)
  rwa [length_append, length_leBytes, length_leBytes] at h

@[simp] lemma laneLow_fieldsDigest (h : IsLane a) : laneLow (fieldsDigest a b) = a := by
  rw [laneLow, beBytes_fieldsDigest, take_left' (length_leBytes _ _), ofLe_leBytes h]

@[simp] lemma laneHigh_fieldsDigest (h : IsLane b) : laneHigh (fieldsDigest a b) = b := by
  rw [laneHigh, beBytes_fieldsDigest, drop_left' (length_leBytes _ _), ofLe_leBytes h]

@[simp] lemma digestAt_lt (f : List ℕ) (i : ℕ) : IsDigest (digestAt f i) := fieldsDigest_lt _ _

end

/-! ### Kinds -/

inductive NativeKind where
  | fungibleDefinition | tokenBalance | tokenReserve | nftCollection | nftItem | marketDefinition
  | marketPool | marketRequest | marketClaim | marketLiquidity | marketLiquidityDeposit
  | marketLiquidityWithdrawal | marketLiquidityClaim | marketLiquidityBurn | launchDefinition
  | launchState | launchRequest | nftListingDefinition | nftListing | nftPurchase | nftOffer
deriving DecidableEq, Repr

namespace NativeKind

def code : NativeKind → ℕ
  | .fungibleDefinition => 1
  | .tokenBalance => 2
  | .tokenReserve => 3
  | .nftCollection => 4
  | .nftItem => 5
  | .marketDefinition => 32
  | .marketPool => 33
  | .marketRequest => 34
  | .marketClaim => 35
  | .marketLiquidity => 36
  | .marketLiquidityDeposit => 37
  | .marketLiquidityWithdrawal => 38
  | .marketLiquidityClaim => 39
  | .marketLiquidityBurn => 40
  | .launchDefinition => 48
  | .launchState => 49
  | .launchRequest => 50
  | .nftListingDefinition => 64
  | .nftListing => 65
  | .nftPurchase => 66
  | .nftOffer => 67

def fromU16 : ℕ → Except NativeAssetError NativeKind
  | 1 => .ok .fungibleDefinition
  | 2 => .ok .tokenBalance
  | 3 => .ok .tokenReserve
  | 4 => .ok .nftCollection
  | 5 => .ok .nftItem
  | 32 => .ok .marketDefinition
  | 33 => .ok .marketPool
  | 34 => .ok .marketRequest
  | 35 => .ok .marketClaim
  | 36 => .ok .marketLiquidity
  | 37 => .ok .marketLiquidityDeposit
  | 38 => .ok .marketLiquidityWithdrawal
  | 39 => .ok .marketLiquidityClaim
  | 40 => .ok .marketLiquidityBurn
  | 48 => .ok .launchDefinition
  | 49 => .ok .launchState
  | 50 => .ok .launchRequest
  | 64 => .ok .nftListingDefinition
  | 65 => .ok .nftListing
  | 66 => .ok .nftPurchase
  | 67 => .ok .nftOffer
  | _ => .error .kind

def fieldCount : NativeKind → ℕ
  | .tokenBalance | .tokenReserve | .marketLiquidity => 6
  | .marketRequest | .marketClaim | .launchRequest | .nftPurchase => 12
  | _ => 8

/-- The domain tag of the root. -/
def tag : NativeKind → String
  | .fungibleDefinition => "NATDEF21"
  | .tokenBalance => "NATBAL21"
  | .tokenReserve => "NATRES21"
  | .nftCollection => "NATCOL21"
  | .nftItem => "NATNFT21"
  | .marketDefinition => "MKDEF_21"
  | .marketPool => "MKPOOL21"
  | .marketRequest => "MKREQ_21"
  | .marketClaim => "MKCLM_21"
  | .marketLiquidity => "MKLP__21"
  | .marketLiquidityDeposit => "MKLPIN21"
  | .marketLiquidityWithdrawal => "MKLPOU21"
  | .marketLiquidityClaim => "MKLPCM21"
  | .marketLiquidityBurn => "MKLPBN21"
  | .launchDefinition => "LNDEF_21"
  | .launchState => "LNSTAT21"
  | .launchRequest => "LNREQ_21"
  | .nftListingDefinition => "NMDEF_21"
  | .nftListing => "NMLIST21"
  | .nftPurchase => "NMBUY_21"
  | .nftOffer => "NMOFF_21"

/-- The kinds of the profile. -/
def enabled : NativeKind → Bool
  | .fungibleDefinition | .tokenBalance | .tokenReserve | .nftCollection | .nftItem | .marketDefinition | .marketPool
  | .marketRequest | .marketClaim | .launchDefinition | .launchState | .launchRequest | .nftListingDefinition
  | .nftListing => true
  | _ => false

lemma fromU16_code (k : NativeKind) : fromU16 k.code = .ok k := by cases k <;> rfl

lemma code_of_fromU16 {n : ℕ} {k : NativeKind} (h : fromU16 n = .ok k) : k.code = n := by
  unfold fromU16 at h
  split at h
  all_goals first
    | cases h; rfl
    | cases h

lemma code_lt (k : NativeKind) : k.code < 2 ^ 16 := by cases k <;> decide

lemma fieldCount_le (k : NativeKind) : k.fieldCount ≤ 12 := by cases k <;> decide

lemma length_take {f : List ℕ} (k : NativeKind) (h : f.length = 12) : (f.take k.fieldCount).length = k.fieldCount := by
  rw [List.length_take, h, min_eq_left k.fieldCount_le]

lemma tag_injective : Function.Injective tag := by
  intro k k' h
  revert h
  cases k <;> cases k' <;> decide

end NativeKind

/-! ### Layouts -/

def digestLanes (d : Digest) : List ℕ := [laneLow d, laneHigh d]

def IssuanceRoute.code : IssuanceRoute → ℕ
  | .standalone => 0
  | .launchpad => 1

def PoolPhase.code : PoolPhase → ℕ
  | .idle => 0
  | .frozen => 1

def LaunchSide.code : LaunchSide → ℕ
  | .buy => 0
  | .sell => 1

def phaseOf {ε : Type} (e : ε) : ℕ → Except ε PoolPhase
  | 0 => .ok .idle
  | 1 => .ok .frozen
  | _ => .error e

def sideOf {ε : Type} (e : ε) : ℕ → Except ε LaunchSide
  | 0 => .ok .buy
  | 1 => .ok .sell
  | _ => .error e

@[simp] lemma LaunchSide.code_lt (side : LaunchSide) : IsU64 side.code := by
  unfold IsU64
  cases side <;> decide

@[simp] lemma sideOf_pack {ε : Type} (e : ε) {word : ℕ} (h : IsU64 word) (side : LaunchSide) :
    sideOf e (pack word side.code >>> 64) = .ok side := by
  have hcode : pack word side.code >>> 64 = side.code := by
    rw [pack_eq h, Nat.shiftRight_eq_div_pow]
    rw [IsU64] at h
    omega
  rw [hcode]
  cases side <;> rfl

/-- A word, a 16-bit count, a phase and a flag in one lane. -/
def packPhase (word count : ℕ) (phase : PoolPhase) (flag : Bool) : ℕ :=
  word ||| count <<< 64 ||| phase.code <<< 80 ||| flag.toNat <<< 88

section
variable {word count n : ℕ} {phase : PoolPhase} {flag : Bool}

lemma packPhase_eq (hword : IsU64 word) (hcount : IsU16 count) (phase : PoolPhase) (flag : Bool) :
    packPhase word count phase flag = word + 2 ^ 64 * (count + 2 ^ 16 * (phase.code + 2 ^ 8 * flag.toNat)) := by
  have hphase : phase.code < 2 ^ 8 := by cases phase <;> decide
  rw [IsU64] at hword
  rw [IsU16] at hcount
  have h1 : word ||| count <<< 64 = word + 2 ^ 64 * count := or_shiftLeft_of_lt hword
  have h2 : (word + 2 ^ 64 * count) ||| phase.code <<< 80 = word + 2 ^ 64 * count + 2 ^ 80 * phase.code :=
    or_shiftLeft_of_lt (by omega)
  have h3 : (word + 2 ^ 64 * count + 2 ^ 80 * phase.code) ||| flag.toNat <<< 88 =
      word + 2 ^ 64 * count + 2 ^ 80 * phase.code + 2 ^ 88 * flag.toNat := or_shiftLeft_of_lt (by omega)
  rw [packPhase, h1, h2, h3]
  omega

@[simp] lemma lo_packPhase (hword : IsU64 word) (hcount : IsU16 count) : lo (packPhase word count phase flag) = word := by
  rw [packPhase_eq hword hcount, lo]
  rw [IsU64] at hword
  omega

@[simp] lemma count_packPhase (hword : IsU64 word) (hcount : IsU16 count) :
    packPhase word count phase flag >>> 64 % 65536 = count := by
  rw [packPhase_eq hword hcount, Nat.shiftRight_eq_div_pow]
  rw [IsU64] at hword
  rw [IsU16] at hcount
  omega

@[simp] lemma phase_packPhase {ε : Type} (e : ε) (phase : PoolPhase) (flag : Bool) (hword : IsU64 word) (hcount : IsU16 count) :
    phaseOf e (packPhase word count phase flag >>> 80 &&& 255) = .ok phase := by
  have hbyte : packPhase word count phase flag >>> 80 &&& 255 = phase.code := by
    have hphase : phase.code < 2 ^ 8 := by cases phase <;> decide
    have hmask := shiftRight_and_mask (packPhase word count phase flag) 80 8
    rw [show (2 ^ 8 - 1 : ℕ) = 255 from rfl] at hmask
    rw [hmask, packPhase_eq hword hcount]
    rw [IsU64] at hword
    rw [IsU16] at hcount
    omega
  rw [hbyte]
  cases phase <;> rfl

@[simp] lemma flag_packPhase (hword : IsU64 word) (hcount : IsU16 count) :
    (packPhase word count phase flag).testBit 88 = flag := by
  have hphase : phase.code < 2 ^ 8 := by cases phase <;> decide
  have hbit : packPhase word count phase flag / 2 ^ 88 = flag.toNat := by
    rw [packPhase_eq hword hcount]
    rw [IsU64] at hword
    rw [IsU16] at hcount
    omega
  rw [Nat.testBit_eq_decide_div_mod_eq, hbit]
  cases flag <;> rfl

@[simp] lemma isLane_packPhase (hword : IsU64 word) (hcount : IsU16 count) :
    IsLane (packPhase word count phase flag) := by
  have hphase : phase.code < 2 ^ 8 := by cases phase <;> decide
  have hflag : flag.toNat < 2 := by cases flag <;> decide
  rw [packPhase_eq hword hcount, IsLane]
  rw [IsU64] at hword
  rw [IsU16] at hcount
  omega

end

def AllLanes (l : List ℕ) : Prop := ∀ n ∈ l, IsLane n
deriving Decidable

@[simp] lemma allLanes_nil : AllLanes [] := fun _ h => by cases h

@[simp] lemma allLanes_cons {n : ℕ} {l : List ℕ} : AllLanes (n :: l) ↔ IsLane n ∧ AllLanes l := forall_mem_cons

@[simp] lemma allLanes_digest {d : Digest} {l : List ℕ} : AllLanes (digestLanes d ++ l) ↔ AllLanes l := by
  simp only [digestLanes, cons_append, nil_append, allLanes_cons, isLane_low, isLane_high, true_and]

lemma allLanes_take {l : List ℕ} (h : AllLanes l) (n : ℕ) : AllLanes (l.take n) :=
  fun x hx => h x (mem_of_mem_take hx)

/-! ### Market records -/

namespace MarketOpening

def kind : MarketOpening → NativeKind
  | .definition _ => .marketDefinition
  | .pool _ => .marketPool
  | .request _ => .marketRequest
  | .claim _ => .marketClaim

/-- The fields fit their types. -/
def Fits : MarketOpening → Prop
  | .definition d => IsDigest d.genesis ∧ IsDigest d.base ∧ IsDigest d.quote ∧ IsU64 d.profile
  | .pool p => IsDigest p.pool ∧ IsU64 p.baseReserve ∧ IsU64 p.quoteReserve ∧ IsU64 p.totalShares ∧
      IsU64 p.lockedShares ∧ IsDigest p.queueRoot ∧ IsU64 p.generation ∧ IsU64 p.registeredHeight ∧
      IsU64 p.timeoutHeight ∧ IsU16 p.requestCount
  | .request r => IsDigest r.round ∧ IsDigest r.inputAsset ∧ IsDigest r.outputAsset ∧ IsDigest r.owner ∧
      IsDigest r.recipient ∧ IsU64 r.grossInput ∧ IsU64 r.minimumOutput ∧ IsU64 r.registeredHeight ∧
      IsU64 r.profile
  | .claim c => IsDigest c.request ∧ IsDigest c.inputAsset ∧ IsDigest c.outputAsset ∧ IsDigest c.refundOwner ∧
      IsDigest c.recipient ∧ IsU64 c.refundUnits ∧ IsU64 c.outputUnits ∧ IsU64 c.feeCredit

instance : DecidablePred Fits
  | .definition _ | .pool _ | .request _ | .claim _ => inferInstanceAs (Decidable (_ ∧ _))

def fields : MarketOpening → List ℕ
  | .definition d => digestLanes d.genesis ++ digestLanes d.base ++ digestLanes d.quote ++ [d.profile, 0, 0, 0, 0, 0]
  | .pool p => digestLanes p.pool ++ [pack p.baseReserve p.quoteReserve, pack p.totalShares p.lockedShares] ++
      digestLanes p.queueRoot ++ [pack p.generation p.registeredHeight,
        packPhase p.timeoutHeight p.requestCount p.phase p.baseIsNoid, 0, 0, 0, 0]
  | .request r => digestLanes r.round ++ digestLanes r.inputAsset ++ digestLanes r.outputAsset ++ digestLanes r.owner ++
      digestLanes r.recipient ++ [pack r.grossInput r.minimumOutput, pack r.registeredHeight r.profile]
  | .claim c => digestLanes c.request ++ digestLanes c.inputAsset ++ digestLanes c.outputAsset ++
      digestLanes c.refundOwner ++ digestLanes c.recipient ++ [pack c.refundUnits c.outputUnits, c.feeCredit]

/-- The record of a kind at some lanes; the liquidity records are left out with their kinds. -/
def parse (k : NativeKind) (f : List ℕ) : Except MarketError MarketOpening :=
  match k with
  | .marketDefinition => .ok (.definition
      { genesis := digestAt f 0, base := digestAt f 2, quote := digestAt f 4, profile := lo (laneAt f 6) })
  | .marketPool => do
    let phase ← phaseOf .phase (laneAt f 7 >>> 80 &&& 255)
    return .pool
      { pool := digestAt f 0, baseReserve := lo (laneAt f 2), quoteReserve := hi (laneAt f 2)
        totalShares := lo (laneAt f 3), lockedShares := hi (laneAt f 3), queueRoot := digestAt f 4
        generation := lo (laneAt f 6), registeredHeight := hi (laneAt f 6), timeoutHeight := lo (laneAt f 7)
        requestCount := laneAt f 7 >>> 64 % 2 ^ 16, phase := phase
        baseIsNoid := decide (laneAt f 7 >>> 88 &&& 1 ≠ 0) }
  | .marketRequest => .ok (.request
      { round := digestAt f 0, inputAsset := digestAt f 2, outputAsset := digestAt f 4, owner := digestAt f 6
        recipient := digestAt f 8, grossInput := lo (laneAt f 10), minimumOutput := hi (laneAt f 10)
        registeredHeight := lo (laneAt f 11), profile := hi (laneAt f 11) })
  | .marketClaim => .ok (.claim
      { request := digestAt f 0, inputAsset := digestAt f 2, outputAsset := digestAt f 4, refundOwner := digestAt f 6
        recipient := digestAt f 8, refundUnits := lo (laneAt f 10), outputUnits := hi (laneAt f 10)
        feeCredit := lo (laneAt f 11) })
  | _ => .error .kind

def fromFields (k : NativeKind) (fields : List ℕ) : Except MarketError MarketOpening := do
  require (fields.length = k.fieldCount) .encoding
  let f := fields ++ replicate (12 - fields.length) 0
  let v ← parse k f
  v.validate
  require (v.fields = f) .padding
  return v

variable {m : MarketOpening} {k : NativeKind} {f : List ℕ}

lemma length_fields (m : MarketOpening) : m.fields.length = 12 := by cases m <;> rfl

/-- Above the lanes of the kind everything is zero. -/
theorem fields_eq (m : MarketOpening) :
    m.fields = m.fields.take m.kind.fieldCount ++ replicate (12 - m.kind.fieldCount) 0 := by
  cases m <;> rfl

lemma allLanes_fields (h : m.Fits) : AllLanes m.fields := by
  cases m <;> simp only [Fits] at h <;> simp [fields, h]

/-- Every layout is read back. -/
theorem parse_fields (h : m.Fits) : parse m.kind m.fields = .ok m := by
  cases m <;> simp only [Fits] at h <;> simp [parse, kind, fields, digestLanes, digestAt, laneAt, h]

lemma parse_inv (h : parse k f = .ok m) : m.kind = k ∧ m.Fits := by
  unfold parse at h
  split at h
  case h_2 =>
    obtain ⟨phase, -, h⟩ := bind_eq_ok.mp h
    cases h
    simp [kind, Fits]
  all_goals
    cases h <;> simp [kind, Fits]

lemma fromFields_eq_ok :
    fromFields k f = .ok m ↔ m.kind = k ∧ m.Fits ∧ m.validate = .ok () ∧ f = m.fields.take k.fieldCount := by
  simp only [fromFields, ok_rules]
  constructor
  · rintro ⟨hlen, v, hparse, ⟨⟩, hvalid, hfields, rfl⟩
    obtain ⟨hkind, hfits⟩ := parse_inv hparse
    refine ⟨hkind, hfits, hvalid, ?_⟩
    rw [hfields, take_left' hlen]
  · rintro ⟨rfl, hfits, hvalid, rfl⟩
    have hlen := m.kind.length_take m.length_fields
    have hpad : m.fields.take m.kind.fieldCount ++ replicate (12 - (m.fields.take m.kind.fieldCount).length) 0 =
        m.fields := by rw [hlen, ← fields_eq]
    rw [hpad]
    exact ⟨hlen, m, parse_fields hfits, (), hvalid, rfl, rfl⟩

end MarketOpening

/-! ### Launch records -/

namespace LaunchOpening

def kind : LaunchOpening → NativeKind
  | .definition _ => .launchDefinition
  | .state _ => .launchState
  | .request _ => .launchRequest

/-- The fields fit their types. -/
def Fits : LaunchOpening → Prop
  | .definition d => IsDigest d.asset ∧ IsDigest d.marketGenesis ∧ IsU64 d.initialSupply ∧ IsDigest d.definitionRoot ∧
      IsU64 d.profile
  | .state s => IsDigest s.launch ∧ IsU64 s.inventoryUnits ∧ IsU64 s.marketNoid ∧ IsU64 s.generation ∧
      IsDigest s.queueRoot ∧ IsU64 s.registeredHeight ∧ IsU64 s.timeoutHeight ∧ IsU16 s.requestCount
  | .request r => IsDigest r.round ∧ IsDigest r.asset ∧ IsDigest r.owner ∧ IsDigest r.recipient ∧ IsU64 r.quantity ∧
      IsU64 r.noidLimit ∧ IsU64 r.registeredHeight ∧ IsU64 r.profile

instance : DecidablePred Fits
  | .definition _ | .state _ | .request _ => inferInstanceAs (Decidable (_ ∧ _))

def fields : LaunchOpening → List ℕ
  | .definition d => digestLanes d.asset ++ digestLanes d.marketGenesis ++ [pack d.initialSupply d.profile] ++
      digestLanes d.definitionRoot ++ [0, 0, 0, 0, 0]
  | .state s => digestLanes s.launch ++ [pack s.inventoryUnits s.marketNoid, pack s.generation s.registeredHeight] ++
      digestLanes s.queueRoot ++ [packPhase s.timeoutHeight s.requestCount s.phase false, 0, 0, 0, 0, 0]
  | .request r => digestLanes r.round ++ digestLanes r.asset ++ digestLanes r.owner ++ digestLanes r.recipient ++
      [pack r.quantity r.noidLimit, pack r.registeredHeight r.side.code, r.profile, 0]

/-- The record of a kind at some lanes. -/
def parse (k : NativeKind) (f : List ℕ) : Except LaunchError LaunchOpening :=
  match k with
  | .launchDefinition => .ok (.definition
      { asset := digestAt f 0, marketGenesis := digestAt f 2, initialSupply := lo (laneAt f 4), profile := hi (laneAt f 4)
        definitionRoot := digestAt f 5 })
  | .launchState => do
    let phase ← phaseOf .phase (laneAt f 6 >>> 80 &&& 255)
    return .state
      { launch := digestAt f 0, inventoryUnits := lo (laneAt f 2), marketNoid := hi (laneAt f 2)
        generation := lo (laneAt f 3), registeredHeight := hi (laneAt f 3), queueRoot := digestAt f 4
        timeoutHeight := lo (laneAt f 6), requestCount := laneAt f 6 >>> 64 % 2 ^ 16, phase := phase }
  | .launchRequest => do
    let side ← sideOf .kind (laneAt f 9 >>> 64)
    return .request
      { round := digestAt f 0, asset := digestAt f 2, owner := digestAt f 4, recipient := digestAt f 6
        quantity := lo (laneAt f 8), noidLimit := hi (laneAt f 8), registeredHeight := lo (laneAt f 9), side := side
        profile := lo (laneAt f 10) }
  | _ => .error .kind

def fromFields (k : NativeKind) (f : List ℕ) : Except LaunchError LaunchOpening := do
  require (f.length = k.fieldCount) .encoding
  let value ← parse k f
  value.validate
  require (value.fields.take k.fieldCount = f) .padding
  return value

variable {l : LaunchOpening} {k : NativeKind} {f : List ℕ}

lemma length_fields (l : LaunchOpening) : l.fields.length = 12 := by cases l <;> rfl

lemma allLanes_fields (h : l.Fits) : AllLanes l.fields := by
  cases l <;> simp only [Fits] at h <;> simp [fields, h]

/-- Every layout is read back. -/
theorem parse_fields (h : l.Fits) : parse l.kind (l.fields.take l.kind.fieldCount) = .ok l := by
  cases l <;> simp only [Fits] at h <;>
    simp [parse, kind, NativeKind.fieldCount, fields, digestLanes, digestAt, laneAt, h]

lemma parse_inv (h : parse k f = .ok l) : l.kind = k ∧ l.Fits := by
  unfold parse at h
  split at h
  case h_1 | h_4 =>
    cases h <;> simp [kind, Fits]
  all_goals
    obtain ⟨_, -, h⟩ := bind_eq_ok.mp h
    cases h
    simp [kind, Fits]

lemma fromFields_eq_ok :
    fromFields k f = .ok l ↔ l.kind = k ∧ l.Fits ∧ l.validate = .ok () ∧ f = l.fields.take k.fieldCount := by
  simp only [fromFields, ok_rules]
  constructor
  · rintro ⟨hlen, v, hparse, ⟨⟩, hvalid, hfields, rfl⟩
    obtain ⟨hkind, hfits⟩ := parse_inv hparse
    exact ⟨hkind, hfits, hvalid, hfields.symm⟩
  · rintro ⟨rfl, hfits, hvalid, rfl⟩
    have hlen := l.kind.length_take l.length_fields
    exact ⟨hlen, l, parse_fields hfits, (), hvalid, rfl, rfl⟩

end LaunchOpening

/-! ### Listing records -/

namespace NftMarketOpening

def kind : NftMarketOpening → NativeKind
  | .definition _ => .nftListingDefinition
  | .listing _ => .nftListing

/-- The fields fit their types. -/
def Fits : NftMarketOpening → Prop
  | .definition d => IsDigest d.collection ∧ IsDigest d.seller ∧ IsDigest d.metadata ∧ IsU64 d.serial ∧
      IsU64 d.sourceCreationId ∧ IsU64 d.ask ∧ IsU64 d.expiryHeight
  | .listing s => IsDigest s.listing ∧ IsDigest s.collection ∧ IsU64 s.serial ∧ IsU64 s.generation ∧
      IsDigest s.queueRoot ∧ IsU64 s.registeredHeight ∧ IsU16 s.requestCount

instance : DecidablePred Fits
  | .definition _ | .listing _ => inferInstanceAs (Decidable (_ ∧ _))

def fields : NftMarketOpening → List ℕ
  | .definition d => digestLanes d.collection ++ digestLanes d.seller ++ digestLanes d.metadata ++
      [pack d.serial d.sourceCreationId, pack d.ask d.expiryHeight, 0, 0, 0, 0]
  | .listing s => digestLanes s.listing ++ digestLanes s.collection ++ [pack s.serial s.generation] ++
      digestLanes s.queueRoot ++ [packPhase s.registeredHeight s.requestCount s.phase false, 0, 0, 0, 0]

/-- The record of a kind at some lanes. -/
def parse (k : NativeKind) (f : List ℕ) : Except NftMarketError NftMarketOpening :=
  match k with
  | .nftListingDefinition => .ok (.definition
      { collection := digestAt f 0, seller := digestAt f 2, metadata := digestAt f 4, serial := lo (laneAt f 6)
        sourceCreationId := hi (laneAt f 6), ask := lo (laneAt f 7), expiryHeight := hi (laneAt f 7) })
  | .nftListing => do
    let phase ← phaseOf .phase (laneAt f 7 >>> 80 &&& 255)
    return .listing
      { listing := digestAt f 0, collection := digestAt f 2, serial := lo (laneAt f 4), generation := hi (laneAt f 4)
        queueRoot := digestAt f 5, registeredHeight := lo (laneAt f 7), requestCount := laneAt f 7 >>> 64 % 2 ^ 16
        phase := phase }
  | _ => .error .kind

def fromFields (k : NativeKind) (f : List ℕ) : Except NftMarketError NftMarketOpening := do
  require (f.length = k.fieldCount) .encoding
  let value ← parse k f
  value.validate
  require (value.fields.take k.fieldCount = f) .padding
  return value

variable {n : NftMarketOpening} {k : NativeKind} {f : List ℕ}

lemma length_fields (n : NftMarketOpening) : n.fields.length = 12 := by cases n <;> rfl

lemma allLanes_fields (h : n.Fits) : AllLanes n.fields := by
  cases n <;> simp only [Fits] at h <;> simp [fields, h]

/-- Every layout is read back. -/
theorem parse_fields (h : n.Fits) : parse n.kind (n.fields.take n.kind.fieldCount) = .ok n := by
  cases n <;> simp only [Fits] at h <;>
    simp [parse, kind, NativeKind.fieldCount, fields, digestLanes, digestAt, laneAt, h]

lemma parse_inv (h : parse k f = .ok n) : n.kind = k ∧ n.Fits := by
  unfold parse at h
  split at h
  case h_2 =>
    obtain ⟨phase, -, h⟩ := bind_eq_ok.mp h
    cases h
    simp [kind, Fits]
  all_goals
    cases h <;> simp [kind, Fits]

lemma fromFields_eq_ok :
    fromFields k f = .ok n ↔ n.kind = k ∧ n.Fits ∧ n.validate = .ok () ∧ f = n.fields.take k.fieldCount := by
  simp only [fromFields, ok_rules]
  constructor
  · rintro ⟨hlen, v, hparse, ⟨⟩, hvalid, hfields, rfl⟩
    obtain ⟨hkind, hfits⟩ := parse_inv hparse
    exact ⟨hkind, hfits, hvalid, hfields.symm⟩
  · rintro ⟨rfl, hfits, hvalid, rfl⟩
    have hlen := n.kind.length_take n.length_fields
    exact ⟨hlen, n, parse_fields hfits, (), hvalid, rfl, rfl⟩

end NftMarketOpening

end Noid.Tx
