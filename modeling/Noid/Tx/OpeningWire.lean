import Mathlib.Logic.Equiv.List
import Noid.Tx.OpeningLanes

/-! # The byte format of openings

An opening is a header of magic, version and kind, followed by the lanes of the kind.  Its root is a sponge over the domain
tag of its kind and its lanes; the kind and the lanes determine the opening, the lanes alone do not. -/

namespace Noid.Tx

open Noid.Lib List

/-! ### Lanes of all kinds -/

def DisabledKind.kind : DisabledKind → NativeKind
  | .marketLiquidity => .marketLiquidity
  | .marketLiquidityDeposit => .marketLiquidityDeposit
  | .marketLiquidityWithdrawal => .marketLiquidityWithdrawal
  | .marketLiquidityClaim => .marketLiquidityClaim
  | .marketLiquidityBurn => .marketLiquidityBurn
  | .nftPurchase => .nftPurchase
  | .nftOffer => .nftOffer

def NativeKind.isMarket : NativeKind → Bool
  | .marketDefinition | .marketPool | .marketRequest | .marketClaim | .marketLiquidity | .marketLiquidityDeposit
  | .marketLiquidityWithdrawal | .marketLiquidityClaim | .marketLiquidityBurn => true
  | _ => false

def NativeKind.isLaunch : NativeKind → Bool
  | .launchDefinition | .launchState | .launchRequest => true
  | _ => false

def NativeKind.isNftMarket : NativeKind → Bool
  | .nftListingDefinition | .nftListing | .nftPurchase | .nftOffer => true
  | _ => false

def routeOf {ε : Type} (e : ε) : ℕ → Except ε IssuanceRoute
  | 0 => .ok .standalone
  | 1 => .ok .launchpad
  | _ => .error e

@[simp] lemma IssuanceRoute.code_lt (route : IssuanceRoute) : IsU64 route.code := by
  unfold IsU64
  cases route <;> decide

@[simp] lemma routeOf_eq_ok {ε : Type} {e : ε} {n : ℕ} {route : IssuanceRoute} :
    routeOf e n = .ok route ↔ n = route.code := by
  constructor
  · intro h
    unfold routeOf at h
    split at h <;> cases h <;> rfl
  · rintro rfl
    cases route <;> rfl

@[simp] lemma le_u64Max {n : ℕ} (h : IsU64 n) : n ≤ U64_MAX := Nat.le_pred_of_lt h

lemma exists_six {f : List ℕ} (h : f.length = 6) : ∃ a b c d e g, f = [a, b, c, d, e, g] := by
  match f, h with
  | [a, b, c, d, e, g], _ => exact ⟨a, b, c, d, e, g, rfl⟩

lemma exists_eight {f : List ℕ} (h : f.length = 8) : ∃ a b c d e g i j, f = [a, b, c, d, e, g, i, j] := by
  match f, h with
  | [a, b, c, d, e, g, i, j], _ => exact ⟨a, b, c, d, e, g, i, j, rfl⟩

namespace NativeOpening

def kind : NativeOpening → NativeKind
  | .fungibleDefinition _ => .fungibleDefinition
  | .tokenBalance _ => .tokenBalance
  | .tokenReserve _ => .tokenReserve
  | .nftCollection _ => .nftCollection
  | .nftItem _ => .nftItem
  | .market m => m.kind
  | .launch l => l.kind
  | .nftMarket n => n.kind
  | .disabled kind _ => kind.kind

/-- The fields fit their types. -/
def Fits : NativeOpening → Prop
  | .fungibleDefinition d => IsDigest d.asset ∧ IsDigest d.issuer ∧ IsU64 d.initialSupply ∧ IsDigest d.metadata
  | .tokenBalance b => IsDigest b.asset ∧ IsDigest b.owner ∧ IsU64 b.units ∧ IsU64 b.unlockHeight
  | .tokenReserve r => IsDigest r.asset ∧ IsU64 r.reserveMicronoid ∧ IsU64 r.outstandingUnits ∧ IsU64 r.initialSupply ∧
      IsDigest r.definitionRoot
  | .nftCollection c => IsDigest c.collection ∧ IsDigest c.creator ∧ IsU64 c.maximumItems ∧ IsU64 c.issuedItems ∧
      IsDigest c.metadata
  | .nftItem n => IsDigest n.collection ∧ IsDigest n.owner ∧ IsDigest n.metadata ∧ IsU64 n.serial ∧ IsU64 n.unlockHeight
  | .market m => m.Fits
  | .launch l => l.Fits
  | .nftMarket n => n.Fits
  | .disabled _ fields => AllLanes fields

instance (o : NativeOpening) : Decidable o.Fits := by
  cases o <;> unfold Fits <;> infer_instance

def fields : NativeOpening → List ℕ
  | .fungibleDefinition d => digestLanes d.asset ++ digestLanes d.issuer ++ [pack d.initialSupply d.route.code] ++
      digestLanes d.metadata ++ [0, 0, 0, 0, 0]
  | .tokenBalance b => digestLanes b.asset ++ digestLanes b.owner ++ [pack b.units b.unlockHeight, 0, 0, 0, 0, 0, 0, 0]
  | .tokenReserve r => digestLanes r.asset ++ [pack r.reserveMicronoid r.outstandingUnits, r.initialSupply] ++
      digestLanes r.definitionRoot ++ [0, 0, 0, 0, 0, 0]
  | .nftCollection c => digestLanes c.collection ++ digestLanes c.creator ++ [pack c.maximumItems c.issuedItems] ++
      digestLanes c.metadata ++ [0, 0, 0, 0, 0]
  | .nftItem n => digestLanes n.collection ++ digestLanes n.owner ++ digestLanes n.metadata ++
      [pack n.serial n.unlockHeight, 0, 0, 0, 0, 0]
  | .market m => m.fields
  | .launch l => l.fields
  | .nftMarket n => n.fields
  | .disabled _ fields => fields

/-- The token or collection record of a kind at some lanes. -/
def parse (k : NativeKind) (f : List ℕ) : Except NativeAssetError NativeOpening :=
  match k with
  | .fungibleDefinition => do
    require (laneAt f 7 = 0) .padding
    let route ← routeOf .encoding (hi (laneAt f 4))
    return .fungibleDefinition
      { asset := digestAt f 0, issuer := digestAt f 2, initialSupply := lo (laneAt f 4), route := route
        metadata := digestAt f 5 }
  | .tokenBalance => do
    require (laneAt f 5 = 0) .padding
    return .tokenBalance
      { asset := digestAt f 0, owner := digestAt f 2, units := lo (laneAt f 4), unlockHeight := hi (laneAt f 4) }
  | .tokenReserve => do
    require (laneAt f 3 ≤ U64_MAX) .encoding
    return .tokenReserve
      { asset := digestAt f 0, reserveMicronoid := lo (laneAt f 2), outstandingUnits := hi (laneAt f 2)
        initialSupply := lo (laneAt f 3), definitionRoot := digestAt f 4 }
  | .nftCollection => do
    require (laneAt f 7 = 0) .padding
    return .nftCollection
      { collection := digestAt f 0, creator := digestAt f 2, maximumItems := lo (laneAt f 4)
        issuedItems := hi (laneAt f 4), metadata := digestAt f 5 }
  | .nftItem => do
    require (laneAt f 7 = 0) .padding
    return .nftItem
      { collection := digestAt f 0, owner := digestAt f 2, metadata := digestAt f 4, serial := lo (laneAt f 6)
        unlockHeight := hi (laneAt f 6) }
  | _ => .error .kind

def fromFields (k : NativeKind) (f : List ℕ) : Except NativeAssetError NativeOpening := do
  require (k.enabled = true) .kind
  require (f.length = k.fieldCount) .encoding
  if k.isMarket then
    let m ← (MarketOpening.fromFields k f).mapError .market
    (NativeOpening.market m).validate
    return .market m
  else if k.isLaunch then
    let l ← (LaunchOpening.fromFields k f).mapError .launch
    return .launch l
  else if k.isNftMarket then
    let n ← (NftMarketOpening.fromFields k f).mapError .nftMarket
    return .nftMarket n
  else
    let opening ← parse k f
    opening.validate
    return opening

variable {o : NativeOpening} {k : NativeKind} {f : List ℕ}

/-- A token or collection record. -/
def isPlain : NativeOpening → Bool
  | .fungibleDefinition _ | .tokenBalance _ | .tokenReserve _ | .nftCollection _ | .nftItem _ => true
  | _ => false

/-- Every layout is read back. -/
theorem parse_fields (hplain : o.isPlain = true) (h : o.Fits) :
    parse o.kind (o.fields.take o.kind.fieldCount) = .ok o := by
  cases o with
  | market m => cases hplain
  | launch l => cases hplain
  | nftMarket n => cases hplain
  | disabled kind fields => cases hplain
  | fungibleDefinition d =>
    simp only [Fits] at h
    have hroute : routeOf NativeAssetError.encoding d.route.code = .ok d.route := routeOf_eq_ok.mpr rfl
    simp [parse, kind, NativeKind.fieldCount, fields, digestLanes, digestAt, laneAt, h, hroute]
  | _ =>
    simp only [Fits] at h
    simp [parse, kind, NativeKind.fieldCount, fields, digestLanes, digestAt, laneAt, h, -bind_pure_comp]

/-- What is read is the layout of what is returned. -/
theorem parse_inv (hlen : f.length = k.fieldCount) (hlanes : AllLanes f) (h : parse k f = .ok o) :
    o.kind = k ∧ o.isPlain = true ∧ o.Fits ∧ f = o.fields.take k.fieldCount := by
  unfold parse at h
  split at h
  case h_6 => cases h
  case h_3 =>
    obtain ⟨a, b, c, d, e, g, rfl⟩ := exists_six hlen
    simp only [ok_rules] at h
    obtain ⟨hmax, rfl⟩ := h
    simp only [allLanes_cons] at hlanes
    have hd : IsU64 d := Nat.lt_of_le_pred (by decide) hmax
    simp [kind, isPlain, Fits, fields, NativeKind.fieldCount, digestLanes, digestAt, laneAt, hlanes, hd]
  case h_2 =>
    obtain ⟨a, b, c, d, e, g, rfl⟩ := exists_six hlen
    simp only [ok_rules] at h
    obtain ⟨hzero, rfl⟩ := h
    have hg : g = 0 := hzero
    simp only [allLanes_cons] at hlanes
    simp [kind, isPlain, Fits, fields, NativeKind.fieldCount, digestLanes, digestAt, laneAt, hlanes, hg]
  all_goals
    obtain ⟨a, b, c, d, e, g, i, j, rfl⟩ := exists_eight hlen
    simp only [ok_rules, routeOf_eq_ok] at h
    have hj : j = 0 := h.1
    simp only [allLanes_cons] at hlanes
  case h_1 =>
    obtain ⟨-, route, hroute, rfl⟩ := h
    have hcode : route.code = hi e := hroute.symm
    simp [kind, isPlain, Fits, fields, NativeKind.fieldCount, digestLanes, digestAt, laneAt, hlanes, hj, hcode]
  all_goals
    obtain ⟨-, rfl⟩ := h
    simp [kind, isPlain, Fits, fields, NativeKind.fieldCount, digestLanes, digestAt, laneAt, hlanes, hj]

lemma enabled_of_validate (h : o.validate = .ok ()) : o.kind.enabled = true := by
  cases o with
  | market m => cases m <;> rfl
  | launch l => cases l <;> rfl
  | nftMarket n => cases n <;> rfl
  | disabled kind fields => cases h
  | _ => rfl

lemma length_fields (h : o.validate = .ok ()) : o.fields.length = 12 := by
  cases o with
  | market m => exact m.length_fields
  | launch l => exact l.length_fields
  | nftMarket n => exact n.length_fields
  | disabled kind fields => cases h
  | _ => rfl

/-- **The layouts.**  Lanes are accepted exactly if they are those of a valid opening. -/
theorem fromFields_eq_ok (hlanes : AllLanes f) :
    fromFields k f = .ok o ↔ o.kind = k ∧ o.Fits ∧ o.validate = .ok () ∧ f = o.fields.take k.fieldCount := by
  simp only [fromFields, ok_rules]
  constructor
  · rintro ⟨henabled, hlen, h⟩
    split_ifs at h
    all_goals
      simp only [ok_rules, MarketOpening.fromFields_eq_ok, LaunchOpening.fromFields_eq_ok,
        NftMarketOpening.fromFields_eq_ok] at h
    · obtain ⟨m, ⟨hkind, hfits, -, hf⟩, ⟨⟩, hvalid, rfl⟩ := h
      exact ⟨hkind, hfits, hvalid, hf⟩
    · obtain ⟨l, ⟨hkind, hfits, hvalid, hf⟩, rfl⟩ := h
      exact ⟨hkind, hfits, mapError_eq_ok.mpr hvalid, hf⟩
    · obtain ⟨n, ⟨hkind, hfits, hvalid, hf⟩, rfl⟩ := h
      exact ⟨hkind, hfits, mapError_eq_ok.mpr hvalid, hf⟩
    · obtain ⟨opening, hparse, ⟨⟩, hvalid, rfl⟩ := h
      obtain ⟨hkind, -, hfits, hf⟩ := parse_inv hlen hlanes hparse
      exact ⟨hkind, hfits, hvalid, hf⟩
  · rintro ⟨rfl, hfits, hvalid, rfl⟩
    refine ⟨enabled_of_validate hvalid, o.kind.length_take (length_fields hvalid), ?_⟩
    cases o with
    | market m =>
      have hm : m.validate = .ok () := by
        simp only [validate, ok_rules] at hvalid
        obtain ⟨⟨⟩, hm, -⟩ := hvalid
        exact hm
      rw [if_pos (by cases m <;> rfl)]
      exact (mapError_bind (MarketOpening.fromFields_eq_ok.mpr ⟨rfl, hfits, hm, rfl⟩)).trans
        ((bind_of_ok hvalid).trans rfl)
    | launch l =>
      rw [if_neg (by cases l <;> exact Bool.false_ne_true), if_pos (by cases l <;> rfl)]
      exact (mapError_bind (LaunchOpening.fromFields_eq_ok.mpr ⟨rfl, hfits, mapError_eq_ok.mp hvalid, rfl⟩)).trans rfl
    | nftMarket n =>
      rw [if_neg (by cases n <;> exact Bool.false_ne_true), if_neg (by cases n <;> exact Bool.false_ne_true),
        if_pos (by cases n <;> rfl)]
      exact (mapError_bind (NftMarketOpening.fromFields_eq_ok.mpr ⟨rfl, hfits, mapError_eq_ok.mp hvalid, rfl⟩)).trans rfl
    | disabled kind fields => cases hvalid
    | _ => exact (bind_of_ok (parse_fields rfl hfits)).trans ((bind_of_ok hvalid).trans rfl)

lemma allLanes_fields (hvalid : o.validate = .ok ()) (h : o.Fits) : AllLanes o.fields := by
  cases o with
  | market m => exact m.allLanes_fields h
  | launch l => exact l.allLanes_fields h
  | nftMarket n => exact n.allLanes_fields h
  | disabled kind fields => cases hvalid
  | _ =>
    simp only [Fits] at h
    simp [fields, h]

lemma fields_injective {o' : NativeOpening} (hvalid : o.validate = .ok ()) (hvalid' : o'.validate = .ok ())
    (hfits : o.Fits) (hfits' : o'.Fits) (hkind : o.kind = o'.kind)
    (h : o.fields.take o.kind.fieldCount = o'.fields.take o'.kind.fieldCount) : o = o' := by
  have hlanes := allLanes_take (allLanes_fields hvalid hfits) o.kind.fieldCount
  have hread := (fromFields_eq_ok hlanes).mpr ⟨rfl, hfits, hvalid, rfl⟩
  rw [(fromFields_eq_ok hlanes).mpr ⟨hkind.symm, hfits', hvalid', by rw [h, hkind]⟩] at hread
  exact (Except.ok.inj hread).symm

/-! ### Bytes -/

end NativeOpening

def NATIVE_OPENING_VERSION : ℕ := 1

/-- The text `NOIDAS21`. -/
def NATIVE_OPENING_MAGIC : Bytes := [78, 79, 73, 68, 65, 83, 50, 49]

def NATIVE_OPENING_HEADER_BYTES : ℕ := 12

def MAX_NATIVE_OPENING_FIELDS : ℕ := 12

def MAX_NATIVE_OPENING_BYTES : ℕ := NATIVE_OPENING_HEADER_BYTES + 16 * MAX_NATIVE_OPENING_FIELDS

namespace NativeOpening

/-- What the writer writes for an opening. -/
def wireBytes (o : NativeOpening) : Bytes :=
  NATIVE_OPENING_MAGIC ++ leBytes 2 NATIVE_OPENING_VERSION ++ leBytes 2 o.kind.code ++
    (o.fields.take o.kind.fieldCount).flatMap (leBytes 16)

def toBytes (o : NativeOpening) : Except NativeAssetError Bytes := do
  o.validate
  return o.wireBytes

def fromBytes (bytes : Bytes) : Except NativeAssetError NativeOpening := do
  require (NATIVE_OPENING_HEADER_BYTES ≤ bytes.length ∧ bytes.length ≤ MAX_NATIVE_OPENING_BYTES ∧
    bytes.take 8 = NATIVE_OPENING_MAGIC) .encoding
  require (ofLe ((bytes.drop 8).take 2) = NATIVE_OPENING_VERSION) .version
  let kind ← NativeKind.fromU16 (ofLe ((bytes.drop 10).take 2))
  let count := kind.fieldCount
  require (bytes.length = NATIVE_OPENING_HEADER_BYTES + 16 * count) .encoding
  fromFields kind (wordsOf 16 count (bytes.drop 12))

variable {o : NativeOpening} {bytes : Bytes}

lemma toBytes_eq_ok : o.toBytes = .ok bytes ↔ o.validate = .ok () ∧ bytes = o.wireBytes := by
  simp only [toBytes, ok_rules]
  constructor
  · rintro ⟨⟨⟩, hvalid, rfl⟩
    exact ⟨hvalid, rfl⟩
  · rintro ⟨hvalid, rfl⟩
    exact ⟨(), hvalid, rfl⟩

lemma length_wireBytes (h : o.validate = .ok ()) :
    o.wireBytes.length = NATIVE_OPENING_HEADER_BYTES + 16 * o.kind.fieldCount := by
  simp only [wireBytes, length_append, length_flatMap, length_leBytes, map_const', sum_replicate_nat,
    o.kind.length_take (length_fields h), NATIVE_OPENING_MAGIC, NATIVE_OPENING_HEADER_BYTES, length_cons, length_nil]
  omega

lemma header_slices (bytes : Bytes) {magic version kind rest : Bytes} (hmagic : magic.length = 8) (hversion : version.length = 2)
    (hkind : kind.length = 2) (h : bytes = magic ++ (version ++ (kind ++ rest))) :
    bytes.take 8 = magic ∧ (bytes.drop 8).take 2 = version ∧ (bytes.drop 10).take 2 = kind ∧ bytes.drop 12 = rest := by
  have h8 : bytes.drop 8 = version ++ (kind ++ rest) := by rw [h, drop_left' hmagic]
  have h10 : bytes.drop 10 = kind ++ rest := by
    rw [show (10 : ℕ) = 8 + 2 from rfl, ← drop_drop, h8, drop_left' hversion]
  have h12 : bytes.drop 12 = rest := by
    rw [show (12 : ℕ) = 10 + 2 from rfl, ← drop_drop, h10, drop_left' hkind]
  refine ⟨?_, ?_, ?_, h12⟩
  · rw [h, take_left' hmagic]
  · rw [h8, take_left' hversion]
  · rw [h10, take_left' hkind]

lemma exists_header (h : NATIVE_OPENING_HEADER_BYTES ≤ bytes.length) :
    ∃ magic version kind rest : Bytes, bytes = magic ++ (version ++ (kind ++ rest)) ∧ magic.length = 8 ∧
      version.length = 2 ∧ kind.length = 2 := by
  rw [NATIVE_OPENING_HEADER_BYTES] at h
  refine ⟨bytes.take 8, (bytes.drop 8).take 2, ((bytes.drop 8).drop 2).take 2, ((bytes.drop 8).drop 2).drop 2, ?_, ?_, ?_,
    ?_⟩
  · rw [take_append_drop, take_append_drop, take_append_drop]
  all_goals
    simp only [length_take, length_drop]
    omega

/-- **The byte format of openings.** -/
theorem fromBytes_eq_ok : fromBytes bytes = .ok o ↔ o.Fits ∧ o.validate = .ok () ∧ bytes = o.wireBytes := by
  simp only [fromBytes, ok_rules]
  constructor
  · rintro ⟨⟨hmin, -, hmagic⟩, hversion, kind, hkind, hlen, hfields⟩
    obtain ⟨m, v, c, r, hbytes, hm, hv, hc⟩ := exists_header hmin
    obtain ⟨h8, h10, h12, hrest⟩ := header_slices _ hm hv hc hbytes
    rw [h8] at hmagic
    rw [h10] at hversion
    rw [h12] at hkind
    rw [hrest] at hfields
    have hlanes : AllLanes (wordsOf 16 kind.fieldCount r) := fun n hn => lt_of_mem_wordsOf hn
    obtain ⟨hk, hfits, hvalid, hf⟩ := (fromFields_eq_ok hlanes).mp hfields
    have hr : r.length = 16 * kind.fieldCount := by
      rw [← hrest, length_drop, hlen, NATIVE_OPENING_HEADER_BYTES]
      omega
    have hvbytes := leBytes_ofLe v
    have hcbytes := leBytes_ofLe c
    rw [hv, hversion] at hvbytes
    rw [hc, ← NativeKind.code_of_fromU16 hkind, ← hk] at hcbytes
    refine ⟨hfits, hvalid, ?_⟩
    rw [hbytes, wireBytes, hvbytes, hcbytes, hk, ← hf, flatMap_wordsOf hr, hmagic, append_assoc, append_assoc]
  · rintro ⟨hfits, hvalid, rfl⟩
    have hlanes := allLanes_take (allLanes_fields hvalid hfits) o.kind.fieldCount
    have hlen := length_wireBytes hvalid
    obtain ⟨h8, h10, h12, hrest⟩ := header_slices o.wireBytes rfl (length_leBytes 2 NATIVE_OPENING_VERSION)
      (length_leBytes 2 o.kind.code) (by rw [wireBytes, append_assoc, append_assoc])
    have hcount := o.kind.fieldCount_le
    refine ⟨⟨?_, ?_, h8⟩, ?_, o.kind, ?_, hlen, ?_⟩
    · rw [hlen]
      exact Nat.le_add_right _ _
    · rw [hlen]
      exact Nat.add_le_add_left (Nat.mul_le_mul_left 16 hcount) _
    · rw [h10]
      exact ofLe_leBytes (by decide)
    · rw [h12, ofLe_leBytes o.kind.code_lt]
      exact NativeKind.fromU16_code _
    · have hwords : wordsOf 16 o.kind.fieldCount ((o.fields.take o.kind.fieldCount).flatMap (leBytes 16)) = _ :=
        wordsOf_flatMap (fun n hn => hlanes n hn) (o.kind.length_take (length_fields hvalid))
      rw [hrest, hwords]
      exact (fromFields_eq_ok hlanes).mpr ⟨rfl, hfits, hvalid, rfl⟩

/-! ### Openings in records -/

/-- An opening that the format carries. -/
def Carried (o : NativeOpening) : Prop := o.Fits ∧ o.validate = .ok ()

lemma length_wireBytes_le (h : o.validate = .ok ()) :
    0 < o.wireBytes.length ∧ o.wireBytes.length ≤ MAX_NATIVE_OPENING_BYTES := by
  have hcount := o.kind.fieldCount_le
  rw [length_wireBytes h, MAX_NATIVE_OPENING_BYTES, NATIVE_OPENING_HEADER_BYTES, MAX_NATIVE_OPENING_FIELDS]
  omega

/-- The bytes of an opening that may be absent. -/
def optBytes : Option NativeOpening → Bytes
  | none => []
  | some o => o.wireBytes

/-- Write an opening that may be absent. -/
def writeOpt {ε : Type} (wrap : NativeAssetError → ε) : Option NativeOpening → Except ε Bytes
  | none => .ok []
  | some o => o.toBytes.mapError wrap

def record (o : Option NativeOpening) : Bytes := leBytes 2 (optBytes o).length ++ optBytes o

/-- Read an opening of a known size; the size 0 stands for none. -/
def readSized {ε : Type} (short : ε) (wrap : NativeAssetError → ε) (size : ℕ) : Reader ε (Option NativeOpening) :=
  if size = 0 then return none
  else do
    let raw ← take short size
    let o ← liftM ((fromBytes raw).mapError wrap)
    return some o

variable {o : Option NativeOpening}

lemma length_optBytes_le (h : ∀ x ∈ o, x.validate = .ok ()) : (optBytes o).length ≤ MAX_NATIVE_OPENING_BYTES := by
  cases o with
  | none => exact Nat.zero_le _
  | some x => exact (length_wireBytes_le (h x rfl)).2

lemma writeOpt_ok {ε : Type} (wrap : NativeAssetError → ε)
    (h : ∀ x ∈ o, x.validate = .ok ()) : writeOpt wrap o = .ok (optBytes o) := by
  cases o with
  | none => rfl
  | some x => exact mapError_eq_ok.mpr (toBytes_eq_ok.mpr ⟨h x rfl, rfl⟩)

lemma length_record_le (h : ∀ x ∈ o, x.validate = .ok ()) : (record o).length ≤ 2 + MAX_NATIVE_OPENING_BYTES := by
  rw [record, length_append, length_leBytes]
  exact Nat.add_le_add_left (length_optBytes_le h) 2

lemma reads_record {ε : Type} {Ok : ℕ → Bytes → Prop} [∀ size cursor, Decidable (Ok size cursor)] (short bad long : ε)
    (wrap : NativeAssetError → ε)
    (hok : ∀ size cursor, size ≠ 0 → size ≤ MAX_NATIVE_OPENING_BYTES → size ≤ cursor.length → Ok size cursor) :
    Reads (do
        let size ← takeLe short 2
        let cursor ← Reader.remaining
        Reader.require (Ok size cursor) bad
        let raw ← take long size
        liftM ((fromBytes raw).mapError wrap))
      (fun o => record (some o)) Carried := by
  refine reads_sized short bad long (fun raw o => ?_) (fun o h => ?_) (fun o rest h => ?_)
  · rw [mapError_eq_ok, fromBytes_eq_ok, Carried, and_assoc, optBytes]
  · exact lt_of_le_of_lt (length_wireBytes_le h.2).2 (by decide)
  · obtain ⟨hpos, hle⟩ := length_wireBytes_le h.2
    exact hok _ _ hpos.ne' hle (by rw [length_append]; omega)

lemma reads_readSized {ε : Type} (short : ε) (wrap : NativeAssetError → ε) (size : ℕ) :
    Reads (readSized short wrap size) optBytes (fun o => (∀ x ∈ o, x.Carried) ∧ size = (optBytes o).length) := by
  refine .of_iff fun src o rest => ?_
  rw [readSized, and_assoc]
  constructor
  · intro h
    split_ifs at h with hzero
    · obtain ⟨rfl, rfl⟩ := Reader.pure_eq_ok.mp h
      exact ⟨fun _ hx => (by cases hx), hzero, rfl⟩
    · simp only [(reads_take _ _).bind_eq_ok, Reader.ok_rules, mapError_eq_ok, fromBytes_eq_ok] at h
      obtain ⟨raw, _, ⟨rfl, rfl⟩, x, ⟨hfits, hvalid, rfl⟩, rfl, rfl⟩ := h
      refine ⟨fun y hy => ?_, rfl, rfl⟩
      cases hy
      exact ⟨hfits, hvalid⟩
  · rintro ⟨hcarried, rfl, rfl⟩
    cases o with
    | none => rfl
    | some x =>
      obtain ⟨hfits, hvalid⟩ := hcarried x rfl
      have hpos : (optBytes (some x)).length ≠ 0 := (length_wireBytes_le hvalid).1.ne'
      have hfrom : (fromBytes (optBytes (some x))).mapError wrap = .ok x :=
        mapError_eq_ok.mpr (fromBytes_eq_ok.mpr ⟨hfits, hvalid, rfl⟩)
      rw [if_neg hpos, Reader.bind_of_ok (run_take _ rfl), Reader.bind_of_ok (Reader.lift_of_ok hfrom)]
      rfl

/-! ### Roots -/

/-- The root of an opening: a sponge over the tag of its kind and its lanes. -/
def spongeRoot (sponge : String → List ℕ → Digest) (o : NativeOpening) : Address :=
  sponge o.kind.tag (o.fields.take o.kind.fieldCount)

lemma spongeRoot_ne {sponge : String → List ℕ → Digest} (hsponge : ∀ tag, Function.Injective (sponge tag))
    {o o' : NativeOpening} (hfits : o.Fits) (hfits' : o'.Fits) (hvalid : o.validate = .ok ())
    (hvalid' : o'.validate = .ok ()) (hne : o ≠ o') (htag : o.kind.tag = o'.kind.tag) :
    o.spongeRoot sponge ≠ o'.spongeRoot sponge := by
  intro heq
  rw [spongeRoot, spongeRoot, htag] at heq
  exact hne (fields_injective hvalid hvalid' hfits hfits' (NativeKind.tag_injective htag) (hsponge _ heq))

/-- **Openings are canonical**: one byte string each, and one root each if the sponge is injective for every tag and
separates the tags. -/
theorem openings_canonical :
    (∀ o : NativeOpening, o.Fits → o.validate = .ok () → ∃ bytes, o.toBytes = .ok bytes ∧ fromBytes bytes = .ok o) ∧
    (∀ (bytes : Bytes) (o : NativeOpening), fromBytes bytes = .ok o → o.validate = .ok () ∧ o.toBytes = .ok bytes) ∧
    ∀ sponge : String → List ℕ → Digest, (∀ tag, Function.Injective (sponge tag)) →
      (∀ tag tag', tag ≠ tag' → ∀ l l', sponge tag l ≠ sponge tag' l') → ∀ o o' : NativeOpening, o.Fits → o'.Fits →
      o.validate = .ok () → o'.validate = .ok () → o ≠ o' → o.spongeRoot sponge ≠ o'.spongeRoot sponge := by
  refine ⟨fun o hfits hvalid => ?_, fun bytes o h => ?_, ?_⟩
  · exact ⟨_, toBytes_eq_ok.mpr ⟨hvalid, rfl⟩, fromBytes_eq_ok.mpr ⟨hfits, hvalid, rfl⟩⟩
  · obtain ⟨-, hvalid, rfl⟩ := fromBytes_eq_ok.mp h
    exact ⟨hvalid, toBytes_eq_ok.mpr ⟨hvalid, rfl⟩⟩
  · intro sponge hsponge hapart o o' hfits hfits' hvalid hvalid' hne
    by_cases htag : o.kind.tag = o'.kind.tag
    · exact spongeRoot_ne hsponge hfits hfits' hvalid hvalid' hne htag
    · exact hapart _ _ htag _ _

def tokenOpening : NativeOpening := .fungibleDefinition
  { asset := 1, issuer := 2, initialSupply := LAUNCH_MIN_SUPPLY, route := .launchpad, metadata := 3 }

/-- A collection with the lanes of the token. -/
def collectionOpening : NativeOpening := .nftCollection
  { collection := 1, creator := 2, maximumItems := LAUNCH_MIN_SUPPLY, issuedItems := 1, metadata := 3 }

/-- A sponge that numbers tag and lanes. -/
def numberSponge (tag : String) (lanes : List ℕ) : Digest := Encodable.encode (tag.toList.map Char.toNat, lanes)

lemma numberSponge_inj {tag tag' : String} {l l' : List ℕ} (h : numberSponge tag l = numberSponge tag' l') :
    tag = tag' ∧ l = l' := by
  obtain ⟨htag, hlanes⟩ := Prod.ext_iff.mp (Encodable.encode_injective h)
  exact ⟨String.toList_injective (map_injective_iff.mpr (fun _ _ => Char.ext_iff.mpr ∘ UInt32.toNat_inj.mp) htag), hlanes⟩

/-- The token and the collection under a sponge that reads the tag. -/
theorem openings_canonical_token : (∃ bytes, tokenOpening.toBytes = .ok bytes ∧ fromBytes bytes = .ok tokenOpening) ∧
    tokenOpening.spongeRoot numberSponge ≠ collectionOpening.spongeRoot numberSponge := by
  obtain ⟨hread, -, hroot⟩ := openings_canonical
  refine ⟨hread _ (by decide) (by decide), hroot numberSponge ?_ ?_ _ _ (by decide) (by decide)
    (by decide) (by decide) (by decide)⟩
  · exact fun tag l l' h => (numberSponge_inj h).2
  · exact fun tag tag' hne l l' h => hne (numberSponge_inj h).1

/-- **Lanes do not determine the kind**: a sponge that ignores the tag gives a token and a collection one root. -/
theorem untagged_sponge_collides :
    ∃ sponge : String → List ℕ → Digest, (∀ tag, Function.Injective (sponge tag)) ∧ tokenOpening.Fits ∧
      collectionOpening.Fits ∧ tokenOpening.validate = .ok () ∧ collectionOpening.validate = .ok () ∧
      tokenOpening ≠ collectionOpening ∧ tokenOpening.spongeRoot sponge = collectionOpening.spongeRoot sponge :=
  ⟨fun _ => Encodable.encode, fun _ => Encodable.encode_injective, (by decide), (by decide), by decide,
    by decide, by decide, rfl⟩

end NativeOpening

end Noid.Tx
