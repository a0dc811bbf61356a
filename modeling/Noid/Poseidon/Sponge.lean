import Noid.Lib.Codec

/-! # The byte sponge

`update` completes the buffered block, absorbs the whole blocks of the data and buffers the rest; `finalize` pads the
buffer and absorbs it.  A hash of byte slices puts lengths in front of the domain and of every piece. -/

namespace Noid.Poseidon

open Noid.Lib

open List hiding Vector

/-! ### Padding -/

def PADDING_START : UInt8 := 0x80

def PADDING_END : UInt8 := 0x01

def fillPadding (count : ℕ) : Bytes :=
  ((replicate count 0).modify 0 (· ||| PADDING_START)).modify (count - 1) (· ||| PADDING_END)

/-- The blocks that are absorbed for a message. -/
def paddedBlocks (message : Bytes) : List Bytes :=
  chunks 32 (message.length / 32 + 1) (message ++ fillPadding (32 - message.length % 32))

variable {data : Bytes} {n : ℕ}

lemma length_fillPadding (count : ℕ) : (fillPadding count).length = count := by
  simp [fillPadding]

lemma length_padded (m : Bytes) : (m ++ fillPadding (32 - m.length % 32)).length = 32 * (m.length / 32 + 1) := by
  rw [length_append, length_fillPadding]
  omega

lemma flatten_chunks (h : data.length = 32 * n) : (chunks 32 n data).flatten = data := by
  induction n generalizing data with
  | zero => exact (length_eq_zero_iff.mp h).symm
  | succ n ih => rw [chunks, flatten_cons, ih (by rw [length_drop]; omega), take_append_drop]

/-- A padding ends no other padding. -/
theorem fillPadding_suffix : ∀ k < 32, ∀ k' < 32, fillPadding (32 - k) <:+ fillPadding (32 - k') → k = k' := by
  decide +kernel

lemma paddedBlocks_injective : Function.Injective paddedBlocks := by
  intro m m' h
  have hflat := congrArg flatten h
  rw [paddedBlocks, paddedBlocks, flatten_chunks (length_padded m), flatten_chunks (length_padded m')] at hflat
  have hmod (n : ℕ) : n % 32 < 32 := Nat.mod_lt _ (by decide)
  have hcount : m.length % 32 = m'.length % 32 := by
    rcases suffix_or_suffix_of_suffix (suffix_append m _) (hflat ▸ suffix_append m' _) with hs | hs
    · exact fillPadding_suffix _ (hmod _) _ (hmod _) hs
    · exact (fillPadding_suffix _ (hmod _) _ (hmod _) hs).symm
  rw [hcount] at hflat
  exact append_cancel_right hflat

/-! ### Frames -/

/-- A piece behind its length. -/
def sized (piece : Bytes) : Bytes := leBytes 8 piece.length ++ piece

/-- What a hash of byte slices is updated with. -/
def frame (domain : Bytes) (pieces : List Bytes) : Bytes :=
  sized domain ++ (leBytes 8 pieces.length ++ pieces.flatMap sized)

/-- Lengths of slices in memory. -/
def Addressable (domain : Bytes) (pieces : List Bytes) : Prop :=
  domain.length < 2 ^ 64 ∧ pieces.length < 2 ^ 64 ∧ ∀ piece ∈ pieces, piece.length < 2 ^ 64

variable {domain domain' : Bytes} {pieces pieces' : List Bytes}

lemma frame_inj (h : Addressable domain pieces) (h' : Addressable domain' pieces')
    (heq : frame domain pieces = frame domain' pieces') : domain = domain' ∧ pieces = pieces' := by
  have hread : Reads (do take () (← takeLe () 8) : Reader Unit Bytes) sized (·.length < 2 ^ 64) := by
    refine .of_iff fun src piece rest => ?_
    simp only [(reads_le _ _).bind_eq_ok, (reads_take _ _).eq_ok, sized, append_assoc]
    constructor
    · rintro ⟨_, _, ⟨hsize, rfl⟩, rfl, rfl⟩
      exact ⟨hsize, rfl⟩
    · rintro ⟨hsize, rfl⟩
      exact ⟨_, _, ⟨hsize, rfl⟩, rfl, rfl⟩
  obtain ⟨rfl, hrest⟩ := hread.inj h.1 h'.1 heq
  obtain ⟨hcount, hrest⟩ := (reads_le () 8).inj h.2.1 h'.2.1 hrest
  have hpieces := (reads_many hread pieces.length).inj ⟨rfl, h.2.2⟩ ⟨hcount.symm, h'.2.2⟩ (congrArg (· ++ []) hrest)
  exact ⟨rfl, hpieces.1⟩

/-! ### Updates -/

abbrev Lanes := Vector (BitVec 128) 4

/-- The permutation, and the capacity value of the byte hash. -/
class Poseidon2bPermutation where
  permuteMut : Lanes → Lanes
  capacityIv : BitVec 128 × BitVec 128

structure Poseidon2bSponge where
  state : Lanes
  buffer : Vector UInt8 32
  filledBytes : Fin 32

/-- `copy_from_slice` into the bytes from `start` on. -/
def copyAt (buffer : Vector UInt8 32) (start : ℕ) (data : Bytes) : Vector UInt8 32 :=
  .ofFn fun i => if start ≤ i then data.getD (i - start) buffer[i] else buffer[i]

lemma copyAt_cons (buffer : Vector UInt8 32) (b : UInt8) :
    copyAt (copyAt buffer n [b]) (n + 1) data = copyAt buffer n (b :: data) := by
  refine Vector.ext fun i hi => ?_
  simp only [copyAt, Vector.getElem_ofFn, Fin.getElem_fin]
  rcases lt_trichotomy i n with h | rfl | h
  · simp [h.not_ge, (Nat.lt_succ_of_lt h).not_ge]
  · simp
  · have hsub : i - n = i - (n + 1) + 1 := by omega
    simp [hsub, h.le, Nat.succ_le_of_lt h]

def RATE : ℕ := 2

variable [Poseidon2bPermutation]

open Poseidon2bPermutation

namespace Poseidon2bSponge

def withIv (iv : BitVec 128 × BitVec 128) : Poseidon2bSponge := ⟨#v[0, 0, iv.1, iv.2], .replicate 32 0, 0⟩

def permuteBuffer (state : Lanes) (buffer : Vector UInt8 32) : Lanes :=
  permuteMut (state.mapIdx fun i lane =>
    if i < RATE then lane ^^^ .ofNat 128 (ofLe ((buffer.toList.drop (i * 16)).take 16)) else lane)

def squeeze32 (s : Poseidon2bSponge) : Bytes := leBytes 16 s.state[0].toNat ++ leBytes 16 s.state[1].toNat

/-- Put bytes into the buffer from `start` on; a full buffer is absorbed. -/
def fill (start : ℕ) (s : Poseidon2bSponge) (data : Bytes) : Poseidon2bSponge :=
  let buffer := copyAt s.buffer start data
  if start + data.length = 32 then ⟨permuteBuffer s.state buffer, buffer, 0⟩
  else ⟨s.state, buffer, .ofNat 32 (start + data.length)⟩

/-- The blocks and the rest of the data; the buffer is empty when there are any. -/
def updateAligned (s : Poseidon2bSponge) (data : Bytes) : Poseidon2bSponge :=
  let s := (chunks 32 (data.length / 32) data).foldl (fill 0) s
  let remaining := data.drop (32 * (data.length / 32))
  if remaining = [] then s else s.fill 0 remaining

def update (s : Poseidon2bSponge) (data : Bytes) : Poseidon2bSponge :=
  if s.filledBytes = 0 then s.updateAligned data
  else
    let toCopy := min data.length (32 - s.filledBytes)
    (s.fill s.filledBytes (data.take toCopy)).updateAligned (data.drop toCopy)

def finalize (s : Poseidon2bSponge) : Bytes := (s.fill s.filledBytes (fillPadding (32 - s.filledBytes))).squeeze32

/-- Bytes that come one by one. -/
def push (s : Poseidon2bSponge) (data : Bytes) : Poseidon2bSponge :=
  data.foldl (fun s b => s.fill s.filledBytes [b]) s

end Poseidon2bSponge

open Poseidon2bSponge

def poseidon2bHashByteSlices (domain : Bytes) (pieces : List Bytes) : Bytes :=
  let s := (((withIv capacityIv).update (leBytes 8 domain.length)).update domain).update (leBytes 8 pieces.length)
  (pieces.foldl (fun s piece => (s.update (leBytes 8 piece.length)).update piece) s).finalize

/-- The digest after whole blocks. -/
def digestOf (blocks : List Bytes) : Bytes := (blocks.foldl (fill 0) (withIv capacityIv)).squeeze32

variable {s : Poseidon2bSponge}

lemma filledBytes_fill : ((s.fill n data).filledBytes : ℕ) = (n + data.length) % 32 := by
  rw [fill]
  split_ifs with hfull
  · rw [hfull]
    rfl
  · rfl

lemma push_append (l l' : Bytes) : s.push (l ++ l') = (s.push l).push l' := foldl_append

/-- Bytes that fit the buffer fill it one by one. -/
theorem fill_eq (h : s.filledBytes + data.length ≤ 32) : s.fill s.filledBytes data = s.push data := by
  induction data generalizing s with
  | nil =>
    have hnil : copyAt s.buffer s.filledBytes [] = s.buffer := Vector.ext fun i hi => by simp [copyAt]
    rw [fill, hnil, length_nil, Nat.add_zero, if_neg s.filledBytes.isLt.ne]
    simp [push]
  | cons b data ih =>
    rcases data with - | ⟨b', data⟩
    · rfl
    · simp only [length_cons] at h ih
      have hone : s.fill s.filledBytes [b] = ⟨s.state, copyAt s.buffer s.filledBytes [b], .ofNat 32 (s.filledBytes + 1)⟩ :=
        if_neg (by rw [length_singleton]; omega)
      have hval : (Fin.ofNat 32 (s.filledBytes + 1) : ℕ) = s.filledBytes + 1 := Nat.mod_eq_of_lt (by omega)
      change _ = push (s.fill s.filledBytes [b]) (b' :: data)
      rw [hone, ← ih (by rw [hval]; omega), hval, fill, fill, copyAt_cons]
      simp only [length_cons, Nat.add_assoc, Nat.add_comm 1]

lemma fill_zero (hs : s.filledBytes = 0) (h : data.length ≤ 32) : s.fill 0 data = s.push data := by
  rw [← fill_eq (by rwa [hs, Fin.val_zero, Nat.zero_add]), hs, Fin.val_zero]

lemma filledBytes_push : ((s.push data).filledBytes : ℕ) = (s.filledBytes + data.length) % 32 := by
  induction data generalizing s with
  | nil => exact (Nat.mod_eq_of_lt s.filledBytes.isLt).symm
  | cons b data ih =>
    refine ih.trans ?_
    rw [filledBytes_fill, Nat.mod_add_mod, length_singleton, length_cons, Nat.add_assoc, Nat.add_comm 1]

lemma foldl_fill (hs : s.filledBytes = 0) (h : 32 * n ≤ data.length) :
    (chunks 32 n data).foldl (fill 0) s = s.push (data.take (32 * n)) := by
  induction n generalizing s data with
  | zero => rfl
  | succ n ih =>
    have hlen : (data.take 32).length = 32 := length_take_of_le (by omega)
    rw [chunks, foldl_cons, fill_zero hs hlen.le, ih, Nat.mul_succ, Nat.add_comm, take_add, push_append]
    · exact Fin.ext (filledBytes_push.trans (by rw [hs, hlen]; rfl))
    · rw [length_drop]
      omega

lemma updateAligned_eq (h : s.filledBytes = 0 ∨ data = []) : s.updateAligned data = s.push data := by
  rcases h with hs | rfl
  · have hle := Nat.mul_div_le data.length 32
    conv_rhs => rw [← take_append_drop (32 * (data.length / 32)) data, push_append]
    rw [updateAligned, foldl_fill hs hle]
    split_ifs with hnil
    · rw [hnil]
      rfl
    · refine fill_zero (Fin.ext (filledBytes_push.trans ?_)) (by rw [length_drop]; omega)
      rw [hs, length_take_of_le hle, Fin.val_zero, Nat.zero_add, Nat.mul_mod_right]
  · rfl

/-- **An update acts byte by byte.** -/
theorem update_eq : s.update data = s.push data := by
  unfold update
  split_ifs with hs
  · exact updateAligned_eq (.inl hs)
  · dsimp only
    have hlt := s.filledBytes.isLt
    have hlen := length_take (i := min data.length (32 - s.filledBytes)) (l := data)
    rw [fill_eq (by omega), updateAligned_eq, ← push_append, take_append_drop]
    by_cases hall : data.length < 32 - s.filledBytes
    · exact .inr (drop_eq_nil_of_le (by omega))
    · refine .inl (Fin.ext (filledBytes_push.trans ?_))
      rw [show _ + (data.take _).length = 32 by omega]
      rfl

lemma foldl_update (updates : List Bytes) : updates.foldl update s = s.push updates.flatten := by
  induction updates generalizing s with
  | nil => rfl
  | cons piece updates ih => rw [foldl_cons, ih, update_eq, flatten_cons, push_append]

/-! ### Digests -/

/-- The digest of a message is the digest of its padded blocks. -/
theorem finalize_push (m : Bytes) : ((withIv capacityIv).push m).finalize = digestOf (paddedBlocks m) := by
  have hfilled : (((withIv capacityIv).push m).filledBytes : ℕ) = m.length % 32 :=
    filledBytes_push.trans (by rw [withIv, Fin.val_zero, Nat.zero_add])
  have hfit : m.length % 32 + (fillPadding (32 - m.length % 32)).length ≤ 32 := by
    rw [length_fillPadding]
    omega
  rw [finalize, fill_eq (by rwa [hfilled]), hfilled, digestOf, paddedBlocks, foldl_fill rfl (length_padded m).ge,
    take_of_length_le (length_padded m).le, push_append]

lemma hashByteSlices_eq : poseidon2bHashByteSlices domain pieces = digestOf (paddedBlocks (frame domain pieces)) := by
  have hpieces (s : Poseidon2bSponge) :
      pieces.foldl (fun s piece => (s.update (leBytes 8 piece.length)).update piece) s = s.push (pieces.flatMap sized) := by
    induction pieces generalizing s with
    | nil => rfl
    | cons piece pieces ih => rw [foldl_cons, ih, update_eq, update_eq, flatMap_cons, push_append, sized, push_append]
  rw [poseidon2bHashByteSlices, hpieces, update_eq, update_eq, update_eq, ← finalize_push, frame, sized]
  simp only [push_append]

/-- **The framing of the byte hash is unambiguous**: the padded blocks determine the domain and the pieces, so two
inputs share a digest only if two sequences of blocks do. -/
theorem byte_hash_framing : (∀ (s : Poseidon2bSponge) (updates : List Bytes),
      updates.foldl update s = s.update updates.flatten) ∧
    (∀ m, ((withIv capacityIv).update m).finalize = digestOf (paddedBlocks m)) ∧ Function.Injective paddedBlocks ∧
    ∀ domain domain' pieces pieces', Addressable domain pieces → Addressable domain' pieces' →
      poseidon2bHashByteSlices domain pieces = poseidon2bHashByteSlices domain' pieces' →
        domain = domain' ∧ pieces = pieces' ∨ paddedBlocks (frame domain pieces) ≠ paddedBlocks (frame domain' pieces') ∧
          digestOf (paddedBlocks (frame domain pieces)) = digestOf (paddedBlocks (frame domain' pieces')) := by
  refine ⟨fun s updates => ?_, fun m => ?_, paddedBlocks_injective, fun d d' ps ps' h h' hdigest => ?_⟩
  · rw [update_eq, foldl_update]
  · rw [update_eq, finalize_push]
  · rw [hashByteSlices_eq, hashByteSlices_eq] at hdigest
    by_cases hblocks : paddedBlocks (frame d ps) = paddedBlocks (frame d' ps')
    · exact .inl (frame_inj h h' (paddedBlocks_injective hblocks))
    · exact .inr ⟨hblocks, hdigest⟩

/-- Two cuts of the same bytes into pieces. -/
theorem byte_hash_framing_pieces : paddedBlocks (frame [7] [[1], [2]]) ≠ paddedBlocks (frame [7] [[1, 2]]) ∧
    (poseidon2bHashByteSlices [7] [[1], [2]] = poseidon2bHashByteSlices [7] [[1, 2]] →
      digestOf (paddedBlocks (frame [7] [[1], [2]])) = digestOf (paddedBlocks (frame [7] [[1, 2]]))) ∧
    [[1], [2]].foldl update (withIv capacityIv) = (withIv capacityIv).update [1, 2] := by
  obtain ⟨hupdates, -, hinj, hframing⟩ := byte_hash_framing
  refine ⟨hinj.ne (by decide), fun hdigest => ?_, hupdates _ _⟩
  have hpieces := hframing [7] [7] [[1], [2]] [[1, 2]] ⟨by decide, by decide, by decide⟩ ⟨by decide, by decide, by decide⟩
    hdigest
  exact (hpieces.resolve_left (by decide)).2

end Noid.Poseidon
