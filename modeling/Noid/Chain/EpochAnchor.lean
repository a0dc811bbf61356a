import Noid.Node.HeaderDag

/-! # Epoch anchors of transactions

A user transaction names the id of the last header at a multiple of `TX_EPOCH_BLOCKS` below its block.  The anchor is
computed twice: an accumulator switches after every boundary block, and a lookup takes the header at a height. -/

namespace Noid.Chain

open Noid.Lib Noid.Node List

def TX_EPOCH_BLOCKS : ℕ := 144

structure TxEpochHeightDecomposition where
  quotient : ℕ
  remainder : ℕ
deriving DecidableEq, Repr

def TxEpochHeightDecomposition.isBoundary (d : TxEpochHeightDecomposition) : Bool := decide (d.remainder = 0)

def checkedTxEpochHeightDecomposition (height : ℕ) : Option TxEpochHeightDecomposition := do
  guard (TX_EPOCH_BLOCKS ≠ 0)
  let quotient := height / TX_EPOCH_BLOCKS
  let remainder := height % TX_EPOCH_BLOCKS
  guard (quotient * TX_EPOCH_BLOCKS < U64 ∧ quotient * TX_EPOCH_BLOCKS + remainder < U64)
  guard (quotient * TX_EPOCH_BLOCKS + remainder = height ∧ remainder < TX_EPOCH_BLOCKS)
  guard (remainder < 2 ^ 8)
  return { quotient := quotient, remainder := remainder }

def txEpochAnchorHeightForChild (childHeight : ℕ) : ℕ :=
  if childHeight = 0 then 0 else (childHeight - 1) / TX_EPOCH_BLOCKS * TX_EPOCH_BLOCKS

/-- The step of the accumulator; it fails where the source panics. -/
def nextTxEpochAnchorId (startAnchorId : Hash32) (acceptedChildHeight : ℕ) (acceptedChildId : Hash32) :
    Option Hash32 := do
  let decomposition ← checkedTxEpochHeightDecomposition acceptedChildHeight
  return if acceptedChildHeight ≠ 0 ∧ decomposition.isBoundary then acceptedChildId else startAnchorId

variable (blockId : BlockHeader → Hash32)

def resolveUserEpochAnchorId (childHeight : ℕ) (headerAt : ℕ → Option BlockHeader) : Option Hash32 :=
  (headerAt (txEpochAnchorHeightForChild childHeight)).map blockId

/-- The accumulator before a child: the genesis id, moved over the headers in between. -/
def accumulatedAnchorId (chain : List BlockHeader) (childHeight : ℕ) : Option Hash32 :=
  match chain with
  | [] => none
  | genesis :: accepted => (accepted.take (childHeight - 1)).foldlM
      (fun anchor header => nextTxEpochAnchorId anchor header.height (blockId header)) (blockId genesis)

/-- The headers of a chain from genesis on. -/
structure LinkedChain (chain : List BlockHeader) : Prop where
  height : ∀ (i : ℕ) (h : i < chain.length), chain[i].height = i
  parent : ∀ (i : ℕ) (h : i + 1 < chain.length), chain[i + 1].prevBlockHash = blockId chain[i]
  wide : ∀ header ∈ chain, header.height < U64

variable {blockId} {chain : List BlockHeader}

lemma checkedTxEpochHeightDecomposition_eq {height : ℕ} (h : height < U64) :
    checkedTxEpochHeightDecomposition height = some ⟨height / 144, height % 144⟩ := by
  have hparts : height / 144 * 144 + height % 144 = height := Nat.div_add_mod' height 144
  have hlt : height % 144 < 144 := Nat.mod_lt _ (by decide)
  have hquotient : height / 144 * 144 < U64 := by omega
  have hbyte : height % 144 < 256 := by omega
  simp [checkedTxEpochHeightDecomposition, TX_EPOCH_BLOCKS, hparts, hlt, hquotient, hbyte, h]

lemma nextTxEpochAnchorId_eq {height : ℕ} (h : height < U64) (start id : Hash32) :
    nextTxEpochAnchorId start height id = some (if height ≠ 0 ∧ height % 144 = 0 then id else start) := by
  simp [nextTxEpochAnchorId, checkedTxEpochHeightDecomposition_eq h, TxEpochHeightDecomposition.isBoundary]

lemma LinkedChain.accumulatedAnchorId_eq (h : LinkedChain blockId chain) {n : ℕ} (hn : n < chain.length) :
    accumulatedAnchorId blockId chain (n + 1) = (chain[n / 144 * 144]?).map blockId := by
  cases chain with
  | nil => cases hn
  | cons genesis accepted =>
    unfold accumulatedAnchorId
    induction n with
    | zero => rfl
    | succ n ih =>
      have hlt : n < accepted.length := Nat.lt_of_succ_lt_succ hn
      have hheight : accepted[n].height = n + 1 := h.height (n + 1) hn
      have hwide := h.wide accepted[n] (.tail _ (getElem_mem hlt))
      rw [hheight] at hwide
      obtain ⟨anchor, hanchor⟩ : ∃ header, (genesis :: accepted)[n / 144 * 144]? = some header :=
        ⟨_, getElem?_eq_getElem (by omega)⟩
      simp only [Nat.add_sub_cancel] at ih ⊢
      rw [take_add_one, getElem?_eq_getElem hlt, foldlM_append, ih (Nat.lt_of_succ_lt hn), hanchor]
      by_cases hboundary : (n + 1) % 144 = 0
      · have hindex : (n + 1) / 144 * 144 = n + 1 := by omega
        simp [nextTxEpochAnchorId_eq hwide, hheight, hboundary, hindex, hlt]
      · have hindex : (n + 1) / 144 * 144 = n / 144 * 144 := by omega
        simp [nextTxEpochAnchorId_eq hwide, hheight, hboundary, hindex, hanchor]

/-- **The accumulator and the lookup agree**, and only the headers up to the last boundary before the child matter. -/
theorem epoch_anchor_agrees (h : LinkedChain blockId chain) {childHeight : ℕ} (hpos : 1 ≤ childHeight)
    (hle : childHeight ≤ chain.length) :
    ∃ anchor, accumulatedAnchorId blockId chain childHeight = some anchor ∧
      resolveUserEpochAnchorId blockId childHeight (chain[·]?) = some anchor ∧
      ∀ chain' boundary, LinkedChain blockId chain' → childHeight ≤ chain'.length →
        IsGreatest {k | TX_EPOCH_BLOCKS ∣ k ∧ k < childHeight} boundary → (∀ i ≤ boundary, chain[i]? = chain'[i]?) →
          accumulatedAnchorId blockId chain' childHeight = some anchor ∧
            resolveUserEpochAnchorId blockId childHeight (chain'[·]?) = some anchor := by
  obtain ⟨n, rfl⟩ : ∃ n, childHeight = n + 1 := ⟨childHeight - 1, by omega⟩
  have hlast : n / 144 * 144 < chain.length := by omega
  have hresolve : ∀ l : List BlockHeader, resolveUserEpochAnchorId blockId (n + 1) (l[·]?) =
      (l[n / 144 * 144]?).map blockId := fun _ => rfl
  refine ⟨blockId chain[n / 144 * 144], ?_, ?_, ?_⟩
  · rw [h.accumulatedAnchorId_eq hle, getElem?_eq_getElem hlast]
    rfl
  · rw [hresolve, getElem?_eq_getElem hlast]
    rfl
  · intro chain' boundary h' hle' hboundary hsame
    have hle : n / 144 * 144 ≤ boundary := hboundary.2 ⟨⟨n / 144, Nat.mul_comm _ _⟩, by omega⟩
    rw [h'.accumulatedAnchorId_eq hle', hresolve, ← hsame _ hle, getElem?_eq_getElem hlast]
    exact ⟨rfl, rfl⟩

def heightHeader (height : ℕ) : BlockHeader := ⟨height - 1, 0, 0, 0, height, 0, 0, Bytes32.zero, 0, 0, 0⟩

def twoEpochs : List BlockHeader := (range 146).map heightHeader

theorem twoEpochs_anchor : accumulatedAnchorId BlockHeader.height twoEpochs 146 = some 144 := by
  have hlinked : LinkedChain BlockHeader.height twoEpochs := by
    refine ⟨fun i h => by simp [twoEpochs, heightHeader], fun i h => by simp [twoEpochs, heightHeader], ?_⟩
    simp only [twoEpochs, mem_map, mem_range, forall_exists_index, and_imp]
    rintro header n hn rfl
    exact hn.trans (by decide)
  obtain ⟨anchor, haccumulated, hresolve, -⟩ := epoch_anchor_agrees hlinked (show 1 ≤ 146 by decide) (by simp [twoEpochs])
  rw [haccumulated, ← hresolve]
  rfl

end Noid.Chain
