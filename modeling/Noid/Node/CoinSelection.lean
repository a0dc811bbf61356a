import Mathlib.Data.List.Sort
import Mathlib.Data.Prod.Lex
import Noid.Tx.PagedSpend

/-! # Coin selection

`selectUtxos` pays a target and a fee from the outputs of the active owner that no pending transaction spends: from one
output of exactly the needed value, or from the largest ones.  They are moved to the front by `select_nth_unstable_by_key`,
of which only the contract is known (`Partitions`). -/

namespace Noid.Node

open Noid.Lib Noid.Tx List

structure WalletUtxo where
  slotIndex : ℕ
  value : ℕ
  creationId : ℕ
  address : Address
  keyIndex : ℕ
  confirmedHeight : ℕ
deriving DecidableEq, Repr

/-- What a selection reads of the wallet; the outputs are keyed by their slots. -/
structure WalletState where
  utxos : List WalletUtxo
  pendingInputSlots : Finset ℕ
  slots : (utxos.map (·.slotIndex)).Nodup

def selectionKey (u : WalletUtxo) : ℕᵒᵈ ×ₗ ℕ := toLex (OrderDual.toDual u.value, u.slotIndex)

/-- The larger value comes first, then the lower slot. -/
instance : Preorder WalletUtxo := Preorder.lift selectionKey

instance : DecidableLE WalletUtxo := fun a b => inferInstanceAs (Decidable (selectionKey a ≤ selectionKey b))

instance : Std.Total (α := WalletUtxo) (· ≤ ·) := ⟨fun a b => le_total (selectionKey a) (selectionKey b)⟩

def sortByKey (l : List WalletUtxo) : List WalletUtxo := l.insertionSort (· ≤ ·)

/-- The contract of `select_nth_unstable_by_key`. -/
structure Partitions (selectNth : ℕ → List WalletUtxo → List WalletUtxo) : Prop where
  perm : ∀ n l, (selectNth n l).Perm l
  split : ∀ n l, n < l.length → ∀ a ∈ (selectNth n l).take n, ∀ b ∈ (selectNth n l).drop n, a ≤ b

def takeLargest (needed : ℕ) : List WalletUtxo → List WalletUtxo → ℕ → Option (List WalletUtxo × ℕ)
  | [], _, _ => none
  | u :: rest, selected, total =>
    if total + u.value < U64 then
      if needed ≤ total + u.value then some (selected ++ [u], total + u.value - needed)
      else takeLargest needed rest (selected ++ [u]) (total + u.value)
    else none

namespace WalletState

def available (s : WalletState) : List WalletUtxo := s.utxos.filter fun u => u.slotIndex ∉ s.pendingInputSlots

def selectUtxos (selectNth : ℕ → List WalletUtxo → List WalletUtxo) (s : WalletState) (target fee : ℕ) :
    Option (List WalletUtxo × ℕ) :=
  if target + fee < U64 then
    match (s.available.filter fun u => u.value = target + fee).argmin (·.slotIndex) with
    | some exact => some ([exact], 0)
    | none =>
      let front := if MAX_PAGED_SPEND_INPUTS < s.available.length then
        (selectNth MAX_PAGED_SPEND_INPUTS s.available).take MAX_PAGED_SPEND_INPUTS else s.available
      takeLargest (target + fee) ((sortByKey front).take MAX_PAGED_SPEND_INPUTS) [] 0
  else none

end WalletState

def totalValue (l : List WalletUtxo) : ℕ := (l.map (·.value)).sum

/-- The sum of the `n` largest values. -/
def largestSum (n : ℕ) (l : List WalletUtxo) : ℕ := (((l.map (·.value)).insertionSort (· ≥ ·)).take n).sum

/-! ### The largest outputs -/

lemma sum_le_sum_take {l t : List ℕ} (hl : l.Pairwise (· ≥ ·)) (ht : t <+~ l) : t.sum ≤ (l.take t.length).sum := by
  induction l generalizing t with
  | nil => simp [subperm_nil.mp ht]
  | cons a l ih =>
    obtain ⟨hhead, hl⟩ := pairwise_cons.mp hl
    by_cases ha : a ∈ t
    · have hperm := perm_cons_erase ha
      have hrest := ih hl ((subperm_cons a).mp (hperm.symm.subperm.trans ht))
      rw [hperm.sum_eq, hperm.length_eq, length_cons, take_succ_cons, sum_cons, sum_cons]
      omega
    · cases t with
      | nil => simp
      | cons b t =>
        have ht : b :: t <+~ l := by simpa [erase_of_not_mem ha] using ht.erase a
        have hrest := ih hl ((sublist_cons_self b t).subperm.trans ht)
        have hb := hhead b (ht.subset mem_cons_self)
        rw [length_cons, take_succ_cons, sum_cons, sum_cons]
        omega

section
variable {l l' t : List WalletUtxo}

lemma sortByKey_pairwise (l : List WalletUtxo) : (sortByKey l).Pairwise (· ≤ ·) := pairwise_insertionSort _ l

lemma sortByKey_perm (l : List WalletUtxo) : (sortByKey l).Perm l := perm_insertionSort _ l

lemma sortByKey_values (l : List WalletUtxo) : ((sortByKey l).map (·.value)).Pairwise (· ≥ ·) := by
  refine pairwise_map.mpr ((sortByKey_pairwise l).imp fun h => ?_)
  rcases Prod.Lex.toLex_le_toLex.mp h with hlt | ⟨heq, -⟩
  · exact le_of_lt hlt
  · exact heq.le

/-- Outputs of distinct slots have one order. -/
theorem eq_sortByKey (hslots : (l.map (·.slotIndex)).Nodup) (hperm : l'.Perm l) (hl' : l'.Pairwise (· ≤ ·)) :
    l' = sortByKey l := by
  refine (hperm.trans (sortByKey_perm l).symm).eq_of_pairwise (fun a b ha hb hab hba => ?_) hl' (sortByKey_pairwise l)
  have hkey : selectionKey a = selectionKey b := le_antisymm hab hba
  exact inj_on_of_nodup_map hslots (hperm.mem_iff.mp ha) ((sortByKey_perm l).mem_iff.mp hb)
    (congrArg (fun k => (ofLex k).2) hkey)

lemma largestSum_eq (n : ℕ) (l : List WalletUtxo) : largestSum n l = totalValue ((sortByKey l).take n) := by
  have hperm := (perm_insertionSort (· ≥ ·) (l.map (·.value))).trans ((sortByKey_perm l).map _).symm
  rw [largestSum, hperm.eq_of_pairwise' (pairwise_insertionSort _ _) (sortByKey_values l), ← map_take, totalValue]

lemma totalValue_of_sublist (h : l <+ l') : totalValue l ≤ totalValue l' :=
  (h.map _).sum_le_sum fun _ _ => Nat.zero_le _

/-- Outputs are worth at most as much as the same number of the largest. -/
theorem totalValue_le (ht : t.Nodup) (hmem : ∀ u ∈ t, u ∈ l) {n : ℕ} (hn : t.length ≤ n) :
    totalValue t ≤ totalValue ((sortByKey l).take n) := by
  obtain ⟨t', hperm, hsub⟩ := (subperm_of_subset ht hmem).trans (sortByKey_perm l).symm.subperm
  have hle := sum_le_sum_take (sortByKey_values l) ⟨_, hperm.map (·.value), hsub.map _⟩
  rw [length_map, ← map_take] at hle
  refine hle.trans (totalValue_of_sublist ?_)
  rw [← min_eq_left hn, ← take_take]
  exact take_sublist _ _

lemma sortByKey_front {selectNth : ℕ → List WalletUtxo → List WalletUtxo} (h : Partitions selectNth) {n : ℕ}
    (hslots : (l.map (·.slotIndex)).Nodup) :
    (sortByKey (if n < l.length then (selectNth n l).take n else l)).take n = (sortByKey l).take n := by
  split_ifs with hlt
  · have hperm := (sortByKey_perm ((selectNth n l).take n)).append (sortByKey_perm ((selectNth n l).drop n))
    rw [take_append_drop] at hperm
    rw [← eq_sortByKey hslots (hperm.trans (h.perm n l)), take_append_of_le_length]
    · rw [(sortByKey_perm _).length_eq, length_take_of_le ((h.perm n l).length_eq ▸ hlt.le)]
    · refine pairwise_append.mpr ⟨sortByKey_pairwise _, sortByKey_pairwise _, fun a ha b hb => ?_⟩
      exact h.split n l hlt a ((sortByKey_perm _).mem_iff.mp ha) b ((sortByKey_perm _).mem_iff.mp hb)
  · rfl

/-! ### The loop -/

/-- The loop takes the shortest front that covers the needed value. -/
theorem takeLargest_spec {needed : ℕ} : ∀ {l : List WalletUtxo} (selected : List WalletUtxo) {total : ℕ},
    total < needed → total + totalValue l < U64 →
    (total + totalValue l < needed ∧ takeLargest needed l selected total = none) ∨
      ∃ k < l.length, total + totalValue (l.take k) < needed ∧ needed ≤ total + totalValue (l.take (k + 1)) ∧
        takeLargest needed l selected total =
          some (selected ++ l.take (k + 1), total + totalValue (l.take (k + 1)) - needed)
  | [], _, _, hlt, _ => .inl ⟨hlt, rfl⟩
  | u :: l, selected, total, hlt, hfits => by
    have hcons : ∀ l : List WalletUtxo, total + totalValue (u :: l) = total + u.value + totalValue l :=
      fun l => (Nat.add_assoc _ _ _).symm
    rw [hcons] at hfits
    simp only [takeLargest, hcons, if_pos (show total + u.value < U64 by omega)]
    split_ifs with hle
    · exact .inr ⟨0, Nat.succ_pos _, hlt, by rwa [take_succ_cons, hcons], by rw [take_succ_cons, hcons]; rfl⟩
    · obtain ⟨hshort, hnone⟩ | ⟨k, hk, hbefore, hcovers, hsome⟩ := takeLargest_spec (selected ++ [u])
        (not_le.mp hle) hfits
      · exact .inl ⟨hshort, hnone⟩
      · refine .inr ⟨k + 1, Nat.succ_lt_succ hk, ?_⟩
        simp only [take_succ_cons, hcons]
        exact ⟨hbefore, hcovers, by rw [hsome, append_assoc]; rfl⟩

/-! ### The selection -/

lemma argmin_perm (hslots : (l.map (·.slotIndex)).Nodup) (hperm : l'.Perm l) :
    l'.argmin (·.slotIndex) = l.argmin (·.slotIndex) := by
  cases h : l.argmin (·.slotIndex) with
  | none =>
    rw [argmin_eq_none] at h ⊢
    exact (h ▸ hperm).eq_nil
  | some u =>
    obtain ⟨hu, hle, -⟩ := argmin_eq_some_iff.mp h
    refine argmin_eq_some_iff.mpr ⟨hperm.mem_iff.mpr hu, fun a ha => hle a (hperm.mem_iff.mp ha), fun a ha hau => ?_⟩
    have ha := hperm.mem_iff.mp ha
    rw [inj_on_of_nodup_map hslots ha hu (le_antisymm hau (hle a ha))]

end

namespace WalletState

variable {selectNth selectNth' : ℕ → List WalletUtxo → List WalletUtxo} {s s' : WalletState} {target fee : ℕ}

lemma available_slots (s : WalletState) : (s.available.map (·.slotIndex)).Nodup :=
  s.slots.sublist (filter_sublist.map _)

lemma selectUtxos_eq (h : Partitions selectNth) (hfits : target + fee < U64) : s.selectUtxos selectNth target fee =
    match (s.available.filter fun u => u.value = target + fee).argmin (·.slotIndex) with
    | some exact => some ([exact], 0)
    | none => takeLargest (target + fee) ((sortByKey s.available).take MAX_PAGED_SPEND_INPUTS) [] 0 := by
  rw [selectUtxos, if_pos hfits]
  simp only [sortByKey_front h s.available_slots]

/-- Neither the order of the outputs nor the partition matters. -/
theorem selectUtxos_perm (h : Partitions selectNth) (h' : Partitions selectNth') (hfits : target + fee < U64)
    (hutxos : s'.utxos.Perm s.utxos) (hpending : s'.pendingInputSlots = s.pendingInputSlots) :
    s'.selectUtxos selectNth' target fee = s.selectUtxos selectNth target fee := by
  have hperm : s'.available.Perm s.available := by
    rw [available, hpending]
    exact hutxos.filter _
  have hexact := argmin_perm (s.available_slots.sublist ((filter_sublist (p := fun u => u.value = target + fee)).map _))
    (hperm.filter _)
  rw [selectUtxos_eq h hfits, selectUtxos_eq h' hfits, hexact,
    eq_sortByKey s.available_slots ((sortByKey_perm _).trans hperm) (sortByKey_pairwise _)]

/-- **Coin selection.**  Funds are found exactly when the largest outputs cover them; the selection is sound, as small
as possible, and independent of the order and the partition. -/
theorem coin_selection (hselect : Partitions selectNth) (s : WalletState) (htotal : totalValue s.utxos < U64)
    (hpos : 1 ≤ target + fee) (hfits : target + fee < U64) :
    ((∃ sel change, s.selectUtxos selectNth target fee = some (sel, change)) ↔
      target + fee ≤ largestSum MAX_PAGED_SPEND_INPUTS s.available) ∧
    (∀ sel change, s.selectUtxos selectNth target fee = some (sel, change) →
      sel.Nodup ∧ (∀ u ∈ sel, u ∈ s.available) ∧ totalValue sel = target + fee + change ∧
        sel.length ≤ MAX_PAGED_SPEND_INPUTS ∧
        ∀ t : List WalletUtxo, t.Nodup → (∀ u ∈ t, u ∈ s.available) → target + fee ≤ totalValue t →
          sel.length ≤ t.length) ∧
    ∀ selectNth' (s' : WalletState), Partitions selectNth' → s'.utxos.Perm s.utxos →
      s'.pendingInputSlots = s.pendingInputSlots →
        s'.selectUtxos selectNth' target fee = s.selectUtxos selectNth target fee := by
  rw [← and_assoc]
  refine ⟨?_, fun selectNth' s' h' => selectUtxos_perm hselect h' hfits⟩
  rw [selectUtxos_eq hselect hfits, largestSum_eq]
  cases hexact : (s.available.filter fun u => u.value = target + fee).argmin (·.slotIndex) with
  | some u =>
    obtain ⟨hu, hvalue⟩ := mem_filter.mp (argmin_mem hexact)
    have hsingle : totalValue [u] = target + fee := by simpa [totalValue] using hvalue
    have hone : [u].length ≤ MAX_PAGED_SPEND_INPUTS := Nat.le_of_ble_eq_true rfl
    refine ⟨⟨fun _ => ?_, fun _ => ⟨_, _, rfl⟩⟩, ?_⟩
    · exact hsingle ▸ totalValue_le (nodup_singleton u) (forall_mem_singleton.mpr hu) hone
    · rintro _ _ ⟨⟩
      refine ⟨nodup_singleton u, forall_mem_singleton.mpr hu, hsingle, hone, fun t _ _ hcovers => ?_⟩
      refine length_pos_iff.mpr fun hnil => ?_
      rw [hnil] at hcovers
      exact absurd hcovers (not_le.mpr hpos)
  | none =>
    set L := sortByKey s.available
    have hbound : 0 + totalValue (L.take MAX_PAGED_SPEND_INPUTS) < U64 := by
      have hall : totalValue L = totalValue s.available := ((sortByKey_perm _).map _).sum_eq
      have hfront := totalValue_of_sublist (take_sublist MAX_PAGED_SPEND_INPUTS L)
      have hle : totalValue s.available ≤ totalValue s.utxos := totalValue_of_sublist filter_sublist
      omega
    obtain ⟨hshort, hnone⟩ | ⟨k, hk, hbefore, hcovers, hsome⟩ := takeLargest_spec [] hpos hbound
    · rw [Nat.zero_add] at hshort
      simp [hnone, hshort]
    · rw [length_take] at hk
      rw [Nat.zero_add, take_take, min_eq_left (by omega)] at hbefore hcovers
      rw [hsome, nil_append, Nat.zero_add, take_take, min_eq_left (by omega)]
      have hmem : ∀ u ∈ L.take (k + 1), u ∈ s.available := fun u hu => (sortByKey_perm _).mem_iff.mp (mem_of_mem_take hu)
      have hnodup : (L.take (k + 1)).Nodup :=
        ((sortByKey_perm _).nodup_iff.mpr s.available_slots.of_map).sublist (take_sublist _ _)
      have hlen := length_take_le (k + 1) L
      refine ⟨⟨fun _ => hcovers.trans (totalValue_le hnodup hmem (by omega)), fun _ => ⟨_, _, rfl⟩⟩, ?_⟩
      rintro _ _ ⟨⟩
      refine ⟨hnodup, hmem, by omega, by omega, fun t ht htmem hle => ?_⟩
      -- fewer outputs are worth less than the front that the loop went past
      by_contra hfewer
      have hworth : totalValue t ≤ totalValue (L.take k) := totalValue_le ht htmem (by omega)
      omega

/-- A wallet with two outputs of one value, one that is too small and one that is pending. -/
def twoCoins : WalletState where
  utxos := [⟨4, 30, 1, 9, 0, 5⟩, ⟨7, 50, 2, 9, 0, 5⟩, ⟨2, 50, 3, 9, 0, 6⟩, ⟨3, 90, 4, 9, 0, 6⟩]
  pendingInputSlots := {3}
  slots := by decide

/-- Two outputs of the same value are enough. -/
theorem twoCoins_selection : ∃ sel change, twoCoins.selectUtxos (fun _ => sortByKey) 90 5 = some (sel, change) := by
  have hsort : Partitions fun _ => sortByKey := by
    refine ⟨fun _ => sortByKey_perm, fun n l _ a ha b hb => ?_⟩
    have hsorted := sortByKey_pairwise l
    rw [← take_append_drop n (sortByKey l)] at hsorted
    exact (pairwise_append.mp hsorted).2.2 a ha b hb
  exact (coin_selection hsort twoCoins (by decide) (by decide) (by decide)).1.mpr (by decide)

end WalletState

end Noid.Node
