import Noid.Tx.PageLayout

/-! # Accepted native groups

What `validateNativePages` leaves behind: the slots of the live entries, all different, the shape of every data page, and
the operation that the header decodes to. -/

namespace Noid.Tx

open Noid.Lib List

lemma scanEntries_inv {α : Type} [DecidableEq α] {slot : α → ℕ} {dup : NativeWireError} {dummy : α}
    {live : ℕ → Bool} {l : List (α × ℕ)} {slots slots' : List ℕ}
    (h : scanEntries slot dup dummy live slots l = .ok slots') :
    slots' = slots ++ ((l.filter fun e => live e.2).map Prod.fst).map slot ∧
      (∀ e ∈ l, live e.2 = false → e.1 = dummy) ∧ (slots.Nodup → slots'.Nodup) := by
  induction l generalizing slots with
  | nil =>
    cases h
    exact ⟨by simp, fun _ he => (by cases he), id⟩
  | cons e l ih =>
    unfold scanEntries at h
    split_ifs at h with hlive
    · simp only [ok_rules] at h
      obtain ⟨hfresh, hrest⟩ := h
      obtain ⟨hslots, hdead, hnodup⟩ := ih hrest
      refine ⟨?_, forall_mem_cons.mpr ⟨by simp [hlive], hdead⟩, fun hnd => hnodup ?_⟩
      · rw [hslots]
        simp [hlive]
      · exact nodup_append_comm.mp (nodup_cons.mpr ⟨hfresh, hnd⟩)
    · simp only [ok_rules] at h
      obtain ⟨hx, hrest⟩ := h
      obtain ⟨hslots, hdead, hnodup⟩ := ih hrest
      refine ⟨?_, forall_mem_cons.mpr ⟨fun _ => hx, hdead⟩, hnodup⟩
      rw [hslots]
      simp [hlive]

structure DataPage (epochAnchor : Digest) (last : Bool) (body : TxBody) : Prop where
  coinbase : body.isCoinbase = false
  anchor : body.epochAnchor = epochAnchor
  fee : body.fee = 0
  markers : body.validityBitmap &&& MARKER_MASK = NATIVE_PAGE_BIT ||| (if last then PAGED_SPEND_END_BIT else 0)
  owner : body.inputOwner = 0 ↔ body.liveInputCount = 0
  busy : ¬(body.liveInputCount = 0 ∧ body.liveOutputCount = 0)
  inputs : ∀ e ∈ body.inputs.toList.zipIdx, body.inputIsLive e.2 = false → e.1 = .dummy
  outputs : ∀ e ∈ body.outputs.toList.zipIdx, body.outputIsLive e.2 = false → e.1 = .dummy

section
variable {epochAnchor : Digest} {s s' : PageScan} {body : TxBody} {last : Bool}

lemma scanPage_inv (h : scanPage epochAnchor last s body = .ok s') :
    DataPage epochAnchor last body ∧ s'.inputSlots = s.inputSlots ++ body.liveInputs.map TxInput.slotIndex ∧
      s'.outputSlots = s.outputSlots ++ body.liveOutputs.map TxOutput.slotIndex ∧
      (s.inputSlots.Nodup → s'.inputSlots.Nodup) ∧ (s.outputSlots.Nodup → s'.outputSlots.Nodup) := by
  simp only [scanPage, ok_rules] at h
  obtain ⟨⟨hcoinbase, hanchor, hfee, hmarkers⟩, hbusy, ⟨-, howner⟩, -, -, ins, hins, outs, houts, rfl⟩ := h
  obtain ⟨hinSlots, hinDead, hinNodup⟩ := scanEntries_inv hins
  obtain ⟨houtSlots, houtDead, houtNodup⟩ := scanEntries_inv houts
  exact ⟨⟨hcoinbase, hanchor, hfee, hmarkers, howner, hbusy, hinDead, houtDead⟩, hinSlots, houtSlots, hinNodup,
    houtNodup⟩

/-- The data pages of a group, with the last one marked. -/
def DataPages (epochAnchor : Digest) : List TxBody → Prop
  | [] => True
  | body :: rest => DataPage epochAnchor rest.isEmpty body ∧ DataPages epochAnchor rest

lemma scanPages_inv {pages : List TxBody} (h : scanPages epochAnchor s pages = .ok s') :
    DataPages epochAnchor pages ∧
      s'.inputSlots = s.inputSlots ++ (pages.flatMap TxBody.liveInputs).map TxInput.slotIndex ∧
      s'.outputSlots = s.outputSlots ++ (pages.flatMap TxBody.liveOutputs).map TxOutput.slotIndex ∧
      (s.inputSlots.Nodup → s'.inputSlots.Nodup) ∧ (s.outputSlots.Nodup → s'.outputSlots.Nodup) := by
  induction pages generalizing s with
  | nil =>
    cases h
    exact ⟨trivial, by simp, by simp, id, id⟩
  | cons body rest ih =>
    simp only [scanPages, bind_eq_ok] at h
    obtain ⟨s1, hpage, hrest⟩ := h
    obtain ⟨hshape, hin, hout, hinNodup, houtNodup⟩ := scanPage_inv hpage
    obtain ⟨hshapes, hins, houts, hinsNodup, houtsNodup⟩ := ih hrest
    refine ⟨⟨hshape, hshapes⟩, ?_, ?_, hinsNodup ∘ hinNodup, houtsNodup ∘ houtNodup⟩
    · rw [hins, hin, flatMap_cons, map_append, append_assoc]
    · rw [houts, hout, flatMap_cons, map_append, append_assoc]

end

structure HeaderPage (header : TxBody) : Prop where
  coinbase : header.isCoinbase = false
  bitmap : header.validityBitmap = HEADER_BITMAP
  version : header.firstOutput.slotIndex = NATIVE_SPEND_VERSION
  chain : header.firstOutput.owner ≠ 0
  code : header.firstOutput.amount < 2 ^ 16

/-- An accepted group. -/
structure NativeGroup (hashPages : List TxBody → Digest) (header : TxBody) (data : List TxBody)
    (facts : NativePageFacts) : Prop where
  shape : HeaderPage header
  pages : DataPages header.epochAnchor data
  count : 1 ≤ data.length ∧ data.length + 1 ≤ MAX_PAGED_SPEND_PAGES
  operation : decodeOperation header.firstOutput.amount header.secondOutput = .ok facts.operation
  inputs : ((data.flatMap TxBody.liveInputs).map TxInput.slotIndex).Nodup
  outputs : ((data.flatMap TxBody.liveOutputs).map TxOutput.slotIndex).Nodup
  apart : ∀ slot ∈ (data.flatMap TxBody.liveInputs).map TxInput.slotIndex,
    slot ∉ (data.flatMap TxBody.liveOutputs).map TxOutput.slotIndex
  liveInputs : facts.liveInputs = (data.flatMap TxBody.liveInputs).length
  liveOutputs : facts.liveOutputs = (data.flatMap TxBody.liveOutputs).length
  inputs_le : facts.liveInputs ≤ MAX_PAGED_SPEND_INPUTS
  outputs_le : facts.liveOutputs ≤ MAX_PAGED_SPEND_OUTPUTS
  inputs_pos : facts.liveInputs ≠ 0
  owner : facts.operation.requiresOwner = true ↔ header.inputOwner ≠ 0
  eq : facts =
    { chain := header.firstOutput.owner, authority := header.inputOwner, epochAnchor := header.epochAnchor
      fee := header.fee, operation := facts.operation, logicalTxid := hashPages (header :: data)
      liveInputs := facts.liveInputs, liveOutputs := facts.liveOutputs, mask := decodeMask header.inputs }

lemma validateNativePages_inv {hashPages : List TxBody → Digest} {pages : List TxBody} {facts : NativePageFacts}
    (h : validateNativePages hashPages pages = .ok facts) :
    ∃ header data, pages = header :: data ∧ NativeGroup hashPages header data facts := by
  simp only [validateNativePages, ok_rules] at h
  obtain ⟨⟨hmin, hmax⟩, header, hhead, ⟨hcoinbase, hbitmap, hversion, hchain⟩, hcode, op, hop, howner, scan, hscan,
    ⟨hne, hins, houts, hapart⟩, -, -, rfl⟩ := h
  obtain ⟨data, rfl⟩ : ∃ data, pages = header :: data := by
    cases pages with
    | nil => cases hhead
    | cons page data =>
      cases hhead
      exact ⟨data, rfl⟩
  obtain ⟨hpages, hinSlots, houtSlots, hinNodup, houtNodup⟩ := scanPages_inv hscan
  rw [nil_append] at hinSlots houtSlots
  have hinLen : scan.inputSlots.length = (data.flatMap TxBody.liveInputs).length := by
    rw [hinSlots, length_map]
    rfl
  have houtLen : scan.outputSlots.length = (data.flatMap TxBody.liveOutputs).length := by
    rw [houtSlots, length_map]
    rfl
  rw [length_cons] at hmin hmax
  refine ⟨header, data, rfl, ?_⟩
  exact {
    shape := ⟨hcoinbase, hbitmap, hversion, hchain, hcode⟩
    pages := hpages
    count := ⟨by omega, hmax⟩
    operation := hop
    inputs := hinSlots ▸ hinNodup nodup_nil
    outputs := houtSlots ▸ houtNodup nodup_nil
    apart := fun slot hin hout => hapart slot (hinSlots ▸ hin) (houtSlots ▸ hout)
    liveInputs := hinLen
    liveOutputs := houtLen
    inputs_le := hins
    outputs_le := houts
    inputs_pos := fun hzero => hne (eq_nil_of_length_eq_zero hzero)
    owner := howner
    eq := rfl }

end Noid.Tx
